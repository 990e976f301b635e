import SkynetCpp.LuaActor
import SkynetCpp.Proofs.Conservation

/-!
# Every buffer has one owner

A message that is refused or drained has its buffer freed, and so has one that finds no callback.
The others are settled if their type lets their payload through (`settled_iff`); a message that is
settled gives its buffer to one owner (`owners_of_settled`), and each message that was sent ends
once, or is pending.
-/

namespace SkynetCpp

open Lib

namespace Payload

variable {d : Payload} {msg : Value} {sz : Option Int64}

theorem Built.string_or_seri (h : d.Built) : (∃ s, d = .string s) ∨ ∃ p n, d = .seri p n := by
  have hsz : ∀ (p : UInt64) (sz : Option Int64),
      sz.map (fun sz => Payload.seri p.toNat sz.toUInt64.toNat) = some d →
        ∃ p n, d = .seri p n := by
    intro p sz hd
    obtain ⟨n, -, rfl⟩ := Option.map_eq_some_iff.1 hd
    exact ⟨_, _, rfl⟩
  obtain ⟨msg, sz, hd | hd⟩ := h
  · cases msg with
    | string s => exact .inl ⟨s, (Option.some.inj hd).symm⟩
    | nil => exact .inl ⟨[], (Option.some.inj hd).symm⟩
    | lightuserdata p => exact .inr (hsz p sz hd)
    | _ => cases hd
  · cases msg with
    | string s => exact .inl ⟨s, (Option.some.inj hd).symm⟩
    | lightuserdata p => exact .inr (hsz p sz hd)
    | _ => exact .inl ⟨[], (Option.some.inj hd).symm⟩

theorem exists_seri {p : UInt64} (hp : p ∈ d.heap) : ∃ p' n, d = .seri p' n ∧ p = .ofNat p' := by
  cases d with
  | seri p' n => exact ⟨p', n, rfl, List.mem_singleton.1 hp⟩
  | _ => cases hp

/-- A buffer has the address and the size that Lua gave. -/
theorem luaArgs_of_lsend {p : UInt64} {n : Int64} (h : lsend (.lightuserdata p) (some n) = some d ∨
    lredirect (.lightuserdata p) (some n) = some d) : d.luaArgs = (.lightuserdata p, n) := by
  have hd : d = .seri p.toNat n.toUInt64.toNat := by
    rcases h with h | h <;> exact (Option.some.inj h).symm
  rw [hd, luaArgs, UInt64.ofNat_toNat, ← UInt64.toInt64_ofNat', UInt64.ofNat_toNat,
    Int64.toInt64_toUInt64]

end Payload

namespace LuaActor

variable {a : LuaActor} {m : Message}

/-- What is registered is a function, and is called. -/
theorem onMessage_call (h : ¬ (a.L = false ∨ a.hasCallback = false)) :
    a.onMessage m = { callback := some ⟨m.type, (callbackArgs m).1, (callbackArgs m).2, m.session,
      m.source⟩ } := by
  have hcallback : a.hasCallback = true := by
    rw [not_or, Bool.not_eq_false, Bool.not_eq_false] at h
    exact h.2
  unfold onMessage
  rw [if_neg h, if_neg (not_not_intro (a.registered hcallback))]

/-- The type lets the payload through. -/
theorem callbackArgs_eq (hd : (∃ s, m.data = .string s) ∨ ∃ p n, m.data = .seri p n) :
    callbackArgs m = m.data.luaArgs ↔ m.type = PTYPE_LUA ∨ m.type = PTYPE_RESPONSE ∨
      m.type = PTYPE_MULTICAST ∨ m.type = PTYPE_DEBUG ∨
      (m.type = PTYPE_TEXT ∨ m.type = PTYPE_ERROR) ∧ (∃ s, m.data = .string s) ∨
      m.type = PTYPE_SOCKET ∧ m.data = .string (ascii "unknown") := by
  unfold callbackArgs
  rcases hd with ⟨s, hs⟩ | ⟨p, n, hs⟩ <;> rw [hs] <;> split_ifs with hplain htext hsocket
  · exact ⟨fun _ => by tauto, fun _ => rfl⟩
  · exact ⟨fun _ => by simp [htext], fun _ => rfl⟩
  · refine ⟨fun heq => ?_, fun hpass => ?_⟩
    · have hunknown : ascii "unknown" = s := Value.string.inj (Prod.mk.inj heq).1
      simp [hsocket, hunknown]
    · have hunknown : Payload.string s = .string (ascii "unknown") := by tauto
      rw [hunknown]
      rfl
  · simp [hsocket, hplain, htext, Payload.luaArgs]
  · exact ⟨fun _ => by tauto, fun _ => rfl⟩
  -- a buffer is not a string, and no other type lets it through
  all_goals
    simp only [Payload.luaArgs, Prod.mk.injEq, reduceCtorEq, false_and, exists_false, and_false,
      or_false, false_iff]
    tauto

end LuaActor

namespace Message

variable {m : Message} {e : Ending}

/-- Without a callback the buffer is freed. -/
theorem outcome_cases (m : Message) (e : Ending) :
    e.outcome m = { freed := m.data.heap } ∧ m.Passes e ∨
      ∃ a, e = .delivered a ∧ ¬ (a.L = false ∨ a.hasCallback = false) ∧
        e.outcome m = { callback := some ⟨m.type, (LuaActor.callbackArgs m).1,
          (LuaActor.callbackArgs m).2, m.session, m.source⟩ } := by
  cases e with
  | refused | drained => exact .inl ⟨rfl, trivial⟩
  | delivered a =>
    by_cases hidle : a.L = false ∨ a.hasCallback = false
    · exact .inl ⟨if_pos hidle, hidle.elim .inl (.inr ∘ .inl)⟩
    · exact .inr ⟨a, rfl, hidle, LuaActor.onMessage_call hidle⟩

/-- A message from Lua is settled just where its type lets the payload through. -/
theorem settled_iff (hd : m.data.Built) : m.Settled e ↔ m.Passes e := by
  rcases outcome_cases m e with ⟨hout, hpasses⟩ | ⟨a, rfl, hcalled, hout⟩ <;> unfold Settled <;>
    rw [hout]
  · exact ⟨fun _ => hpasses, fun _ => rfl⟩
  · change LuaActor.callbackArgs m = m.data.luaArgs ∧ [] = [] ↔ _
    rw [LuaActor.callbackArgs_eq hd.string_or_seri]
    unfold Passes
    tauto

/-- No buffer is given to the callback but that of the message. -/
theorem callbackArgs_heap {p : UInt64} (h : (LuaActor.callbackArgs m).1 = .lightuserdata p) :
    m.data.heap = [p] := by
  unfold LuaActor.callbackArgs at h
  split_ifs at h
  · cases hd : m.data with
    | seri p' n =>
      rw [hd] at h
      rw [← Value.lightuserdata.inj h]
      rfl
    | _ =>
      rw [hd] at h
      cases h
  · cases hd : m.data <;> rw [hd] at h <;> cases h

/-- A buffer has one owner, if its message is settled; a message without it gives it none. -/
theorem owners_of_settled {p : UInt64} (h : p ∈ m.data.heap → m.Settled e) :
    m.owners e p = m.data.heap.count p := by
  rcases outcome_cases m e with ⟨hout, -⟩ | ⟨a, -, -, hout⟩
  · unfold owners
    rw [hout]
    rfl
  · unfold owners
    rw [hout]
    simp only [List.count_nil, Option.map_some, Nat.zero_add]
    by_cases hp : p ∈ m.data.heap
    · have hsettled := h hp
      unfold Settled at hsettled
      rw [hout] at hsettled
      have hargs : LuaActor.callbackArgs m = m.data.luaArgs := hsettled.1
      obtain ⟨p', n, hd, rfl⟩ := Payload.exists_seri hp
      rw [hargs, hd]
      simp [Payload.luaArgs, Payload.heap]
    · rw [List.count_eq_zero_of_not_mem hp]
      cases harg : (LuaActor.callbackArgs m).1 with
      | lightuserdata p' =>
        refine if_neg ?_
        rintro rfl
        exact hp (by rw [callbackArgs_heap harg]; exact List.mem_singleton_self _)
      | _ => rfl

end Message

theorem countP_carries (os : List Op) (m : Message) :
    os.countP (Op.carries m) = (os.filterMap Op.carried).count m := by
  rw [List.count_filterMap]
  refine List.countP_congr fun o _ => ?_
  cases o <;> simp [Op.carries, Op.carried]

section Owned

variable {n k : ℕ} {s : State} {q : QId} {as : List LuaActor}

/-- Each message that was sent is pending, or has ended once. -/
theorem sent_perm (h : Reachable State.step (State.init n k) s) (hq : q < s.spawned)
    (has : as.length = (s.queues q).handed.length) :
    (s.sent q).Perm (s.pending q ++ (s.endings q as).map Prod.fst) := by
  have hledger := (ledger_inductive.of_reachable h hq).messages
  have hhanded : (((s.queues q).handed.zip as).map fun d => (d.1, Ending.delivered d.2)).map
      Prod.fst = (s.queues q).handed := by
    rw [List.map_map]
    exact List.map_fst_zip (Nat.le_of_eq has.symm)
  rw [List.perm_iff_count]
  intro m
  unfold State.sent State.pending State.endings
  rw [List.map_append, List.map_append, hhanded]
  simp only [List.map_map, List.count_append]
  have hm := hledger m
  rw [Counts.of_apply, countP_carries] at hm
  simp only [Function.comp_def, List.map_id']
  omega

/-- In every state, the messages from Lua that have ended are settled and every buffer has one
owner, or is pending, if and only if every type lets its payload through. -/
theorem owned_iff (h : Reachable State.step (State.init n k) s) (hq : q < s.spawned)
    (has : as.length = (s.queues q).handed.length) :
    s.Owned q as ↔ ∀ d ∈ s.endings q as, d.1.data.Built → d.1.Passes d.2 := by
  refine ⟨fun ⟨hsettled, _⟩ d hd hbuilt => (Message.settled_iff hbuilt).1 (hsettled d hd hbuilt),
    fun hpasses => ?_⟩
  have hsettled : ∀ d ∈ s.endings q as, d.1.data.Built → d.1.Settled d.2 :=
    fun d hd hbuilt => (Message.settled_iff hbuilt).2 (hpasses d hd hbuilt)
  refine ⟨hsettled, fun p hbuilt => ?_⟩
  have hperm := sent_perm h hq has
  have howners : (s.endings q as).map (fun d => d.1.owners d.2 p)
      = (s.endings q as).map fun d => d.1.data.heap.count p := by
    refine List.map_congr_left fun d hd => Message.owners_of_settled fun hp => ?_
    refine hsettled d hd (hbuilt d.1 ?_ hp)
    exact hperm.symm.subset (List.mem_append_right _ (List.mem_map_of_mem hd))
  rw [howners, (hperm.flatMap_right fun m => m.data.heap).count_eq, List.flatMap_append,
    List.count_append, List.flatMap_map, List.count_flatMap, List.count_flatMap]
  rfl

end Owned

/-- A heap buffer. -/
def bufferMessage (type : ℤ) : Message := { source := 7, type, data := .seri 64 8 }

/-- It is sent to the first actor, and handed over. -/
def deliverRun (type : ℤ) : List State.Label :=
  spawnSend 1 (bufferMessage type) ++
    [(0, .pick 0), (0, .go), (0, .go), (0, .go), (0, .go), (0, .go), (0, .go), (0, .go), (0, .go),
      (0, .go), (0, .pick 0), (0, .go), (0, .go)]

theorem not_registered (h : false = true) :
    (none : Option CallbackRef) = some CallbackRef.function := by
  cases h

/-- An actor whose code has registered a callback. -/
def callbackActor : LuaActor := LuaActor.lcallback { registered := not_registered }

theorem owned_deliverRun :
    (after State.step (State.init 1 2) (deliverRun PTYPE_LUA)).Owned 0 [callbackActor] := by
  have hreach : Reachable State.step (State.init 1 2)
      (after State.step (State.init 1 2) (deliverRun PTYPE_LUA)) :=
    reachable_after rfl
  have hendings : (after State.step (State.init 1 2) (deliverRun PTYPE_LUA)).endings 0
      [callbackActor] = [(bufferMessage PTYPE_LUA, .delivered callbackActor)] :=
    rfl
  refine (owned_iff hreach (by decide) rfl).2 fun d hd _ => ?_
  rw [hendings] at hd
  rw [List.mem_singleton.1 hd]
  exact .inr (.inr (.inl rfl))

/-- A buffer that is sent as a text is dropped. -/
theorem dropped_text : ∃ s as, Reachable State.step (State.init 1 2) s ∧
    as.length = (s.queues 0).handed.length ∧ ¬ s.Owned 0 as := by
  refine ⟨after State.step (State.init 1 2) (deliverRun PTYPE_TEXT), [callbackActor],
    reachable_after rfl, rfl, fun ⟨hsettled, _⟩ => ?_⟩
  have hendings : (after State.step (State.init 1 2) (deliverRun PTYPE_TEXT)).endings 0
      [callbackActor] = [(bufferMessage PTYPE_TEXT, .delivered callbackActor)] :=
    rfl
  have hbuilt : (bufferMessage PTYPE_TEXT).data.Built := ⟨.lightuserdata 64, some 8, .inl rfl⟩
  have hd := hsettled (bufferMessage PTYPE_TEXT, .delivered callbackActor)
    (hendings ▸ List.mem_singleton_self _) hbuilt
  exact nomatch (Prod.mk.inj hd.1).1

end SkynetCpp
