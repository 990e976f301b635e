import SkynetCpp.Proofs.LuaPack
import SkynetCpp.Proofs.LuaUnpack
import SkynetCpp.SeriMemory

/-!
# What an error leaves allocated

An error leaves the blocks behind that were allocated, which are none as long as no more than one
block's bytes are written (`blocks_eq_zero`), and the buffer that is unpacked.
-/

namespace SkynetCpp

namespace SeriMemory

open Lib LuaSeri

section Blocks

/-- All blocks but the current one are full, and that is not empty once there are others. -/
structure Tight (wb : WriteBlock) : Prop where
  full : ∀ b ∈ wb.full, b.length = BLOCK_SIZE
  current : wb.full ≠ [] → wb.current ≠ []

variable {wb : WriteBlock} {data : Bytes}

theorem Tight.extend_full (h : Tight wb) : ∀ b ∈ wb.extend.full, b.length = BLOCK_SIZE := by
  have hfits := wb.fits
  unfold WriteBlock.extend
  split_ifs with hroom
  · intro b hb
    rcases List.mem_append.1 hb with hb | hb
    · exact h.full b hb
    · rw [List.mem_singleton.1 hb]
      omega
  · exact h.full

theorem Tight.pushLoop (h : Tight wb) (n : ℕ) (data : Bytes) : Tight (wb.pushLoop n data) := by
  induction n generalizing wb data with
  | zero => exact h
  | succ n ih =>
    unfold WriteBlock.pushLoop
    split_ifs with hdata
    · exact h
    · have hroom := room_extend wb
      refine ih ?_ _
      refine ⟨h.extend_full, fun _ hnil => ?_⟩
      have hlen := congrArg List.length hnil
      simp only [List.length_append, List.length_take, List.length_nil] at hlen
      omega

theorem Tight.push (h : Tight wb) (data : Bytes) : Tight (wb.push data) := h.pushLoop _ data

theorem Tight.pushes (h : Tight wb) (pushes : List Bytes) :
    Tight (pushes.foldl WriteBlock.push wb) := by
  induction pushes generalizing wb with
  | nil => exact h
  | cons data pushes ih => exact ih (h.push data)

theorem length_flatten_full {bs : List Bytes} (h : ∀ b ∈ bs, b.length = BLOCK_SIZE) :
    bs.flatten.length = BLOCK_SIZE * bs.length := by
  induction bs with
  | nil => rfl
  | cons b bs ih =>
    obtain ⟨hb, hbs⟩ := List.forall_mem_cons.1 h
    rw [List.flatten_cons, List.length_append, ih hbs, hb, List.length_cons, Nat.mul_succ,
      Nat.add_comm]

/-- A block is allocated when more than the first one is written. -/
theorem blocks_eq_zero (h : Tight wb) :
    wb.full.length = 0 ↔ (LuaSeri.seri wb).length ≤ BLOCK_SIZE := by
  have hlen := length_flatten_full h.full
  have hfits := wb.fits
  simp only [LuaSeri.seri, List.flatten_append, List.flatten_cons, List.flatten_nil,
    List.append_nil, List.length_append, hlen]
  constructor
  · intro hzero
    rw [hzero]
    omega
  · intro hle
    by_contra hne
    have hcurrent : 0 < wb.current.length := by
      refine List.length_pos_iff.2 (h.current fun hnil => ?_)
      rw [hnil] at hne
      exact hne rfl
    have hmul : BLOCK_SIZE * 1 ≤ BLOCK_SIZE * wb.full.length := Nat.mul_le_mul_left _ (by omega)
    omega

end Blocks

section Pack

open LuaPack

variable {heap : Heap} {memory : ℕ → Bool} {values : List Ref} {ops : List LuaPack.Op}
  {s s' : LuaPack.State} {e : String}

/-- A script is played to its end if nothing raises an error. -/
theorem play_completes (ops : List LuaPack.Op) (s : LuaPack.State) :
    (∃ s', play LuaPack.Op.act ops s = .ok () s') ↔ completes s.memory s.requests ops = true := by
  induction ops generalizing s with
  | nil => exact iff_of_true ⟨s, rfl⟩ rfl
  | cons op ops ih =>
    cases op with
    | push pushes =>
      rw [play_cons_ok (act_push pushes s)]
      exact ih _
    | request message =>
      rcases hmem : s.memory s.requests with _ | _
      · rw [play_cons_error (act_request_not hmem), completes, hmem]
        exact iff_of_false (fun ⟨_, hok⟩ => by cases hok) Bool.false_ne_true
      · rw [play_cons_ok (act_request hmem), completes, hmem]
        exact ih _
    | throw message =>
      rw [play_cons_error (act_throw message s)]
      exact iff_of_false (fun ⟨_, hok⟩ => by cases hok) Bool.false_ne_true

theorem play_written (ops : List LuaPack.Op) (s : LuaPack.State) :
    LuaSeri.seri (finalState (play LuaPack.Op.act ops s)).wb
      = LuaSeri.seri s.wb ++ written s.memory s.requests ops := by
  induction ops generalizing s with
  | nil => exact (List.append_nil _).symm
  | cons op ops ih =>
    cases op with
    | push pushes =>
      rw [play_cons_ok (act_push pushes s), ih, seri_foldl_push, List.append_assoc]
      rfl
    | request message =>
      rcases hmem : s.memory s.requests with _ | _
      · rw [play_cons_error (act_request_not hmem), written, hmem]
        exact (List.append_nil _).symm
      · rw [play_cons_ok (act_request hmem), ih, written, if_pos hmem]
    | throw message => exact (List.append_nil _).symm

theorem act_tight (op : LuaPack.Op) (s : LuaPack.State) (h : Tight s.wb ∧ s.buffer = none) :
    Tight (finalState (op.act s)).wb ∧ (finalState (op.act s)).buffer = none := by
  cases op with
  | push pushes => exact ⟨h.1.pushes pushes, h.2⟩
  | request message =>
    rcases hmem : s.memory s.requests with _ | _
    · rw [act_request_not hmem]
      exact h
    · rw [act_request hmem]
      exact h
  | throw message => exact h

theorem tight_empty : Tight {} where
  full _ hb := absurd hb List.not_mem_nil
  current h := absurd rfl h

/-- The call is the script, and what is done with its result. -/
theorem luaseriPack_visitAll (heap : Heap) (memory : ℕ → Bool) (values : List Ref) :
    match play LuaPack.Op.act (visitAll heap values) { heap, memory } with
    | .error _ s => ∃ e, luaseriPack values { heap, memory } = .error e s
    | .ok _ s => ∃ bytes, luaseriPack values { heap, memory }
        = .ok bytes { s with wb := {}, buffer := some bytes } := by
  rcases luaseriPack_cases heap memory values with ⟨e, s, hplay, hr⟩ | ⟨s, hplay, hr⟩
  · have hall : play LuaPack.Op.act (visitAll heap values) { heap, memory } = .error e s :=
      play_append_error hplay
    rw [hall]
    exact ⟨e, hr⟩
  · have hall : play LuaPack.Op.act (visitAll heap values) { heap, memory }
        = play LuaPack.Op.act [.request "serialize: out of memory"] s := play_append_ok hplay
    rw [hall]
    split_ifs at hr with hmem
    · rw [play_cons_ok (act_request hmem)]
      exact ⟨_, hr⟩
    · rw [play_cons_error (act_request_not (Bool.eq_false_of_not_eq_true hmem))]
      exact hr

theorem balanced_pack : Balanced memory (.pack heap values) ↔ Fine memory (.pack heap values) := by
  have hcall := luaseriPack_visitAll heap memory values
  have hcompletes := play_completes (visitAll heap values) { heap, memory }
  have hwritten := play_written (visitAll heap values) { heap, memory }
  obtain ⟨htight, hbuffer⟩ := play_keeps act_tight
    (s := { heap, memory }) ⟨tight_empty, rfl⟩ (visitAll heap values)
  unfold Balanced Fine
  rcases hplay : play LuaPack.Op.act (visitAll heap values) { heap, memory } with ⟨⟨⟩, s⟩ | ⟨e, s⟩
  · rw [hplay] at hcall hcompletes
    obtain ⟨bytes, hr⟩ := hcall
    simp only [hr]
    exact iff_of_true ⟨rfl, trivial⟩ (.inl (hcompletes.1 ⟨s, rfl⟩))
  · rw [hplay] at hcall hcompletes hwritten htight hbuffer
    obtain ⟨e, hr⟩ := hcall
    simp only [hr]
    have hnot : ¬ completes memory 0 (visitAll heap values) = true := fun h => by
      obtain ⟨s', hok⟩ := hcompletes.2 h
      cases hok
    rw [or_iff_right hnot]
    have hblocks := blocks_eq_zero htight
    rw [hwritten] at hblocks
    exact (and_iff_left hbuffer).trans hblocks

end Pack

section Unpack

open LuaUnpack

variable {memory : ℕ → Bool} {nargs : ℕ} {buffer : Bytes} {ts : List Tree}

theorem ready_next {s : LuaUnpack.State} (hs : Ready s) (t : Tree) (v : Value) :
    Ready (s.went (v :: s.stack) t.slots t.height t.asks) :=
  hs.went (Nat.add_le_add_left t.one_le_slots _)

/-- With all memory there, the loop ends if no key is bad. -/
theorem loop_done (h : ∀ t ∈ ts, t.stops = false) (count : ℕ) {s : LuaUnpack.State} (hs : Ready s)
    (hcount : s.stack.length = count) :
    ∃ s', play LuaUnpack.Op.act (loopScript count ts) s = .ok () s' ∧
      s'.requests = s.requests + asksFrom count ts := by
  induction ts generalizing count s with
  | nil => exact ⟨s, rfl, rfl⟩
  | cons t ts ih =>
    obtain ⟨hstops, hrest⟩ := List.forall_mem_cons.1 h
    have ht := Tree.does t (hs.checked count)
    rw [hstops] at ht
    obtain ⟨stack, ⟨v, -, rfl⟩, hplay⟩ := ht
    obtain ⟨s', hplay', hrequests⟩ := ih hrest (count + 1) (ready_next (hs.checked count) t v)
      (congrArg (· + 1) hcount)
    rw [loopScript, play_checked hs hcount, play_append_ok hplay]
    refine ⟨s', hplay', hrequests.trans ?_⟩
    simp only [LuaUnpack.State.went, LuaUnpack.State.checked, asksFrom]
    omega

/-- It raises an error at the first bad key. -/
theorem loop_stops (h : ∃ t ∈ ts, t.stops = true) (count : ℕ) {s : LuaUnpack.State} (hs : Ready s)
    (hcount : s.stack.length = count) :
    ∃ e s', play LuaUnpack.Op.act (loopScript count ts) s = .error e s' := by
  induction ts generalizing count s with
  | nil =>
    obtain ⟨t, ht, -⟩ := h
    cases ht
  | cons t ts ih =>
    have ht := Tree.does t (hs.checked count)
    rw [loopScript, play_checked hs hcount]
    rcases hstops : t.stops with _ | _
    · rw [hstops] at ht
      obtain ⟨stack, ⟨v, -, rfl⟩, hplay⟩ := ht
      have hrest : ∃ t ∈ ts, t.stops = true := by
        obtain ⟨t', ht', hstops'⟩ := h
        rcases List.mem_cons.1 ht' with rfl | ht'
        · exact absurd (hstops.symm.trans hstops') Bool.false_ne_true
        · exact ⟨t', ht', hstops'⟩
      rw [play_append_ok hplay]
      exact ih hrest (count + 1) (ready_next (hs.checked count) t v) (congrArg (· + 1) hcount)
    · rw [hstops] at ht
      obtain ⟨e, s', hplay, -⟩ := ht
      exact ⟨e, s', play_append_error hplay⟩

/-- The buffer is freed when the loop ends. -/
theorem freed_iff {rb : Bytes} (hblock : (Source.buffer buffer).block = some rb) :
    (finalState (unpackImpl true (.buffer buffer) (.called nargs memory))).freed = 1 ↔
      ∃ s, play LuaUnpack.Op.act (loopScript 0 (trees rb.length rb)) (.cleared nargs memory)
        = .ok () s := by
  have hnoted := play_noted (loopScript 0 (trees rb.length rb)) (.cleared nargs memory)
  rcases hplay : play LuaUnpack.Op.act (loopScript 0 (trees rb.length rb))
      (.cleared nargs memory) with ⟨⟨⟩, s⟩ | ⟨e, s⟩
  · rw [hplay] at hnoted
    rw [unpackImpl_ok hblock hplay]
    exact iff_of_true (congrArg (· + 1) hnoted.freed) ⟨s, rfl⟩
  · rw [hplay] at hnoted
    rw [unpackImpl_error hblock hplay]
    have hfreed : s.freed = 0 := hnoted.freed
    exact iff_of_false (fun hone => by cases hfreed.symm.trans hone) fun ⟨s, hok⟩ => by cases hok

theorem balanced_unpacktrash :
    Balanced memory (.unpacktrash nargs buffer) ↔ Fine memory (.unpacktrash nargs buffer) := by
  rcases hblock : (Source.buffer buffer).block with _ | rb
  · have hr : unpackImpl true (.buffer buffer) (.called nargs memory)
        = .error "undefined" (.called nargs memory) := by
      unfold unpackImpl
      rw [hblock]
      rfl
    refine iff_of_false (fun h => ?_) fun ⟨rb, hsome, _⟩ => by cases hblock.symm.trans hsome
    change (finalState (unpackImpl _ _ _)).freed = 1 at h
    rw [hr] at h
    cases h
  · refine (freed_iff hblock).trans (Iff.trans ?_
      (⟨fun h => ⟨rb, hblock, h⟩, fun ⟨rb', hsome, h⟩ => ?_⟩ :
        ((∀ t ∈ trees rb.length rb, t.stops = false) ∧
          ∀ n < asksFrom 0 (trees rb.length rb), memory n = true) ↔ _))
    · by_cases hall : ∀ t ∈ trees rb.length rb, t.stops = false
      · obtain ⟨s, hplay, hrequests⟩ := loop_done hall 0 (ready_cleared nargs) rfl
        have hasks : s.requests = asksFrom 0 (trees rb.length rb) :=
          hrequests.trans (Nat.zero_add _)
        rw [(play_met (s := LuaUnpack.State.cleared nargs memory) hplay).2, hasks]
        exact ⟨fun h => ⟨hall, fun n hn => h n (Nat.zero_le n) hn⟩, fun h n _ hn => h.2 n hn⟩
      · refine iff_of_false (fun ⟨s', hok⟩ => ?_) fun h => hall h.1
        have hstops : ∃ t ∈ trees rb.length rb, t.stops = true := by
          simpa using hall
        obtain ⟨e, s, hplay⟩ := loop_stops hstops 0 (ready_cleared nargs) rfl
        obtain ⟨e, s, herror⟩ := play_raises (s := LuaUnpack.State.cleared nargs memory) hplay
        cases herror.symm.trans hok
    · obtain rfl : rb = rb' := Option.some.inj (hblock.symm.trans hsome)
      exact h

end Unpack

end SeriMemory

end SkynetCpp
