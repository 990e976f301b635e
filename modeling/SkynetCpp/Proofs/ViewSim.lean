import Mathlib.Algebra.Order.Group.Multiset
import SkynetCpp.Lib.Totals
import SkynetCpp.Proofs.Schedule

/-!
# A queue of the system is a queue on its own

Every step of the system is, for each queue, a step of its `View` or nothing. What holds of every
view that can be reached therefore holds of every queue in every reachable state of the system:
`view_reaches` carries it over, also for the runs whose steps on the queue meet a condition.

The one thing to know about the system for this is what the registry may hold (`Registered`):
`kill` finds a queue there only if no `kill` has before.
-/

namespace SkynetCpp

open Lib

def State.view (s : State) (q : QId) : View :=
  ⟨s.queues q, (s.opsOn q : Multiset Op), s.globalQueue.count q⟩

@[simp] theorem view_num (s : State) (q : QId) : (s.view q).num = .of (s.opsOn q) := by
  funext p
  simp [View.num, countsOf, State.view, Counts.of, Multiset.coe_countP]

/-- The points among the frames `fs` that are on queue `q`. -/
def opsIn (q : QId) (fs : List Frame) : Multiset Op := (fs.filterMap (Frame.opOn q) : List Op)

section Frames

variable {q q' : QId}

@[simp] theorem opsIn_nil : opsIn q [] = 0 := rfl

theorem opsIn_append (fs gs : List Frame) : opsIn q (fs ++ gs) = opsIn q fs + opsIn q gs := by
  simp [opsIn, List.filterMap_append]

theorem opsIn_cons_op (o : Op) (fs : List Frame) :
    opsIn q (.op q o :: fs) = o ::ₘ opsIn q fs := by
  simp [opsIn, Frame.opOn]

theorem opsIn_cons_other {f : Frame} (hf : f.opOn q = none) (fs : List Frame) :
    opsIn q (f :: fs) = opsIn q fs := by
  simp [opsIn, hf]

theorem opsIn_cons_op_other (hq : q' ≠ q) (o : Op) (fs : List Frame) :
    opsIn q (.op q' o :: fs) = opsIn q fs :=
  opsIn_cons_other (by simp [Frame.opOn, hq]) fs

theorem opsIn_calls (cs : List Call) : opsIn q (cs.map .call) = 0 := by
  induction cs with
  | nil => rfl
  | cons c cs ih => rw [List.map_cons, opsIn_cons_other rfl, ih]

theorem opsIn_map_op (os : List Op) : opsIn q (os.map (.op q)) = (os : Multiset Op) := by
  induction os with
  | nil => rfl
  | cons o os ih => rw [List.map_cons, opsIn_cons_op, ih]; rfl

theorem opsIn_map_other (hq : q' ≠ q) (os : List Op) : opsIn q (os.map (.op q')) = 0 := by
  induction os with
  | nil => rfl
  | cons o os ih => rw [List.map_cons, opsIn_cons_op_other hq, ih]

end Frames

variable {s s' : State} {l : State.Label}

/-- A step replaces the top frame of one thread. -/
theorem step_frames (h : s.step l = some s') :
    ∃ f rest r, s.threads[l.1]? = some (f :: rest) ∧ s.exec l.1 f l.2 = some r ∧
      s' = { r.1 with threads := s.threads.set l.1 (r.2 ++ rest) } ∧
      ∀ q, ∃ R : Multiset Op, (s.opsOn q : Multiset Op) = opsIn q [f] + R ∧
        (s'.opsOn q : Multiset Op) = opsIn q r.2 + R := by
  unfold State.step at h
  split at h
  · next f rest ht =>
    obtain ⟨r, hr, rfl⟩ := Option.map_eq_some_iff.1 h
    obtain ⟨pre, post, h1, h2⟩ := frames_set ht
    refine ⟨f, rest, r, ht, hr, rfl, fun q => ⟨opsIn q pre + opsIn q post, ?_, ?_⟩⟩
    · change opsIn q (frames s.threads) = _
      rw [h1, opsIn_append, ← List.singleton_append, opsIn_append, add_left_comm]
    · change opsIn q (frames (s.threads.set l.1 (r.2 ++ rest))) = _
      rw [h2 r.2, opsIn_append, opsIn_append, add_comm (opsIn q pre), add_assoc]
  · cases h

/-- The registry holds queues that no `kill` has taken out, under their handles, and those that
`spawn` has made and registered only. -/
structure Registered (s : State) : Prop where
  spawned : ∀ {h q}, s.registry h = some q → q < s.spawned
  handle : ∀ {h q}, s.registry h = some q → (s.queues q).handle = h
  alive : ∀ {h q}, s.registry h = some q → (s.queues q).killed = false
  once : ∀ {h q}, s.registry h = some q → Op.spawnRegister ∉ s.opsOn q
  before : ∀ {q}, Op.spawnRegister ∈ s.opsOn q → (s.queues q).killed = false
  unused : ∀ {q}, s.spawned ≤ q → s.opsOn q = [] ∧ q ∉ s.globalQueue

/-- A queue that an access leaves alone. -/
theorem applyShared_queues (s : State) (q : QId) (sh : Shared) :
    (s.applyShared q sh).queues = s.queues := by
  cases sh <;> simp only [State.applyShared]
  split_ifs <;> rfl

theorem applyShared_spawned (s : State) (q : QId) (sh : Shared) :
    (s.applyShared q sh).spawned = s.spawned := by
  cases sh <;> simp only [State.applyShared]
  split_ifs <;> rfl

theorem applyShared_count (s : State) (q q' : QId) (sh : Shared) :
    (s.applyShared q sh).globalQueue.count q'
      = s.globalQueue.count q' + if q = q' then sh.tokens else 0 := by
  cases sh <;> simp only [State.applyShared, Shared.tokens, ite_self, add_zero]
  · by_cases hq : q = q' <;> simp [hq]
  · split_ifs <;> rfl

theorem execCall_view {f : Call} {q : QId} (R : Multiset Op) (hreg : Registered s)
    (hq : q < s.spawned) :
    let v : View := ⟨s.queues q, opsIn q [.call f] + R, s.globalQueue.count q⟩
    let v' : View := ⟨(s.execCall f).1.queues q, opsIn q (s.execCall f).2 + R,
      (s.execCall f).1.globalQueue.count q⟩
    v' = v ∨ ∃ k, v.step k = some v' ∧
      ∀ P : ActorQueue → Counts → Op → Prop,
        (∀ o, Frame.call f = .op q o → P v.queue v.num o) → v.Meets P k := by
  intro v v'
  have hv : v = ⟨s.queues q, R, s.globalQueue.count q⟩ := by
    simp [v, opsIn_cons_other (f := Frame.call f) rfl]
  cases f with
  | send dest m =>
    simp only [v', State.execCall, hv]
    cases hd : s.registry dest with
    | none =>
      left
      simp only [sendErrors, opsIn_calls, zero_add]
    | some q₀ =>
      by_cases hqq : q₀ = q
      · subst hqq
        refine .inr ⟨.push m, ?_, fun _ _ => trivial⟩
        simp [View.step, opsIn_cons_op]
      · left
        simp [opsIn_cons_op_other hqq]
  | kill h₀ =>
    simp only [v', State.execCall, hv]
    cases hd : s.registry h₀ with
    | none =>
      left
      simp
    | some q₀ =>
      by_cases hqq : q₀ = q
      · subst hqq
        refine .inr ⟨.kill, ?_, fun _ _ => trivial⟩
        simp [View.step, hreg.alive hd, opsIn_cons_other (f := Frame.killLogger h₀) rfl,
          opsIn_cons_op]
      · left
        simp [opsIn_cons_other (f := Frame.killLogger h₀) rfl,
          opsIn_cons_op_other hqq,
          Function.update_of_ne (Ne.symm hqq)]
  | spawn =>
    left
    have hqq : s.spawned ≠ q := hq.ne'
    simp only [v', State.execCall, hv, Function.update_of_ne (Ne.symm hqq),
      opsIn_cons_op_other hqq,
      opsIn_nil, zero_add]
  | error source text =>
    left
    simp only [v', State.execCall, hv]
    split_ifs <;> simp [opsIn_cons_other (f := Frame.errorFind _ _) rfl,
      opsIn_cons_other (f := Frame.call _) rfl]
  | registerName name h₀ =>
    left
    simp [v', State.execCall, hv]

theorem applyShared_registry (s : State) {q q' : QId} {sh : Shared} {h : Handle}
    (hsh : sh ≠ .register) (hr : (s.applyShared q sh).registry h = some q') : s.registry h = some q' := by
  cases sh <;> simp only [State.applyShared] at hr
  · exact hr
  · exact hr
  · exact absurd rfl hsh
  · split_ifs at hr
    · simp only [Function.update_apply] at hr
      split_ifs at hr
      exact hr
    · exact hr

/-- What the exec of one frame does to the view of queue `q`, the other frames on it being `R`. -/
theorem exec_view {tid : ℕ} {f : Frame} {c : Choice} {r : State × List Frame} {q : QId}
    (R : Multiset Op) (hreg : Registered s) (hq : q < s.spawned) (h : s.exec tid f c = some r) :
    let v : View := ⟨s.queues q, opsIn q [f] + R, s.globalQueue.count q⟩
    let v' : View := ⟨r.1.queues q, opsIn q r.2 + R, r.1.globalQueue.count q⟩
    v' = v ∨ ∃ k, v.step k = some v' ∧
      ∀ P : ActorQueue → Counts → Op → Prop,
        (∀ o, f = .op q o → P v.queue v.num o) → v.Meets P k := by
  intro v v'
  cases f with
  | worker =>
    cases c <;> simp only [State.exec, reduceCtorEq] at h
    obtain ⟨q₀, hq₀, rfl⟩ := Option.map_eq_some_iff.1 h
    have hc := count_eraseIdx hq₀ q
    by_cases hqq : q₀ = q
    · subst hqq
      rw [if_pos rfl] at hc
      refine .inr ⟨.take, ?_, fun _ _ => trivial⟩
      simp only [v, v', View.step, ← hc, opsIn_cons_op, opsIn_cons_other (f := .worker) rfl,
        opsIn_nil, zero_add, Multiset.cons_add]
    · rw [if_neg hqq, Nat.add_zero] at hc
      left
      simp only [v, v', hc, opsIn_cons_op_other hqq, opsIn_cons_other (f := .worker) rfl]
  | external =>
    cases c <;> simp only [State.exec, reduceCtorEq, Option.some.injEq] at h
    subst h
    exact .inl rfl
  | call f =>
    cases c <;> simp only [State.exec, reduceCtorEq, Option.some.injEq] at h
    subst h
    exact execCall_view R hreg hq
  | op q₀ o =>
    simp only [State.exec] at h
    obtain ⟨x, hx, rfl⟩ := Option.map_eq_some_iff.1 h
    by_cases hqq : q₀ = q
    · subst hqq
      refine .inr ⟨.op o tid (calcWeight s.workerCount tid) c, ?_, fun P hP => hP o rfl⟩
      simp only [v, v', View.step, opsIn_cons_op, opsIn_nil, hx, opsIn_append, opsIn_calls,
        opsIn_map_op, applyShared_queues, applyShared_count, Function.update_self]
      simp
    · left
      simp only [v, v', applyShared_queues, applyShared_count, opsIn_append, opsIn_calls,
        opsIn_map_other hqq, Function.update_of_ne (Ne.symm hqq), if_neg hqq,
        opsIn_cons_op_other hqq, opsIn_nil, zero_add, add_zero]
  | killLogger h₀ =>
    cases c <;> simp only [State.exec, reduceCtorEq, Option.some.injEq] at h
    subst h
    left
    simp only [v, v']
    split_ifs <;> rfl
  | killLoggerCas h₀ =>
    cases c <;> simp only [State.exec, reduceCtorEq, Option.some.injEq] at h
    subst h
    exact .inl rfl
  | errorFind source text =>
    cases c <;> simp only [State.exec, reduceCtorEq, Option.some.injEq] at h
    subst h
    left
    simp only [v, v']
    split_ifs <;> rfl
  | errorStore source text h₀ =>
    cases c <;> simp only [State.exec, reduceCtorEq, Option.some.injEq] at h
    subst h
    exact .inl rfl

theorem mem_opsOn {q : QId} {o : Op} : o ∈ s.opsOn q ↔ o ∈ (s.opsOn q : Multiset Op) :=
  Multiset.mem_coe.symm

theorem mem_opsOn_top {b : QId} {t : ℕ} {o : Op} {rest : List Frame}
    (ht : s.threads[t]? = some (.op b o :: rest)) : o ∈ s.opsOn b := by
  rw [State.opsOn, List.mem_filterMap]
  exact ⟨.op b o, List.mem_flatten.2 ⟨_, List.mem_of_getElem? ht, List.mem_cons_self⟩,
    by simp [Frame.opOn]⟩

theorem countP_opsOn (q : QId) (p : Op → Bool) :
    (s.opsOn q).countP p = (s.opsOn q : Multiset Op).countP (p · = true) := by
  simp [Multiset.coe_countP]

/-- A step that neither registers nor kills nor makes a queue. -/
theorem Registered.keep (hreg : Registered s) (hsp : s'.spawned = s.spawned)
    (hr : ∀ h q, s'.registry h = some q → s.registry h = some q)
    (hk : ∀ q, (s'.queues q).handle = (s.queues q).handle
      ∧ (s'.queues q).killed = (s.queues q).killed)
    (hops : ∀ q, ∀ o ∈ s'.opsOn q, o ∈ s.opsOn q ∨ o ≠ .spawnRegister ∧ q < s.spawned)
    (hg : ∀ q ∈ s'.globalQueue, q ∈ s.globalQueue ∨ q < s.spawned) : Registered s' where
  spawned h := hsp ▸ hreg.spawned (hr _ _ h)
  handle h := (hk _).1 ▸ hreg.handle (hr _ _ h)
  alive h := (hk _).2 ▸ hreg.alive (hr _ _ h)
  once h hm := (hops _ _ hm).elim (hreg.once (hr _ _ h)) fun h' => h'.1 rfl
  before hm := (hk _).2 ▸ (hops _ _ hm).elim hreg.before fun h' => absurd rfl h'.1
  unused {q} hq := by
    have hq' : ¬ q < s.spawned := by omega
    obtain ⟨ho, hn⟩ := hreg.unused (not_lt.1 hq')
    refine ⟨List.eq_nil_iff_forall_not_mem.2 fun o hm => ?_, fun hm => ?_⟩
    · rcases hops q o hm with h | h
      · rw [ho] at h
        exact List.not_mem_nil h
      · exact hq' h.2
    · exact (hg q hm).elim hn hq'

section Registry

variable {q₀ : QId}

theorem Registered.lt_of_mem (hreg : Registered s) {o : Op} (h : o ∈ s.opsOn q₀) :
    q₀ < s.spawned := by
  by_contra hq
  rw [(hreg.unused (not_lt.1 hq)).1] at h
  exact List.not_mem_nil h

theorem Registered.lt_of_token (hreg : Registered s) (h : q₀ ∈ s.globalQueue) :
    q₀ < s.spawned := by
  by_contra hq
  exact (hreg.unused (not_lt.1 hq)).2 h

/-- `kill` finds a queue. -/
theorem Registered.kill (hreg : Registered s) {h₀ : Handle} (hd : s.registry h₀ = some q₀)
    (hr : s'.registry = Function.update s.registry h₀ none)
    (hq : s'.queues = Function.update s.queues q₀ { s.queues q₀ with killed := true })
    (hsp : s'.spawned = s.spawned) (hg : s'.globalQueue = s.globalQueue)
    (hops : ∀ q, ∀ o ∈ s'.opsOn q, o ∈ s.opsOn q ∨ o ≠ .spawnRegister ∧ q < s.spawned) :
    Registered s' := by
  -- a queue is registered under its own handle only
  have hreg' : ∀ {h q}, s'.registry h = some q → s.registry h = some q ∧ q ≠ q₀ := by
    intro h q hh
    rw [hr, Function.update_apply] at hh
    split_ifs at hh with hne
    refine ⟨hh, ?_⟩
    rintro rfl
    exact hne ((hreg.handle hh).symm.trans (hreg.handle hd))
  have hqueue : ∀ {q}, q ≠ q₀ → s'.queues q = s.queues q := fun h => by
    rw [hq, Function.update_of_ne h]
  have hmem : ∀ {q}, Op.spawnRegister ∈ s'.opsOn q → Op.spawnRegister ∈ s.opsOn q := fun hm =>
    (hops _ _ hm).elim id fun h' => absurd rfl h'.1
  refine ⟨fun h => hsp ▸ hreg.spawned (hreg' h).1, fun h => ?_, fun h => ?_,
    fun h hm => hreg.once (hreg' h).1 (hmem hm), fun {q} hm => ?_, fun {q} hle => ?_⟩
  · rw [hqueue (hreg' h).2]
    exact hreg.handle (hreg' h).1
  · rw [hqueue (hreg' h).2]
    exact hreg.alive (hreg' h).1
  · have hne : q ≠ q₀ := by
      rintro rfl
      exact hreg.once hd (hmem hm)
    rw [hqueue hne]
    exact hreg.before (hmem hm)
  · rw [hsp] at hle
    rw [hg]
    refine ⟨List.eq_nil_iff_forall_not_mem.2 fun o hm => ?_, (hreg.unused hle).2⟩
    rcases hops q o hm with h | h
    · exact absurd (hreg.lt_of_mem h) (not_lt.2 hle)
    · exact absurd h.2 (not_lt.2 hle)

/-- `spawn` makes a queue. -/
theorem Registered.spawn (hreg : Registered s) {h₀ : Handle} (hr : s'.registry = s.registry)
    (hq : s'.queues = Function.update s.queues s.spawned { handle := h₀ })
    (hsp : s'.spawned = s.spawned + 1) (hg : s'.globalQueue = s.globalQueue)
    (hops : ∀ q, ∀ o ∈ s'.opsOn q, o ∈ s.opsOn q ∨ q = s.spawned) : Registered s' := by
  have hqueue : ∀ {q}, q < s.spawned → s'.queues q = s.queues q := fun h => by
    rw [hq, Function.update_of_ne h.ne]
  have hold : ∀ {q o}, q < s.spawned → o ∈ s'.opsOn q → o ∈ s.opsOn q := fun hlt hm =>
    (hops _ _ hm).resolve_right hlt.ne
  refine ⟨fun h => ?_, fun h => ?_, fun h => ?_, fun h hm => ?_, fun {q} hm => ?_,
    fun {q} hle => ?_⟩
  · rw [hr] at h
    rw [hsp]
    exact (hreg.spawned h).trans (Nat.lt_succ_self _)
  · rw [hr] at h
    rw [hqueue (hreg.spawned h)]
    exact hreg.handle h
  · rw [hr] at h
    rw [hqueue (hreg.spawned h)]
    exact hreg.alive h
  · rw [hr] at h
    exact hreg.once h (hold (hreg.spawned h) hm)
  · rcases hops q _ hm with h | rfl
    · rw [hqueue (hreg.lt_of_mem h)]
      exact hreg.before h
    · rw [hq, Function.update_self]
  · rw [hsp] at hle
    rw [hg]
    have hle' : s.spawned ≤ q := by omega
    refine ⟨List.eq_nil_iff_forall_not_mem.2 fun o hm => ?_, (hreg.unused hle').2⟩
    rcases hops q o hm with h | h
    · exact absurd (hreg.lt_of_mem h) (not_lt.2 hle')
    · exact absurd (h ▸ hle) (Nat.not_succ_le_self _)

/-- `spawn` registers the queue it has made. -/
theorem Registered.register (hreg : Registered s) (hin : Op.spawnRegister ∈ s.opsOn q₀)
    (hr : s'.registry = Function.update s.registry (s.queues q₀).handle (some q₀))
    (hq : s'.queues = s.queues) (hsp : s'.spawned = s.spawned)
    (hg : s'.globalQueue = s.globalQueue) (hnot : Op.spawnRegister ∉ s'.opsOn q₀)
    (hops : ∀ q, ∀ o ∈ s'.opsOn q, o ∈ s.opsOn q ∨ o ≠ .spawnRegister ∧ q < s.spawned) :
    Registered s' := by
  have hreg' : ∀ {h q}, s'.registry h = some q →
      s.registry h = some q ∨ q = q₀ ∧ h = (s.queues q₀).handle := by
    intro h q hh
    rw [hr, Function.update_apply] at hh
    split_ifs at hh with heq
    · exact .inr ⟨(Option.some.inj hh).symm, heq⟩
    · exact .inl hh
  have hmem : ∀ {q}, Op.spawnRegister ∈ s'.opsOn q → Op.spawnRegister ∈ s.opsOn q := fun hm =>
    (hops _ _ hm).elim id fun h' => absurd rfl h'.1
  refine ⟨fun h => ?_, fun h => ?_, fun h => ?_, fun h hm => ?_, fun hm => ?_, fun {q} hle => ?_⟩
  · rw [hsp]
    rcases hreg' h with h' | ⟨rfl, -⟩
    · exact hreg.spawned h'
    · exact hreg.lt_of_mem hin
  · rw [hq]
    rcases hreg' h with h' | ⟨rfl, rfl⟩
    · exact hreg.handle h'
    · rfl
  · rw [hq]
    rcases hreg' h with h' | ⟨rfl, -⟩
    · exact hreg.alive h'
    · exact hreg.before hin
  · rcases hreg' h with h' | ⟨rfl, -⟩
    · exact hreg.once h' (hmem hm)
    · exact hnot hm
  · rw [hq]
    exact hreg.before (hmem hm)
  · rw [hsp] at hle
    rw [hg]
    refine ⟨List.eq_nil_iff_forall_not_mem.2 fun o hm => ?_, (hreg.unused hle).2⟩
    rcases hops q o hm with h | h
    · exact absurd (hreg.lt_of_mem h) (not_lt.2 hle)
    · exact absurd h.2 (not_lt.2 hle)

theorem Registered.step (hreg : Registered s)
    (hinit : ∀ q, (s.opsOn q).countP Op.spawnInit ≤ 1) (h : s.step l = some s') :
    Registered s' := by
  obtain ⟨f, rest, r, ht, hr, rfl, hops⟩ := step_frames h
  clear h
  have hmem : ∀ q o, o ∈ State.opsOn { r.1 with threads := s.threads.set l.1 (r.2 ++ rest) } q →
      o ∈ opsIn q r.2 ∨ o ∈ s.opsOn q := by
    intro q o hm
    obtain ⟨R, h1, h2⟩ := hops q
    rw [mem_opsOn, h2, Multiset.mem_add] at hm
    rw [mem_opsOn, h1, Multiset.mem_add]
    exact hm.imp_right .inr
  -- a frame that touches nothing and leaves no point on a queue
  have hidle : ∀ r' : State, r.1 = r' → (∀ q, opsIn q r.2 = 0) → r'.spawned = s.spawned →
      r'.registry = s.registry → r'.queues = s.queues → r'.globalQueue = s.globalQueue →
      Registered { r.1 with threads := s.threads.set l.1 (r.2 ++ rest) } := by
    rintro _ rfl ho hsp hrg hq hg
    refine hreg.keep hsp (fun h q => by simp only [hrg, imp_self]) (fun q => by simp only [hq, and_self])
      (fun q o hm => ?_) (fun q hm => .inl (hg ▸ hm))
    refine .inl ((hmem q o hm).resolve_left ?_)
    rw [ho q]
    exact Multiset.notMem_zero o
  cases f with
  | worker =>
    cases hc : l.2 <;> rw [hc] at hr <;> simp only [State.exec, reduceCtorEq] at hr
    obtain ⟨q₀, hq₀, rfl⟩ := Option.map_eq_some_iff.1 hr
    have hlt := hreg.lt_of_token (List.mem_of_getElem? hq₀)
    refine hreg.keep rfl (fun _ _ h => h) (fun _ => ⟨rfl, rfl⟩) (fun q o hm => ?_)
      (fun q hm => .inl (List.mem_of_mem_eraseIdx hm))
    refine (hmem q o hm).symm.imp_right fun hm => ?_
    by_cases hqq : q₀ = q
    · subst hqq
      simp only [opsIn_cons_op, opsIn_cons_other (f := .worker) rfl, opsIn_nil,
        Multiset.mem_cons, Multiset.notMem_zero, or_false] at hm
      exact ⟨by rw [hm]; simp, hlt⟩
    · simp [opsIn_cons_op_other hqq, opsIn_cons_other (f := .worker) rfl] at hm
  | external =>
    cases hc : l.2 <;> rw [hc] at hr <;>
      simp only [State.exec, reduceCtorEq, Option.some.injEq] at hr
    subst hr
    exact hidle s rfl (fun q => rfl) rfl rfl rfl rfl
  | call f =>
    cases hc : l.2 <;> rw [hc] at hr <;>
      simp only [State.exec, reduceCtorEq, Option.some.injEq] at hr
    subst hr
    cases f with
    | send dest m =>
      cases hd : s.registry dest with
      | none =>
        simp only [State.execCall, hd] at hmem hidle ⊢
        exact hidle _ rfl (fun q => by simp only [sendErrors, opsIn_calls]) rfl rfl rfl rfl
      | some q₀ =>
        simp only [State.execCall, hd] at hmem ⊢
        refine hreg.keep rfl (fun _ _ h => h) (fun _ => ⟨rfl, rfl⟩) (fun q o hm => ?_)
          (fun q hm => .inl hm)
        refine (hmem q o hm).symm.imp_right fun hm => ?_
        by_cases hqq : q₀ = q
        · subst hqq
          simp only [opsIn_cons_op, opsIn_nil, Multiset.mem_cons, Multiset.notMem_zero,
            or_false] at hm
          exact ⟨by rw [hm]; simp, hreg.spawned hd⟩
        · simp [opsIn_cons_op_other hqq] at hm
    | kill h₀ =>
      cases hd : s.registry h₀ with
      | none =>
        simp only [State.execCall, hd] at hidle ⊢
        exact hidle _ rfl (fun q => rfl) rfl rfl rfl rfl
      | some q₀ =>
        simp only [State.execCall, hd] at hmem ⊢
        refine hreg.kill hd rfl rfl rfl rfl fun q o hm => ?_
        refine (hmem q o hm).symm.imp_right fun hm => ?_
        rw [opsIn_cons_other (f := .killLogger h₀) rfl] at hm
        by_cases hqq : q₀ = q
        · subst hqq
          simp only [opsIn_cons_op, opsIn_nil, Multiset.mem_cons, Multiset.notMem_zero,
            or_false] at hm
          exact ⟨by rw [hm]; simp, hreg.spawned hd⟩
        · simp [opsIn_cons_op_other hqq] at hm
    | spawn =>
      simp only [State.execCall] at hmem ⊢
      refine hreg.spawn rfl rfl rfl rfl fun q o hm => ?_
      refine (hmem q o hm).symm.imp_right fun hm => ?_
      by_contra hqq
      simp [opsIn_cons_op_other (Ne.symm hqq)] at hm
    | error source text =>
      refine hidle s rfl (fun q => ?_) rfl rfl rfl rfl
      simp only [State.execCall]
      split_ifs <;> rfl
    | registerName name h₀ => exact hidle _ rfl (fun q => rfl) rfl rfl rfl rfl
  | op q₀ o =>
    simp only [State.exec] at hr
    obtain ⟨x, hx, rfl⟩ := Option.map_eq_some_iff.1 hr
    have ha := Op.exec_access hx
    have hin : o ∈ s.opsOn q₀ := by
      obtain ⟨R, h1, -⟩ := hops q₀
      rw [mem_opsOn, h1, opsIn_cons_op]
      simp
    have hlt := hreg.lt_of_mem hin
    have hnew : ∀ q, ∀ o' ∈ opsIn q (x.calls.map Frame.call ++ x.next.map (Frame.op q₀)),
        q = q₀ ∧ o' ∈ x.next := by
      intro q o' hm
      rw [opsIn_append, opsIn_calls, zero_add] at hm
      by_cases hqq : q₀ = q
      · subst hqq
        rw [opsIn_map_op] at hm
        exact ⟨rfl, hm⟩
      · rw [opsIn_map_other hqq] at hm
        exact absurd hm (Multiset.notMem_zero _)
    have hkeep : ∀ q, (Function.update s.queues q₀ x.queue q).handle = (s.queues q).handle
        ∧ (Function.update s.queues q₀ x.queue q).killed = (s.queues q).killed := by
      intro q
      by_cases hqq : q = q₀
      · subst hqq
        rw [Function.update_self]
        exact ha.same
      · rw [Function.update_of_ne hqq]
        exact ⟨rfl, rfl⟩
    have hops' : ∀ q, ∀ o' ∈ State.opsOn _ q, o' ∈ s.opsOn q ∨ o' ≠ .spawnRegister
        ∧ q < s.spawned := fun q o' hm => (hmem q o' hm).symm.imp_right fun hm => by
      obtain ⟨rfl, hn⟩ := hnew q o' hm
      exact ⟨fun he => ha.not_register (he ▸ hn), hlt⟩
    by_cases ho : o = .spawnRegister
    · subst ho
      cases hc : l.2 <;> rw [hc] at hx <;>
        simp only [Op.exec, reduceCtorEq, Option.some.injEq] at hx
      subst hx
      refine hreg.register hin ?_ (Function.update_eq_self _ _) rfl rfl ?_ hops'
      · simp only [State.applyShared, Function.update_self]
      · -- the only thread in `spawn` has gone on to `on_init`
        obtain ⟨R, h1, h2⟩ := hops q₀
        have hle := hinit q₀
        have hpos : Op.spawnInit .spawnRegister = true := rfl
        rw [countP_opsOn, h1, opsIn_cons_op, Multiset.countP_add, Multiset.countP_cons,
          if_pos hpos] at hle
        rw [mem_opsOn, h2, Multiset.mem_add]
        rintro (hm | hm)
        · exact ha.not_register (hnew q₀ _ hm).2
        · have := Multiset.countP_pos_of_mem hm (p := fun o => o.spawnInit = true) rfl
          omega
    · refine hreg.keep (applyShared_spawned _ _ _) (fun h q hh => ?_) (fun q => ?_) hops'
        (fun q hm => ?_)
      · exact applyShared_registry { s with queues := Function.update s.queues q₀ x.queue }
          (fun hsh => ho (Op.exec_register hx hsh)) hh
      · simp only [applyShared_queues]
        exact hkeep q
      · cases hsh : x.shared <;> rw [hsh] at hm <;> simp only [State.applyShared] at hm
        · exact .inl hm
        · rw [List.mem_append, List.mem_singleton] at hm
          exact hm.imp_right fun h : q = q₀ => h ▸ hlt
        · exact .inl hm
        · split_ifs at hm <;> exact .inl hm
  | killLogger h₀ =>
    cases hc : l.2 <;> rw [hc] at hr <;>
      simp only [State.exec, reduceCtorEq, Option.some.injEq] at hr
    subst hr
    refine hidle s rfl (fun q => ?_) rfl rfl rfl rfl
    split_ifs <;> rfl
  | killLoggerCas h₀ =>
    cases hc : l.2 <;> rw [hc] at hr <;>
      simp only [State.exec, reduceCtorEq, Option.some.injEq] at hr
    subst hr
    exact hidle _ rfl (fun q => rfl) rfl rfl rfl rfl
  | errorFind source text =>
    cases hc : l.2 <;> rw [hc] at hr <;>
      simp only [State.exec, reduceCtorEq, Option.some.injEq] at hr
    subst hr
    refine hidle s rfl (fun q => ?_) rfl rfl rfl rfl
    split_ifs <;> rfl
  | errorStore source text h₀ =>
    cases hc : l.2 <;> rw [hc] at hr <;>
      simp only [State.exec, reduceCtorEq, Option.some.injEq] at hr
    subst hr
    exact hidle _ rfl (fun q => rfl) rfl rfl rfl rfl

end Registry

/-- Only `spawn` makes queues. -/
theorem exec_spawned {tid : ℕ} {f : Frame} {c : Choice} {r : State × List Frame}
    (h : s.exec tid f c = some r) : r.1.spawned = s.spawned ∨
      f = .call .spawn ∧ r = s.execCall .spawn := by
  cases f with
  | worker =>
    cases c <;> simp only [State.exec, reduceCtorEq] at h
    obtain ⟨q₀, -, rfl⟩ := Option.map_eq_some_iff.1 h
    exact .inl rfl
  | call f =>
    cases c <;> simp only [State.exec, reduceCtorEq, Option.some.injEq] at h
    subst h
    cases f with
    | send dest m => cases hd : s.registry dest <;> simp [State.execCall, hd]
    | kill h₀ => cases hd : s.registry h₀ <;> simp [State.execCall, hd]
    | spawn => exact .inr ⟨rfl, rfl⟩
    | error source text => exact .inl rfl
    | registerName name h₀ => exact .inl rfl
  | op q₀ o =>
    simp only [State.exec] at h
    obtain ⟨x, -, rfl⟩ := Option.map_eq_some_iff.1 h
    exact .inl (applyShared_spawned _ _ _)
  | external | killLogger h₀ | killLoggerCas h₀ | errorFind source text
  | errorStore source text h₀ =>
    cases c <;> simp only [State.exec, reduceCtorEq, Option.some.injEq] at h
    subst h
    exact .inl rfl

/-- A step of the system is a step of a queue's view, or nothing, or the queue is new. -/
theorem view_step (hreg : Registered s) (h : s.step l = some s') {q : QId} (hq : q < s'.spawned) :
    (q < s.spawned ∧ (s'.view q = s.view q ∨ ∃ k, (s.view q).step k = some (s'.view q) ∧
      ∀ P, StepsOn q P s l → (s.view q).Meets P k)) ∨ ∃ h₀, s'.view q = View.fresh h₀ := by
  obtain ⟨f, rest, r, ht, hr, rfl, hops⟩ := step_frames h
  obtain ⟨R, h1, h2⟩ := hops q
  by_cases hlt : q < s.spawned
  · refine .inl ⟨hlt, ?_⟩
    have hv : s.view q = ⟨s.queues q, opsIn q [f] + R, s.globalQueue.count q⟩ := by
      rw [State.view, h1]
    have hv' : State.view { r.1 with threads := s.threads.set l.1 (r.2 ++ rest) } q
        = ⟨r.1.queues q, opsIn q r.2 + R, r.1.globalQueue.count q⟩ := by
      rw [State.view, h2]
    have hnum : (s.view q).num = .of (s.opsOn q) := view_num s q
    rw [hv', hv]
    rw [hv] at hnum
    refine (exec_view R hreg hlt hr).imp_right fun ⟨k, hk, hP⟩ => ⟨k, hk, fun P hs => hP P ?_⟩
    rintro o rfl
    rw [hnum]
    exact hs o rest ht
  · right
    rcases exec_spawned hr with hsp | ⟨rfl, rfl⟩
    · exact absurd (hsp ▸ hq) hlt
    · have heq : q = s.spawned := Nat.le_antisymm (Nat.lt_succ_iff.1 hq) (not_lt.1 hlt)
      subst heq
      obtain ⟨ho, hg⟩ := hreg.unused le_rfl
      have hR : R = 0 := by
        rw [ho, opsIn_cons_other rfl] at h1
        simpa using h1.symm
      refine ⟨(s.spawned + 1) % 2 ^ 32, ?_⟩
      rw [State.view, h2, hR]
      simp only [State.execCall, opsIn_cons_op, opsIn_nil, Function.update_self, add_zero,
        View.fresh]
      rw [List.count_eq_zero_of_not_mem hg]
      rfl

theorem registered_init (n m : ℕ) : Registered (State.init n m) := by
  have hops : ∀ q, (State.init n m).opsOn q = [] := by
    intro q
    rw [State.opsOn, List.filterMap_eq_nil_iff]
    intro f hf
    have : f = .worker ∨ f = .external := by
      simp only [State.init, frames, List.flatten_append, List.mem_append] at hf
      rcases hf with hf | hf
      · obtain ⟨fs, hfs, hf⟩ := List.mem_flatten.1 hf
        rw [List.eq_of_mem_replicate hfs, List.mem_singleton] at hf
        exact .inl hf
      · obtain ⟨fs, hfs, hf⟩ := List.mem_flatten.1 hf
        rw [List.eq_of_mem_replicate hfs, List.mem_singleton] at hf
        exact .inr hf
    rcases this with rfl | rfl <;> rfl
  refine ⟨fun h => ?_, fun h => ?_, fun h => ?_, fun h => ?_, fun h => ?_, fun _ => ⟨hops _, ?_⟩⟩
  · cases h
  · cases h
  · cases h
  · cases h
  · rw [hops] at h
    cases h
  · exact List.not_mem_nil

variable {n m : ℕ} {q : QId}

/-- The registry of any reachable state, and the queues as views of their own. -/
theorem reachable_views (h : Reachable State.step (State.init n m) s) :
    Registered s ∧ ∀ q < s.spawned, ∃ h₀, Reachable View.step (View.fresh h₀) (s.view q) := by
  induction h with
  | refl => exact ⟨registered_init n m, fun q hq => absurd hq (Nat.not_lt_zero q)⟩
  | @tail s s' l hr _ hs ih =>
    obtain ⟨hreg, hv⟩ := ih
    refine ⟨hreg.step (fun q => ?_) hs, fun q hq => ?_⟩
    · by_cases hlt : q < s.spawned
      · obtain ⟨h₀, hv⟩ := hv q hlt
        have := (View.sound hv).stages.init
        rw [view_num, Counts.of_apply] at this
        exact this ▸ Nat.le_add_right _ _
      · rw [(hreg.unused (not_lt.1 hlt)).1]
        exact Nat.zero_le _
    · rcases view_step hreg hs hq with ⟨hlt, hsame | ⟨k, hk, -⟩⟩ | ⟨h₀, hnew⟩
      · rw [hsame]
        exact hv q hlt
      · obtain ⟨h₀, hv⟩ := hv q hlt
        exact ⟨h₀, hv.tail trivial hk⟩
      · exact ⟨h₀, hnew ▸ .refl⟩

/-- A run of the system whose steps on queue `q` meet `P` is, for that queue, a run of its view
whose steps meet `P`. -/
theorem view_reaches {P : ActorQueue → Counts → Op → Prop}
    (h : Reaches State.step (StepsOn q P) (State.init n m) s) (hq : q < s.spawned) :
    ∃ h₀, Reaches View.step (View.Meets P) (View.fresh h₀) (s.view q) := by
  induction h with
  | refl => exact absurd hq (Nat.not_lt_zero q)
  | @tail s s' l hr hP hs ih =>
    rcases view_step (reachable_views hr.reachable).1 hs hq with
      ⟨hlt, hsame | ⟨k, hk, hk'⟩⟩ | ⟨h₀, hnew⟩
    · rw [hsame]
      exact ih hlt
    · obtain ⟨h₀, hv⟩ := ih hlt
      exact ⟨h₀, hv.tail (hk' P hP) hk⟩
    · exact ⟨h₀, hnew ▸ .refl⟩

/-- An invariant of the view holds of the queue. -/
theorem View.Inductive.of_reaches {P : ActorQueue → Counts → Op → Prop}
    {I : ActorQueue → Counts → ℕ → Prop} (hI : View.Inductive P I)
    (h : Reaches State.step (StepsOn q P) (State.init n m) s) (hq : q < s.spawned) :
    I (s.queues q) (.of (s.opsOn q)) (s.globalQueue.count q) := by
  obtain ⟨h₀, hv⟩ := view_reaches h hq
  have := hI.invariant hv
  rwa [view_num] at this

theorem View.Inductive.of_reachable {I : ActorQueue → Counts → ℕ → Prop}
    (hI : View.Inductive (fun _ _ _ => True) I)
    (h : Reachable State.step (State.init n m) s) (hq : q < s.spawned) :
    I (s.queues q) (.of (s.opsOn q)) (s.globalQueue.count q) :=
  hI.of_reaches (h.mono fun _ _ _ _ _ _ => trivial) hq

/-- What every reachable queue satisfies. -/
theorem sound_of_reachable (h : Reachable State.step (State.init n m) s) (hq : q < s.spawned) :
    Sound (s.queues q) (.of (s.opsOn q)) (s.globalQueue.count q) :=
  sound_inductive.of_reachable h hq

end SkynetCpp
