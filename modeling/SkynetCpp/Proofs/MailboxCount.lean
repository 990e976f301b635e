import Mathlib.Algebra.Order.Group.Abs
import SkynetCpp.MailboxCount
import SkynetCpp.Proofs.Conservation

/-!
# The count of a mailbox is right if every step finds it so

In a run whose steps are all `CountSafe` the mailbox, with the messages just dequeued, is what
`mailbox_count` says and what is still to be added to it (`Exact`). So the counter is
`MailboxCounted` (`mailbox_counted`); the size a push reports is what it read at its increment,
which was pending then (`Measured`). Without the condition a message can be counted out before it is
counted in, and the counter is `2^64 - 1` (`not_mailbox_counted`).
-/

namespace SkynetCpp

open Lib Op

/-- The counter is exact, but for the threads between a queue operation and its count. -/
structure Exact (q : ActorQueue) (n : Counts) : Prop where
  counted : (q.mailbox.length + n toSub : ℤ) = q.mailboxCount + n toAdd
  nonneg : 0 ≤ q.mailboxCount
  small : q.mailboxCount < 2 ^ 64
  accepted : q.mailbox.length + n toSub + n toEnqueue ≤ q.accepted.length

section Exact

variable {q q' : ActorQueue} {n : Counts} {tok : ℕ} {o : Op} {next : List Op}

variable (q') in
theorem Exact.frame {ops : List Op} (h : Exact q (n.add ops)) (ops' : List Op)
    (hq : (q'.mailbox, q'.mailboxCount, q'.accepted) = (q.mailbox, q.mailboxCount, q.accepted))
    (hops : (ops'.countP toSub, ops'.countP toAdd, ops'.countP toEnqueue)
      = (ops.countP toSub, ops.countP toAdd, ops.countP toEnqueue)) : Exact q' (n.add ops') := by
  obtain ⟨h1, h2, h3, h4⟩ := h
  simp only [Prod.mk.injEq] at hq hops
  obtain ⟨hmail, hcount, hacc⟩ := hq
  obtain ⟨hp1, hp2, hp3⟩ := hops
  constructor <;> simp only [Counts.add_apply, hmail, hcount, hacc, hp1, hp2, hp3] <;> assumption

theorem Exact.enter (h : Exact q n) (o : Op)
    (ho : (o.toSub, o.toAdd, o.toEnqueue) = (false, false, false)) : Exact q (n.add [o]) := by
  refine @Exact.frame q q n [] h [o] rfl ?_
  simp only [Prod.mk.injEq] at ho
  simp [ho]

theorem Exact.access (h : Exact q (n.add [o])) (ha : o.Access q q' next tok)
    (hs : CountSafe q (n.add [o]) o) : Exact q' (n.add next) := by
  have hframe := h.frame q' next
  obtain ⟨h1, h2, h3, h4⟩ := h
  cases ha <;> (try exact hframe rfl rfl) <;> clear hframe
  case drainStore k =>
    -- nothing that was counted is left, so the counter is 0 already
    have hzero : q.mailboxCount = 0 := by
      simp only [CountSafe, ActorQueue.pending] at hs
      omega
    have hnext : (k.afterDrain.countP toSub, k.afterDrain.countP toAdd,
        k.afterDrain.countP toEnqueue) = (0, 0, 0) := by cases k <;> rfl
    simp only [Prod.mk.injEq] at hnext
    rw [hzero] at h1
    constructor <;>
      simp only [Counts.add_apply, countP_singleton, toSub, toAdd, toEnqueue, Bool.toNat_false,
        hnext, Nat.add_zero] at h1 h4 ⊢ <;>
      omega
  case scheduleSkip k _ | scheduleBusy k _ | enqueueGlobal k =>
    cases k <;> exact Exact.frame q ⟨h1, h2, h3, h4⟩ _ rfl rfl
  case storeIdle k | clearOwner k =>
    cases k <;> exact Exact.frame _ ⟨h1, h2, h3, h4⟩ _ rfl rfl
  case drain hm | batchDequeue hm =>
    have := length_dequeue hm
    constructor <;>
      simp only [Counts.add_apply, countP_singleton, toSub, toAdd, toEnqueue, Bool.toNat_false,
        Bool.toNat_true] at h1 h4 ⊢ <;>
      omega
  all_goals
    simp only [CountSafe, ActorQueue.pending, Counts.add_apply, countP_singleton, toSub, toAdd,
      Bool.toNat_false, Bool.toNat_true] at hs
    constructor <;>
      simp only [Counts.add_apply, countP_singleton, toSub, toAdd, toEnqueue, Bool.toNat_false,
        Bool.toNat_true, List.length_append, List.length_cons, List.length_nil] at h1 h4 ⊢ <;>
      omega

theorem exact_inductive : View.Inductive CountSafe fun q n _ => Exact q n where
  fresh h := by constructor <;> simp [toSub, toAdd, toEnqueue]
  access _ ha hP h := h.access ha hP
  push m h := h.enter _ rfl
  kill _ h := (h.enter .killAccepting rfl).frame _ _ rfl rfl
  take h := h.enter _ rfl

theorem Exact.sizeT_eq (h : Exact q n) : (sizeT q.mailboxCount : ℤ) = q.mailboxCount := by
  rw [sizeT, Int.emod_eq_of_lt h.nonneg h.small, Int.toNat_of_nonneg h.nonneg]

end Exact

section Measured

variable {n m : ℕ} {s s' : State} {q : QId}

theorem exact_of_countSafe (h : Reaches State.step (StepsOn q CountSafe) (State.init n m) s)
    (hq : q < s.spawned) : Exact (s.queues q) (.of (s.opsOn q)) :=
  exact_inductive.of_reaches h hq

/-- A threshold is compared only with a size it does not exceed. -/
def Op.Above : Op → Prop
  | pushOverload size threshold => threshold ≤ size
  | _ => True

/-- Only a push goes on with a size. -/
theorem Op.Access.qsize {q q' : ActorQueue} {o o' : Op} {next : List Op} {tok k : ℕ}
    (h : o.Access q q' next tok) (ho : o' ∈ next) (hk : o'.qsize = some k) :
    o.sizing = true := by
  cases h <;> (try rfl) <;> (try cases ‹SchedNext›) <;> (try cases ‹DrainSite›) <;>
    simp only [SchedNext.ops, DrainSite.afterDrain, DrainSite.afterStore, DrainSite.afterClear,
      List.mem_singleton, List.not_mem_nil] at ho <;>
    subst ho <;> cases hk

theorem mem_overloadRound {size threshold k : ℕ} {o' : Op} (ho : o' ∈ overloadRound size threshold)
    (hk : o'.qsize = some k) :
    overloadRound size threshold = [o'] ∧ k = size ∧ o'.Above := by
  unfold overloadRound at ho ⊢
  split_ifs at ho ⊢ with hle
  · obtain rfl := List.mem_singleton.1 ho
    cases hk
    exact ⟨rfl, rfl, hle⟩
  · obtain rfl := List.mem_singleton.1 ho
    cases hk

/-- A push takes its size from its increment on to the comparison with the threshold. -/
theorem Op.exec_qsize {q : ActorQueue} {tid : ℕ} {weight : ℤ} {o o' : Op} {c : Choice}
    {r : OpResult} {k : ℕ} (h : o.exec tid weight q c = some r) (ho : o' ∈ r.next)
    (hk : o'.qsize = some k) :
    r.calls = [] ∧ r.next = [o'] ∧ o'.Above ∧
      ((o = .pushCount ∧ k = sizeT (q.mailboxCount + 1)) ∨ o.qsize = some k) := by
  have hsizing := (exec_access h).qsize ho hk
  cases o with
  | pushCount =>
    cases c <;> cases h
    obtain rfl := List.mem_singleton.1 ho
    cases hk
    exact ⟨rfl, rfl, trivial, .inl ⟨rfl, rfl⟩⟩
  | pushThreshold size =>
    cases c <;> cases h
    obtain ⟨hnext, rfl, habove⟩ := mem_overloadRound ho hk
    exact ⟨rfl, hnext, habove, .inr rfl⟩
  | pushOverload size threshold =>
    cases c <;> simp only [Op.exec, reduceCtorEq] at h
    case go =>
      split at h
      · cases h
        obtain rfl := List.mem_singleton.1 ho
        cases hk
      · cases h
        obtain ⟨hnext, rfl, habove⟩ := mem_overloadRound ho hk
        exact ⟨rfl, hnext, habove, .inr rfl⟩
    case spurious =>
      cases h
      obtain ⟨hnext, rfl, habove⟩ := mem_overloadRound ho hk
      exact ⟨rfl, hnext, habove, .inr rfl⟩
  | _ => cases hsizing

/-- A frame that has a size is alone where an access puts it, in the place of the push it is of. -/
theorem State.exec_qsize {tid : ℕ} {f : Frame} {c : Choice} {r : State × List Frame} {o' : Op}
    {k : ℕ} (h : s.exec tid f c = some r) (ho : .op q o' ∈ r.2) (hk : o'.qsize = some k) :
    r.2 = [.op q o'] ∧ o'.Above ∧ ∃ o, f = .op q o ∧
      ((o = .pushCount ∧ k = sizeT ((s.queues q).mailboxCount + 1)) ∨ o.qsize = some k) := by
  cases f with
  | op q₀ o =>
    obtain ⟨x, hx, rfl⟩ := Option.map_eq_some_iff.1 h
    have hmem : o' ∈ x.next ∧ q₀ = q := by simpa using ho
    obtain ⟨hnext, rfl⟩ := hmem
    obtain ⟨hcalls, hnext, habove, hfrom⟩ := Op.exec_qsize hx hnext hk
    refine ⟨?_, habove, o, rfl, hfrom⟩
    simp only [hcalls, hnext, List.map_nil, List.map_cons, List.nil_append]
  | call f =>
    cases c <;> cases h
    cases f with
    | send dest m =>
      cases hd : s.registry dest <;> simp [State.execCall, hd] at ho
      cases ho.2 ▸ hk
    | kill h₀ =>
      cases hd : s.registry h₀ <;> simp [State.execCall, hd] at ho
      cases ho.2 ▸ hk
    | spawn =>
      simp only [State.execCall, List.mem_singleton, Frame.op.injEq] at ho
      cases ho.2 ▸ hk
    | error source text =>
      simp only [State.execCall] at ho
      split_ifs at ho <;> simp at ho
    | registerName name h₀ => simp [State.execCall] at ho
  | worker =>
    cases c <;> simp only [State.exec, reduceCtorEq] at h
    obtain ⟨q₀, -, rfl⟩ := Option.map_eq_some_iff.1 h
    simp only [List.mem_cons, Frame.op.injEq, reduceCtorEq, List.not_mem_nil, or_false] at ho
    cases ho.2 ▸ hk
  | external | errorStore source text h₀ | killLoggerCas h₀ =>
    cases c <;> simp only [State.exec, reduceCtorEq, Option.some.injEq] at h
    subst h
    simp at ho
  | killLogger h₀ | errorFind source text =>
    cases c <;> simp only [State.exec, reduceCtorEq, Option.some.injEq] at h
    subst h
    simp only at ho
    split_ifs at ho <;> simp at ho

/-- A size is that of the push on top of its thread, and was pending during it. -/
structure Measured (n m : ℕ) (q : QId) (s : State) : Prop where
  onTop : ∀ {tid : ℕ} {f : Frame} {rest : List Frame} {o : Op} {k : ℕ},
    s.threads[tid]? = some (f :: rest) → .op q o ∈ rest → o.qsize ≠ some k
  was : ∀ {tid : ℕ} {o : Op} {rest : List Frame} {k : ℕ},
    s.threads[tid]? = some (.op q o :: rest) → o.qsize = some k →
    o.Above ∧ s.WasPending n m tid q rest k

theorem measured_init : Measured n m q (State.init n m) := by
  have hstack : ∀ {tid : ℕ} {st : List Frame}, (State.init n m).threads[tid]? = some st →
      st = [.worker] ∨ st = [.external] := by
    intro tid st h
    have := List.mem_of_getElem? h
    simp only [State.init, List.mem_append, List.mem_replicate] at this
    exact this.imp And.right And.right
  refine ⟨fun h hm => ?_, fun h => ?_⟩
  · rcases hstack h with h | h <;> cases h <;> cases hm
  · rcases hstack h with h | h <;> cases h

theorem Op.sizing_of_qsize {o : Op} {k : ℕ} (h : o.qsize = some k) : o.sizing = true := by
  cases o <;> first | rfl | cases h

/-- A push goes on. -/
theorem State.WasPending.tail {l : State.Label} {tid k : ℕ} {rest : List Frame} {o : Op}
    (h : s.WasPending n m tid q rest k) (ht : s.threads[tid]? = some (.op q o :: rest))
    (ho : o.sizing = true) (hs : s.step l = some s') : s'.WasPending n m tid q rest k := by
  obtain ⟨s₀, hr, hk, hpush⟩ := h
  exact ⟨s₀, hr, hk, hpush.tail ⟨o, ho, ht⟩ hs⟩

theorem Measured.step {l : State.Label} (h : Measured n m q s)
    (hr : Reachable State.step (State.init n m) s)
    (hcount : ∀ {tid : ℕ} {rest : List Frame}, s.threads[tid]? = some (.op q .pushCount :: rest) →
      sizeT ((s.queues q).mailboxCount + 1) ≤ (s.queues q).pending (.of (s.opsOn q)))
    (hs : s.step l = some s') : Measured n m q s' := by
  obtain ⟨f, rest, r, ht, hx, heq, -⟩ := step_frames hs
  have hset : s'.threads = s.threads.set l.1 (r.2 ++ rest) := by rw [heq]
  have hself : s'.threads[l.1]? = some (r.2 ++ rest) := by
    rw [hset, List.getElem?_set_self (List.getElem?_eq_some_iff.1 ht).1]
  have hother : ∀ {tid : ℕ}, l.1 ≠ tid → s'.threads[tid]? = s.threads[tid]? := fun hne => by
    rw [hset, List.getElem?_set_ne hne]
  refine ⟨fun {tid f' rest' o' k} ht' hm hk => ?_, fun {tid o' rest' k} ht' hk => ?_⟩
  · by_cases htid : l.1 = tid
    · subst htid
      rw [hself, Option.some.injEq] at ht'
      rcases hfs : r.2 with _ | ⟨g, fs⟩
      · rw [hfs, List.nil_append] at ht'
        exact h.onTop ht (ht' ▸ List.mem_cons_of_mem _ hm) hk
      · rw [hfs, List.cons_append, List.cons.injEq] at ht'
        rw [← ht'.2, List.mem_append] at hm
        rcases hm with hm | hm
        · have hone := (State.exec_qsize hx (hfs ▸ List.mem_cons_of_mem _ hm) hk).1
          rw [hfs, List.cons.injEq] at hone
          rw [hone.2] at hm
          exact List.not_mem_nil hm
        · exact h.onTop ht hm hk
    · rw [hother htid] at ht'
      exact h.onTop ht' hm hk
  · by_cases htid : l.1 = tid
    · subst htid
      rw [hself, Option.some.injEq] at ht'
      rcases hfs : r.2 with _ | ⟨g, fs⟩
      · rw [hfs, List.nil_append] at ht'
        exact absurd hk (h.onTop ht (ht' ▸ List.mem_cons_self))
      · rw [hfs, List.cons_append, List.cons.injEq] at ht'
        have hin : .op q o' ∈ r.2 := by
          rw [hfs, ht'.1]
          exact List.mem_cons_self
        obtain ⟨hone, habove, o, rfl, hfrom⟩ := State.exec_qsize hx hin hk
        have hrest : rest = rest' := by
          rw [hfs, List.cons.injEq] at hone
          rw [← ht'.2, hone.2, List.nil_append]
        subst hrest
        rcases hfrom with ⟨rfl, rfl⟩ | hsize
        · exact ⟨habove, s, hr, hcount ht, Reaches.refl.tail ⟨.pushCount, rfl, ht⟩ hs⟩
        · exact ⟨habove, (h.was ht hsize).2.tail ht (Op.sizing_of_qsize hsize) hs⟩
    · rw [hother htid] at ht'
      obtain ⟨habove, hwas⟩ := h.was ht' hk
      exact ⟨habove, hwas.tail ht' (Op.sizing_of_qsize hk) hs⟩

/-- A push finds pending what its increment makes the counter. -/
theorem Exact.sizeT_succ_le {q : ActorQueue} {n : Counts} (h : Exact q n) (hadd : 1 ≤ n toAdd) :
    sizeT (q.mailboxCount + 1) ≤ q.pending n := by
  have hcounted := h.counted
  have hnonneg := h.nonneg
  unfold sizeT ActorQueue.pending
  omega

theorem measured_of_countSafe (h : Reaches State.step (StepsOn q CountSafe) (State.init n m) s) :
    Measured n m q s := by
  induction h with
  | refl => exact measured_init
  | @tail s s' l hr _ hs ih =>
    refine ih.step hr.reachable (fun {tid rest} ht => ?_) hs
    have hmem := mem_opsOn_top ht
    have hq := (reachable_views hr.reachable).1.lt_of_mem hmem
    exact (exact_of_countSafe hr hq).sizeT_succ_le (List.countP_pos_iff.2 ⟨_, hmem, rfl⟩)

theorem mailbox_counted (n m : ℕ) (q : QId) (s : State)
    (h : Reaches State.step (StepsOn q CountSafe) (State.init n m) s) (hq : q < s.spawned) :
    MailboxCounted n m q s := by
  have hexact := exact_of_countSafe h hq
  have hsize := hexact.sizeT_eq
  have hcounted := hexact.counted
  have haccepted := hexact.accepted
  simp only [Counts.of_apply] at hcounted haccepted
  refine ⟨by omega, ?_, fun tid rest ⟨size, ht⟩ => ?_⟩
  · rw [hsize, abs_le]
    omega
  · obtain ⟨habove, s₀, hr, hk, hpush⟩ := (measured_of_countSafe h).was ht rfl
    exact ⟨s₀, hr, habove.trans hk, hpush⟩

/-- A message that is not a request. -/
def plain : Message := { source := 7, session := 0, type := PTYPE_LUA }

/-- `spawn` and two pushes, and a worker hands over the first message. -/
def countRun : List State.Label :=
  spawnSend 1 plain ++
  ([(1, .call (.send 1 plain)), (1, .go), (1, .go), (1, .go), (1, .go), (1, .go), (1, .go),
    (0, .pick 0), (0, .go), (0, .go), (0, .go), (0, .go), (0, .go), (0, .go), (0, .go), (0, .go),
    (0, .go), (0, .pick 0), (0, .go), (0, .go), (0, .ret)] : List State.Label)

theorem mailbox_counted_batch : ∃ s, (s.queues 0).mailboxCount = 1 ∧ MailboxCounted 1 1 0 s := by
  have hrun : (runIf State.step (StepsOn 0 CountSafe) (State.init 1 1) countRun).isSome = true :=
    rfl
  exact ⟨_, rfl, mailbox_counted 1 1 0 _ (reaches_after hrun) Nat.one_pos⟩

/-- A push enqueues a message and stops; `kill` drains it and counts it out. -/
def underflowRun : List State.Label :=
  (spawnSend 0 plain).take 11 ++
  ([(1, .call (.kill 1)), (1, .go), (1, .go), (1, .go), (1, .go), (1, .go), (1, .go), (1, .go),
    (1, .pick 0), (1, .go)] : List State.Label)

theorem not_mailbox_counted : ¬ ∀ n m q s, Reachable State.step (State.init n m) s →
    q < s.spawned → MailboxCounted n m q s := by
  intro h
  have hrun : (run State.step (State.init 0 2) underflowRun).isSome = true := rfl
  have hpushed := (h 0 2 0 _ (reachable_after hrun) Nat.one_pos).pushed
  have hcount : ((after State.step (State.init 0 2) underflowRun).queues 0).mailboxCount = -1 := rfl
  have haccepted :
      ((after State.step (State.init 0 2) underflowRun).queues 0).accepted.length = 1 := rfl
  rw [hcount, haccepted] at hpushed
  have hle : sizeT (-1) ≤ 1 := (Nat.le_add_right _ _).trans hpushed
  exact absurd hle (by decide)

end Measured

end SkynetCpp
