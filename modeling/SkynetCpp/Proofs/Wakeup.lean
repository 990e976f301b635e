import SkynetCpp.Proofs.ViewSim

/-!
# Somebody sees to the mailbox

As long as a queue is live, a message in its mailbox is somebody's business: a token or a worker,
a thread on its way to schedule the queue, or the worker that has just set the state to 0 and will
read `mailbox_count` once more. `Covered` says so also for a queue that has been killed, where a
thread may be about to drain it; there it is kept only by the steps that are `DrainSafe`.
-/

namespace SkynetCpp

open Op

/-- What a step must not do, to leave no message behind on a queue that is killed or whose
`on_init` failed: store state 0 after a drain while the mailbox holds a message again that no
thread is about to schedule; leave without the last look at the mailbox in the same situation;
finish a failed `spawn` with a message left, or add one later. -/
def DrainSafe (q : ActorQueue) (n : Counts) : Op → Prop
  | .storeIdle _ => q.mailbox = [] ∨ q.initialized = true ∧ 0 < n toSchedule
  | .recheckRequested => q.destroyRequested = true →
      q.mailbox = [] ∨ q.scheduleState ≠ .idle ∨ 0 < n toSchedule
  | .recheckReleasing => q.releasing = true →
      q.mailbox = [] ∨ q.scheduleState ≠ .idle ∨ 0 < n toSchedule
  | .clearOwner .spawn => q.mailbox = []
  | .pushEnqueue _ => q.initFailed = false ∨ q.spawnReturned = false
  | _ => True

instance (q : ActorQueue) (n : Counts) (o : Op) : Decidable (DrainSafe q n o) := by
  unfold DrainSafe
  split <;> infer_instance

/-- The count is no less than the mailbox, but for the threads between the two. -/
def Enough (q : ActorQueue) (n : Counts) : Prop :=
  (q.mailbox.length + n toSub : ℤ) ≤ q.mailboxCount + n toAdd

/-- The mailbox of a queue whose `spawn` has not returned, or has failed. -/
structure Waiting (q : ActorQueue) (n : Counts) : Prop where
  failed : q.initialized = false → q.spawnReturned = true → q.mailbox = []
  early : q.initialized = false → q.initFailed = false →
    Enough q n ∨ q.mailbox ≠ [] ∧ 0 < n killDrained

/-- Some thread sees to the mailbox. -/
def Covered (q : ActorQueue) (n : Counts) : Prop :=
  q.mailbox ≠ [] → q.scheduleState ≠ .idle ∨ 0 < n toSchedule ∨ 0 < n willIdle
    ∨ 0 < n spawnInit + n spawnDecide + n spawnSucceed + n spawnFail
    ∨ (0 < n rechecks ∨ 0 < n atCount) ∧ Enough q n

variable {q q' : ActorQueue} {n : Counts} {t tok : ℕ} {o : Op} {next : List Op}

theorem ne_nil_of_dequeue {i : ℕ} {m : Message} (h : q.canDequeue i = some m) :
    q.mailbox ≠ [] := by
  intro hm
  have := canDequeue_lt h
  simp [hm] at this

theorem toSub_le (hn : n.Lawful) :
    n toSub ≤ n hot + (n dispatchRest + (n spawnFail + n (site .kill))) := by
  have h1 : n toSub ≤ n hot + n fun o => o.dispatchRest || (o.spawnFail || o.site .kill) :=
    hn.le_add fun o ho => by
      cases o <;> (try cases ‹DrainSite›) <;>
        simp_all [toSub, hot, dispatchRest, spawnFail, site]
  have h2 : (n fun o => o.dispatchRest || (o.spawnFail || o.site .kill))
      ≤ n dispatchRest + n fun o => o.spawnFail || o.site .kill := hn.le_add fun o => by simp
  have h3 : (n fun o => o.spawnFail || o.site .kill) ≤ n spawnFail + n (site .kill) :=
    hn.le_add fun o => by simp
  omega

variable (q') in
theorem Waiting.frame {ops : List Op} (h : Waiting q (n.add ops)) (ops' : List Op)
    (hq : (q'.initialized, q'.spawnReturned, q'.mailbox, q'.initFailed, q'.mailboxCount)
      = (q.initialized, q.spawnReturned, q.mailbox, q.initFailed, q.mailboxCount))
    (hops : (ops'.countP toSub, ops'.countP toAdd, ops'.countP killDrained)
      = (ops.countP toSub, ops.countP toAdd, ops.countP killDrained)) :
    Waiting q' (n.add ops') := by
  obtain ⟨h1, h2⟩ := h
  simp only [Prod.mk.injEq] at hq hops
  obtain ⟨hini, hret, hmail, hfail, hcount⟩ := hq
  obtain ⟨hp1, hp2, hp3⟩ := hops
  constructor <;>
    simp only [Enough, Counts.add_apply, hini, hret, hmail, hfail, hcount, hp1, hp2, hp3] <;>
    assumption

variable (q') in
/-- Whoever saw to the mailbox still does. -/
theorem Covered.frame {ops : List Op} (h : Covered q (n.add ops)) (ops' : List Op)
    (hq : (q'.mailbox, q'.scheduleState, q'.mailboxCount)
      = (q.mailbox, q.scheduleState, q.mailboxCount))
    (hops : (ops'.countP toSchedule, ops'.countP willIdle, ops'.countP spawnInit,
        ops'.countP spawnDecide, ops'.countP spawnSucceed, ops'.countP spawnFail,
        ops'.countP rechecks, ops'.countP atCount, ops'.countP toSub, ops'.countP toAdd)
      = (ops.countP toSchedule, ops.countP willIdle, ops.countP spawnInit,
        ops.countP spawnDecide, ops.countP spawnSucceed, ops.countP spawnFail,
        ops.countP rechecks, ops.countP atCount, ops.countP toSub, ops.countP toAdd)) :
    Covered q' (n.add ops') := by
  simp only [Prod.mk.injEq] at hq hops
  obtain ⟨hmail, hstate, hcount⟩ := hq
  obtain ⟨hp1, hp2, hp3, hp4, hp5, hp6, hp7, hp8, hp9, hp10⟩ := hops
  simp only [Covered, Enough, Counts.add_apply, hmail, hstate, hcount, hp1, hp2, hp3, hp4, hp5,
    hp6, hp7, hp8, hp9, hp10]
  exact h

theorem Waiting.access (h : Waiting q (n.add [o])) (hn : n.Lawful)
    (hs : Sound q (n.add [o]) t) (hP : DrainSafe q (n.add [o]) o)
    (ha : o.Access q q' next tok) : Waiting q' (n.add next) := by
  have hframe := h.frame q' next
  obtain ⟨h1, h2⟩ := h
  have hr := hs.stages.returned
  have hf := hs.stages.fails
  have hb := hs.stages.before
  have hc := hs.stages.after
  have hk := hs.released.kill
  have hk1 := Bool.toNat_le q.killed
  have he := hs.scheduled.early
  have hm : n killDrained ≤ n (site .kill) := hn.mono fun o => by
    cases o <;> simp [killDrained, site]
  have ht := toSub_le hn
  clear hs hn
  cases ha <;> (try cases ‹SchedNext›) <;> (try cases ‹DrainSite›) <;> (try exact hframe rfl rfl) <;>
    clear hframe <;>
    simp only [Enough, DrainSafe, Counts.add_apply, countP_singleton, spawnFail, spawnInit,
      spawnDecide, spawnSucceed, atCount, site, killFlags, killMid, hot, cool, dispatchRest,
      insideRest, seenInit, holdsToken, toAdd, toSub, toSchedule, killDrained, willIdle,
      Bool.toNat_true, Bool.toNat_false, Nat.add_zero, reduceCtorEq, decide_true, decide_false] at hP hf hb hc hk he h1 h2 <;>
    constructor <;>
    (try simp only [Enough, Counts.add_apply, countP_singleton, List.countP_nil, SchedNext.ops,
      DrainSite.afterDrain, DrainSite.afterStore, DrainSite.afterClear, toAdd, toSub, killDrained,
      willIdle, Bool.toNat_true, Bool.toNat_false, Nat.add_zero, reduceCtorEq, decide_true,
      decide_false]) <;>
    first | assumption | grind -ring -linarith [length_dequeue, ne_nil_of_dequeue]

theorem Covered.access (h : Covered q (n.add [o])) (hw : Waiting q (n.add [o])) (hn : n.Lawful)
    (hs : Sound q (n.add [o]) t) (hP : DrainSafe q (n.add [o]) o)
    (ha : o.Access q q' next tok) : Covered q' (n.add next) := by
  have hframe := h.frame q' next
  obtain ⟨h1, h2⟩ := hw
  have hsp := hs.stages.spawn
  have hf := hs.stages.succeeds
  have hb := hs.stages.before
  have hc := hs.stages.after
  have hi := hs.stages.noIdle
  have hg := hs.counted.counted
  have hlen : q.mailbox ≠ [] → 0 < q.mailbox.length := List.length_pos_iff.2
  have hm : n toAdd ≤ n toSchedule := hn.mono fun o => by cases o <;> simp [toAdd, toSchedule]
  have hm' : n killDrained ≤ n willIdle := hn.mono fun o => by
    cases o <;> simp +contextual [killDrained, willIdle]
  clear hs hn
  cases ha <;> (try cases ‹SchedNext›) <;> (try cases ‹DrainSite›) <;> (try exact hframe rfl rfl) <;>
    clear hframe <;>
    simp only [Covered, Enough, DrainSafe, Counts.add_apply, countP_singleton, spawnFail,
      spawnInit, spawnDecide, spawnSucceed, atCount, site, idleAfterSpawn, cool, toAdd, toSub,
      toSchedule, killDrained, willIdle, rechecks, Bool.toNat_true, Bool.toNat_false,
      Nat.add_zero, reduceCtorEq, decide_true, decide_false] at hP hsp hf hb hc hi hg h h1 h2 <;>
    simp only [Covered, Enough, Counts.add_apply, countP_singleton, List.countP_nil,
      SchedNext.ops, DrainSite.afterDrain, DrainSite.afterStore, DrainSite.afterClear, spawnFail,
      spawnInit, spawnDecide, spawnSucceed, atCount, site, toAdd, toSub, toSchedule, willIdle,
      rechecks, Bool.toNat_true, Bool.toNat_false, Nat.add_zero, reduceCtorEq, decide_true,
      decide_false] <;>
    first | assumption | grind -ring -linarith [length_dequeue, ne_nil_of_dequeue]

/-- A queue whose actor has not been killed, nor failed to start. -/
def Live (q : ActorQueue) : Prop := q.killed = false ∧ q.initFailed = false

theorem Op.Access.live (ha : o.Access q q' next tok) (h : Live q') : Live q := by
  obtain ⟨h1, h2⟩ := h
  refine ⟨ha.same.2 ▸ h1, ?_⟩
  cases ha <;> first | exact h2 | cases h2

theorem Live.releasing (h : Live q) (hs : Sound q n t) : q.releasing = false := by
  by_contra hr
  rcases hs.released.cause (by simpa using hr) with hk | hf
  · exact Bool.false_ne_true (h.1.symm.trans hk)
  · exact Bool.false_ne_true (h.2.symm.trans hf)

/-- No thread drains a live queue, and none finds its flags set. -/
theorem Live.drainSafe (h : Live q) (hs : Sound q (n.add [o]) t) : DrainSafe q (n.add [o]) o := by
  have hrel := h.releasing hs
  have hpts : o.released = false := by
    by_contra ho
    rw [Bool.not_eq_false] at ho
    refine Bool.false_ne_true (hrel.symm.trans (hs.released.points ?_))
    simp [ho]
  cases o with
  | storeIdle k => cases hpts
  | clearOwner k => cases hpts
  | recheckRequested =>
    exact fun hr => absurd (hrel.symm.trans (hs.released.requested hr)) Bool.false_ne_true
  | recheckReleasing => exact fun hr => absurd (hrel.symm.trans hr) Bool.false_ne_true
  | pushEnqueue m => exact .inl h.2
  | _ => trivial

/-- `Sound`, and somebody sees to the mailbox. -/
structure Attended (q : ActorQueue) (n : Counts) (t : ℕ) : Prop where
  sound : Sound q n t
  waiting : Waiting q n
  covered : Covered q n

theorem attended_inductive : View.Inductive DrainSafe Attended where
  fresh h := by
    refine ⟨sound_inductive.fresh h, ⟨?_, ?_⟩, ?_⟩ <;>
      simp [Enough, Covered, toSub, toAdd]
  access hn ha hP h :=
    ⟨sound_inductive.access hn ha trivial h.sound, h.waiting.access hn h.sound hP ha,
      h.covered.access h.waiting hn h.sound hP ha⟩
  push m h := by
    obtain ⟨hs, ⟨h1, h2⟩, h3⟩ := h
    refine ⟨sound_inductive.push m hs, ⟨h1, ?_⟩, ?_⟩
    · simpa [Enough, toSub, toAdd, killDrained] using h2
    · simpa [Enough, Covered, toSub, toAdd, toSchedule, willIdle, spawnInit, spawnDecide,
        spawnSucceed, spawnFail, site, rechecks, atCount] using h3
  kill hk h := by
    obtain ⟨hs, ⟨h1, h2⟩, h3⟩ := h
    refine ⟨sound_inductive.kill hk hs, ⟨h1, ?_⟩, ?_⟩
    · simpa [Enough, toSub, toAdd, killDrained] using h2
    · simpa [Enough, Covered, toSub, toAdd, toSchedule, willIdle, spawnInit, spawnDecide,
        spawnSucceed, spawnFail, site, rechecks, atCount] using h3
  take h := by
    obtain ⟨hs, ⟨h1, h2⟩, h3⟩ := h
    refine ⟨sound_inductive.take hs, ⟨h1, ?_⟩, ?_⟩
    · simpa [Enough, toSub, toAdd, killDrained] using h2
    · simpa [Enough, Covered, toSub, toAdd, toSchedule, willIdle, spawnInit, spawnDecide,
        spawnSucceed, spawnFail, site, rechecks, atCount] using h3

/-- As long as the queue is live, every step is safe. -/
theorem live_inductive : View.Inductive (fun _ _ _ => True)
    (fun q n t => Sound q n t ∧ (Live q → Attended q n t)) where
  fresh h := ⟨sound_inductive.fresh h, fun _ => attended_inductive.fresh h⟩
  access hn ha hP h := ⟨sound_inductive.access hn ha hP h.1, fun hl =>
    attended_inductive.access hn ha ((ha.live hl).drainSafe h.1) (h.2 (ha.live hl))⟩
  push m h := ⟨sound_inductive.push m h.1, fun hl => attended_inductive.push m (h.2 hl)⟩
  kill hk h := ⟨sound_inductive.kill hk h.1, fun hl => absurd hl.1 (by simp)⟩
  take h := ⟨sound_inductive.take h.1, fun hl => attended_inductive.take (h.2 hl)⟩

end SkynetCpp
