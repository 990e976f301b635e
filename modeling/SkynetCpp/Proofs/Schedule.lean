import SkynetCpp.Proofs.Stages

/-!
# One token or one worker

`schedule_state` accounts for the tokens of a queue and the workers that dispatch it: state 1 for
a token, state 2 for a worker. Until `kill` destroys the actor itself, with no worker inside, there
is never more than one of either (`Exclusive`). The one worker that found the queue not releasing
therefore meets no drain, and where no drain can be, `mailbox_count` is the length of the mailbox
but for the threads between a queue operation and its count (`Counted`).
-/

namespace SkynetCpp

open Op

/-- How `schedule_state` accounts for the tokens of the queue and the workers in
`dispatch_queue`. -/
structure Scheduled (q : ActorQueue) (n : Counts) (t : ℕ) : Prop where
  early : q.initialized = false → q.scheduleState = .idle ∧ t = 0 ∧ n holdsToken = 0
    ∧ n hot + n cool + n dispatchRest + n insideRest + n seenInit = 0
  depth : q.dispatchDepth = (n hot + n cool + n insideRest : ℕ)
  queued : q.scheduleState = .queued → 1 ≤ t + n holdsToken
  busy : q.scheduleState = .dispatching → 1 ≤ n hot + n cool + n dispatchRest

/-- One token or one worker, until `kill` drains the queue itself. -/
structure Exclusive (q : ActorQueue) (n : Counts) (t : ℕ) : Prop where
  one : q.direct = false → t + n holdsToken + (n hot + n cool + n dispatchRest) ≤ 1
  idle : q.direct = false → q.scheduleState = .idle →
    t + n holdsToken + (n hot + n cool + n dispatchRest) = 0
  atKill : q.direct = true → n hot + n cool = 0

/-- The mailbox and its count, as long as no drain can be. -/
structure Counted (q : ActorQueue) (n : Counts) : Prop where
  quiet : 0 < n cool → n drains = 0
  counted : q.releasing = false ∨ 0 < n cool →
    (q.mailbox.length + n toSub : ℤ) = q.mailboxCount + n toAdd

theorem canDequeue_lt {q : ActorQueue} {i : ℕ} {m : Message} (h : q.canDequeue i = some m) :
    i < q.mailbox.length := by
  by_contra hi
  simp [ActorQueue.canDequeue, List.getElem?_eq_none (not_lt.1 hi)] at h

theorem length_dequeue {q : ActorQueue} {i : ℕ} {m : Message} (h : q.canDequeue i = some m) :
    (q.mailbox.eraseIdx i).length + 1 = q.mailbox.length := by
  have hi := canDequeue_lt h
  rw [List.length_eraseIdx, if_pos hi]
  omega

theorem ScheduleState.cases (s : ScheduleState) : s = .idle ∨ s = .queued ∨ s = .dispatching := by
  cases s <;> simp

variable {q q' : ActorQueue} {n : Counts} {t tok : ℕ} {o : Op} {next : List Op}

variable (q' tok) in
/-- Tokens and workers are as many as before. -/
theorem Scheduled.frame {ops : List Op} (h : Scheduled q (n.add ops) t) (ops' : List Op)
    (hq : (q'.initialized, q'.scheduleState, q'.dispatchDepth, tok)
      = (q.initialized, q.scheduleState, q.dispatchDepth, 0))
    (hops : (ops'.countP holdsToken, ops'.countP hot, ops'.countP cool, ops'.countP dispatchRest,
        ops'.countP insideRest, ops'.countP seenInit)
      = (ops.countP holdsToken, ops.countP hot, ops.countP cool, ops.countP dispatchRest,
        ops.countP insideRest, ops.countP seenInit)) : Scheduled q' (n.add ops') (t + tok) := by
  obtain ⟨h1, h2, h3, h4⟩ := h
  simp only [Prod.mk.injEq] at hq hops
  obtain ⟨hini, hstate, hdepth, rfl⟩ := hq
  obtain ⟨hp1, hp2, hp3, hp4, hp5, hp6⟩ := hops
  constructor <;>
    simp only [Counts.add_apply, hini, hstate, hdepth, hp1, hp2, hp3, hp4, hp5, hp6,
      Nat.add_zero] <;>
    assumption

theorem Scheduled.access (h : Scheduled q (n.add [o]) t) (ha : o.Access q q' next tok) :
    Scheduled q' (n.add next) (t + tok) := by
  have hframe := h.frame q' tok next
  obtain ⟨h1, h2, h3, h4⟩ := h
  cases ha <;> (try cases ‹SchedNext›) <;> (try cases ‹DrainSite›) <;> (try exact hframe rfl rfl) <;>
    clear hframe <;>
    simp only [Counts.add_apply, countP_singleton, hot, cool, dispatchRest, insideRest, seenInit,
      holdsToken, Bool.toNat_true, Bool.toNat_false, Nat.add_zero, reduceCtorEq,
      decide_true, decide_false] at h1 h2 h3 h4 <;>
    constructor <;>
    (try simp only [Counts.add_apply, countP_singleton, List.countP_nil, SchedNext.ops,
      DrainSite.afterDrain, DrainSite.afterStore, DrainSite.afterClear, hot, cool, dispatchRest,
      insideRest, seenInit, holdsToken, Bool.toNat_true, Bool.toNat_false, Nat.add_zero,
      reduceCtorEq]) <;>
    first | assumption | grind -ring -linarith

variable (q' tok) in
theorem Exclusive.frame {ops : List Op} (h : Exclusive q (n.add ops) t) (ops' : List Op)
    (hq : (q'.direct, q'.scheduleState, tok) = (q.direct, q.scheduleState, 0))
    (hops : (ops'.countP holdsToken, ops'.countP hot, ops'.countP cool, ops'.countP dispatchRest)
      = (ops.countP holdsToken, ops.countP hot, ops.countP cool, ops.countP dispatchRest)) :
    Exclusive q' (n.add ops') (t + tok) := by
  obtain ⟨h1, h2, h3⟩ := h
  simp only [Prod.mk.injEq] at hq hops
  obtain ⟨hdirect, hstate, rfl⟩ := hq
  obtain ⟨hp1, hp2, hp3, hp4⟩ := hops
  constructor <;>
    simp only [Counts.add_apply, hdirect, hstate, hp1, hp2, hp3, hp4, Nat.add_zero] <;>
    assumption

theorem Exclusive.access (h : Exclusive q (n.add [o]) t) (hb : Stages q (n.add [o]))
    (hr : Released q (n.add [o])) (hs : Scheduled q (n.add [o]) t)
    (ha : o.Access q q' next tok) : Exclusive q' (n.add next) (t + tok) := by
  have hframe := h.frame q' tok next
  obtain ⟨h1, h2, h3⟩ := h
  have hk := hr.direct
  have hp := hr.fromKill
  have hd := hs.depth
  have hq := hs.queued
  have hw := hs.busy
  have he := hs.early
  replace hb := hb.noIdle
  clear hs hr
  have hst := q.scheduleState.cases
  cases ha <;> (try cases ‹SchedNext›) <;> (try cases ‹DrainSite›) <;> (try exact hframe rfl rfl) <;>
    clear hframe <;>
    simp only [Counts.add_apply, countP_singleton, idleAfterSpawn, site, hot, cool, dispatchRest,
      insideRest, holdsToken, seenInit, Bool.toNat_true, Bool.toNat_false, Nat.add_zero, reduceCtorEq,
      decide_true, decide_false] at hb hp hd hq hw he h1 h2 h3 <;>
    constructor <;>
    (try simp only [Counts.add_apply, countP_singleton, List.countP_nil, SchedNext.ops,
      DrainSite.afterDrain, DrainSite.afterStore, DrainSite.afterClear, hot, cool, dispatchRest,
      holdsToken, Bool.toNat_true, Bool.toNat_false, Nat.add_zero, reduceCtorEq]) <;>
    first | assumption | grind -ring -linarith

variable (q') in
theorem Counted.frame {ops : List Op} (h : Counted q (n.add ops)) (ops' : List Op)
    (hq : (q'.releasing, q'.mailbox, q'.mailboxCount) = (q.releasing, q.mailbox, q.mailboxCount))
    (hops : (ops'.countP cool, ops'.countP drains, ops'.countP toSub, ops'.countP toAdd)
      = (ops.countP cool, ops.countP drains, ops.countP toSub, ops.countP toAdd)) :
    Counted q' (n.add ops') := by
  obtain ⟨h1, h2⟩ := h
  simp only [Prod.mk.injEq] at hq hops
  obtain ⟨hrel, hmail, hcount⟩ := hq
  obtain ⟨hp1, hp2, hp3, hp4⟩ := hops
  constructor <;>
    simp only [Counts.add_apply, hrel, hmail, hcount, hp1, hp2, hp3, hp4] <;>
    assumption

theorem Counted.access (h : Counted q (n.add [o])) (hb : Stages q (n.add [o]))
    (hr : Released q (n.add [o])) (hs : Scheduled q (n.add [o]) t)
    (he : Exclusive q (n.add [o]) t) (ha : o.Access q q' next tok) :
    Counted q' (n.add next) := by
  have hframe := h.frame q' next
  obtain ⟨h1, h2⟩ := h
  replace hb := hb.not_initialized
  replace hr := hr.draining
  have hd := hs.depth
  have hi := hs.early
  have hx := he.one
  have hk := he.atKill
  clear hs he
  have hc := Bool.eq_false_or_eq_true q.direct
  cases ha <;> (try cases ‹SchedNext›) <;> (try cases ‹DrainSite›) <;> (try exact hframe rfl rfl) <;>
    clear hframe <;>
    simp only [Counts.add_apply, countP_singleton, spawnFail, site, hot, cool, dispatchRest,
      insideRest, seenInit, toAdd, toSub, drains, holdsToken, Bool.toNat_true, Bool.toNat_false, Nat.add_zero, reduceCtorEq,
      decide_true, decide_false] at hb hr hd hi hx hk h1 h2 <;>
    constructor <;>
    (try simp only [Counts.add_apply, countP_singleton, List.countP_nil, SchedNext.ops,
      DrainSite.afterDrain, DrainSite.afterStore, DrainSite.afterClear, cool, toAdd, toSub, drains,
      Bool.toNat_true, Bool.toNat_false, Nat.add_zero, reduceCtorEq]) <;>
    first | assumption | grind -ring -linarith [length_dequeue]

/-- What holds of a queue at any moment. -/
structure Sound (q : ActorQueue) (n : Counts) (t : ℕ) : Prop where
  stages : Stages q n
  released : Released q n
  scheduled : Scheduled q n t
  exclusive : Exclusive q n t
  counted : Counted q n

theorem sound_inductive : View.Inductive (fun _ _ _ => True) Sound where
  fresh h := by
    refine ⟨.fresh h, .fresh h, ?_, ?_, ?_⟩ <;> constructor <;>
      simp [hot, cool, dispatchRest, insideRest, seenInit, holdsToken, drains, toAdd, toSub]
  access _ ha _ h :=
    ⟨h.stages.access ha, h.released.access h.stages ha, h.scheduled.access ha,
      h.exclusive.access h.stages h.released h.scheduled ha,
      h.counted.access h.stages h.released h.scheduled h.exclusive ha⟩
  push m h := by
    obtain ⟨hs, hr, ⟨h1, h2, h3, h4⟩, ⟨h5, h6, h7⟩, ⟨h8, h9⟩⟩ := h
    refine ⟨hs.enter _ rfl rfl rfl rfl rfl rfl, hr.enter _ rfl rfl rfl rfl rfl rfl, ?_, ?_, ?_⟩ <;>
      constructor <;>
      simp_all [hot, cool, dispatchRest, insideRest, seenInit, holdsToken, drains, toAdd, toSub]
  kill hk h := by
    obtain ⟨hs, hr, ⟨h1, h2, h3, h4⟩, ⟨h5, h6, h7⟩, ⟨h8, h9⟩⟩ := h
    refine ⟨?_, hr.killed hk, ?_, ?_, ?_⟩
    · obtain ⟨g1, g2, g3, g4, g5, g6, g7, g8⟩ := hs.enter .killAccepting rfl rfl rfl rfl rfl rfl
      exact ⟨g1, g2, g3, g4, g5, g6, g7, g8⟩
    all_goals constructor <;>
      simp_all [hot, cool, dispatchRest, insideRest, seenInit, holdsToken, drains, toAdd, toSub]
  take h := by
    obtain ⟨hs, hr, ⟨h1, h2, h3, h4⟩, ⟨h5, h6, h7⟩, ⟨h8, h9⟩⟩ := h
    refine ⟨hs.enter _ rfl rfl rfl rfl rfl rfl, hr.enter _ rfl rfl rfl rfl rfl rfl, ?_, ?_, ?_⟩
    · constructor <;>
        simp only [Counts.add_apply, countP_singleton, hot, cool, dispatchRest, insideRest, seenInit,
          holdsToken, Bool.toNat_true, Bool.toNat_false, Nat.add_zero] <;> grind
    · constructor <;>
        simp only [Counts.add_apply, countP_singleton, hot, cool, dispatchRest, holdsToken,
          Bool.toNat_true, Bool.toNat_false, Nat.add_zero] <;> grind
    · constructor <;> simpa [cool, drains, toAdd, toSub]

theorem View.sound {h : Handle} {v : View} (hv : Lib.Reachable View.step (View.fresh h) v) :
    Sound v.queue v.num v.tokens :=
  sound_inductive.invariant (hv.mono fun _ l _ => by cases l <;> trivial)

end SkynetCpp
