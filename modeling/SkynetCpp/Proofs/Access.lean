import SkynetCpp.QueueView

/-!
# What one access can do

`Op.Access q o q' next tok`: at the point `o`, on the queue `q`, the code can leave `q'` behind,
go on at `next`, and add `tok` tokens to the global queue. `Op.exec_access` says that it leaves
nothing out. The invariants of a queue are proved by cases on it: `View.Inductive` says what is to
be shown of each, and `View.Inductive.invariant` what follows.
-/

namespace SkynetCpp

namespace Op

inductive Access (q : ActorQueue) : Op → ActorQueue → List Op → ℕ → Prop
  | pushAccepted {m : Message} : q.accepting = true →
      Access q (.pushAccepting m) { q with accepted := m :: q.accepted } [.pushEnqueue m] 0
  | pushRejected {m : Message} : q.accepting = false →
      Access q (.pushAccepting m)
        { q with rejected := m :: q.rejected, errors := errorFor m ++ q.errors } [] 0
  | pushEnqueue {m : Message} {tid : ℕ} :
      Access q (.pushEnqueue m) { q with mailbox := q.mailbox ++ [⟨tid, m⟩] } [.pushCount] 0
  | pushCount :
      Access q .pushCount
        { q with mailboxCount := q.mailboxCount + 1 } [.pushThreshold (sizeT (q.mailboxCount + 1))] 0
  | pushAbove {n t : ℕ} : Access q (.pushThreshold n) q [.pushOverload n t] 0
  | pushBelow {n : ℕ} : Access q (.pushThreshold n) q [.pushInitialized] 0
  | pushOverload {n t t' : ℕ} :
      Access q (.pushOverload n t) { q with overloadThreshold := t' } [.pushInitialized] 0
  | pushRetry {n t t' : ℕ} : Access q (.pushOverload n t) q [.pushOverload n t'] 0
  | pushRaised {n t : ℕ} : Access q (.pushOverload n t) q [.pushInitialized] 0
  | pushSchedule : q.initialized = true → Access q .pushInitialized q [.scheduleInitialized .ret] 0
  | pushDone : q.initialized = false → Access q .pushInitialized q [] 0
  | schedule {k : SchedNext} : q.initialized = true →
      Access q (.scheduleInitialized k) q [.scheduleCas k] 0
  | scheduleSkip {k : SchedNext} : q.initialized = false →
      Access q (.scheduleInitialized k) q k.ops 0
  | scheduleCas {k : SchedNext} : q.scheduleState = .idle →
      Access q (.scheduleCas k) { q with scheduleState := .queued } [.enqueueGlobal k] 0
  | scheduleBusy {k : SchedNext} : q.scheduleState ≠ .idle → Access q (.scheduleCas k) q k.ops 0
  | enqueueGlobal {k : SchedNext} : Access q (.enqueueGlobal k) q k.ops 1
  | killAccepting : Access q .killAccepting { q with accepting := false } [.killReleasing] 0
  | killReleasing : Access q .killReleasing { q with releasing := true } [.killOwner] 0
  | killOwned : q.owner = true → Access q .killOwner q [.killRequest] 0
  | killUnowned : q.owner = false → Access q .killOwner q [.scheduleInitialized .ret] 0
  | killRequest : Access q .killRequest { q with destroyRequested := true } [.killDepth] 0
  | killDirect : q.dispatchDepth = 0 →
      Access q .killDepth { q with direct := true } [.drain .kill] 0
  | killDeferred : q.dispatchDepth ≠ 0 → Access q .killDepth q [.scheduleInitialized .ret] 0
  | drain {k : DrainSite} {i : ℕ} {m : Message} : q.canDequeue i = some m →
      Access q (.drain k)
        { q with mailbox := q.mailbox.eraseIdx i, drained := m :: q.drained } [.drainCount k m] 0
  | drainEmpty {k : DrainSite} : q.mailbox = [] → Access q (.drain k) q [.drainStore k] 0
  | drainCount {k : DrainSite} {m : Message} :
      Access q (.drainCount k m)
        { q with mailboxCount := q.mailboxCount - 1, errors := errorFor m ++ q.errors } [.drain k] 0
  | drainStore {k : DrainSite} :
      Access q (.drainStore k) { q with mailboxCount := 0 } k.afterDrain 0
  | storeIdle {k : DrainSite} :
      Access q (.storeIdle k) { q with scheduleState := .idle } k.afterStore 0
  | destroyAgain {k : DrainSite} : q.destroyed = true →
      Access q (.destroyActor k) q [.clearOwner k] 0
  | destroy {k : DrainSite} : q.destroyed = false →
      Access q (.destroyActor k)
        { q with destroyed := true, destroyRuns := q.destroyRuns + 1 } [.onDestroy k] 0
  | onDestroy {k : DrainSite} : Access q (.onDestroy k) q [.onDestroy k] 0
  | onDestroyDone {k : DrainSite} : Access q (.onDestroy k) q [.clearOwner k] 0
  | clearOwner {k : DrainSite} :
      Access q (.clearOwner k)
        { q with owner := false, spawnReturned := q.spawnReturned || k = .spawn } k.afterClear 0
  | dispatchQueued : q.scheduleState = .queued → Access q .dispatchState q [.dispatchCas] 0
  | dispatchAgain : q.scheduleState = .dispatching → Access q .dispatchState q [.dispatchOwner] 0
  | dispatchStale : q.scheduleState = .idle → Access q .dispatchState q [] 0
  | dispatchCas : q.scheduleState = .queued →
      Access q .dispatchCas { q with scheduleState := .dispatching } [.dispatchOwner] 0
  | dispatchLost : q.scheduleState ≠ .queued → Access q .dispatchCas q [] 0
  | dispatchOwned : q.owner = true → Access q .dispatchOwner q [.dispatchEnter] 0
  | dispatchUnowned : q.owner = false → Access q .dispatchOwner q [.drain .noOwner] 0
  | dispatchEnter :
      Access q .dispatchEnter
        { q with dispatchDepth := q.dispatchDepth + 1 } [.dispatchReleasing] 0
  | entryReleasing : q.releasing = true → Access q .dispatchReleasing q [.drain .entry] 0
  | entryLive : q.releasing = false → Access q .dispatchReleasing q [.dispatchRequested] 0
  | entryRequested : q.destroyRequested = true → Access q .dispatchRequested q [.drain .entry] 0
  | entryUnrequested : q.destroyRequested = false →
      Access q .dispatchRequested q [.dispatchBatch] 0
  | dispatchBatch {b : ℕ} : Access q .dispatchBatch q [.batchRequested 0 b] 0
  | dispatchNothing : Access q .dispatchBatch q [.exitReleasing] 0
  | batchStop {c b : ℕ} : q.destroyRequested = true →
      Access q (.batchRequested c b) q [.exitReleasing] 0
  | batchRequested {c b : ℕ} : q.destroyRequested = false →
      Access q (.batchRequested c b) q [.batchReleasing c b] 0
  | batchReleased {c b : ℕ} : q.releasing = true →
      Access q (.batchReleasing c b) q [.exitReleasing] 0
  | batchReleasing {c b : ℕ} : q.releasing = false →
      Access q (.batchReleasing c b) q [.batchDequeue c b] 0
  | batchDequeue {c b i : ℕ} {m : Message} : q.canDequeue i = some m →
      Access q (.batchDequeue c b) { q with mailbox := q.mailbox.eraseIdx i } [.batchCount c b m] 0
  | batchEmpty {c b : ℕ} : q.mailbox = [] → Access q (.batchDequeue c b) q [.exitReleasing] 0
  | batchCount {c b : ℕ} {m : Message} :
      Access q (.batchCount c b m)
        { q with mailboxCount := q.mailboxCount - 1 } [.batchMessage c b m] 0
  | batchMessage {c b : ℕ} {m : Message} :
      Access q (.batchMessage c b m) { q with handed := m :: q.handed } [.onMessage c b m] 0
  | onMessage {c b : ℕ} {m : Message} : Access q (.onMessage c b m) q [.onMessage c b m] 0
  | onMessageDone {c b : ℕ} {m : Message} :
      Access q (.onMessage c b m) q [.batchRequested (c + 1) b] 0
  | onMessageLast {c b : ℕ} {m : Message} : Access q (.onMessage c b m) q [.exitReleasing] 0
  | exitReleased : q.releasing = true → Access q .exitReleasing q [.drain .exit] 0
  | exitReleasing : q.releasing = false → Access q .exitReleasing q [.exitRequested] 0
  | exitStop : q.destroyRequested = true → Access q .exitRequested q [.drain .exit] 0
  | exitRequested : q.destroyRequested = false → Access q .exitRequested q [.exitCount] 0
  | exitPending : q.mailboxCount ≠ 0 → Access q .exitCount q [.exitQueue] 0
  | exitEmpty : q.mailboxCount = 0 → Access q .exitCount q [.exitIdle] 0
  | exitQueue : Access q .exitQueue { q with scheduleState := .queued } [.enqueueGlobal .leave] 0
  | exitIdle : Access q .exitIdle { q with scheduleState := .idle } [.exitThreshold] 0
  | exitThreshold :
      Access q .exitThreshold
        { q with overloadThreshold := OVERLOAD_THRESHOLD } [.recheckRequested] 0
  | recheckStop : q.destroyRequested = true → Access q .recheckRequested q [.leave] 0
  | recheckRequested : q.destroyRequested = false →
      Access q .recheckRequested q [.recheckReleasing] 0
  | recheckReleased : q.releasing = true → Access q .recheckReleasing q [.leave] 0
  | recheckReleasing : q.releasing = false → Access q .recheckReleasing q [.recheckCount] 0
  | recheckPending : q.mailboxCount ≠ 0 → Access q .recheckCount q [.scheduleInitialized .leave] 0
  | recheckEmpty : q.mailboxCount = 0 → Access q .recheckCount q [.leave] 0
  | leaveLast : q.dispatchDepth = 1 →
      Access q .leave { q with dispatchDepth := q.dispatchDepth - 1 } [.leaveRequested] 0
  | leave : q.dispatchDepth ≠ 1 →
      Access q .leave { q with dispatchDepth := q.dispatchDepth - 1 } [] 0
  | leaveStop : q.destroyRequested = true → Access q .leaveRequested q [.destroyActor .exit] 0
  | leaveRequested : q.destroyRequested = false → Access q .leaveRequested q [.leaveReleasing] 0
  | leaveReleased : q.releasing = true → Access q .leaveReleasing q [.destroyActor .exit] 0
  | leaveReleasing : q.releasing = false → Access q .leaveReleasing q [] 0
  | leaveDestroyLast : q.dispatchDepth = 1 →
      Access q .leaveDestroy
        { q with dispatchDepth := q.dispatchDepth - 1 } [.destroyActor .entry] 0
  | leaveDestroy : q.dispatchDepth ≠ 1 →
      Access q .leaveDestroy { q with dispatchDepth := q.dispatchDepth - 1 } [] 0
  | spawnRegister : Access q .spawnRegister q [.onInit] 0
  | onInit : Access q .onInit q [.onInit] 0
  | onInitFail : Access q .onInit { q with initFailed := true } [.onInit] 0
  | onInitDone : Access q .onInit { q with initReturned := true } [.spawnFailed] 0
  | onInitThrow : Access q .onInit { q with initReturned := true } [.spawnMark] 0
  | spawnMark : Access q .spawnMark { q with initFailed := true } [.spawnFailed] 0
  | spawnFailed : q.initFailed = true → Access q .spawnFailed q [.spawnErase] 0
  | spawnSucceeded : q.initFailed = false → Access q .spawnFailed q [.spawnInitialized] 0
  | spawnErase : Access q .spawnErase q [.spawnAccepting] 0
  | spawnAccepting : Access q .spawnAccepting { q with accepting := false } [.spawnReleasing] 0
  | spawnReleasing : Access q .spawnReleasing { q with releasing := true } [.drain .spawn] 0
  | spawnInitialized : Access q .spawnInitialized { q with initialized := true } [.spawnCount] 0
  | spawnSchedule : q.mailboxCount ≠ 0 →
      Access q .spawnCount { q with spawnReturned := true } [.scheduleInitialized .ret] 0
  | spawnDone : q.mailboxCount = 0 → Access q .spawnCount { q with spawnReturned := true } [] 0

theorem exec_access {tid : ℕ} {weight : ℤ} {q : ActorQueue} {o : Op} {c : Choice} {r : OpResult}
    (h : o.exec tid weight q c = some r) : Access q o r.queue r.next r.shared.tokens := by
  -- at each point all choices but a few are none
  cases o <;> cases c <;> (try (cases h; done))
  case dispatchState.go =>
    simp only [exec] at h
    cases hs : q.scheduleState <;> rw [hs] at h <;> cases h <;> constructor <;> exact hs
  case drain.pick | batchDequeue.pick =>
    obtain ⟨m, hm, rfl⟩ := Option.map_eq_some_iff.1 h
    constructor
    exact hm
  case pushThreshold.go | pushOverload.spurious =>
    cases h
    simp only [overloadRound]
    split_ifs <;> constructor
  case pushOverload.go =>
    simp only [exec, overloadRound] at h
    split_ifs at h <;> cases h <;> constructor
  case dispatchBatch.go | onMessage.ret | onMessage.throw =>
    cases h
    simp only [nextRound]
    split_ifs <;> constructor
  all_goals
    first
    | (cases h; constructor)
    | (simp only [exec] at h
       (try split_ifs at h) <;> cases h <;> constructor <;> simp_all [ActorQueue.hasPending])

/-- No access touches the handle, or takes the queue out of the registry as `kill` does. -/
theorem Access.same {q q' : ActorQueue} {o : Op} {next : List Op} {tok : ℕ}
    (h : o.Access q q' next tok) : q'.handle = q.handle ∧ q'.killed = q.killed := by
  cases h <;> exact ⟨rfl, rfl⟩

theorem Access.not_register {q q' : ActorQueue} {o : Op} {next : List Op} {tok : ℕ}
    (h : o.Access q q' next tok) : Op.spawnRegister ∉ next := by
  cases h <;> (try cases ‹SchedNext›) <;> (try cases ‹DrainSite›) <;>
    simp [SchedNext.ops, DrainSite.afterDrain, DrainSite.afterStore, DrainSite.afterClear]

/-- Only `spawn` registers. -/
theorem exec_register {tid : ℕ} {weight : ℤ} {q : ActorQueue} {o : Op} {c : Choice} {r : OpResult}
    (h : o.exec tid weight q c = some r) (hr : r.shared = .register) : o = .spawnRegister := by
  by_contra ho
  cases o <;> cases c <;> (try (cases h; done))
  case spawnRegister.go => exact ho rfl
  case dispatchState.go =>
    simp only [exec] at h
    cases hs : q.scheduleState <;> rw [hs] at h <;> cases h <;> cases hr
  case drain.pick | batchDequeue.pick =>
    obtain ⟨m, hm, rfl⟩ := Option.map_eq_some_iff.1 h
    cases hr
  all_goals
    first
    | (cases h; cases hr)
    | (simp only [exec] at h
       (try split_ifs at h) <;> cases h <;> cases hr)

end Op

namespace View

open Lib

variable {P : ActorQueue → Counts → Op → Prop} {I : ActorQueue → Counts → ℕ → Prop}

/-- `I` holds of a fresh queue and is kept by every step, the steps of the queue's own code under
`P`. -/
structure Inductive (P : ActorQueue → Counts → Op → Prop) (I : ActorQueue → Counts → ℕ → Prop) :
    Prop where
  fresh : ∀ h, I { handle := h } (Counts.of [.spawnRegister]) 0
  access : ∀ {q : ActorQueue} {n : Counts} {t : ℕ} {o : Op} {q' : ActorQueue} {next : List Op}
    {tok : ℕ}, n.Lawful → o.Access q q' next tok → P q (n.add [o]) o → I q (n.add [o]) t →
    I q' (n.add next) (t + tok)
  push : ∀ {q : ActorQueue} {n : Counts} {t : ℕ} (m : Message), I q n t →
    I q (n.add [.pushAccepting m]) t
  kill : ∀ {q : ActorQueue} {n : Counts} {t : ℕ}, q.killed = false → I q n t →
    I { q with killed := true } (n.add [.killAccepting]) t
  take : ∀ {q : ActorQueue} {n : Counts} {t : ℕ}, I q n (t + 1) → I q (n.add [.dispatchState]) t

theorem num_fresh (h : Handle) : (fresh h).num = .of [.spawnRegister] := by
  funext p
  simp [num, countsOf, fresh, Counts.of, ← Multiset.coe_singleton, Multiset.coe_countP]

theorem Inductive.invariant (hI : Inductive P I) {h : Handle} {v : View}
    (hv : Reaches View.step (Meets P) (View.fresh h) v) : I v.queue v.num v.tokens := by
  induction hv with
  | refl =>
    rw [num_fresh]
    exact hI.fresh h
  | @tail v v' l hr hP hs ih =>
    cases l with
    | op o tid weight c =>
      obtain ⟨r, hx, hq, ht, n, hm, hn, hn'⟩ := step_op hs
      simp only [Meets, hn] at hP
      rw [hn] at ih
      rw [hq, ht, hn']
      exact hI.access hm (Op.exec_access hx) hP ih
    | push m =>
      cases hs
      rw [num_cons]
      exact hI.push m ih
    | kill =>
      simp only [step] at hs
      split_ifs at hs with hk
      cases hs
      rw [num_cons]
      exact hI.kill (by simpa using hk) ih
    | take =>
      simp only [step] at hs
      split at hs
      · cases hs
      · next k hk =>
        cases hs
        rw [hk] at ih
        rw [num_cons]
        exact hI.take ih

end View

end SkynetCpp
