import SkynetCpp.Message

/-!
# The code that runs on one actor's queue

An `ActorQueue` and the actor it owns, and what `push_message`, `schedule_queue`,
`enqueue_global`, `kill`, `drain_queue`, `destroy_actor`, `dispatch_queue` and `spawn` do to them,
one atomic access at a time. An `Op` is a point of one of these functions, with the locals still
needed and, where a function is called from several places, what follows the call. `Op.exec` is
the access made there.

The `WorkerMonitor` calls around `on_message` are left out: nothing here reads what they write.

A mailbox remembers which thread enqueued each message: `try_dequeue` may take any message none
of whose producer's earlier ones is left, and fails on an empty mailbox only.
-/

namespace SkynetCpp

/-- A message in a mailbox and the thread that enqueued it. -/
structure Entry where
  producer : ℕ
  msg : Message
  deriving DecidableEq, Repr

/-- The three values of `schedule_state`. -/
inductive ScheduleState
  /-- 0 -/
  | idle
  /-- 1: queued in the global queue -/
  | queued
  /-- 2: currently dispatching -/
  | dispatching
  deriving DecidableEq, Repr

/-- `ActorSystem::OVERLOAD_THRESHOLD` -/
def OVERLOAD_THRESHOLD : ℕ := 1024

/-- An `ActorQueue`, the `Actor` of the same `spawn`, and the history of the queue. -/
structure ActorQueue where
  handle : Handle
  mailbox : List Entry := []
  /-- A `size_t`: what a load reads is this modulo `2^64` (`sizeT`). -/
  mailboxCount : ℤ := 0
  overloadThreshold : ℕ := OVERLOAD_THRESHOLD
  scheduleState : ScheduleState := .idle
  accepting : Bool := true
  releasing : Bool := false
  initialized : Bool := false
  /-- `owner` is not null. -/
  owner : Bool := true
  /-- `Actor::dispatch_depth_` and the actor's other flags. -/
  dispatchDepth : ℤ := 0
  destroyRequested : Bool := false
  destroyed : Bool := false
  initFailed : Bool := false
  /-- History: the messages that passed the `accepting` check, those handed to `on_message`, those
  removed by `drain_queue`, those the check refused, and the errors sent for the last two. -/
  accepted : List Message := []
  handed : List Message := []
  drained : List Message := []
  rejected : List Message := []
  errors : List (Handle × Message) := []
  /-- History: `kill` has taken the queue from the registry, `on_init` has returned, `spawn` has,
  `kill` has read a `dispatch_depth_` of 0, and how often `on_destroy` was entered. -/
  killed : Bool := false
  initReturned : Bool := false
  spawnReturned : Bool := false
  direct : Bool := false
  destroyRuns : ℕ := 0
  deriving DecidableEq, Repr

/-- What a load of a `size_t` counter reads. -/
def sizeT (n : ℤ) : ℕ := (n % 2 ^ 64).toNat

/-- `count.load() > 0`. The counter runs through the integers: to be a multiple of `2^64` other
than 0 it would take that many messages in memory. A transient `-1` is a huge positive number. -/
def ActorQueue.hasPending (q : ActorQueue) : Bool := q.mailboxCount ≠ 0

/-- No earlier message of the producer of the message at `i` is left. -/
def ActorQueue.canDequeue (q : ActorQueue) (i : ℕ) : Option Message :=
  match q.mailbox[i]? with
  | some e => if (q.mailbox.take i).any (·.producer = e.producer) then none else some e.msg
  | none => none

/-- What follows a call of `schedule_queue` or `enqueue_global`: nothing, or the end of
`dispatch_queue`. -/
inductive SchedNext
  | ret
  | leave
  deriving DecidableEq, Repr

/-- The calls of `drain_queue`: in `kill`, in the branches of `dispatch_queue` without an owner,
at the start and at the end, and in `spawn` after `on_init` failed. -/
inductive DrainSite
  | kill
  | noOwner
  | entry
  | exit
  | spawn
  deriving DecidableEq, Repr

/-- A point of the code that runs on a queue. -/
inductive Op
  -- push_message, from the check of `accepting` on
  | pushAccepting (m : Message)
  | pushEnqueue (m : Message)
  | pushCount
  | pushThreshold (qsize : ℕ)
  | pushOverload (qsize threshold : ℕ)
  | pushInitialized
  -- schedule_queue and the `global_queue_.enqueue` of enqueue_global
  | scheduleInitialized (k : SchedNext)
  | scheduleCas (k : SchedNext)
  | enqueueGlobal (k : SchedNext)
  -- kill, once the queue is out of the registry
  | killAccepting
  | killReleasing
  | killOwner
  | killRequest
  | killDepth
  -- drain_queue and, in dispatch_queue and kill, the reset of `schedule_state` after it
  | drain (k : DrainSite)
  | drainCount (k : DrainSite) (m : Message)
  | drainStore (k : DrainSite)
  | storeIdle (k : DrainSite)
  -- destroy_actor and clear_queue_owner
  | destroyActor (k : DrainSite)
  | onDestroy (k : DrainSite)
  | clearOwner (k : DrainSite)
  -- dispatch_queue, from the worker's dequeue of the token on
  | dispatchState
  | dispatchCas
  | dispatchOwner
  | dispatchEnter
  | dispatchReleasing
  | dispatchRequested
  | dispatchBatch
  | batchRequested (count batch : ℕ)
  | batchReleasing (count batch : ℕ)
  | batchDequeue (count batch : ℕ)
  | batchCount (count batch : ℕ) (m : Message)
  | batchMessage (count batch : ℕ) (m : Message)
  | onMessage (count batch : ℕ) (m : Message)
  | exitReleasing
  | exitRequested
  | exitCount
  | exitQueue
  | exitIdle
  | exitThreshold
  | recheckRequested
  | recheckReleasing
  | recheckCount
  | leave
  | leaveRequested
  | leaveReleasing
  | leaveDestroy
  -- spawn, from the registration on
  | spawnRegister
  | onInit
  | spawnMark
  | spawnFailed
  | spawnErase
  | spawnAccepting
  | spawnReleasing
  | spawnInitialized
  | spawnCount
  deriving DecidableEq, Repr

/-- The `ActorSystem` functions the code of an actor, or any other thread, calls. -/
inductive Call
  | send (dest : Handle) (m : Message)
  | kill (h : Handle)
  | spawn
  | error (source : Handle) (text : Bytes)
  | registerName (name : Bytes) (h : Handle)
  deriving DecidableEq, Repr

/-- What is not determined by the code: the message `try_dequeue` takes, a spurious failure of
`compare_exchange_weak`, and what the actor's own code does next. -/
inductive Choice
  | go
  | pick (i : ℕ)
  | spurious
  | call (c : Call)
  | ret
  | throw (what : Bytes)
  | failInit
  deriving DecidableEq, Repr

/-- What an access does outside the queue: add the queue to the global queue, add it to the
registry, or take it out if it is there. -/
inductive Shared
  | none
  | token
  | register
  | unregister
  deriving DecidableEq, Repr

/-- The outcome of an access: the queue, where the function goes on, the functions it calls
first, and what happens outside. -/
structure OpResult where
  queue : ActorQueue
  next : List Op := []
  calls : List Call := []
  shared : Shared := .none

def SchedNext.ops : SchedNext → List Op
  | ret => []
  | leave => [.leave]

/-- After `drain_queue`: `dispatch_queue` resets the state, `kill` and `spawn` destroy first. -/
def DrainSite.afterDrain : DrainSite → List Op
  | kill => [.destroyActor .kill]
  | spawn => [.destroyActor .spawn]
  | k => [.storeIdle k]

/-- After `schedule_state.store(0)`. -/
def DrainSite.afterStore : DrainSite → List Op
  | entry => [.leaveDestroy]
  | exit => [.leave]
  | _ => []

/-- After `clear_queue_owner`. -/
def DrainSite.afterClear : DrainSite → List Op
  | kill => [.storeIdle .kill]
  | _ => []

/-- After a message of the batch: the loop's next round, or its end. -/
def nextRound (count batch : ℕ) : List Op :=
  if count < batch then [.batchRequested count batch] else [.exitReleasing]

/-- `batch` for a worker's weight. -/
def batchSize (weight : ℤ) (qsize : ℕ) : ℕ :=
  if weight < 0 then 1
  else if weight = 0 then (if 0 < qsize then qsize else 1)
  else if qsize >>> weight.toNat < 1 then 1 else qsize >>> weight.toNat

/-- The error `push_message` and `drain_queue` send for a message that is a request. -/
def errorFor (m : Message) : List (Handle × Message) :=
  if m.isRequest then [(m.source, m.errorReply)] else []

def sendErrors (m : Message) : List Call := (errorFor m).map fun e => .send e.1 e.2

def overloaded (qsize : ℕ) : Bytes :=
  ascii ("mailbox overloaded: ~" ++ toString qsize ++ " pending messages")

/-- The condition of the overload loop, for the threshold just read. -/
def overloadRound (qsize threshold : ℕ) : List Op :=
  if threshold ≤ qsize then [.pushOverload qsize threshold] else [.pushInitialized]

namespace Op

/-- The access at a point of the code, by thread `tid`, a worker of weight `weight` if it is one. -/
def exec (tid : ℕ) (weight : ℤ) (q : ActorQueue) : Op → Choice → Option OpResult
  -- push_message
  | pushAccepting m, .go =>
    if q.accepting then
      some { queue := { q with accepted := m :: q.accepted }, next := [pushEnqueue m] }
    else
      some { queue := { q with rejected := m :: q.rejected, errors := errorFor m ++ q.errors },
             calls := sendErrors m }
  | pushEnqueue m, .go =>
    some { queue := { q with mailbox := q.mailbox ++ [⟨tid, m⟩] }, next := [pushCount] }
  | pushCount, .go =>
    some { queue := { q with mailboxCount := q.mailboxCount + 1 },
           next := [pushThreshold (sizeT (q.mailboxCount + 1))] }
  | pushThreshold n, .go => some { queue := q, next := overloadRound n q.overloadThreshold }
  | pushOverload n t, .go =>
    if q.overloadThreshold = t then
      some { queue := { q with overloadThreshold :=
                          if (2 ^ 64 - 1) / 2 < t then 2 ^ 64 - 1 else t * 2 },
             next := [pushInitialized], calls := [.error q.handle (overloaded n)] }
    else some { queue := q, next := overloadRound n q.overloadThreshold }
  | pushOverload n _, .spurious =>
    some { queue := q, next := overloadRound n q.overloadThreshold }
  | pushInitialized, .go =>
    some { queue := q, next := if q.initialized then [scheduleInitialized .ret] else [] }
  -- schedule_queue
  | scheduleInitialized k, .go =>
    some { queue := q, next := if q.initialized then [scheduleCas k] else k.ops }
  | scheduleCas k, .go =>
    if q.scheduleState = .idle then
      some { queue := { q with scheduleState := .queued }, next := [enqueueGlobal k] }
    else some { queue := q, next := k.ops }
  | enqueueGlobal k, .go => some { queue := q, next := k.ops, shared := .token }
  -- kill
  | killAccepting, .go => some { queue := { q with accepting := false }, next := [killReleasing] }
  | killReleasing, .go => some { queue := { q with releasing := true }, next := [killOwner] }
  | killOwner, .go =>
    some { queue := q, next := if q.owner then [killRequest] else [scheduleInitialized .ret] }
  | killRequest, .go =>
    some { queue := { q with destroyRequested := true }, next := [killDepth] }
  | killDepth, .go =>
    if q.dispatchDepth = 0 then
      some { queue := { q with direct := true }, next := [drain .kill] }
    else some { queue := q, next := [scheduleInitialized .ret] }
  -- drain_queue
  | drain k, .pick i =>
    (q.canDequeue i).map fun m =>
      { queue := { q with mailbox := q.mailbox.eraseIdx i, drained := m :: q.drained },
        next := [drainCount k m] }
  | drain k, .go =>
    if q.mailbox = [] then some { queue := q, next := [drainStore k] } else none
  | drainCount k m, .go =>
    some { queue := { q with mailboxCount := q.mailboxCount - 1,
                             errors := errorFor m ++ q.errors },
           next := [drain k], calls := sendErrors m }
  | drainStore k, .go =>
    some { queue := { q with mailboxCount := 0 }, next := k.afterDrain }
  | storeIdle k, .go =>
    some { queue := { q with scheduleState := .idle }, next := k.afterStore }
  -- destroy_actor, clear_queue_owner
  | destroyActor k, .go =>
    if q.destroyed then some { queue := q, next := [clearOwner k] }
    else some { queue := { q with destroyed := true, destroyRuns := q.destroyRuns + 1 },
                next := [onDestroy k] }
  | onDestroy k, .call c => some { queue := q, next := [onDestroy k], calls := [c] }
  | onDestroy k, .ret => some { queue := q, next := [clearOwner k] }
  | clearOwner k, .go =>
    some { queue := { q with owner := false, spawnReturned := q.spawnReturned || k = .spawn },
           next := k.afterClear }
  -- dispatch_queue
  | dispatchState, .go =>
    match q.scheduleState with
    | .queued => some { queue := q, next := [dispatchCas] }
    | .dispatching => some { queue := q, next := [dispatchOwner] }
    | .idle => some { queue := q }
  | dispatchCas, .go =>
    if q.scheduleState = .queued then
      some { queue := { q with scheduleState := .dispatching }, next := [dispatchOwner] }
    else some { queue := q }
  | dispatchOwner, .go =>
    some { queue := q, next := if q.owner then [dispatchEnter] else [drain .noOwner] }
  | dispatchEnter, .go =>
    some { queue := { q with dispatchDepth := q.dispatchDepth + 1 }, next := [dispatchReleasing] }
  | dispatchReleasing, .go =>
    some { queue := q, next := if q.releasing then [drain .entry] else [dispatchRequested] }
  | dispatchRequested, .go =>
    some { queue := q, next := if q.destroyRequested then [drain .entry] else [dispatchBatch] }
  | dispatchBatch, .go =>
    some { queue := q, next := nextRound 0 (batchSize weight (sizeT q.mailboxCount)) }
  | batchRequested c b, .go =>
    some { queue := q,
           next := if q.destroyRequested then [exitReleasing] else [batchReleasing c b] }
  | batchReleasing c b, .go =>
    some { queue := q, next := if q.releasing then [exitReleasing] else [batchDequeue c b] }
  | batchDequeue c b, .pick i =>
    (q.canDequeue i).map fun m =>
      { queue := { q with mailbox := q.mailbox.eraseIdx i }, next := [batchCount c b m] }
  | batchDequeue _ _, .go =>
    if q.mailbox = [] then some { queue := q, next := [exitReleasing] } else none
  | batchCount c b m, .go =>
    some { queue := { q with mailboxCount := q.mailboxCount - 1 }, next := [batchMessage c b m] }
  | batchMessage c b m, .go =>
    some { queue := { q with handed := m :: q.handed }, next := [onMessage c b m] }
  | onMessage c b m, .call f => some { queue := q, next := [onMessage c b m], calls := [f] }
  | onMessage c b _, .ret => some { queue := q, next := nextRound (c + 1) b }
  | onMessage c b _, .throw what =>
    some { queue := q, next := nextRound (c + 1) b,
           calls := [.error q.handle (ascii "exception: " ++ what)] }
  | exitReleasing, .go =>
    some { queue := q, next := if q.releasing then [drain .exit] else [exitRequested] }
  | exitRequested, .go =>
    some { queue := q, next := if q.destroyRequested then [drain .exit] else [exitCount] }
  | exitCount, .go =>
    some { queue := q, next := if q.hasPending then [exitQueue] else [exitIdle] }
  | exitQueue, .go =>
    some { queue := { q with scheduleState := .queued }, next := [enqueueGlobal .leave] }
  | exitIdle, .go =>
    some { queue := { q with scheduleState := .idle }, next := [exitThreshold] }
  | exitThreshold, .go =>
    some { queue := { q with overloadThreshold := OVERLOAD_THRESHOLD },
           next := [recheckRequested] }
  | recheckRequested, .go =>
    some { queue := q, next := if q.destroyRequested then [leave] else [recheckReleasing] }
  | recheckReleasing, .go =>
    some { queue := q, next := if q.releasing then [leave] else [recheckCount] }
  | recheckCount, .go =>
    some { queue := q, next := if q.hasPending then [scheduleInitialized .leave] else [leave] }
  | leave, .go =>
    some { queue := { q with dispatchDepth := q.dispatchDepth - 1 },
           next := if q.dispatchDepth = 1 then [leaveRequested] else [] }
  | leaveRequested, .go =>
    some { queue := q,
           next := if q.destroyRequested then [destroyActor .exit] else [leaveReleasing] }
  | leaveReleasing, .go =>
    some { queue := q, next := if q.releasing then [destroyActor .exit] else [] }
  | leaveDestroy, .go =>
    some { queue := { q with dispatchDepth := q.dispatchDepth - 1 },
           next := if q.dispatchDepth = 1 then [destroyActor .entry] else [] }
  -- spawn
  | spawnRegister, .go => some { queue := q, next := [onInit], shared := .register }
  | onInit, .call c => some { queue := q, next := [onInit], calls := [c] }
  | onInit, .failInit => some { queue := { q with initFailed := true }, next := [onInit] }
  | onInit, .ret => some { queue := { q with initReturned := true }, next := [spawnFailed] }
  | onInit, .throw what =>
    some { queue := { q with initReturned := true }, next := [spawnMark],
           calls := [.error q.handle (ascii "actor init failed: " ++ what)] }
  | spawnMark, .go => some { queue := { q with initFailed := true }, next := [spawnFailed] }
  | spawnFailed, .go =>
    some { queue := q, next := if q.initFailed then [spawnErase] else [spawnInitialized] }
  | spawnErase, .go => some { queue := q, next := [spawnAccepting], shared := .unregister }
  | spawnAccepting, .go =>
    some { queue := { q with accepting := false }, next := [spawnReleasing] }
  | spawnReleasing, .go => some { queue := { q with releasing := true }, next := [drain .spawn] }
  | spawnInitialized, .go =>
    some { queue := { q with initialized := true }, next := [spawnCount] }
  | spawnCount, .go =>
    some { queue := { q with spawnReturned := true },
           next := if q.hasPending then [scheduleInitialized .ret] else [] }
  | _, _ => none

end Op

end SkynetCpp
