import SkynetCpp.Lib.Runs
import Mathlib.Data.List.Basic
import Mathlib.Data.Int.Notation

/-!
# The worker pool

How the workers of an `ActorSystem` sleep and are woken: `enqueue_global`, `worker_loop` and
`shutdown`, one atomic access at a time. What `dispatch_queue` does between its calls of
`enqueue_global` is left out; so is everything of a queue but that it is not null. The tokens of
the global queue may be taken in any order, and `try_dequeue` fails on an empty queue only.

`atomic::wait` compares and blocks in one step; `notify_one` wakes at least one of the workers that
blocked on a value from before the notifier's own increment, if there are any, and `notify_all` all
of them. A wait may also end by itself, and then compares again. The epoch is a `uint64_t`, and is
taken not to come round to a value that a worker still compares with.
-/

namespace SkynetCpp

namespace WorkerPool

/-- An entry of `global_queue_`: a queue, or the null that `shutdown` puts there. -/
inductive Token
  | queue (q : ℕ)
  | null
  deriving DecidableEq, Repr

/-- Where a thread is in `enqueue_global` or `shutdown`. -/
inductive Point
  /-- in neither -/
  | outside
  -- enqueue_global
  | enqueue (q : ℕ)
  | enqueueCount
  | readSleeping (queued : ℤ)
  | bump
  | notifyOne (bumped : ℕ)
  -- shutdown, with the nulls still to be enqueued
  | exchange
  | enqueueNull (left : ℕ)
  | countNull (left : ℕ)
  | bumpAll
  | notifyAll (bumped : ℕ)
  deriving DecidableEq, Repr

def Point.inEnqueueGlobal : Point → Bool
  | .enqueue _ | .enqueueCount | .readSleeping _ | .bump | .notifyOne _ => true
  | _ => false

/-- Where a worker is in `worker_loop`, with its `queue` where that may be null or not. -/
inductive Worker
  | check (queue : Option ℕ)
  | dequeue
  | dequeueCount (token : Token)
  -- the idle spin
  | spinCheck (spin : ℕ)
  | spinDequeue (spin : ℕ)
  | spinCount (token : Token)
  -- from the read of the epoch on
  | loadEpoch
  | sleep (epoch : ℕ)
  | sleepDequeue (epoch : ℕ)
  | sleepCount (token : Token)
  | wait (epoch : ℕ)
  | blocked (epoch : ℕ)
  | awake (queue : Option ℕ)
  /-- in `dispatch_queue` -/
  | dispatch (p : Point)
  | finished
  deriving DecidableEq, Repr

inductive Thread
  | worker (w : Worker)
  | other (p : Point)
  deriving DecidableEq, Repr

/-- The members of `ActorSystem` the pool uses, and whether a `shutdown` has run to its end. -/
structure Shared where
  workerCount : ℕ
  globalQueue : List Token := []
  globalQueueCount : ℤ := 0
  globalQueueEpoch : ℕ := 0
  sleepingWorkers : ℤ := 0
  running : Bool := true
  returned : Bool := false
  deriving DecidableEq, Repr

structure Pool where
  shared : Shared
  threads : List Thread
  deriving DecidableEq, Repr

/-- `n` workers that start, and `m` other threads, after `running_.store(true)`. -/
def Pool.init (n m : ℕ) : Pool where
  shared := { workerCount := n }
  threads := List.replicate n (.worker (.check none)) ++ List.replicate m (.other .outside)

/-- What is not determined by the code: the token `try_dequeue` takes, what the code outside does,
and the worker that is woken. -/
inductive Choice
  | go
  | pick (i : ℕ)
  | callEnqueue (q : ℕ)
  | callShutdown
  | ret
  | wake (i : ℕ)
  deriving DecidableEq, Repr

def Token.queue? : Token → Option ℕ
  | .queue q => some q
  | .null => none

def idleSpin (workerCount : ℕ) : ℕ :=
  if workerCount ≤ 8 then 256 else if workerCount ≤ 16 then 64 else 0

/-- After the nulls: the rest of `shutdown`. -/
def nextNull : ℕ → Point
  | 0 => .bumpAll
  | left + 1 => .enqueueNull (left + 1)

namespace Shared

/-- The accesses of `enqueue_global` and `shutdown`. -/
def execPoint (s : Shared) : Point → Choice → Option (Shared × Point)
  | .outside, .callEnqueue q => some (s, .enqueue q)
  | .outside, .callShutdown => some (s, .exchange)
  | .enqueue q, .go => some ({ s with globalQueue := s.globalQueue ++ [.queue q] }, .enqueueCount)
  | .enqueueCount, .go =>
    some ({ s with globalQueueCount := s.globalQueueCount + 1 },
      .readSleeping (s.globalQueueCount + 1))
  | .readSleeping queued, .go =>
    some (s, if 0 < s.sleepingWorkers ∧ queued ≤ s.sleepingWorkers then .bump else .outside)
  | .bump, .go =>
    some ({ s with globalQueueEpoch := s.globalQueueEpoch + 1 },
      .notifyOne (s.globalQueueEpoch + 1))
  | .notifyOne _, .go | .notifyOne _, .wake _ => some (s, .outside)
  | .exchange, .go =>
    if s.running then some ({ s with running := false }, nextNull s.workerCount)
    else some (s, .outside)
  | .enqueueNull (left + 1), .go =>
    some ({ s with globalQueue := s.globalQueue ++ [.null] }, .countNull left)
  | .countNull left, .go =>
    some ({ s with globalQueueCount := s.globalQueueCount + 1 }, nextNull left)
  | .bumpAll, .go =>
    some ({ s with globalQueueEpoch := s.globalQueueEpoch + 1 },
      .notifyAll (s.globalQueueEpoch + 1))
  | .notifyAll _, .go => some ({ s with returned := true }, .outside)
  | _, _ => none

/-- `global_queue_.try_dequeue`: the token, or where the code goes on without one. -/
def tryDequeue (s : Shared) (found : Token → Worker) (empty : Worker) :
    Choice → Option (Shared × Worker)
  | .pick i => (s.globalQueue[i]?).map fun t =>
    ({ s with globalQueue := s.globalQueue.eraseIdx i }, found t)
  | .go => if s.globalQueue = [] then some (s, empty) else none
  | _ => none

/-- The `fetch_sub` after a `try_dequeue`. -/
def uncount (s : Shared) : Shared := { s with globalQueueCount := s.globalQueueCount - 1 }

/-- The accesses of `worker_loop`. -/
def execWorker (s : Shared) : Worker → Choice → Option (Shared × Worker)
  | .check queue, .go =>
    some (s, if s.running then (if queue.isSome then .dispatch .outside else .dequeue)
      else .finished)
  | .dequeue, c => s.tryDequeue .dequeueCount (.spinCheck 0) c
  | .dequeueCount t, .go =>
    some (s.uncount, if t.queue?.isSome then .dispatch .outside else .check none)
  | .spinCheck spin, .go =>
    if spin < idleSpin s.workerCount then
      some (s, if s.running then .spinDequeue spin else .loadEpoch)
    else some (s, .loadEpoch)
  | .spinDequeue spin, c => s.tryDequeue .spinCount (.spinCheck (spin + 1)) c
  | .spinCount t, .go =>
    some (s.uncount, if t.queue?.isSome then .dispatch .outside else .loadEpoch)
  | .loadEpoch, .go => some (s, .sleep s.globalQueueEpoch)
  | .sleep epoch, .go =>
    some ({ s with sleepingWorkers := s.sleepingWorkers + 1 }, .sleepDequeue epoch)
  | .sleepDequeue epoch, c => s.tryDequeue .sleepCount (.wait epoch) c
  | .sleepCount t, .go => some (s.uncount, .awake t.queue?)
  | .wait epoch, .go =>
    some (s, if s.globalQueueEpoch = epoch then .blocked epoch else .awake none)
  | .blocked epoch, .go => some (s, .wait epoch)
  | .awake queue, .go =>
    some ({ s with sleepingWorkers := s.sleepingWorkers - 1 }, .check queue)
  | .dispatch .outside, .ret => some (s, .check none)
  | .dispatch p, c => (s.execPoint p c).map fun r => (r.1, .dispatch r.2)
  | _, _ => none

def exec (s : Shared) : Thread → Choice → Option (Shared × Thread)
  | .worker w, c => (s.execWorker w c).map fun r => (r.1, .worker r.2)
  | .other p, c => (s.execPoint p c).map fun r => (r.1, .other r.2)

end Shared

/-- Where a thread is in `enqueue_global` or `shutdown`. -/
def Thread.point : Thread → Point
  | .worker (.dispatch p) | .other p => p
  | .worker _ => .outside

/-- Blocked on a value from before the increment to `bumped`. -/
def Thread.eligible (bumped : ℕ) : Thread → Bool
  | .worker (.blocked epoch) => epoch < bumped
  | _ => false

/-- The end of a wait by a notification: the value is compared again. -/
def Thread.wake (bumped : ℕ) : Thread → Thread
  | .worker (.blocked epoch) =>
    if epoch < bumped then .worker (.wait epoch) else .worker (.blocked epoch)
  | t => t

namespace Pool

abbrev Label := ℕ × Choice

/-- The workers that the access at `p` wakes: none, one at `notify_one` if one is eligible, and
all at `notify_all`. -/
def wakeUp (threads : List Thread) : Point → Choice → Option (List Thread)
  | .notifyOne bumped, .wake i =>
    match threads[i]? with
    | some t => if t.eligible bumped then some (threads.set i (t.wake bumped)) else none
    | none => none
  | .notifyOne bumped, _ => if threads.any (Thread.eligible bumped) then none else some threads
  | .notifyAll bumped, _ => some (threads.map (Thread.wake bumped))
  | _, _ => some threads

def step (s : Pool) (l : Label) : Option Pool :=
  match s.threads[l.1]? with
  | some t => (s.shared.exec t l.2).bind fun r =>
    (wakeUp (s.threads.set l.1 r.2) t.point l.2).map fun threads => ⟨r.1, threads⟩
  | none => none

/-- A token is queued, no thread is in `enqueue_global`, and every worker is blocked. -/
structure AllAsleep (s : Pool) : Prop where
  tokens : s.shared.globalQueue ≠ []
  noEnqueuer : ∀ t ∈ s.threads, t.point.inEnqueueGlobal = false
  blocked : ∀ w, .worker w ∈ s.threads → ∃ epoch, w = .blocked epoch

/-- A worker is blocked on the current value of the epoch, and nobody is going to notify. -/
structure Stuck (s : Pool) (epoch : ℕ) : Prop where
  blocked : .worker (.blocked epoch) ∈ s.threads
  current : epoch = s.shared.globalQueueEpoch
  noNotify : ∀ t ∈ s.threads, ∀ bumped, t.point ≠ .notifyOne bumped ∧ t.point ≠ .notifyAll bumped

/-- The step does not take a null in the idle spin. -/
def SpinKeepsNulls (s : Pool) (l : Label) : Prop :=
  ∀ spin i, s.threads[l.1]? = some (.worker (.spinDequeue spin)) → l.2 = .pick i →
    s.shared.globalQueue[i]? ≠ some .null

end Pool

end WorkerPool

end SkynetCpp
