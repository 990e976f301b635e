import SkynetCpp.ActorQueue

/-!
# Who is where

Classes of the points of the code. What a thread owes a queue, a token to enqueue or a mailbox to
look at again, is read off the class of the point it is at; the invariants count the threads in
each class.
-/

namespace SkynetCpp

/-- How many threads run at a point of each class. -/
abbrev Counts := (Op → Bool) → ℕ

namespace Counts

/-- The threads at the points `os`. -/
def of (os : List Op) : Counts := fun p => os.countP p

/-- With the points `os` besides. -/
def add (n : Counts) (os : List Op) : Counts := fun p => n p + os.countP p

@[simp] theorem of_apply (os : List Op) (p : Op → Bool) : of os p = os.countP p := rfl

@[simp] theorem add_apply (n : Counts) (os : List Op) (p : Op → Bool) :
    n.add os p = n p + os.countP p := rfl

/-- These numbers count something. -/
structure Lawful (n : Counts) : Prop where
  zero : n (fun _ => false) = 0
  le_add : ∀ {p p₁ p₂ : Op → Bool}, (∀ o, p o = true → p₁ o = true ∨ p₂ o = true) →
    n p ≤ n p₁ + n p₂

theorem Lawful.mono {n : Counts} (hn : n.Lawful) {p p' : Op → Bool}
    (h : ∀ o, p o = true → p' o = true) : n p ≤ n p' := by
  have : n p ≤ n p' + n (fun _ => false) := hn.le_add fun o ho => .inl (h o ho)
  rwa [hn.zero, Nat.add_zero] at this

end Counts

namespace Op

/-- In `spawn`, up to the return of `on_init`. -/
def spawnInit : Op → Bool
  | spawnRegister | onInit => true
  | _ => false

/-- In `spawn`, before it reads `init_failed`. -/
def spawnDecide : Op → Bool
  | spawnMark | spawnFailed => true
  | _ => false

/-- In `spawn`, before `initialized.store(true)`. -/
def spawnSucceed : Op → Bool
  | spawnInitialized => true
  | _ => false

/-- In the drain and destruction of call site `k`, to its end. -/
def site (k : DrainSite) : Op → Bool
  | drain k' | drainCount k' _ | drainStore k' | storeIdle k' | destroyActor k' | onDestroy k'
  | clearOwner k' => k' = k
  | _ => false

/-- In `kill`, from the end of its own drain to the store of state 0. -/
def killDrained : Op → Bool
  | destroyActor k | onDestroy k | clearOwner k | storeIdle k => k = .kill
  | _ => false

/-- In `spawn`, where `on_init` failed. -/
def spawnFail : Op → Bool
  | spawnErase | spawnAccepting | spawnReleasing => true
  | o => o.site .spawn

/-- No code is here: `spawn` destroys the actor and does not reset the state. -/
def idleAfterSpawn : Op → Bool
  | storeIdle k => k = .spawn
  | _ => false

/-- In `spawn`, after `initialized.store(true)`. -/
def atCount : Op → Bool
  | spawnCount => true
  | _ => false

/-- In `kill`, before `releasing.store(true)`. -/
def killFlags : Op → Bool
  | killAccepting | killReleasing => true
  | _ => false

/-- In `kill`, from there to the read of `dispatch_depth_`. -/
def killMid : Op → Bool
  | killOwner | killRequest | killDepth => true
  | _ => false

/-- With a token: about to enqueue it, or between its dequeue and the exchange of 1 for 2. -/
def holdsToken : Op → Bool
  | enqueueGlobal _ | dispatchState | dispatchCas => true
  | _ => false

/-- In `dispatch_queue`, where a message may still be handed out, or just after. -/
def hot : Op → Bool
  | dispatchRequested | dispatchBatch | batchRequested _ _ | batchReleasing _ _
  | batchDequeue _ _ | batchCount _ _ _ | batchMessage _ _ _ | onMessage _ _ _
  | exitReleasing => true
  | _ => false

/-- In `on_message`. -/
def inOnMessage : Op → Bool
  | onMessage _ _ _ => true
  | _ => false

/-- About to enter `on_message`. -/
def entersOnMessage : Op → Bool
  | batchMessage _ _ _ => true
  | _ => false

/-- In `on_init`. -/
def inOnInit : Op → Bool
  | onInit => true
  | _ => false

/-- In `on_destroy`. -/
def inOnDestroy : Op → Bool
  | onDestroy _ => true
  | _ => false

/-- The actor is to be destroyed, here or by the call of `destroy_actor` to come. -/
def decided : Op → Bool
  | drain k | drainCount k _ | drainStore k =>
    match k with
    | .kill | .spawn => true
    | _ => false
  | destroyActor _ | onDestroy _ => true
  | _ => false

/-- In `dispatch_queue`, having read that the queue is not releasing, before the state is reset. -/
def cool : Op → Bool
  | exitRequested | exitCount | exitQueue | exitIdle => true
  | _ => false

/-- Elsewhere in `dispatch_queue` between the exchange of 1 for 2 and the store of another
state. -/
def dispatchRest : Op → Bool
  | dispatchOwner | dispatchEnter | dispatchReleasing => true
  | drain k | drainCount k _ | drainStore k | storeIdle k =>
    match k with
    | .noOwner | .entry | .exit => true
    | _ => false
  | _ => false

/-- In `dispatch_queue` between the exchange of 1 for 2 and the store of another state. -/
def dispatching (o : Op) : Bool := o.hot || o.cool || o.dispatchRest

/-- Elsewhere in `dispatch_queue` between the increment of `dispatch_depth_` and its decrement. -/
def insideRest : Op → Bool
  | dispatchReleasing | exitThreshold | recheckRequested | recheckReleasing | recheckCount | leave
  | leaveDestroy => true
  | drain k | drainCount k _ | drainStore k | storeIdle k =>
    match k with
    | .entry | .exit => true
    | _ => false
  | scheduleInitialized k | scheduleCas k | enqueueGlobal k =>
    match k with
    | .leave => true
    | .ret => false
  | _ => false

/-- In `dispatch_queue`, having set the state to 0, and about to read `mailbox_count` again. -/
def rechecks : Op → Bool
  | exitThreshold | recheckRequested | recheckReleasing | recheckCount => true
  | _ => false

/-- In `drain_queue`. -/
def drains : Op → Bool
  | drain _ | drainCount _ _ | drainStore _ => true
  | _ => false

/-- Between a drain's start and the store of state 0 that follows it. -/
def willIdle : Op → Bool
  | drain k | drainCount k _ | drainStore k => k ≠ .spawn
  | storeIdle _ => true
  | destroyActor k | onDestroy k | clearOwner k => k = .kill
  | _ => false

/-- Past a read or a store that makes `releasing` true. -/
def released : Op → Bool
  | leaveDestroy => true
  | drain _ | drainCount _ _ | drainStore _ | storeIdle _ | destroyActor _ | onDestroy _
  | clearOwner _ => true
  | o => o.killMid

/-- `destroyed_` is set. -/
def destroying : Op → Bool
  | onDestroy _ | clearOwner _ => true
  | _ => false

/-- Elsewhere behind a read of `initialized`: at the exchange of 0 for 1 in `schedule_queue`, or
on the way out of `dispatch_queue`. -/
def seenInit : Op → Bool
  | scheduleCas _ | leaveRequested | leaveReleasing => true
  | _ => false

/-- Has enqueued a message, and has not counted it. -/
def toAdd : Op → Bool
  | pushCount => true
  | _ => false

/-- Has dequeued a message, and has not counted it. -/
def toSub : Op → Bool
  | batchCount _ _ _ | drainCount _ _ => true
  | _ => false

/-- Has something in the mailbox to see to, and has not tried to schedule the queue. -/
def toSchedule : Op → Bool
  | pushCount | pushThreshold _ | pushOverload _ _ | pushInitialized | scheduleInitialized _
  | scheduleCas _ => true
  | _ => false

end Op

end SkynetCpp
