import Mathlib.Algebra.Order.Group.Unbundled.Int
import SkynetCpp.ActorSystem

/-!
# The count of a mailbox

What is to hold of `mailbox_count`, an unsigned number that `push_message` raises after it has
enqueued a message, the loops that dequeue lower after they have dequeued one, and `drain_queue`
sets to 0 at its end (`MailboxCounted`). `CountSafe` is what a step has to find for the counter to
stay right.
-/

namespace SkynetCpp

open Lib

namespace Op

/-- Accepted a message, and has not enqueued it. -/
def toEnqueue : Op → Bool
  | pushEnqueue _ => true
  | _ => false

/-- In a push, from the increment of `mailbox_count` to the overload report. -/
def sizing : Op → Bool
  | pushCount | pushThreshold _ | pushOverload _ _ => true
  | _ => false

/-- The `qsize` of a push. -/
def qsize : Op → Option ℕ
  | pushThreshold n | pushOverload n _ => some n
  | _ => none

end Op

/-- The messages in the mailbox, and those of the dequeues in progress. -/
def ActorQueue.pending (q : ActorQueue) (n : Counts) : ℕ := q.mailbox.length + n Op.toSub

/-- A decrement finds more messages pending than there are pushes that have not counted theirs,
the store of 0 finds no message that was counted, and memory holds fewer than `2^64` messages. -/
def CountSafe (q : ActorQueue) (n : Counts) : Op → Prop
  | .batchCount _ _ _ | .drainCount _ _ => n Op.toAdd < q.pending n
  | .drainStore _ => q.pending n = n Op.toAdd
  | .pushCount => q.pending n < 2 ^ 64
  | _ => True

instance (q : ActorQueue) (n : Counts) (o : Op) : Decidable (CountSafe q n o) := by
  unfold CountSafe
  split <;> infer_instance

namespace State

/-- Thread `tid`, over the frames `rest`, is between the increment and the overload report of a
push to `q`. -/
def Sizing (tid : ℕ) (q : QId) (rest : List Frame) (s : State) : Prop :=
  ∃ o, o.sizing = true ∧ s.threads[tid]? = some (.op q o :: rest)

/-- At some moment of the push that thread `tid` makes to `q`, `k` messages were pending. -/
def WasPending (n m : ℕ) (s : State) (tid : ℕ) (q : QId) (rest : List Frame) (k : ℕ) : Prop :=
  ∃ s₀, Reachable State.step (State.init n m) s₀ ∧
    k ≤ (s₀.queues q).pending (.of (s₀.opsOn q)) ∧
    Reaches State.step (fun s _ => s.Sizing tid q rest) s₀ s

/-- The next step of thread `tid` exchanges the threshold of `q` for the next one, and reports. -/
def Reports (s : State) (tid : ℕ) (q : QId) (rest : List Frame) : Prop :=
  ∃ size, s.threads[tid]? = some (.op q (.pushOverload size (s.queues q).overloadThreshold) :: rest)

end State

/-- `mailbox_count` is no larger than the number of messages enqueued so far, it differs from the
length of the mailbox by no more than the pushes and dequeues that have still to count, and an
overload report is made only where the threshold was pending. -/
structure MailboxCounted (n m : ℕ) (q : QId) (s : State) : Prop where
  pushed : sizeT (s.queues q).mailboxCount + (s.opsOn q).countP Op.toEnqueue
    ≤ (s.queues q).accepted.length
  near : |(sizeT (s.queues q).mailboxCount : ℤ) - (s.queues q).mailbox.length|
    ≤ (s.opsOn q).countP Op.toAdd + (s.opsOn q).countP Op.toSub
  reports : ∀ tid rest, s.Reports tid q rest →
    s.WasPending n m tid q rest (s.queues q).overloadThreshold

end SkynetCpp
