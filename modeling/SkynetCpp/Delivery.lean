import SkynetCpp.ActorSystem

/-!
# The order of deliveries

The actor system with a history of what was sent to each queue, by which actor and from which
thread, and of what `on_message` was handed. The history follows each message through the mailbox
and decides nothing.
-/

namespace SkynetCpp

/-- A message put in a mailbox: the how manyth there, the actor whose code sent it if one did, the
thread that ran the code, and what lay in the mailbox at that time. -/
structure Sent where
  serial : ℕ
  sender : Option QId
  producer : ℕ
  msg : Message
  ahead : List ℕ
  deriving DecidableEq, Repr

/-- The history of one queue: all that was sent, what the mailbox holds, what a thread has taken
out and not handed over yet, and what `on_message` was handed, newest first. -/
structure QueueLog where
  sent : List Sent := []
  waiting : List Sent := []
  hand : ℕ → Option Sent := fun _ => none
  handed : List Sent := []

/-- The actor whose code this is. -/
def Frame.actor : Frame → Option QId
  | .op a (.onMessage _ _ _) | .op a .onInit | .op a (.onDestroy _) => some a
  | _ => none

namespace QueueLog

/-- The message `m`, put in the mailbox by thread `tid` with the frames `rest` below. -/
def enter (L : QueueLog) (tid : ℕ) (rest : List Frame) (m : Message) : Sent where
  serial := L.sent.length
  sender := rest.head?.bind Frame.actor
  producer := tid
  msg := m
  ahead := L.waiting.map Sent.serial

/-- What thread `tid` does to the history at a point of the code. -/
def record (L : QueueLog) (tid : ℕ) (rest : List Frame) : Op → Choice → QueueLog
  | .pushEnqueue m, _ =>
    { L with sent := L.enter tid rest m :: L.sent,
             waiting := L.waiting ++ [L.enter tid rest m] }
  | .batchDequeue _ _, .pick i =>
    { L with waiting := L.waiting.eraseIdx i,
             hand := Function.update L.hand tid L.waiting[i]? }
  | .drain _, .pick i => { L with waiting := L.waiting.eraseIdx i }
  | .batchMessage _ _ _, _ =>
    { L with hand := Function.update L.hand tid none,
             handed := (L.hand tid).toList ++ L.handed }
  | _, _ => L

end QueueLog

structure Logged where
  state : State
  log : QId → QueueLog

namespace Logged

def init (n m : ℕ) : Logged where
  state := .init n m
  log _ := {}

def step (s : Logged) (l : State.Label) : Option Logged :=
  (s.state.step l).map fun state =>
    match s.state.threads[l.1]? with
    | some (.op q o :: rest) =>
      { state, log := Function.update s.log q ((s.log q).record l.1 rest o l.2) }
    | _ => { s with state }

/-- The code of actor `a` sends `x` to queue `b` before it sends `y`. -/
structure SentBefore (s : Logged) (a b : QId) (x y : Sent) : Prop where
  sent : x ∈ (s.log b).sent ∧ y ∈ (s.log b).sent
  sender : x.sender = some a ∧ y.sender = some a
  order : x.serial < y.serial

/-- Whenever `on_message` is handed `y`, it has been handed `x`. -/
def SeesBefore (s : Logged) (b : QId) (x y : Sent) : Prop :=
  ∀ later earlier, (s.log b).handed = later ++ y :: earlier → x ∈ earlier

end Logged

end SkynetCpp
