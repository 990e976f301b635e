import Mathlib.Data.Nat.Notation
import SkynetCpp.Lib.Runs
import SkynetCpp.Message

/-!
# Tasks of a cluster node

The calls of `cluster.lua` for one node, from when they are issued until their messages are handed to
the node's clustersender: `task_queue[node]`, `request_sender`, and the coroutines that wait in
`get_sender`. A coroutine that was woken goes on later, and others may run before it.
-/

namespace SkynetCpp

namespace ClusterTasks

open Lib

/-- An entry of the queue: a packed push, or a coroutine that waits. Calls are numbered as they are
issued. -/
inductive Task
  | text (n : ℕ)
  | thread (n : ℕ)
  deriving DecidableEq, Repr

def Task.number : Task → ℕ
  | .text n | .thread n => n

/-- The queue of `get_queue`, with its fields. -/
structure Queue where
  tasks : List Task := []
  confirm : Bool := false
  sender : Option Handle := none
  deriving DecidableEq, Repr

/-- Where `request_sender` is. -/
inductive Stage
  | none
  | forked
  /-- in the call to clusterd -/
  | calling
  /-- in `skynet.wait(confirm)`, with the index of the task that is next -/
  | waiting (i : ℕ)
  deriving DecidableEq, Repr

/-- `sender[node]`, `task_queue[node]`, the coroutines that were woken, and what was handed on. -/
structure State where
  sender : Option Handle := none
  queue : Option Queue := none
  stage : Stage := .none
  woken : List ℕ := []
  confirmed : Bool := false
  issued : ℕ := 0
  handed : List (ℕ × Option Handle) := []
  deriving DecidableEq, Repr

inductive Label
  | send
  /-- `cluster.call` or `cluster.query` -/
  | call
  | requestSender
  /-- clusterd answers with the sender -/
  | reply (c : Handle)
  /-- a coroutine that was woken goes on in `get_sender` -/
  | resume (n : ℕ)
  | confirm
  deriving DecidableEq, Repr

namespace State

variable (s : State)

/-- The message is handed to the sender by `skynet.send` or `skynet.call`. -/
def hand (n : ℕ) (c : Option Handle) : State := { s with handed := s.handed ++ [(n, c)] }

/-- `table.insert(task_queue[node], task)` -/
def insert (task : Task) : State :=
  match s.queue with
  | some q => { s with queue := some { q with tasks := q.tasks ++ [task] } }
  | none => { s with queue := some { tasks := [task] }, stage := .forked }

/-- A call of the API. -/
def issue (task : Task) : State :=
  let s := { s with issued := s.issued + 1 }
  match s.sender with
  | some c => s.hand task.number (some c)
  | none => s.insert task

/-- The loop of `request_sender` over the tasks from this one on, up to its wait, or to its end. -/
def process (c : Option Handle) : ℕ → List Task → State → State
  | _, [], s => { s with queue := none, sender := c, stage := .none }
  | i, .text n :: tasks, s => process c (i + 1) tasks (s.hand n c)
  | i, .thread n :: _, s => { s with woken := s.woken ++ [n], stage := .waiting (i + 1) }

def reply (c : Handle) : State :=
  match s.queue with
  | some q =>
    process (some c) 0 q.tasks
      { s with queue := some { q with confirm := true, sender := some c } }
  | none => s

/-- The coroutine of the call wakes `q.confirm`, and hands its message to `q.sender`. -/
def resume (n : ℕ) : State :=
  let q := s.queue.getD {}
  let waiting : Bool := match s.stage with
    | .waiting _ => true
    | _ => false
  { s with
    woken := s.woken.erase n
    confirmed := s.confirmed || (q.confirm && waiting) }.hand n q.sender

def confirm : State :=
  match s.stage, s.queue with
  | .waiting i, some q => process q.sender i (q.tasks.drop i) { s with confirmed := false }
  | _, _ => s

def exec : Label → State
  | .send => s.issue (.text s.issued)
  | .call => s.issue (.thread s.issued)
  | .requestSender => { s with stage := .calling }
  | .reply c => s.reply c
  | .resume n => s.resume n
  | .confirm => s.confirm

def Enabled : Label → Prop
  | .send | .call => True
  | .requestSender => s.stage = .forked
  | .reply _ => s.stage = .calling
  | .resume n => n ∈ s.woken
  | .confirm => s.confirmed = true

instance (l : Label) : Decidable (s.Enabled l) := by
  cases l <;> unfold Enabled <;> infer_instance

def step (s : State) (l : Label) : Option State := if s.Enabled l then some (s.exec l) else none

/-- The messages were handed on in the order of the calls, each once, to the sender that clusterd has
named; all of them, when `request_sender` does not run or nothing is left that could. -/
structure InOrder (s : State) : Prop where
  order : s.handed.map Prod.fst = List.range s.handed.length
  issued : s.handed.length ≤ s.issued
  sender : ∃ c : Handle, ∀ p ∈ s.handed, p.2 = some c
  ended : s.stage = .none → s.queue = none ∧ s.handed.length = s.issued
  settled : (∀ l, s.Enabled l → l = .send ∨ l = .call) → s.handed.length = s.issued

end State

end ClusterTasks

end SkynetCpp
