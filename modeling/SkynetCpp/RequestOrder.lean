import Mathlib.Data.Int.Notation
import SkynetCpp.Lib.Runs
import SkynetCpp.Message

/-!
# The order of requests on a socket channel

`channel:request` and `block_connect` with what is written. The calls are numbered as they are made.
A call finds a connection, or waits in `__waiting_connect`, or connects; those that waited are woken
when that is over, and are resumed in any order, since `wakeup_queue` is a table of coroutines. The
socket's events are messages, and no message is handled before all that are woken have been
resumed. What the auth callback writes itself is not a request of these.
-/

namespace SkynetCpp

namespace SocketChannel

namespace RequestOrder

open Lib

/-- `request` and `padding` -/
inductive Data
  | table (request : List Bytes)
  | padded (request : Bytes) (padding : List Bytes)
  | plain (request : Bytes)
  deriving DecidableEq

/-- What `socket.send` is called with, one after another. -/
def Data.parts : Data → List Bytes
  | table request => request
  | padded request padding => request :: padding
  | plain request => [request]

/-- Who calls `block_connect`. -/
inductive Caller
  | request (data : Data)
  | response
  | connect (once : Bool)
  deriving DecidableEq

def Caller.maxRetry : Caller → ℕ
  | connect true => 1
  | _ => 10

structure Call where
  index : ℕ
  caller : Caller
  deriving DecidableEq

def Call.IsRequest (c : Call) : Prop :=
  match c.caller with
  | .request _ => True
  | _ => False

instance (c : Call) : Decidable c.IsRequest := by
  unfold Call.IsRequest
  split <;> infer_instance

/-- Where the call is that connects: in `socket.connect`, in `skynet.sleep`, or in the auth
callback. -/
inductive Stage
  | idle
  | opening (call : Call) (retry : ℕ)
  | sleeping (call : Call) (retry : ℕ)
  | authing (call : Call) (retry : ℕ)
  deriving DecidableEq

def Stage.call : Stage → List Call
  | idle => []
  | opening call _ | sleeping call _ | authing call _ => [call]

def Stage.isOpening : Stage → Bool
  | opening _ _ => true
  | _ => false

def Stage.isSleeping : Stage → Bool
  | sleeping _ _ => true
  | _ => false

def Stage.isAuthing : Stage → Bool
  | authing _ _ => true
  | _ => false

structure Written where
  conn : ℤ
  index : ℕ
  part : Bytes
  deriving DecidableEq

structure State where
  connId : Option ℤ := none
  stage : Stage := .idle
  /-- `__waiting_connect` -/
  waiting : List Call := []
  /-- those of it in `wakeup_queue` that have not been resumed -/
  woken : List Call := []
  calls : ℕ := 0
  written : List Written := []
  deriving DecidableEq

inductive Label
  | call (caller : Caller)
  | resume (i : ℕ)
  /-- a wait in `block_connect` ends by its timer, or by a wakeup that is not the channel's -/
  | interrupt (i : ℕ)
  | opened (conn : ℤ)
  | openFails
  | awake
  | authReturns
  | authRaises
  /-- by `close`, `changehost` or a dispatcher -/
  | close
  deriving DecidableEq

namespace State

variable (s : State)

/-- The calls in `block_connect`: those that were woken, the one that connects, and those that
wait. -/
def pending : List Call := s.woken ++ s.stage.call ++ s.waiting

/-- What `channel:request` does after `block_connect`; without a connection `socket.send` raises. -/
def proceed (call : Call) : State :=
  match s.connId, call.caller with
  | some conn, .request data =>
    { s with written := s.written ++ data.parts.map fun part => ⟨conn, call.index, part⟩ }
  | _, _ => s

/-- `block_connect` -/
def blockConnect (call : Call) : State :=
  if s.connId.isSome then s.proceed call
  else if s.stage ≠ .idle then { s with waiting := s.waiting ++ [call] }
  else { s with stage := .opening call 0 }

/-- The end of the loop over retries: `__connecting` is false, and the waiters are woken. -/
def wakeWaiters : State :=
  { s with stage := .idle, woken := s.woken ++ s.waiting, waiting := [] }

/-- `try_connect` has returned false. -/
def retry (call : Call) (retry : ℕ) : State :=
  if retry + 1 < call.caller.maxRetry then { s with stage := .sleeping call (retry + 1) }
  else s.wakeWaiters

def exec : Label → State
  | .call caller =>
    let s' := { s with calls := s.calls + 1 }
    match caller with
    | .connect _ => { s' with connId := none }.blockConnect ⟨s.calls, caller⟩
    | _ => s'.blockConnect ⟨s.calls, caller⟩
  | .resume i =>
    match s.woken[i]? with
    | some call => { s with woken := s.woken.eraseIdx i }.proceed call
    | none => s
  | .interrupt i =>
    match s.waiting[i]? with
    | some call => { s with waiting := s.waiting.eraseIdx i }.proceed call
    | none => s
  | .opened conn =>
    match s.stage with
    | .opening call retry => { s with connId := some conn, stage := .authing call retry }
    | _ => s
  | .openFails =>
    match s.stage with
    | .opening call retry => s.retry call retry
    | _ => s
  | .awake =>
    match s.stage with
    | .sleeping call retry => { s with stage := .opening call retry }
    | _ => s
  | .authReturns =>
    match s.stage with
    | .authing call _ => s.wakeWaiters.proceed call
    | _ => s
  | .authRaises =>
    match s.stage with
    | .authing call retry => { s with connId := none }.retry call retry
    | _ => s
  | .close => { s with connId := none }

/-- What is woken is resumed before the next message. A channel without an auth callback goes on as
if one had returned. -/
def Enabled : Label → Prop
  | .call _ | .close => True
  | .resume i => i < s.woken.length
  | .interrupt i => i < s.waiting.length
  | .opened _ | .openFails => s.woken = [] ∧ s.stage.isOpening
  | .awake => s.woken = [] ∧ s.stage.isSleeping
  | .authReturns | .authRaises => s.stage.isAuthing

instance (l : Label) : Decidable (s.Enabled l) := by
  cases l <;> unfold Enabled <;> infer_instance

def step (s : State) (l : Label) : Option State := if s.Enabled l then some (s.exec l) else none

/-- On each connection the requests are written in the order of their calls, each with its parts one
after another, and no request waits in `block_connect` that was called before one that is
written. -/
structure InOrder (s : State) : Prop where
  order : ∀ conn, ∃ sent : List (ℕ × List Bytes), (sent.map Prod.fst).Pairwise (· < ·) ∧
    s.written.filter (fun w => w.conn = conn)
      = sent.flatMap fun r => r.2.map fun part => ⟨conn, r.1, part⟩
  notOvertaken : ∀ w ∈ s.written, ∀ c ∈ s.pending, c.IsRequest → w.index < c.index

/-- Who is in `block_connect` before the call that the label lets go on, or that it makes. -/
def ahead : Label → List Call
  | .call _ => s.pending
  | .resume i => s.woken.take i
  | .interrupt i => s.woken ++ s.stage.call ++ s.waiting.take i
  | _ => []

/-- The label makes a request, or lets one go on. -/
def Passes : Label → Prop
  | .call (.request _) => True
  | .resume i => ∃ c ∈ s.woken[i]?, c.IsRequest
  | .interrupt i => ∃ c ∈ s.waiting[i]?, c.IsRequest
  | _ => False

/-- When there is a connection, `request` is called while no request is in `block_connect`, the
wakeup queue gives those that were woken in the order they waited in, and no other wait of a request
ends behind a request. -/
def Orderly (s : State) (l : Label) : Prop :=
  s.Passes l → s.connId ≠ none → ∀ c ∈ s.ahead l, ¬ c.IsRequest

instance (l : Label) : Decidable (s.Passes l) := by
  unfold Passes
  split <;> infer_instance

instance (l : Label) : Decidable (s.Orderly l) :=
  inferInstanceAs (Decidable (s.Passes l → s.connId ≠ none → ∀ c ∈ s.ahead l, ¬ c.IsRequest))

end State

end RequestOrder

end SocketChannel

end SkynetCpp
