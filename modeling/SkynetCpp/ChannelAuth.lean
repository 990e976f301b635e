import Mathlib.Logic.Function.Basic
import Mathlib.Data.Int.Notation
import Mathlib.Data.Nat.Notation
import SkynetCpp.Lib.Runs

/-!
# Connecting a socket channel

`block_connect` and `try_connect` of a channel with an auth callback, and the calls that go through
them. One coroutine connects, with retries; the others find a connection, or wait. The auth callback
suspends as often as it likes, and whatever closes the connection does so at any time.
-/

namespace SkynetCpp

namespace SocketChannel

namespace Connect

open Lib

/-- Who calls `block_connect`. -/
inductive Caller
  | request
  | response
  | connect (once : Bool)
  deriving DecidableEq, Repr

def Caller.maxRetry : Caller → ℕ
  | .connect true => 1
  | _ => 10

/-- Where the coroutine that connects is: in `socket.connect`, in `skynet.sleep`, or in the auth
callback of a connection. -/
inductive Stage
  | idle
  | opening (caller : Caller) (retry : ℕ)
  | sleeping (caller : Caller) (retry : ℕ)
  | authing (caller : Caller) (retry : ℕ) (conn : ℤ)
  deriving DecidableEq, Repr

/-- An auth callback runs. -/
def Stage.Authing : Stage → Prop
  | .authing _ _ _ => True
  | _ => False

def Stage.Opening : Stage → Prop
  | .opening _ _ => True
  | _ => False

def Stage.Sleeping : Stage → Prop
  | .sleeping _ _ => True
  | _ => False

instance : ∀ st : Stage, Decidable st.Authing
  | .authing _ _ _ => isTrue trivial
  | .idle | .opening _ _ | .sleeping _ _ => isFalse not_false

instance : ∀ st : Stage, Decidable st.Opening
  | .opening _ _ => isTrue trivial
  | .idle | .authing _ _ _ | .sleeping _ _ => isFalse not_false

instance : ∀ st : Stage, Decidable st.Sleeping
  | .sleeping _ _ => isTrue trivial
  | .idle | .authing _ _ _ | .opening _ _ => isFalse not_false

/-- What has become of the auth callback of a connection. -/
inductive Auth
  | running
  | returned
  | raised
  deriving DecidableEq, Repr

/-- A request whose bytes were sent on a connection, when its auth callback was there. -/
structure Sent where
  conn : ℤ
  byAuth : Bool
  auth : Option Auth
  deriving DecidableEq, Repr

/-- `connId`, what `__connecting` and `__waiting_connect` stand for, and a history. -/
structure State where
  connId : Option ℤ := none
  stage : Stage := .idle
  /-- the calls that wait, also those that were woken and have not been resumed -/
  waiting : List Caller := []
  auth : ℤ → Option Auth := fun _ => none
  sent : List Sent := []

inductive Label
  | call (caller : Caller)
  | resume (i : ℕ)
  | opened (conn : ℤ)
  | openFails
  | awake
  | authSends
  | authReturns
  | authRaises
  /-- by `close`, `changehost` or a dispatcher -/
  | close
  deriving DecidableEq, Repr

namespace State

variable (s : State)

def closeSocket : State := { s with connId := none }

/-- `socket.send(self.__conn_id, ...)`; without a connection it raises. -/
def send (byAuth : Bool) : State :=
  match s.connId with
  | some conn => { s with sent := s.sent ++ [{ conn, byAuth, auth := s.auth conn }] }
  | none => s

/-- What follows `block_connect`. -/
def proceed : Caller → State
  | .request => s.send false
  | _ => s

/-- `block_connect` -/
def blockConnect (caller : Caller) : State :=
  if s.connId.isSome then s.proceed caller
  else if s.stage ≠ .idle then { s with waiting := s.waiting ++ [caller] }
  else { s with stage := .opening caller 0 }

def call : Caller → State
  | .connect once => s.closeSocket.blockConnect (.connect once)
  | caller => s.blockConnect caller

def resume (i : ℕ) : State :=
  match s.waiting[i]? with
  | some caller => { s with waiting := s.waiting.eraseIdx i }.proceed caller
  | none => s

/-- `try_connect` has returned false. -/
def retry (caller : Caller) (retry : ℕ) : State :=
  { s with stage := if retry + 1 < caller.maxRetry then .sleeping caller (retry + 1) else .idle }

def setAuth (conn : ℤ) (a : Auth) : State := { s with auth := Function.update s.auth conn (some a) }

def exec : Label → State
  | .call caller => s.call caller
  | .resume i => s.resume i
  | .opened conn =>
    match s.stage with
    | .opening caller retry =>
      { s.setAuth conn .running with connId := some conn, stage := .authing caller retry conn }
    | _ => s
  | .openFails =>
    match s.stage with
    | .opening caller retry => s.retry caller retry
    | _ => s
  | .awake =>
    match s.stage with
    | .sleeping caller retry => { s with stage := .opening caller retry }
    | _ => s
  | .authSends => s.send true
  | .authReturns =>
    match s.stage with
    | .authing caller _ conn => { s.setAuth conn .returned with stage := .idle }.proceed caller
    | _ => s
  | .authRaises =>
    match s.stage with
    | .authing caller retry conn => (s.setAuth conn .raised).closeSocket.retry caller retry
    | _ => s
  | .close => s.closeSocket

/-- A connection has an id that none had before. Where the auth callback finds no connection it waits
for itself. -/
def Enabled : Label → Prop
  | .call _ | .close => True
  | .resume i => i < s.waiting.length
  | .opened conn => s.stage.Opening ∧ s.auth conn = none
  | .openFails => s.stage.Opening
  | .awake => s.stage.Sleeping
  | .authSends => s.stage.Authing ∧ s.connId ≠ none
  | .authReturns | .authRaises => s.stage.Authing

instance (l : Label) : Decidable (s.Enabled l) := by
  cases l <;> unfold Enabled <;> infer_instance

def step (s : State) (l : Label) : Option State := if s.Enabled l then some (s.exec l) else none

/-- The auth callback sends while it runs, and others when it has returned. -/
def AuthFirst (s : State) : Prop :=
  ∀ e ∈ s.sent, e.auth = some (if e.byAuth then .running else .returned)

/-- The call of a request, or its return from the wait in `block_connect`. -/
def Requests : Label → Prop
  | .call caller => caller = .request
  | .resume i => s.waiting[i]? = some .request
  | _ => False

/-- No request comes when there is a connection and an auth callback runs. -/
def Patient (s : State) (l : Label) : Prop :=
  s.Requests l → s.connId ≠ none → ¬ s.stage.Authing

instance (l : Label) : Decidable (s.Requests l) := by
  cases l <;> unfold Requests <;> infer_instance

instance (l : Label) : Decidable (s.Patient l) := inferInstanceAs (Decidable (_ → _))

end State

end Connect

end SocketChannel

end SkynetCpp
