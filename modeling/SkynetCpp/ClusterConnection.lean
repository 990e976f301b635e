import SkynetCpp.Clusterd
import SkynetCpp.Lib.Runs
import SkynetCpp.SocketDriver

/-!
# A connection of clusterd

The `read_loop` of one accepted connection, step by step: what `socket.read` returns to it, the
`dispatch_request`s it forks, which run later, and the connection's close event, which also clears
its entry in `large_request`. `skynet.dispatch_message` runs what is forked before it resumes what
is woken; it may end, by another coroutine's error, before it has done either.
-/

namespace SkynetCpp

open Lib

namespace Clusterd

open Cluster SocketDriver

namespace Connection

/-- What `socket.read` is called for: a header, or a packet of a size. -/
inductive Want
  | header
  | packet (sz : ℕ)
  deriving DecidableEq, Repr

def Want.size : Want → ℕ
  | header => 2
  | packet sz => sz

/-- Where `read_loop` is: forked, about to call `socket.read`, suspended in it, woken there with a
result, or ended. -/
inductive Reader
  | forked
  | running (want : Want)
  | waiting (want : Want)
  | woken (want : Want) (result : Option Bytes)
  | ended
  deriving DecidableEq, Repr

/-- The driver, the connection's buffer if `socket_connections` has it, and what clusterd has of
it. `forks` are the `dispatch_request`s that have not begun. -/
structure State where
  driver : Driver
  buffer : Option Bytes := some []
  reader : Reader := .forked
  forks : List Request := []
  large : LargeRequests := fun _ => none

/-- What is done for another connection: it is accepted, one of its `dispatch_request`s begins, its
close event clears its entry, or its `read_loop` ends, with the listener that `socket_connections`
has for it. -/
inductive Other
  | accepts (listenerId : ℤ)
  | dispatch (r : Request)
  | closeEvent
  | ends (listenerId : Option ℤ)

inductive Label
  | start
  | read
  | data (chunk : Bytes)
  | closeEvent
  | resume
  /-- the wait in `socket.read` ends by its timer, or by a wakeup that is not the socket's -/
  | interrupt
  /-- the first of the forked `dispatch_request`s begins -/
  | dispatch
  | other (connId : ℤ) (o : Other)

/-- The driver's part of `socket.close`, with the listener that `socket_connections` has for the
connection. -/
def socketClose (d : Driver) : Option ℤ → ℤ → Driver
  | some listenerId, connId => d.closeAccepted listenerId connId
  | none, connId => d.close connId

namespace State

/-- A connection that was just accepted, of which the driver had the others before. -/
def init (d : Driver) (listenerId connId : ℤ) : State := { driver := d.accept listenerId connId }

variable (s : State) (listenerId connId : ℤ)

/-- What `socket.read` returns at once: what the buffer has, if that is enough, and nil for a
connection that `socket_connections` does not have. -/
def available (want : Want) : Option (Option Bytes) :=
  match s.buffer with
  | none => some none
  | some buffer =>
    if buffer.length < want.size then none else some (some (buffer.take want.size))

/-- `large_request[conn_id] = nil` -/
def clear (c : ℤ) : State := { s with large := Function.update s.large c none }

/-- The end of `read_loop`. -/
def finish : State :=
  { s.clear connId with
    driver := socketClose s.driver (s.buffer.map fun _ => listenerId) connId
    buffer := none
    reader := .ended }

/-- `read_loop` with what `socket.read` returned, to its next call. -/
def got : Want → Option Bytes → State
  | _, none => s.finish listenerId connId
  | .header, some data =>
    let sz := unpackHeader data
    if sz = 0 then s.finish listenerId connId else { s with reader := .running (.packet sz) }
  | .packet _, some data =>
    match unpackrequest data with
    | .ok r => { s with forks := s.forks ++ [r], reader := .running .header }
    | .error _ => { s with reader := .ended }

def execOther (c : ℤ) : Env → Other → State
  | _, .accepts l => { s with driver := s.driver.accept l c }
  | env, .dispatch r => { s with large := (dispatchRequest env c s.large r).1 }
  | _, .closeEvent => s.clear c
  | _, .ends l => { s.clear c with driver := socketClose s.driver l c }

def exec (env : Env) : Label → State
  | .start => { s with reader := .running .header }
  | .read =>
    match s.reader with
    | .running want =>
      match s.available want with
      | some result =>
        { s with buffer := s.buffer.map (List.drop want.size) }.got listenerId connId want result
      | none => { s with reader := .waiting want }
    | _ => s
  | .data chunk =>
    match s.buffer, s.reader with
    | some buffer, .waiting want =>
      let buffer := buffer ++ chunk
      if buffer.length < want.size then { s with buffer := some buffer }
      else
        { s with
          buffer := some (buffer.drop want.size)
          reader := .woken want (some (buffer.take want.size)) }
    | some buffer, _ => { s with buffer := some (buffer ++ chunk) }
    | none, _ => s
  | .closeEvent =>
    let s' := { s.clear connId with buffer := none }
    match s.buffer, s.reader with
    | some _, .waiting want => { s' with reader := .woken want none }
    | _, _ => s'
  | .resume =>
    match s.reader with
    | .woken want result => s.got listenerId connId want result
    | _ => s
  | .interrupt =>
    match s.reader with
    | .waiting want => s.got listenerId connId want none
    | _ => s
  | .dispatch =>
    match s.forks with
    | r :: forks => { s with forks, large := (dispatchRequest env connId s.large r).1 }
    | [] => s
  | .other c o => s.execOther c env o

def isRunning : Reader → Bool
  | .running _ => true
  | _ => false

def isWaiting : Reader → Bool
  | .waiting _ => true
  | _ => false

def isWoken : Reader → Bool
  | .woken _ _ => true
  | _ => false

/-- Nothing else happens while the coroutine of `read_loop` runs. -/
def Enabled : Label → Prop
  | .start => s.reader = .forked
  | .read => isRunning s.reader
  | .data _ | .closeEvent => ¬ isRunning s.reader
  | .resume => isWoken s.reader ∧ s.forks = []
  | .interrupt => isWaiting s.reader
  | .dispatch => s.forks ≠ [] ∧ ¬ isRunning s.reader
  | .other c _ => c ≠ connId ∧ ¬ isRunning s.reader

instance (l : Label) : Decidable (s.Enabled connId l) := by
  cases l <;> unfold Enabled <;> infer_instance

def step (env : Env) (listenerId connId : ℤ) (s : State) (l : Label) : Option State :=
  if s.Enabled connId l then some (s.exec listenerId connId env l) else none

/-- When `read_loop` has ended, the driver has closed the connection and `large_request` has no
entry for it. -/
def Cleaned : Prop :=
  s.reader = .ended →
    s.driver.tcp (.accepted listenerId connId) = some true ∧ s.large connId = none

/-- What `socket.read` returns to `read_loop` in this step, and what it was called for. -/
def returned : Label → Option (Want × Option Bytes)
  | .read =>
    match s.reader with
    | .running want => (s.available want).map fun result => (want, result)
    | _ => none
  | .resume =>
    match s.reader with
    | .woken want result => some (want, result)
    | _ => none
  | .interrupt =>
    match s.reader with
    | .waiting want => some (want, none)
    | _ => none
  | _ => none

/-- `read_loop` breaks: nil, or a header of size zero. -/
def breaks : Want × Option Bytes → Bool
  | (_, none) => true
  | (.header, some data) => unpackHeader data = 0
  | (.packet _, some _) => false

/-- `unpackrequest` raises. -/
def raises : Want × Option Bytes → Bool
  | (.packet _, some data) => !(unpackrequest data).isOk
  | _ => false

/-- `socket.close` finds the connection: `socket_connections` still has it, and the store its
listener. -/
def Closable : Prop := s.buffer.isSome ∧ s.driver.sockets listenerId = some .listener

instance : Decidable (s.Closable listenerId) := inferInstanceAs (Decidable (_ ∧ _))

/-- `unpackrequest` does not raise, and `read_loop` breaks only when `socket.close` finds the
connection and every `dispatch_request` that it forked has begun. -/
def Tidy (s : State) (l : Label) : Prop :=
  ∀ r ∈ s.returned l, raises r = false ∧ (breaks r → s.Closable listenerId ∧ s.forks = [])

instance (l : Label) : Decidable (s.Tidy listenerId l) := by
  unfold Tidy; infer_instance

end State

end Connection

end Clusterd

end SkynetCpp
