import Mathlib.Data.Int.Notation
import Mathlib.Data.Nat.Notation
import Mathlib.Logic.Function.Basic
import SkynetCpp.Lib.Runs

/-!
# A socket channel in order mode

The queue of a channel without a response callback: the requests that wait, the dispatcher of each
connection, and what opens and closes the connection. How a connection comes about is not told here;
one is opened at any time when there is none. That the peer has closed it shows in a response function
that raises.
-/

namespace SkynetCpp

namespace SocketChannel

namespace Order

open Lib

/-- Where a `dispatch_by_order` is. -/
inductive Stage
  | forked
  | running
  /-- in `skynet.wait` -/
  | waiting
  | woken
  /-- in a response function, which was taken with a coroutine; each is known by its request -/
  | calling (func co : ℕ)
  | ended
  deriving DecidableEq, Repr

/-- A `dispatch_by_order`, with the `conn_id` it has read. -/
structure Dispatcher where
  conn : Option ℤ
  stage : Stage
  deriving DecidableEq, Repr

def Dispatcher.Calling : Option Dispatcher → Prop
  | some ⟨_, .calling _ _⟩ => True
  | _ => False

instance : ∀ x, Decidable (Dispatcher.Calling x)
  | some ⟨_, .calling _ _⟩ => isTrue trivial
  | none | some ⟨_, .forked⟩ | some ⟨_, .running⟩ | some ⟨_, .waiting⟩ | some ⟨_, .woken⟩
  | some ⟨_, .ended⟩ => isFalse not_false

/-- A response function reads from the channel. -/
structure Read where
  dispatcher : ℤ
  func : ℕ
  conn : ℤ
  deriving DecidableEq, Repr

/-- A response, complete: the connection of its dispatcher, the function that has decoded it, and the
coroutine that has got it. -/
structure Response where
  conn : Option ℤ
  func : ℕ
  co : ℕ
  ok : Bool
  deriving DecidableEq, Repr

/-- `__conn_id`, `__request`, `__thread` and `__wait_dispatch`; the dispatchers, by the connection they
were forked for; and a history. Request `n` is the one at place `n` of `sent`, with its connection. -/
structure State where
  connId : Option ℤ := none
  request : List ℕ := []
  thread : List ℕ := []
  waitDispatch : Option ℤ := none
  dispatchers : ℤ → Option Dispatcher := fun _ => none
  sent : List (Option ℤ) := []
  reads : List Read := []
  responses : List Response := []
  errors : List ℕ := []

inductive Label
  /-- `socket.connect` returns in `try_connect` -/
  | opened (conn : ℤ)
  /-- what follows `block_connect` in `channel:request` with a response function -/
  | request
  | response
  | close
  | changehost
  | connect
  /-- the auth callback raises -/
  | authRaises
  | begin (d : ℤ)
  | resume (d : ℤ)
  | read (d : ℤ)
  | returned (d : ℤ) (ok padding : Bool)
  | raised (d : ℤ)
  deriving DecidableEq, Repr

namespace State

variable (s : State)

def closeSocket : State := { s with connId := none }

/-- `wakeup_all` -/
def wakeupAll : State :=
  { s with errors := s.errors ++ s.thread, thread := [], request := [] }

def put (d : ℤ) (conn : Option ℤ) (stage : Stage) : State :=
  { s with dispatchers := Function.update s.dispatchers d (some ⟨conn, stage⟩) }

/-- `skynet.wakeup(self.__wait_dispatch)` -/
def wakeDispatch : State :=
  match s.waitDispatch with
  | some d =>
    match s.dispatchers d with
    | some ⟨conn, .waiting⟩ => s.put d conn .woken
    | _ => s
  | none => s

/-- `push_response` -/
def push : State :=
  { s with
    sent := s.sent ++ [s.connId]
    request := s.request ++ [s.sent.length]
    thread := s.thread ++ [s.sent.length] }.wakeDispatch

def wait (d : ℤ) (conn : Option ℤ) : State :=
  { s.put d conn .waiting with waitDispatch := some d }

/-- The dispatcher takes a function and a coroutine; as long as one is missing, it goes on with its
loop. -/
def take (d : ℤ) (conn : Option ℤ) : List ℕ → List ℕ → State → State
  | func :: request, co :: thread, s =>
    { s.put d conn (.calling func co) with request := request, thread := thread }
  | _ :: request, [], s =>
    if s.connId = conn then take d conn request [] { s with request := request }
    else { s.put d conn .ended with request := request }
  | [], thread, s =>
    if s.connId = conn then { s with thread := thread.tail }.wait d conn
    else { s.put d conn .ended with thread := thread.tail }

/-- The loop of `dispatch_by_order`, up to where it suspends or ends. -/
def loop (d : ℤ) (conn : Option ℤ) : State :=
  if s.connId = conn then
    if s.request = [] then s.wait d conn else take d conn s.request s.thread s
  else s.put d conn .ended

def begin (d : ℤ) : State := (s.put d s.connId .running).loop d s.connId

/-- After the wait the dispatcher takes what there is. -/
def resume (d : ℤ) : Option Dispatcher → State
  | some ⟨conn, _⟩ =>
    take d conn s.request s.thread { s.put d conn .running with waitDispatch := none }
  | none => s

def read (d : ℤ) : Option Dispatcher → State
  | some ⟨_, .calling func _⟩ =>
    match s.connId with
    | some conn => { s with reads := s.reads ++ [{ dispatcher := d, func, conn }] }
    | none => s
  | _ => s

/-- The function and the coroutine are put back for more parts. -/
def requeue (func co : ℕ) : State :=
  { s with request := func :: s.request, thread := co :: s.thread }

def respond (r : Response) : State := { s with responses := s.responses ++ [r] }

def returned (d : ℤ) (ok padding : Bool) : Option Dispatcher → State
  | some ⟨conn, .calling func co⟩ =>
    let s := s.put d conn .running
    if padding then (s.requeue func co).loop d conn
    else (s.respond ⟨conn, func, co, ok⟩).loop d conn
  | _ => s

def raised (d : ℤ) : Option Dispatcher → State
  | some ⟨conn, .calling _ co⟩ =>
    ({ s.closeSocket with errors := s.errors ++ [co] }.wakeupAll).put d conn .ended
  | _ => s

def exec : Label → State
  | .opened conn => { s.put conn none .forked with connId := some conn }
  | .request | .response => s.push
  | .close => s.closeSocket.wakeupAll
  | .changehost | .connect | .authRaises => s.closeSocket
  | .begin d => s.begin d
  | .resume d => s.resume d (s.dispatchers d)
  | .read d => s.read d (s.dispatchers d)
  | .returned d ok padding => s.returned d ok padding (s.dispatchers d)
  | .raised d => s.raised d (s.dispatchers d)

/-- Without a connection `socket.send` raises, and so does a read; `channel:response` sends nothing. -/
def Enabled : Label → Prop
  | .opened conn => s.connId = none ∧ s.dispatchers conn = none
  | .request => s.connId ≠ none
  | .response | .close | .changehost | .connect | .authRaises => True
  | .begin d => (s.dispatchers d).map (·.stage) = some .forked
  | .resume d => (s.dispatchers d).map (·.stage) = some .woken
  | .read d => s.connId ≠ none ∧ Dispatcher.Calling (s.dispatchers d)
  | .returned d _ _ | .raised d => Dispatcher.Calling (s.dispatchers d)

instance (l : Label) : Decidable (s.Enabled l) := by
  cases l <;> unfold Enabled <;> infer_instance

def step (s : State) (l : Label) : Option State := if s.Enabled l then some (s.exec l) else none

/-- The requests that were sent on the connection, in order. -/
def sentOn (conn : ℤ) : List ℕ :=
  (List.range s.sent.length).filter fun n => s.sent[n]? = some (some conn)

def responsesOn (conn : ℤ) : List Response := s.responses.filter fun r => r.conn = some conn

/-- Each connection has one reader at most; a response function reads from the connection of its
request; the responses on a connection are those to its first requests; and a request waits on its
connection, is being decoded, or has got a response or an error. -/
structure Matched (s : State) : Prop where
  reader : ∀ r ∈ s.reads, ∀ r' ∈ s.reads, r.conn = r'.conn → r.dispatcher = r'.dispatcher
  bytes : ∀ r ∈ s.reads, s.sent[r.func]? = some (some r.conn)
  funcs : ∀ conn, (s.responsesOn conn).map (·.func) <+: s.sentOn conn
  cos : ∀ conn, (s.responsesOn conn).map (·.co) <+: s.sentOn conn
  queued : ∀ n ∈ s.thread, ∃ conn, s.connId = some conn ∧ s.sent[n]? = some (some conn)
  pending : ∀ n, n < s.sent.length → n ∈ s.thread ∨
    (∃ d conn, s.dispatchers d = some ⟨conn, .calling n n⟩ ∧ s.sent[n]? = some conn) ∨
    n ∈ s.responses.map (·.co) ∨ n ∈ s.errors

/-- The dispatcher's connection is the channel's. -/
def Owns (d : ℤ) : Prop := (s.dispatchers d).map (·.conn) = some s.connId

/-- A dispatcher begins, and reads, while its connection is the channel's, and so it is when it goes
on with a request; and the connection is left without waking those that wait only when none does. -/
def Attended (s : State) : Label → Prop
  | .response => s.connId ≠ none
  | .changehost | .connect | .authRaises => s.request = []
  | .begin d => s.connId = none ∨ s.connId = some d
  | .resume d => s.request ≠ [] → s.Owns d
  | .read d => s.Owns d
  | .returned d _ padding => padding = true → s.Owns d
  | _ => True

instance (d : ℤ) : Decidable (s.Owns d) := inferInstanceAs (Decidable (_ = _))

instance (l : Label) : Decidable (s.Attended l) := by
  cases l <;> unfold Attended <;> infer_instance

end State

end Order

end SocketChannel

end SkynetCpp
