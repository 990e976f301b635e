import SkynetCpp.SocketStream

/-!
# Who waits on a connection

The system of a service and its driver, with the coroutines that are suspended in `socket.connect`
and in the readers of any connection. A coroutine that was woken goes on in its turn; one that was
not can be woken from outside the library. What a reader returns is in the record that it holds.
-/

namespace SkynetCpp

namespace Socket

open Lib

/-- A call that waits. -/
inductive WaitCall
  | connect (id : ℤ)
  | read (connId : ℤ) (op : ReadOp)
  deriving DecidableEq, Repr

/-- The connection that it is about. -/
def WaitCall.connId : WaitCall → ℤ
  | .connect id => id
  | .read connId _ => connId

/-- A suspended coroutine, and whether the library has woken it. -/
structure Waiter where
  co : Coroutine
  call : WaitCall
  woken : Bool := false
  deriving DecidableEq, Repr

/-- The connection that an event is about. -/
def Event.connId : Event → Option ℤ
  | .accept _ connId | .data _ connId _ | .close _ connId | .opened connId
  | .warning _ connId _ => some connId
  | .udp _ _ => none

structure Waits where
  system : System := .init
  waiters : List Waiter := []

namespace Waits

variable (s : Waits)

inductive Label
  /-- a call of the library that does not read, or an event -/
  | lib (l : System.Label)
  /-- `socket.read`, `socket.readline` or `socket.readall` -/
  | read (co : Coroutine) (connId : ℤ) (op : ReadOp)
  /-- a coroutine goes on after its wait -/
  | goOn (i : ℕ)

/-- A reader is called: what becomes of its connection, and whether it waits. -/
def perform (co : Coroutine) (connId : ℤ) (op : ReadOp) : Option (Connection × Outcome) :=
  (s.system.tables.connections connId).map fun conn => conn.perform co op

/-- The event that is dispatched. -/
def event : System.Label → Option Event
  | .dispatch i => s.system.events[i]?
  | _ => none

/-- `skynet.wakeup` of these coroutines. -/
def wake (woken : List Coroutine) : Waits :=
  { s with waiters := s.waiters.map fun w => { w with woken := w.woken || w.co ∈ woken } }

/-- The coroutines that the event wakes. -/
def wokenBy (l : System.Label) : List Coroutine :=
  ((s.event l).map fun e => (s.system.tables.dispatch e).2).getD []

/-- What the coroutine does that calls the library. -/
def suspends : System.Label → List Waiter
  | .connect co => [{ co, call := .connect s.system.nextConnector }]
  | _ => []

def Idle (co : Coroutine) : Prop := ∀ w ∈ s.waiters, w.co ≠ co

def Enabled : Label → Prop
  | .lib (.connectReturn _) => False
  | .lib (.connect co) => s.Idle co
  | .lib l => s.system.Enabled l
  | .read co _ _ => s.Idle co
  | .goOn i => i < s.waiters.length

def exec : Label → Waits
  | .lib l =>
    { system := s.system.exec l, waiters := (s.wake (s.wokenBy l)).waiters ++ s.suspends l }
  | .read co connId op =>
    match s.perform co connId op with
    | some (conn, outcome) =>
      { system := { s.system with tables := s.system.tables.setConnection connId (some conn) }
        waiters := match outcome with
          | .waits => s.waiters ++ [{ co, call := .read connId op }]
          | .returns _ => s.waiters }
    | none => s
  | .goOn i =>
    match s.waiters[i]? with
    | some ⟨_, .connect id, _⟩ =>
      { system := s.system.exec (.connectReturn id), waiters := s.waiters.eraseIdx i }
    | some ⟨_, .read _ _, _⟩ => { s with waiters := s.waiters.eraseIdx i }
    | none => s

instance (co : Coroutine) : Decidable (s.Idle co) :=
  inferInstanceAs (Decidable (∀ w ∈ s.waiters, _))

instance (l : Label) : Decidable (s.Enabled l) := by
  unfold Enabled
  split <;> infer_instance

def step (s : Waits) (l : Label) : Option Waits := if s.Enabled l then some (s.exec l) else none

/-- The driver is still connecting. -/
def Connecting (id : ℤ) : Prop :=
  TcpId.connector id ∈ s.system.created ∧ s.system.driver.tcp (.connector id) = none

/-- An event of the connection is to be dispatched, or the driver is to post one. -/
def Pending (c : ℤ) : Prop :=
  (∃ e ∈ s.system.events, e.connId = some c) ∨ s.Connecting c

/-- What comes of a connect is to be dispatched, or to be posted by the driver. -/
def Outstanding (id : ℤ) : Prop :=
  (∃ e ∈ s.system.events, e = .opened id ∨ ∃ listenerId, e = .close listenerId id) ∨ s.Connecting id

/-- No coroutine waits on a connection that has gone and that no event is to come of. Who reads has
been woken when the connection is closed or gone; who connects, when that has come to something. -/
structure NoneLeft : Prop where
  gone : ∀ w ∈ s.waiters, s.system.tables.connections w.call.connId = none →
    ¬ s.Pending w.call.connId → w.woken = true
  reads : ∀ w ∈ s.waiters, w.woken = false → ∀ c op, w.call = .read c op →
    ∃ conn, s.system.tables.connections c = some conn ∧ conn.closed = false
  connects : ∀ w ∈ s.waiters, w.woken = false → ∀ id, w.call = .connect id →
    s.system.tables.connecting id = some w.co ∧ s.Outstanding id

/-- The connections whose record is taken out, or replaced, or gets another reader. -/
def drops : Label → List ℤ
  | .lib (.close c) | .lib (.clear c) => [c]
  | .lib l =>
    match s.event l with
    | some (.accept listenerId c) => if s.system.tables.handles listenerId then [c] else []
    | some (.opened c) => if (s.system.tables.connecting c).isSome then [c] else []
    | _ => []
  | .read co c op =>
    match s.perform co c op with
    | some (_, .waits) => [c]
    | _ => []
  | .goOn _ => []

/-- While a coroutine waits to read from a connection, it is not closed by the service, nobody else
waits to read from it, and no other connection has its number. No connect gets the number of one
that waits. -/
def Careful (s : Waits) (l : Label) : Prop :=
  ∀ w ∈ s.waiters, w.woken = false →
    match w.call, l with
    | .read c _, l => c ∉ s.drops l
    | .connect id, .lib (.connect _) => id ≠ s.system.nextConnector
    | _, _ => True

instance (l : Label) : Decidable (s.Careful l) := by
  unfold Careful
  have : ∀ w : Waiter, Decidable (match w.call, l with
    | .read c _, l => c ∉ s.drops l
    | .connect id, .lib (.connect _) => id ≠ s.system.nextConnector
    | _, _ => True) := fun w => by
      split <;> infer_instance
  infer_instance

end Waits

end Socket

end SkynetCpp
