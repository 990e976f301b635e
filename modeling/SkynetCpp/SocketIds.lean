import SkynetCpp.Socket

/-!
# The ids of sockets

Listeners and UDP sockets take their ids from a counter of the service that starts from 1, accepted
connections from one of the process that starts from 1, and connectors from one of the process that
starts from 1000000. The sockets of a service that are open share the tables that are keyed by these
ids.
-/

namespace SkynetCpp

namespace Socket

open Lib SocketDriver

/-- A socket of the service. -/
inductive Sock
  | listener (id : ℤ)
  | udp (id : ℤ)
  | tcp (k : TcpId)
  deriving DecidableEq, Repr

/-- The tables that are keyed by a plain id. -/
inductive Table
  | socketConnections
  | socketConnecting
  | sockets
  deriving DecidableEq, Repr

/-- The id a socket has. -/
def Sock.id : Sock → ℤ
  | .listener id | .udp id => id
  | .tcp k => k.number

/-- The socket is in the table, or its events and what is sent to it are looked up there. -/
def Sock.uses : Sock → Table → Bool
  | .listener _, .sockets | .udp _, .sockets => true
  | .tcp _, .socketConnections | .tcp _, .socketConnecting => true
  | .tcp (.connector _), .sockets => true
  | _, _ => false

/-- The connection a message tells of. -/
def Event.concerns : Event → TcpId → Prop
  | .accept listenerId connId, k => k = .accepted listenerId connId
  | .opened connId, k => k = .connector connId
  | .data listenerId connId _, k | .close listenerId connId, k | .warning listenerId connId _, k =>
    System.eventIds k = (listenerId, connId)
  | .udp _ _, _ => False

/-- The connection that `socket.send` gives its data to. -/
def Tables.sendTo (t : Tables) (d : Driver) (connId : ℤ) : Option TcpId :=
  match (t.connections connId).bind Connection.listenerId with
  | some listenerId =>
    if d.sockets listenerId = some .listener ∧ d.connections listenerId connId then
      some (.accepted listenerId connId)
    else none
  | none => if d.sockets connId = some .connector then some (.connector connId) else none

/-- The sockets, and those that are open. -/
structure Census where
  system : System
  opened : List Sock

namespace Census

variable (s : Census)

def init : Census := ⟨.init, []⟩

/-- The socket that `lclose` with one argument closes. -/
def atId (id : ℤ) : Option Sock :=
  (s.system.driver.sockets id).map fun
    | .listener => .listener id
    | .connector => .tcp (.connector id)
    | .udp => .udp id

/-- The socket that `socket.close` closes. -/
def atConn (connId : ℤ) : Option Sock :=
  match (s.system.tables.connections connId).bind Connection.listenerId with
  | some listenerId => some (.tcp (.accepted listenerId connId))
  | none => s.atId connId

def without (sock : Option Sock) : List Sock :=
  sock.elim s.opened s.opened.erase

/-- The sockets that are open after the step. -/
def openedAfter : System.Label → List Sock
  | .listen _ => s.opened ++ [.listener s.system.driver.nextId]
  | .udp _ => s.opened ++ [.udp s.system.driver.nextId]
  | .connect _ => s.opened ++ [.tcp (.connector s.system.nextConnector)]
  | .accepted listenerId => s.opened ++ [.tcp (.accepted listenerId s.system.nextAccepted)]
  | .close connId => s.without (s.atConn connId)
  | .closeListener listenerId => s.without (s.atId listenerId)
  | .hungUp k => s.without (some (.tcp k))
  | .connectFailed id => s.without (some (.tcp (.connector id)))
  | _ => s.opened

def step (s : Census) (l : System.Label) : Option Census :=
  (s.system.step l).map fun system => ⟨system, s.openedAfter l⟩

/-- Two sockets that are open have different ids where they share a table. What is dispatched for a
connection leaves the entries of the others, and `socket.send` gives no other the data. -/
structure Unambiguous (s : Census) : Prop where
  distinct : ∀ t : Table, ((s.opened.filter fun sock => sock.uses t).map Sock.id).Nodup
  events : ∀ k k', .tcp k ∈ s.opened → .tcp k' ∈ s.opened → k ≠ k' → ∀ e : Event, e.concerns k →
    (s.system.tables.dispatch e).1.connections k'.number = s.system.tables.connections k'.number ∧
    (s.system.tables.dispatch e).1.connecting k'.number = s.system.tables.connecting k'.number
  sends : ∀ k, .tcp k ∈ s.opened → ∀ k' ∈ s.system.tables.sendTo s.system.driver k.number, k' = k

/-- A counter that gives an id has not left its range: 1 to 999999 for listeners, UDP sockets and
accepted connections, and from 1000000 for connectors. -/
def InRange (s : Census) : System.Label → Prop
  | .listen _ | .udp _ => s.system.driver.nextId < 1000000
  | .accepted _ => 1 ≤ s.system.nextAccepted ∧ s.system.nextAccepted < 1000000
  | .otherAccepted => 1 ≤ s.system.nextAccepted
  | .connect _ | .otherConnector => 1000000 ≤ s.system.nextConnector
  | _ => True

instance (s : Census) : DecidablePred s.InRange
  | .listen _ | .udp _ => inferInstanceAs (Decidable (_ < _))
  | .accepted _ => inferInstanceAs (Decidable (_ ≤ _ ∧ _ < _))
  | .otherAccepted | .connect _ | .otherConnector => inferInstanceAs (Decidable (_ ≤ _))
  | .ondata _ | .connectReturn _ | .close _ | .closeListener _ | .connected _ | .connectFailed _
  | .received _ _ | .hungUp _ | .congested _ _ | .datagram _ _ | .dispatch _ | .clear _ =>
    isTrue trivial

end Census

end Socket

end SkynetCpp
