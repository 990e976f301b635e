import SkynetCpp.Network

/-!
# Listeners and UDP sockets

The listeners and the UDP sockets of the process, as the thread of the `io_context` serves them: an
`async_accept` or an `async_receive_from` completes with whatever the peers make of it, and its
handler runs. An exception that leaves a handler leaves `io_context::run`, which nothing catches.
-/

namespace SkynetCpp

namespace Network

/-- How an `async_accept` completes: with an error; with a connection; or with a connection whose
peer has gone, so that `remote_endpoint` throws. -/
inductive Accepting
  | error
  | peer (address : Bytes) (port : ℕ)
  | gone
  deriving DecidableEq, Repr

/-- How an `async_receive_from` completes. -/
inductive Receiving
  | error
  | datagram (data address : Bytes) (port : ℕ)
  deriving DecidableEq, Repr

/-- A connection that was accepted. -/
structure Peer where
  id : ℤ
  address : Bytes := []
  port : ℕ := 0
  deriving DecidableEq, Repr

structure TcpListener where
  listenerId : ℤ
  isOpen : Bool := true
  /-- the `async_accept`s whose handler has not run -/
  accepts : ℕ := 0
  /-- the connections that were accepted, and which of them `close_connection` has taken -/
  accepted : List Peer := []
  closed : List ℕ := []
  /-- `connections_`: which connection an id stands for -/
  connections : List (ℤ × ℕ) := []
  events : List Payload := []
  deriving DecidableEq, Repr

structure UdpSocket where
  id : ℤ
  isOpen : Bool := true
  /-- the `async_receive_from`s whose handler has not run -/
  receives : ℕ := 0
  events : List Payload := []
  deriving DecidableEq, Repr

namespace TcpListener

variable (t : TcpListener)

def doAccept : TcpListener := { t with accepts := t.accepts + 1 }

/-- The constructor and `start`. -/
def start (listenerId : ℤ) : TcpListener := doAccept { listenerId }

/-- The handler takes a connection with this id. -/
def take (id : ℤ) (address : Bytes) (port : ℕ) : TcpListener :=
  { t with
    accepted := t.accepted ++ [{ id, address, port }]
    connections := t.connections.filter (·.1 ≠ id) ++ [(id, t.accepted.length)]
    events := t.events ++ [.socketAccept t.listenerId id address port] }

/-- The handler has a connection, and an exception leaves it. -/
def lose (id : ℤ) : TcpListener := { t with accepted := t.accepted ++ [({ id } : Peer)] }

def closeConnection (id : ℤ) : TcpListener :=
  match t.connections.find? (·.1 = id) with
  | none => t
  | some (_, k) =>
    { t with
      closed := t.closed ++ [k]
      connections := t.connections.filter (·.1 ≠ id) }

/-- The event that tells of a connection. -/
def announce (p : Peer) : Payload := .socketAccept t.listenerId p.id p.address p.port

/-- A listener that was not stopped has one `async_accept` outstanding; each connection it has
accepted was announced once and is in `connections_`, unless `close_connection` has taken it. -/
structure Listening (t : TcpListener) : Prop where
  one : t.isOpen = true → t.accepts = 1
  announced : t.events = t.accepted.map t.announce
  held : ∀ k p, t.accepted[k]? = some p → k ∈ t.closed ∨ (p.id, k) ∈ t.connections

/-- An id stands for one connection, which has that id and was not taken. -/
structure Owned (t : TcpListener) : Prop where
  entries : ∀ x ∈ t.connections, x.2 ∉ t.closed ∧ ∃ p, t.accepted[x.2]? = some p ∧ p.id = x.1
  past : ∀ k ∈ t.closed, k < t.accepted.length
  distinct : t.connections.Pairwise fun x y => x.1 ≠ y.1

end TcpListener

namespace UdpSocket

variable (u : UdpSocket)

def doReceive : UdpSocket := { u with receives := u.receives + 1 }

def start (id : ℤ) : UdpSocket := doReceive { id }

def post (data address : Bytes) (port : ℕ) : UdpSocket :=
  { u with events := u.events ++ [.socketUDP u.id data address port] }

end UdpSocket

/-- What the thread of the `io_context` serves. -/
structure IoThread where
  /-- `s_next_accepted_connection_id` -/
  nextId : ℤ := 1
  listeners : List TcpListener := []
  udps : List UdpSocket := []
  /-- an exception has ended the thread, and with it the process -/
  ended : Bool := false
  deriving DecidableEq, Repr

namespace IoThread

inductive Label
  | listen (listenerId : ℤ)
  | bind (id : ℤ)
  | acceptHandler (i : ℕ) (o : Accepting)
  | receiveHandler (i : ℕ) (o : Receiving)
  | closeConnection (i : ℕ) (id : ℤ)
  /-- the functions posted by `stop` -/
  | stop (i : ℕ)
  | stopUdp (i : ℕ)
  deriving DecidableEq, Repr

variable (s : IoThread)

/-- The `i`th listener changes. -/
def modify (i : ℕ) (f : TcpListener → TcpListener) : IoThread :=
  { s with listeners := s.listeners.modify i f }

def modifyUdp (i : ℕ) (f : UdpSocket → UdpSocket) : IoThread :=
  { s with udps := s.udps.modify i f }

/-- The handler of `do_accept`. -/
def acceptHandler (i : ℕ) (o : Accepting) : IoThread :=
  let s := s.modify i fun t => { t with accepts := t.accepts - 1 }
  let id := s.nextId
  match o with
  | .error => s
  | .gone =>
    { s with nextId := Socket.System.nextInt id, ended := true }.modify i fun t => t.lose id
  | .peer address port =>
    { s with nextId := Socket.System.nextInt id }.modify i fun t => (t.take id address port).doAccept

/-- The handler of `do_receive`. -/
def receiveHandler (i : ℕ) (o : Receiving) : IoThread :=
  let s := s.modifyUdp i fun u => { u with receives := u.receives - 1 }
  match o with
  | .error => s
  | .datagram data address port => s.modifyUdp i fun u => (u.post data address port).doReceive

def exec : Label → IoThread
  | .listen listenerId => { s with listeners := s.listeners ++ [.start listenerId] }
  | .bind id => { s with udps := s.udps ++ [.start id] }
  | .acceptHandler i o => s.acceptHandler i o
  | .receiveHandler i o => s.receiveHandler i o
  | .closeConnection i id => s.modify i fun t => t.closeConnection id
  | .stop i => s.modify i fun t => { t with isOpen := false }
  | .stopUdp i => s.modifyUdp i fun u => { u with isOpen := false }

def Enabled : Label → Prop
  | .acceptHandler i _ => s.ended = false ∧ ∃ t ∈ s.listeners[i]?, 0 < t.accepts
  | .receiveHandler i _ => s.ended = false ∧ ∃ u ∈ s.udps[i]?, 0 < u.receives
  | _ => s.ended = false

instance (l : Label) : Decidable (s.Enabled l) := by
  cases l <;> unfold Enabled <;> infer_instance

def step (s : IoThread) (l : Label) : Option IoThread :=
  if s.Enabled l then some (s.exec l) else none

def init : IoThread := {}

/-- The thread goes on, every listener listens, and a UDP socket that was not stopped has one
`async_receive_from` outstanding. -/
structure Serving (s : IoThread) : Prop where
  goes : s.ended = false
  listening : ∀ t ∈ s.listeners, t.Listening
  receiving : ∀ u ∈ s.udps, u.isOpen = true → u.receives = 1

/-- A listener or a UDP socket completes with an error only when it was stopped; no peer has gone
before its endpoint is asked for; and no listener gets an id again, after 2^32 connections, that
it still has a connection for. -/
def Orderly (s : IoThread) : Label → Prop
  | .acceptHandler i .error => ∀ t ∈ s.listeners[i]?, t.isOpen = false
  | .acceptHandler _ .gone => False
  | .acceptHandler i (.peer _ _) =>
    ∀ t ∈ s.listeners[i]?, ∀ x ∈ t.connections, x.1 ≠ s.nextId
  | .receiveHandler i .error => ∀ u ∈ s.udps[i]?, u.isOpen = false
  | _ => True

instance (s : IoThread) : ∀ l, Decidable (s.Orderly l)
  | .acceptHandler i o => by
    cases o <;> unfold Orderly <;> infer_instance
  | .receiveHandler i o => by
    cases o <;> unfold Orderly <;> infer_instance
  | .listen _ | .bind _ | .closeConnection _ _ | .stop _ | .stopUdp _ => isTrue trivial

end IoThread

end Network

end SkynetCpp
