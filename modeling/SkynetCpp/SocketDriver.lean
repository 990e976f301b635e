import Mathlib.Logic.Function.Basic
import SkynetCpp.Message

/-!
# The socket driver

The sockets of one service: the `SocketStore` of `lua_socket_binding.cpp`, and the objects of
`network.cpp` behind it. Listeners and UDP sockets take their ids from the store, connectors and
accepted connections from two counters of the process.
-/

namespace SkynetCpp

/-- A TCP connection: accepted by a listener, under the listener's id and its own, or made by a
connector. -/
inductive TcpId
  | accepted (listenerId connId : ℤ)
  | connector (id : ℤ)
  deriving DecidableEq, Repr

/-- The number a service knows a connection by. -/
def TcpId.number : TcpId → ℤ
  | .accepted _ connId => connId
  | .connector id => id

namespace SocketDriver

/-- `SocketEntry::Type` -/
inductive EntryType
  | listener
  | connector
  | udp
  deriving DecidableEq, Repr

/-- The store and the objects. `connections` are the `connections_` of each listener. `tcp` tells
of each `TcpConnection` that was made if `close` was called on it; a connector has none before it
is connected. `stopped` are the listeners and the UDP sockets `stop` was called on, with their type. -/
structure Driver where
  sockets : ℤ → Option EntryType
  nextId : ℤ
  connections : ℤ → ℤ → Bool
  tcp : TcpId → Option Bool
  stopped : ℤ → Option EntryType

namespace Driver

def init : Driver where
  sockets _ := none
  nextId := 1
  connections _ _ := false
  tcp _ := none
  stopped _ := none

/-- A connection's object is made. -/
def openTcp (d : Driver) (k : TcpId) : Driver :=
  { d with tcp := Function.update d.tcp k (some false) }

/-- `TcpConnection::close`, if the connection was made. -/
def closeTcp (d : Driver) (k : TcpId) : Driver :=
  { d with tcp := Function.update d.tcp k ((d.tcp k).map fun _ => true) }

/-- `llisten` and `ludp`: the new entry has the next id. -/
def alloc (d : Driver) (type : EntryType) : Driver :=
  { d with sockets := Function.update d.sockets d.nextId (some type), nextId := d.nextId + 1 }

/-- `lconnect`, of a connector with this id. -/
def connect (d : Driver) (id : ℤ) : Driver :=
  { d with
    sockets := Function.update d.sockets id (some .connector)
    tcp := Function.update d.tcp (.connector id) none }

/-- `TcpListener::do_accept`, with the next accepted id. -/
def accept (d : Driver) (listenerId connId : ℤ) : Driver :=
  { d.openTcp (.accepted listenerId connId) with
    connections := Function.update d.connections listenerId
      (Function.update (d.connections listenerId) connId true) }

/-- `TcpListener::close_connection` -/
def closeConnection (d : Driver) (listenerId connId : ℤ) : Driver :=
  if d.connections listenerId connId then
    { d.closeTcp (.accepted listenerId connId) with
      connections := Function.update d.connections listenerId
        (Function.update (d.connections listenerId) connId false) }
  else d

/-- `lclose` with two arguments. -/
def closeAccepted (d : Driver) (id connId : ℤ) : Driver :=
  if d.sockets id = some .listener then d.closeConnection id connId else d

/-- `lclose` with one argument. -/
def close (d : Driver) (id : ℤ) : Driver :=
  match d.sockets id with
  | none => d
  | some .connector =>
    { d.closeTcp (.connector id) with sockets := Function.update d.sockets id none }
  | some type =>
    { d with
      sockets := Function.update d.sockets id none
      stopped := Function.update d.stopped id (some type) }

end Driver

end SocketDriver

end SkynetCpp
