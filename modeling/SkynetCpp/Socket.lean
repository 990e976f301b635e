import SkynetCpp.Lib.Runs
import SkynetCpp.SocketDriver

/-!
# The socket library

The tables of `socket.lua`, and the system they make with the driver: a service that calls the
library and is told of events, in any order, while connections come and go.
-/

namespace SkynetCpp

open Lib

namespace Socket

open SocketDriver

/-- A suspended coroutine. -/
abbrev Coroutine := ℕ

/-- An entry of `socket_connections`. -/
structure Connection where
  listenerId : Option ℤ
  buffer : Bytes := []
  readCo : Option Coroutine := none
  readSz : Option ℕ := none
  readSep : Option Bytes := none
  readResult : Option Bytes := none
  closed : Bool := false
  connectResult : Bool := false
  deriving DecidableEq, Repr

/-- An entry of `socket_listeners`: which handlers there are. -/
structure ListenerInfo where
  handler : Bool
  dataHandler : Bool := false
  deriving DecidableEq, Repr

structure Tables where
  listeners : ℤ → Option ListenerInfo
  connections : ℤ → Option Connection
  connecting : ℤ → Option Coroutine
  udpCallbacks : ℤ → Bool

/-- What `unpackevent` makes of a `PTYPE_SOCKET` message. -/
inductive Event
  | accept (listenerId connId : ℤ)
  | data (listenerId connId : ℤ) (payload : Bytes)
  | close (listenerId connId : ℤ)
  | opened (connId : ℤ)
  | warning (listenerId connId : ℤ) (bytes : ℕ)
  | udp (socketId : ℤ) (payload : Bytes)
  deriving DecidableEq, Repr

/-- `buffer:find(sep, 1, true)`, from 0. -/
def find (sep : Bytes) : Bytes → Option ℕ
  | [] => if sep = [] then some 0 else none
  | b :: buffer => if sep.isPrefixOf (b :: buffer) then some 0 else (find sep buffer).map (· + 1)

/-- A connection that got data, and the reader that is woken. -/
def Connection.feed (conn : Connection) (payload : Bytes) : Connection × Option Coroutine :=
  let conn := { conn with buffer := conn.buffer ++ payload }
  match conn.readCo, conn.readSz, conn.readSep with
  | none, _, _ => (conn, none)
  | some co, some sz, _ =>
    if sz ≤ conn.buffer.length then
      ({ conn with buffer := conn.buffer.drop sz, readCo := none, readSz := none,
                   readResult := some (conn.buffer.take sz) }, some co)
    else (conn, none)
  | some co, none, some sep =>
    match find sep conn.buffer with
    | some pos =>
      ({ conn with buffer := conn.buffer.drop (pos + sep.length), readCo := none, readSep := none,
                   readResult := some (conn.buffer.take pos) }, some co)
    | none => (conn, none)
  | some co, none, none =>
    ({ conn with buffer := [], readCo := none, readResult := some conn.buffer }, some co)

/-- A connection that was closed, and the reader that is woken. -/
def Connection.hangUp (conn : Connection) : Connection × Option Coroutine :=
  match conn.readCo with
  | some co => ({ conn with closed := true, readCo := none, readResult := none }, some co)
  | none => ({ conn with closed := true }, none)

namespace Tables

def init : Tables where
  listeners _ := none
  connections _ := none
  connecting _ := none
  udpCallbacks _ := false

def setConnection (t : Tables) (connId : ℤ) (conn : Option Connection) : Tables :=
  { t with connections := Function.update t.connections connId conn }

/-- The listener has a handler for connections. -/
def handles (t : Tables) (listenerId : ℤ) : Bool :=
  (t.listeners listenerId).any ListenerInfo.handler

/-- `dispatch_socket_event`, up to the handler it calls last: the tables, and the coroutines that
are woken. -/
def dispatch (t : Tables) : Event → Tables × List Coroutine
  | .accept listenerId connId =>
    (if t.handles listenerId then t.setConnection connId (some { listenerId := some listenerId })
      else t, [])
  | .data _ connId payload =>
    match t.connections connId with
    | some conn =>
      let (conn, woken) := conn.feed payload
      (t.setConnection connId (some conn), woken.toList)
    | none => (t, [])
  | .close _ connId =>
    let woken := (t.connecting connId).toList
    let t := { t with connecting := Function.update t.connecting connId none }
    match t.connections connId with
    | some conn =>
      let (conn, reader) := conn.hangUp
      (t.setConnection connId (some conn), woken ++ reader.toList)
    | none => (t, woken)
  | .opened connId =>
    match t.connecting connId with
    | some co =>
      ({ t.setConnection connId (some { listenerId := none, connectResult := true }) with
          connecting := Function.update t.connecting connId none }, [co])
    | none => (t, [])
  | .warning .. | .udp .. => (t, [])

/-- `socket.close`: what is asked of the driver. -/
def close (t : Tables) (d : Driver) (connId : ℤ) : Driver :=
  match (t.connections connId).bind Connection.listenerId with
  | some listenerId => d.closeAccepted listenerId connId
  | none => d.close connId

end Tables

/-- A service with sockets. The counters of the process and the events that are not dispatched
yet, in any order; the connections whose close event is dispatched but for its last line, which
follows the handler; the calls of `socket.connect` that have not returned. `created` are the
connections of the service, and `reported` those it was told of. -/
structure System where
  tables : Tables
  driver : Driver
  nextAccepted : ℤ
  nextConnector : ℤ
  events : List Event
  clearing : List ℤ
  connects : List ℤ
  created : List TcpId
  reported : List TcpId

namespace System

def init : System where
  tables := .init
  driver := .init
  nextAccepted := 1
  nextConnector := 1000000
  events := []
  clearing := []
  connects := []
  created := []
  reported := []

/-- The next value of an `atomic<int>`. -/
def nextInt (n : ℤ) : ℤ := if n = 2 ^ 31 - 1 then -(2 ^ 31) else n + 1

/-- A service closes the numbers it was given. -/
def Given (s : System) (id : ℤ) : Prop :=
  id ∈ s.reported.map TcpId.number ∨ (1 ≤ id ∧ id < s.driver.nextId)

instance (s : System) (id : ℤ) : Decidable (s.Given id) :=
  inferInstanceAs (Decidable (_ ∨ _))

/-- The connection an event tells the service of. -/
def told (t : Tables) : Event → List TcpId
  | .accept listenerId connId =>
    if t.handles listenerId then [.accepted listenerId connId] else []
  | _ => []

/-- What happens: the service calls the library, the driver posts events, and they are dispatched.
A listener accepts until its `stop`, which is posted, is run; so this model lets it. -/
inductive Label
  | listen (handler : Bool)
  | ondata (listenerId : ℤ)
  | udp (callback : Bool)
  | connect (co : Coroutine)
  | connectReturn (id : ℤ)
  | close (connId : ℤ)
  | closeListener (listenerId : ℤ)
  | accepted (listenerId : ℤ)
  | connected (id : ℤ)
  | connectFailed (id : ℤ)
  | received (k : TcpId) (payload : Bytes)
  | hungUp (k : TcpId)
  | congested (k : TcpId) (bytes : ℕ)
  | datagram (socketId : ℤ) (payload : Bytes)
  | otherAccepted
  | otherConnector
  | dispatch (i : ℕ)
  | clear (connId : ℤ)

/-- The ids a connection's events carry. -/
def eventIds : TcpId → ℤ × ℤ
  | .accepted listenerId connId => (listenerId, connId)
  | .connector id => (0, id)

def post (s : System) (e : Event) : System := { s with events := s.events ++ [e] }

/-- When it can happen. -/
def Enabled (s : System) : Label → Prop
  | .connectReturn id => id ∈ s.connects
  | .close id | .closeListener id => s.Given id
  | .accepted id =>
    s.driver.sockets id = some .listener ∨ s.driver.stopped id = some .listener
  | .connected id | .connectFailed id =>
    TcpId.connector id ∈ s.created ∧ s.driver.tcp (.connector id) = none
  | .received k _ | .hungUp k | .congested k _ => (s.driver.tcp k).isSome = true
  | .datagram id _ => s.driver.sockets id = some .udp ∨ s.driver.stopped id = some .udp
  | .dispatch i => i < s.events.length
  | .clear connId => connId ∈ s.clearing
  | _ => True

instance (s : System) : DecidablePred s.Enabled := fun l => by
  cases l <;> unfold Enabled <;> infer_instance

/-- The library has dispatched an event, up to what follows the handler. -/
def dispatched (s : System) (e : Event) : System :=
  { s with
    tables := (s.tables.dispatch e).1
    clearing := match e with
      | .close _ connId => s.clearing ++ [connId]
      | _ => s.clearing
    reported := s.reported ++ told s.tables e }

/-- What happens then. -/
def exec (s : System) : Label → System
  | .listen handler =>
    { s with
      driver := s.driver.alloc .listener
      tables := { s.tables with
        listeners := Function.update s.tables.listeners s.driver.nextId (some { handler }) } }
  | .ondata listenerId =>
    { s with
      tables := { s.tables with
        listeners := Function.update s.tables.listeners listenerId
          ((s.tables.listeners listenerId).map fun info => { info with dataHandler := true }) } }
  | .udp callback =>
    { s with
      driver := s.driver.alloc .udp
      tables := { s.tables with
        udpCallbacks := if callback then
            Function.update s.tables.udpCallbacks s.driver.nextId true
          else s.tables.udpCallbacks } }
  | .connect co =>
    let id := s.nextConnector
    { s with
      driver := s.driver.connect id
      nextConnector := nextInt id
      tables := { s.tables with connecting := Function.update s.tables.connecting id (some co) }
      connects := s.connects ++ [id]
      created := s.created ++ [TcpId.connector id] }
  | .connectReturn id =>
    { s with
      connects := s.connects.erase id
      reported := if (s.tables.connections id).any Connection.connectResult then
          s.reported ++ [TcpId.connector id]
        else s.reported }
  | .close connId =>
    { s with
      driver := s.tables.close s.driver connId
      tables := s.tables.setConnection connId none }
  | .closeListener listenerId =>
    { s with
      driver := s.driver.close listenerId
      tables := { s.tables with
        listeners := Function.update s.tables.listeners listenerId none } }
  | .accepted listenerId =>
    let connId := s.nextAccepted
    { s with
      driver := s.driver.accept listenerId connId
      nextAccepted := nextInt connId
      created := s.created ++ [TcpId.accepted listenerId connId] }.post
        (.accept listenerId connId)
  | .connected id => { s with driver := s.driver.openTcp (.connector id) }.post (.opened id)
  | .connectFailed id => s.post (.close 0 id)
  | .received k payload => s.post (.data (eventIds k).1 (eventIds k).2 payload)
  | .hungUp k => s.post (.close (eventIds k).1 (eventIds k).2)
  | .congested k bytes => s.post (.warning (eventIds k).1 (eventIds k).2 bytes)
  | .datagram socketId payload => s.post (.udp socketId payload)
  | .otherAccepted => { s with nextAccepted := nextInt s.nextAccepted }
  | .otherConnector => { s with nextConnector := nextInt s.nextConnector }
  | .dispatch i =>
    match s.events[i]? with
    | some e => { s with events := s.events.eraseIdx i }.dispatched e
    | none => s
  | .clear connId =>
    { s with
      clearing := s.clearing.erase connId
      tables := s.tables.setConnection connId none }

def step (s : System) (l : Label) : Option System :=
  if s.Enabled l then some (s.exec l) else none

end System

end Socket

end SkynetCpp
