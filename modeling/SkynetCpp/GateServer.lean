import SkynetCpp.Netpack
import SkynetCpp.SocketStream

/-!
# The gate server

`gateserver.start` over the socket library, with a handler that has all its callbacks. Each event
and each command has a coroutine of its own; the loops of `on_data` are kept whose `handler.message`
has not returned, and what the handler was told of each connection.
-/

namespace SkynetCpp

namespace GateServer

open Lib

/-- How a call of `handler.message` goes on: it returns, it raises, or it waits for something. -/
inductive Outcome
  | returns
  | raises
  | suspends
  deriving DecidableEq, Repr

/-- The loop of an `on_data`, and the messages it has not come to. -/
structure Loop where
  connId : ℤ
  msgs : List Bytes
  deriving DecidableEq, Repr

/-- What became of the latest connection of a number since it was accepted: whether it is live, that
is, neither was the handler told that it is gone nor did a command close it; whether the service
called `socket.close`; the bytes of its data events; the calls of `handler.message`, and those made
when it was not live. -/
structure Trace where
  live : Bool := false
  closed : Bool := false
  stream : Bytes := []
  calls : List Bytes := []
  late : List Bytes := []

/-- The service. `connections` are the buffers, `clearing` the close events whose handler is called
and that are to take the connection out of `socket_connections`. -/
structure Gate where
  tables : Socket.Tables := .init
  clearing : List ℤ := []
  listenerId : Option ℤ := none
  connections : ℤ → Option Bytes := fun _ => none
  running : Option Loop := none
  suspended : List Loop := []
  trace : ℤ → Trace := fun _ => {}

namespace Gate

variable (s : Gate)

def setConnection (connId : ℤ) (buffer : Option Bytes) : Gate :=
  { s with connections := Function.update s.connections connId buffer }

def setTrace (connId : ℤ) (t : Trace) : Gate :=
  { s with trace := Function.update s.trace connId t }

/-- `on_socket_event("accept", …)` -/
def onAccept (connId : ℤ) : Gate :=
  (s.setConnection connId (some [])).setTrace connId { live := true }

/-- The gate forgets the connection. -/
def drop (connId : ℤ) : Gate :=
  (s.setConnection connId none).setTrace connId { s.trace connId with live := false }

/-- `on_socket_event("close", …)` -/
def onClose (connId : ℤ) : Gate := if (s.connections connId).isSome then s.drop connId else s

/-- The loop goes on to its next message, if there is one. -/
def proceed (loop : Loop) : Gate := { s with running := if loop.msgs = [] then none else some loop }

/-- `on_data`, up to its loop. -/
def onData (connId : ℤ) (data : Bytes) : Gate :=
  match s.connections connId with
  | some buffer =>
    let (msgs, remaining) := Netpack.lfilter buffer data
    (s.setConnection connId (some remaining)).proceed { connId, msgs }
  | none => s

/-- The listener has a handler for data. -/
def handlesData (listenerId : ℤ) : Bool :=
  (s.tables.listeners listenerId).any Socket.ListenerInfo.dataHandler

/-- The bytes of a data event are noted. -/
def note (connId : ℤ) (payload : Bytes) : Gate :=
  s.setTrace connId
    { s.trace connId with stream := (s.trace connId).stream ++ payload }

/-- `dispatch_socket_event`, with the handlers. -/
def dispatch (e : Socket.Event) : Gate :=
  let s := { s with tables := (s.tables.dispatch e).1 }
  match e with
  | .accept listenerId connId => if s.tables.handles listenerId then s.onAccept connId else s
  | .data listenerId connId payload =>
    if s.handlesData listenerId then
      if (s.tables.connections connId).isSome then (s.note connId payload).onData connId payload
      else s.note connId payload
    else s
  | .close listenerId connId =>
    let s := { s with clearing := s.clearing ++ [connId] }
    if s.tables.handles listenerId then s.onClose connId else s
  | .opened _ | .warning .. | .udp .. => s

/-- `handle_open`, if the listener has this id. -/
def handleOpen (id : ℤ) : Gate :=
  { s with
    listenerId := some id
    tables := { s.tables with
      listeners :=
        Function.update s.tables.listeners id (some { handler := true, dataHandler := true }) } }

/-- `socket.close` takes the connection out of `socket_connections`. -/
def socketClose (connId : ℤ) : Gate := { s with tables := s.tables.setConnection connId none }

/-- `handle_close`; its `socket.write` of no bytes changes nothing here. -/
def handleClose (connId : ℤ) : Gate :=
  if s.listenerId.isSome then (s.socketClose connId).drop connId else s

/-- `handle_kick` -/
def handleKick (connId : ℤ) : Gate :=
  if s.listenerId.isSome then (s.socketClose connId).drop connId else s

/-- `handler.message(conn_id, msg)` is called. -/
def call (connId : ℤ) (msg : Bytes) : Gate :=
  let t := s.trace connId
  s.setTrace connId { t with
    calls := t.calls ++ [msg], late := if t.live then t.late else t.late ++ [msg] }

/-- The call has gone on, and this loop is left. -/
def settle (loop : Loop) : Outcome → Gate
  | .returns => s.proceed loop
  | .raises => { s with running := none }
  | .suspends => { s with running := none, suspended := s.suspended ++ [loop] }

inductive Label
  | handleOpen (id : ℤ)
  | handleClose (connId : ℤ)
  | handleKick (connId : ℤ)
  | event (e : Socket.Event)
  /-- the last line of a close event -/
  | clear (connId : ℤ)
  /-- the loop that runs calls `handler.message` -/
  | message (o : Outcome)
  /-- a call goes on that was suspended -/
  | goOn (i : ℕ) (o : Outcome)
  /-- calls of the socket library by the handler -/
  | socketClose (connId : ℤ)
  | connect (co : Socket.Coroutine) (id : ℤ)
  | read (co : Socket.Coroutine) (connId : ℤ) (op : Socket.ReadOp)

/-- A coroutine runs until it is suspended or ends. -/
def Enabled : Label → Prop
  | .handleOpen _ | .handleClose _ | .handleKick _ | .event _ => s.running = none
  | .clear connId => s.running = none ∧ connId ∈ s.clearing
  | .message _ => s.running.isSome = true
  | .goOn i _ => s.running = none ∧ i < s.suspended.length
  | .socketClose _ | .connect .. | .read .. => True

def exec : Label → Gate
  | .handleOpen id => s.handleOpen id
  | .handleClose connId => s.handleClose connId
  | .handleKick connId => s.handleKick connId
  | .event e => s.dispatch e
  | .clear connId =>
    { s with
      clearing := s.clearing.erase connId
      tables := s.tables.setConnection connId none }
  | .message o =>
    match s.running with
    | some ⟨connId, msg :: msgs⟩ => (s.call connId msg).settle ⟨connId, msgs⟩ o
    | _ => s
  | .goOn i o =>
    match s.suspended[i]? with
    | some loop => { s with suspended := s.suspended.eraseIdx i }.settle loop o
    | none => s
  | .socketClose connId =>
    (s.socketClose connId).setTrace connId { s.trace connId with closed := true }
  | .connect co id =>
    { s with
      tables := { s.tables with connecting := Function.update s.tables.connecting id (some co) } }
  | .read co connId op =>
    match s.tables.connections connId with
    | some conn =>
      { s with tables := s.tables.setConnection connId (some (conn.perform co op).1) }
    | none => s

instance : DecidablePred s.Enabled := fun l => by
  cases l <;> unfold Enabled <;> infer_instance

def step (s : Gate) (l : Label) : Option Gate := if s.Enabled l then some (s.exec l) else none

/-- The frames of the stream, as if it had come at once. -/
def frames (stream : Bytes) : List Bytes := (Netpack.lfilter [] stream).1

/-- The loops that are under way. -/
def loops : List Loop := s.running.toList ++ s.suspended

/-- A suspended loop of the connection has not come to all its messages. -/
def Waits (connId : ℤ) : Prop := ∃ loop ∈ s.suspended, loop.connId = connId ∧ loop.msgs ≠ []

instance (connId : ℤ) : Decidable (s.Waits connId) :=
  inferInstanceAs (Decidable (∃ loop ∈ s.suspended, _))

/-- The handler gets the frames of every connection in order, none twice, none after it was told
that the connection is gone or a command closed it, and all of those of a connection that nobody
closed. -/
structure InOrder : Prop where
  order : ∀ c, (s.trace c).calls <+: frames (s.trace c).stream
  all : ∀ c, (s.trace c).live = true → (s.trace c).closed = false →
    (∀ loop ∈ s.loops, loop.connId = c → loop.msgs = []) →
      (s.trace c).calls = frames (s.trace c).stream
  late : ∀ c, (s.trace c).late = []

/-- The messages that `on_data` is to call the handler with. -/
def newFrames (connId : ℤ) (payload : Bytes) : List Bytes :=
  match s.connections connId with
  | some buffer => (Netpack.lfilter buffer payload).1
  | none => []

/-- `handler.message` raises at the last message of its data event only. While it is suspended, and
messages of the data event are left, no command closes the connection, and there is no close event
of it and no data event with more frames. The number of a connection is not used for another that
is connected while it is live or whose close event is handled late. -/
def Careful : Label → Prop
  | .message .raises => ∀ loop ∈ s.running, loop.msgs.tail = []
  | .goOn i .raises => ∀ loop ∈ s.suspended[i]?, loop.msgs = []
  | .handleClose c | .handleKick c => s.listenerId.isSome = true → ¬ s.Waits c
  | .event (.accept l c) | .event (.close l c) => s.tables.handles l = true → ¬ s.Waits c
  | .event (.data l c payload) =>
    s.handlesData l = true → (s.tables.connections c).isSome = true → s.Waits c →
      s.newFrames c payload = []
  | .event (.opened c) =>
    (s.tables.connecting c).isSome = true → (s.connections c).isSome = true →
      (s.tables.connections c).isSome = true
  | .clear c => (s.connections c).isSome = true → s.tables.connections c = none
  | _ => True

instance : DecidablePred s.Careful := fun l => by
  unfold Careful
  split <;> infer_instance

end Gate

end GateServer

end SkynetCpp
