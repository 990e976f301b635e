import SkynetCpp.Lib.Runs
import SkynetCpp.Socket

/-!
# TCP connections

`TcpConnection` of `network.cpp`, as the handlers on the thread of the `io_context` see it, and the
listeners and connectors that make connections. The reads that are outstanding share one buffer;
they complete in the order in which they were started, each when bytes have come or when it fails,
and its handler runs later. The peer is outside: it sends what it likes, and a read or a write may
fail at any time.
-/

namespace SkynetCpp

namespace Network

open Lib

def SEND_BUFFER_WARNING : ℕ := 1024 * 1024

/-- The size of `read_buf_`. -/
def READ_BUF : ℕ := 8192

/-- An `async_read_some` whose handler has not run. -/
inductive Read
  | outstanding
  | done (bytes : ℕ)
  | failed
  deriving DecidableEq, Repr

structure TcpConnection where
  listenerId : ℤ
  id : ℤ
  isOpen : Bool := true
  reads : List Read := []
  readBuf : Bytes := []
  writeQueue : List Bytes := []
  isWriting : Bool := false
  /-- the handler of an `async_write` has not run -/
  writes : Bool := false
  isPaused : Bool := false
  pendingBytes : ℕ := 0
  warned : Bool := false
  /-- what the reads have taken from the peer, and what was sent to the owner -/
  received : Bytes := []
  events : List Payload := []
  deriving DecidableEq, Repr

/-- What runs on the thread of the `io_context`, or happens to the socket. -/
inductive Io
  /-- the posted functions -/
  | send (data : Bytes)
  | close
  | pause
  | resume
  | shutdownWrite
  /-- the oldest read gets these bytes, or fails -/
  | receive (data : Bytes)
  | readFails
  /-- the handlers -/
  | readHandler
  | writeHandler (ok : Bool)
  deriving DecidableEq, Repr

namespace TcpConnection

variable (c : TcpConnection)

def post (e : Payload) : TcpConnection := { c with events := c.events ++ [e] }

def doRead : TcpConnection :=
  if c.isPaused then c else { c with reads := c.reads ++ [.outstanding] }

def doWrite : TcpConnection :=
  if c.writeQueue = [] then { c with isWriting := false }
  else { c with isWriting := true, writes := true }

def checkSendWarning : TcpConnection :=
  if c.warned = false ∧ SEND_BUFFER_WARNING ≤ c.pendingBytes then
    { c with warned := true }.post (.socketWarning c.listenerId c.id c.pendingBytes)
  else c

def send (data : Bytes) : TcpConnection :=
  let c := { c with
    pendingBytes := c.pendingBytes + data.length
    writeQueue := c.writeQueue ++ [data] }.checkSendWarning
  if c.isWriting then c else c.doWrite

def resume : TcpConnection :=
  if c.isPaused then { c with isPaused := false }.doRead else c

/-- The oldest read that is outstanding completes. -/
def settle (r : Read) : List Read → List Read
  | [] => []
  | .outstanding :: reads => r :: reads
  | r' :: reads => r' :: settle r reads

def receive (data : Bytes) : TcpConnection :=
  { c with
    reads := settle (.done data.length) c.reads
    readBuf := data ++ c.readBuf.drop data.length
    received := c.received ++ data }

def readHandler : TcpConnection :=
  match c.reads with
  | .done bytes :: reads =>
    ({ c with reads }.post (.socketData c.listenerId c.id (c.readBuf.take bytes))).doRead
  | .failed :: reads => { c with reads }.post (.socketClose c.listenerId c.id)
  | _ => c

def writeHandler (ok : Bool) : TcpConnection :=
  let c := { c with writes := false }
  if ok then
    { c with
      pendingBytes := c.pendingBytes - (c.writeQueue.headD []).length
      warned := false
      writeQueue := c.writeQueue.tail }.doWrite
  else c.post (.socketClose c.listenerId c.id)

/-- A read has completed, and its handler is next. -/
def Completed : List Read → Prop
  | .done _ :: _ | .failed :: _ => True
  | _ => False

def Enabled : Io → Prop
  | .receive data =>
    c.isOpen = true ∧ .outstanding ∈ c.reads ∧ 0 < data.length ∧ data.length ≤ READ_BUF
  | .readFails => .outstanding ∈ c.reads
  | .readHandler => Completed c.reads
  | .writeHandler _ => c.writes = true
  | _ => True

def exec : Io → TcpConnection
  | .send data => c.send data
  | .close => { c with isOpen := false }
  | .pause => { c with isPaused := true }
  | .resume => c.resume
  | .shutdownWrite => c
  | .receive data => c.receive data
  | .readFails => { c with reads := settle .failed c.reads }
  | .readHandler => c.readHandler
  | .writeHandler ok => c.writeHandler ok

instance : ∀ l, Decidable (Completed l)
  | .done _ :: _ | .failed :: _ => isTrue trivial
  | [] | .outstanding :: _ => isFalse not_false

instance (l : Io) : Decidable (c.Enabled l) := by
  cases l <;> unfold Enabled <;> infer_instance

def step (c : TcpConnection) (l : Io) : Option TcpConnection :=
  if c.Enabled l then some (c.exec l) else none

/-- The constructor and `start`. -/
def start (listenerId id : ℤ) : TcpConnection := doRead { listenerId, id }

/-- A resume that finds the connection paused comes when no read is outstanding. -/
def Calm (c : TcpConnection) (l : Io) : Prop := l = .resume → c.isPaused = true → c.reads = []

/-- The bytes of an event. -/
def dataOf : Payload → Bytes
  | .socketData _ _ data => data
  | _ => []

/-- What a read has put into the buffer for a handler that has not run. -/
def inFlight : Bytes := c.reads.flatMap fun
  | .done bytes => c.readBuf.take bytes
  | _ => []

/-- There is one read at most, the owner gets what the peer has sent, byte by byte, and reading goes
on when the connection is not paused. -/
structure OneRead (c : TcpConnection) : Prop where
  one : c.reads.length ≤ 1
  bytes : c.events.flatMap dataOf ++ c.inFlight = c.received
  reading : c.isPaused = false → c.reads ≠ [] ∨ .socketClose c.listenerId c.id ∈ c.events

end TcpConnection

/-- A connector that has no connection yet, or will have none, or a connection. -/
inductive Endpoint
  | connecting (id : ℤ)
  | failed (id : ℤ)
  | opened (c : TcpConnection)
  deriving DecidableEq, Repr

def Endpoint.id : Endpoint → ℤ
  | .connecting id | .failed id => id
  | .opened c => c.id

/-- The two counters, and what has been sent to the owners. -/
structure Net where
  nextAccepted : ℤ := 1
  nextConnector : ℤ := 1000000
  endpoints : List Endpoint := []
  events : List Payload := []
  deriving DecidableEq, Repr

inductive Label
  | accept (listenerId : ℤ) (address : Bytes) (port : ℕ)
  | connect
  | connected (i : ℕ) (address : Bytes) (port : ℕ)
  /-- the name is not resolved, or nothing answers -/
  | connectFails (i : ℕ)
  | io (i : ℕ) (l : Io)
  deriving DecidableEq, Repr

namespace Net

variable (n : Net)

/-- An endpoint becomes a connection, or the connection goes on, and sends these events. -/
def set (i : ℕ) (e : Endpoint) (es : List Payload) : Net :=
  { n with endpoints := n.endpoints.set i e, events := n.events ++ es }

/-- `TcpListener::do_accept` -/
def accept (listenerId : ℤ) (address : Bytes) (port : ℕ) : Net :=
  let id := n.nextAccepted
  let e := .socketAccept listenerId id address port
  { n with
    nextAccepted := Socket.System.nextInt id
    endpoints := n.endpoints ++ [.opened ((TcpConnection.start listenerId id).post e)]
    events := n.events ++ [e] }

/-- `TcpConnector::start`, of a new connector -/
def connect : Net :=
  { n with
    nextConnector := Socket.System.nextInt n.nextConnector
    endpoints := n.endpoints ++ [.connecting n.nextConnector] }

def connected (i : ℕ) (address : Bytes) (port : ℕ) : Net :=
  match n.endpoints[i]? with
  | some (.connecting id) =>
    let e := .socketOpen id address port
    n.set i (.opened ((TcpConnection.start 0 id).post e)) [e]
  | _ => n

def connectFails (i : ℕ) : Net :=
  match n.endpoints[i]? with
  | some (.connecting id) => n.set i (.failed id) [.socketClose 0 id]
  | _ => n

def io (i : ℕ) (l : Io) : Net :=
  match n.endpoints[i]? with
  | some (.opened c) => n.set i (.opened (c.exec l)) ((c.exec l).events.drop c.events.length)
  | _ => n

def exec : Label → Net
  | .accept listenerId address port => n.accept listenerId address port
  | .connect => n.connect
  | .connected i address port => n.connected i address port
  | .connectFails i => n.connectFails i
  | .io i l => n.io i l

/-- The connection can do this. -/
def Can (l : Io) : Option Endpoint → Prop
  | some (.opened c) => c.Enabled l
  | _ => False

def Connecting : Option Endpoint → Prop
  | some (.connecting _) => True
  | _ => False

def Enabled : Label → Prop
  | .accept _ _ _ | .connect => True
  | .connected i _ _ | .connectFails i => Connecting n.endpoints[i]?
  | .io i l => Can l n.endpoints[i]?

instance (l : Io) : ∀ e, Decidable (Can l e)
  | some (.opened c) => inferInstanceAs (Decidable (c.Enabled l))
  | none | some (.connecting _) | some (.failed _) => isFalse id

instance : ∀ e, Decidable (Connecting e)
  | some (.connecting _) => isTrue trivial
  | none | some (.opened _) | some (.failed _) => isFalse id

instance (l : Label) : Decidable (n.Enabled l) := by
  cases l <;> unfold Enabled <;> infer_instance

def step (n : Net) (l : Label) : Option Net := if n.Enabled l then some (n.exec l) else none

end Net

/-- The connection an event is of. -/
def connId : Payload → Option ℤ
  | .socketAccept _ id _ _ | .socketOpen id _ _ | .socketData _ id _ | .socketClose _ id
  | .socketWarning _ id _ => some id
  | _ => none

/-- The connection is made. -/
def Opens : Payload → Prop
  | .socketAccept _ _ _ _ | .socketOpen _ _ _ => True
  | _ => False

def Middle : Payload → Prop
  | .socketData _ _ _ | .socketWarning _ _ _ => True
  | _ => False

def Closes : Payload → Prop
  | .socketClose _ _ => True
  | _ => False

instance : ∀ e, Decidable (Closes e)
  | .socketClose _ _ => isTrue trivial
  | .monostate | .string _ | .seri _ _ | .socketAccept _ _ _ _ | .socketData _ _ _
  | .socketOpen _ _ _ | .socketWarning _ _ _ | .socketUDP _ _ _ _ => isFalse not_false

/-- An accept or an open event, then data and warnings, then a close event at most; or the close
event alone of a connect that has failed. -/
def Protocol (es : List Payload) : Prop :=
  es = [] ∨ (∃ e, Closes e ∧ es = [e]) ∨
    ∃ e middle closing, es = e :: middle ++ closing ∧ Opens e ∧ (∀ x ∈ middle, Middle x) ∧
      (closing = [] ∨ ∃ x, Closes x ∧ closing = [x])

/-- The operation sends no event. -/
def TcpConnection.Silent (c : TcpConnection) : Io → Prop
  | .readHandler => False
  | .writeHandler ok => ok = true
  | .send data => c.warned = true ∨ c.pendingBytes + data.length < SEND_BUFFER_WARNING
  | _ => True

/-- When the close event of a connection has been sent, none of its reads completes, none of its
writes fails and none of its sends reaches the warning. -/
def TcpConnection.Spent (c : TcpConnection) (l : Io) : Prop :=
  (∃ e ∈ c.events, Closes e) → c.Silent l

def Spent (l : Io) : Option Endpoint → Prop
  | some (.opened c) => c.Spent l
  | _ => True

/-- A new connection has a new id, and a connection that is closed does nothing more. -/
def Net.Orderly (n : Net) : Label → Prop
  | .accept _ _ _ => ∀ e ∈ n.endpoints, e.id ≠ n.nextAccepted
  | .connect => ∀ e ∈ n.endpoints, e.id ≠ n.nextConnector
  | .io i l => Spent l n.endpoints[i]?
  | _ => True

instance (c : TcpConnection) (l : Io) : Decidable (c.Calm l) :=
  inferInstanceAs (Decidable (_ → _ → _))

instance (c : TcpConnection) (l : Io) : Decidable (c.Silent l) := by
  cases l <;> unfold TcpConnection.Silent <;> infer_instance

instance (c : TcpConnection) (l : Io) : Decidable (c.Spent l) :=
  inferInstanceAs (Decidable (_ → _))

instance (l : Io) : ∀ e, Decidable (Spent l e)
  | some (.opened c) => inferInstanceAs (Decidable (c.Spent l))
  | none | some (.connecting _) | some (.failed _) => isTrue trivial

instance (n : Net) (l : Label) : Decidable (n.Orderly l) := by
  cases l <;> unfold Net.Orderly <;> infer_instance

end Network

end SkynetCpp
