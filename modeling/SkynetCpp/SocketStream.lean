import SkynetCpp.Socket

/-!
# Reading from a socket

`socket.read`, `socket.readline` and `socket.readall` on one connection, called by one coroutine at a
time, and the events of the connection. A reader that waits keeps its hold of the connection when that
has gone from `socket_connections`.
-/

namespace SkynetCpp

namespace Socket

open Lib

inductive ReadOp
  | read (sz : ℕ)
  | readline (sep : Bytes)
  | readall
  deriving DecidableEq, Repr

/-- A call returns, or waits. -/
inductive Outcome
  | returns (result : Option Bytes)
  | waits
  deriving DecidableEq, Repr

namespace Connection

variable (conn : Connection)

/-- `socket.read` -/
def read (co : Coroutine) (sz : ℕ) : Connection × Outcome :=
  if sz ≤ conn.buffer.length then
    ({ conn with buffer := conn.buffer.drop sz }, .returns (some (conn.buffer.take sz)))
  else if conn.closed then (conn, .returns none)
  else ({ conn with readCo := some co, readSz := some sz, readResult := none }, .waits)

/-- `socket.readline` -/
def readline (co : Coroutine) (sep : Bytes) : Connection × Outcome :=
  match find sep conn.buffer with
  | some pos =>
    ({ conn with buffer := conn.buffer.drop (pos + sep.length) },
      .returns (some (conn.buffer.take pos)))
  | none =>
    if conn.closed then
      if 0 < conn.buffer.length then ({ conn with buffer := [] }, .returns (some conn.buffer))
      else (conn, .returns none)
    else ({ conn with readCo := some co, readSep := some sep, readResult := none }, .waits)

/-- `socket.readall` -/
def readall (co : Coroutine) : Connection × Outcome :=
  if 0 < conn.buffer.length then ({ conn with buffer := [] }, .returns (some conn.buffer))
  else if conn.closed then (conn, .returns none)
  else ({ conn with readCo := some co, readResult := none }, .waits)

def perform (co : Coroutine) : ReadOp → Connection × Outcome
  | .read sz => conn.read co sz
  | .readline sep => conn.readline co sep
  | .readall => conn.readall co

end Connection

/-- What a call takes from these bytes, as they lie in the buffer, and what of it it does not return:
the separator. When the peer has closed, `readline` takes what is left. -/
def ReadOp.takes (closed : Bool) (bytes : Bytes) : ReadOp → Option (Bytes × Bytes)
  | .read sz => if sz ≤ bytes.length then some (bytes.take sz, []) else none
  | .readline sep =>
    match find sep bytes with
    | some pos => some (bytes.take pos, sep)
    | none => if closed = true ∧ bytes ≠ [] then some (bytes, []) else none
  | .readall => if bytes ≠ [] then some (bytes, []) else none

/-- The separator of the line a reader was given. -/
def ReadOp.sep : ReadOp → Bytes
  | .readline sep => sep
  | _ => []

/-- A call that has returned nil, whether the peer had closed, and the bytes that were unread. -/
structure NilReturn where
  op : ReadOp
  closed : Bool
  unread : Bytes
  deriving DecidableEq, Repr

/-- A connection and its reader. -/
structure Stream where
  conn : Connection
  /-- it is in `socket_connections` -/
  registered : Bool := true
  /-- the call that waits, and whether it was woken -/
  reader : Option ReadOp := none
  woken : Bool := false
  /-- the payloads, what was returned, with the separators, and the calls that returned nil -/
  received : Bytes := []
  returned : Bytes := []
  nils : List NilReturn := []
  deriving DecidableEq, Repr

inductive StreamLabel
  | data (payload : Bytes)
  /-- the close event, up to the handler, and after it -/
  | close
  | clear
  | call (op : ReadOp)
  | resume
  /-- the wait ends without the library: its timer, or another's wakeup -/
  | interrupt
  deriving DecidableEq, Repr

namespace Stream

variable (s : Stream)

/-- The reader's coroutine; there is one at a time. -/
def self : Coroutine := 0

/-- What was received and not returned. -/
def unread : Bytes := s.received.drop s.returned.length

/-- The call has returned. -/
def ret (op : ReadOp) (sep : Bytes) : Option Bytes → Stream
  | some result => { s with returned := s.returned ++ result ++ sep }
  | none => { s with nils := s.nils ++ [⟨op, s.conn.closed, s.unread⟩] }

/-- `dispatch_socket_event`, of data. -/
def data (payload : Bytes) : Stream :=
  let s := { s with received := s.received ++ payload }
  if s.registered then
    { s with conn := (s.conn.feed payload).1, woken := s.woken || (s.conn.feed payload).2.isSome }
  else s

def close : Stream :=
  if s.registered then
    { s with conn := s.conn.hangUp.1, woken := s.woken || s.conn.hangUp.2.isSome }
  else s

/-- The separator that a call leaves out of what it returns from these bytes. -/
def sepOf (op : ReadOp) : Bytes := (op.takes s.conn.closed s.conn.buffer).elim [] Prod.snd

def call (op : ReadOp) : Stream :=
  if s.registered then
    match s.conn.perform self op with
    | (conn, .returns result) => { s with conn }.ret op (s.sepOf op) result
    | (conn, .waits) => { s with conn, reader := some op }
  else s.ret op [] none

/-- The reader goes on after its wait. -/
def goOn : Stream :=
  match s.reader with
  | some op => { s with reader := none, woken := false }.ret op (ReadOp.sep op) s.conn.readResult
  | none => s

def exec : StreamLabel → Stream
  | .data payload => s.data payload
  | .close => s.close
  | .clear => { s with registered := false }
  | .call op => s.call op
  | .resume | .interrupt => s.goOn

def Enabled : StreamLabel → Prop
  | .data _ | .close => True
  | .clear => s.conn.closed = true
  | .call _ => s.reader = none
  | .resume => s.reader ≠ none ∧ s.woken = true
  | .interrupt => s.reader ≠ none ∧ s.woken = false

instance (l : StreamLabel) : Decidable (s.Enabled l) := by
  cases l <;> unfold Enabled <;> infer_instance

/-- A connection that was accepted or opened. -/
def init (listenerId : Option ℤ) (connectResult : Bool) : Stream :=
  { conn := { listenerId, connectResult } }

def step (s : Stream) (l : StreamLabel) : Option Stream :=
  if s.Enabled l then some (s.exec l) else none

/-- What the library has taken out of the buffer for a reader that it has woken. -/
def inFlight : Bytes :=
  match s.reader, s.woken, s.conn.readResult with
  | some op, true, some result => result ++ ReadOp.sep op
  | _, _, _ => []

/-- What can still be read. -/
def buffered : Bytes := if s.registered then s.conn.buffer else []

/-- Nothing is lost or made up, and no call returns nil over bytes that it could take. -/
structure Whole (s : Stream) : Prop where
  bytes : s.returned ++ s.inFlight ++ s.buffered = s.received
  nils : ∀ n ∈ s.nils, n.unread = [] ∨ n.op.takes n.closed n.unread = none

def Waiting (s : Stream) : Option ReadOp → Prop
  | some (.readline _) => s.woken = false
  | _ => False

/-- Nothing is in the buffer when the connection goes from `socket_connections`, or when the close
event finds a `readline` waiting; no data comes after a close event; and the library wakes readers. -/
def Attended (s : Stream) : StreamLabel → Prop
  | .data _ => s.conn.closed = false
  | .close => s.Waiting s.reader → s.conn.buffer = []
  | .clear => s.conn.buffer = []
  | .interrupt => False
  | _ => True

instance : ∀ r, Decidable (s.Waiting r)
  | some (.readline _) => inferInstanceAs (Decidable (s.woken = false))
  | none | some (.read _) | some .readall => isFalse not_false

instance (l : StreamLabel) : Decidable (s.Attended l) := by
  cases l <;> unfold Attended <;> infer_instance

end Stream

end Socket

end SkynetCpp
