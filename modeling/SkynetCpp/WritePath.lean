import SkynetCpp.Network

/-!
# The writes of a TCP connection

Any thread posts a send; the posted functions run on the thread of the `io_context` in the order in
which they were posted, and so do the handlers of the writes. An `async_write` refers to the string
that was first in the queue when it was started, puts its bytes into the socket piece by piece, and
completes when all of them are there, or with an error at any time. Here the writes that are
outstanding are a list, whatever `is_writing_` says.
-/

namespace SkynetCpp

namespace Network

/-- What the function posted by `send` does before it looks at `is_writing_`. -/
def TcpConnection.enqueue (c : TcpConnection) (data : Bytes) : TcpConnection :=
  { c with
    pendingBytes := c.pendingBytes + data.length
    writeQueue := c.writeQueue ++ [data] }.checkSendWarning

/-- What the handler of a write that has succeeded does before it calls `do_write`. -/
def TcpConnection.dequeue (c : TcpConnection) : TcpConnection :=
  { c with
    writes := false
    pendingBytes := c.pendingBytes - (c.writeQueue.headD []).length
    warned := false
    writeQueue := c.writeQueue.tail }

/-- An `async_write` whose handler has not run. The string it refers to was queued as number
`item`, and `written` bytes of it are in the socket. -/
structure Write where
  item : ℕ
  buffer : Bytes
  written : ℕ := 0
  deriving DecidableEq, Repr

structure WritePath where
  conn : TcpConnection
  /-- the sends that have been posted and have not run -/
  posted : List Bytes := []
  outstanding : List Write := []
  /-- the strings that have been posted, those that have left the queue, and the bytes in the
  socket -/
  sent : List Bytes := []
  done : List Bytes := []
  written : Bytes := []
  failed : Bool := false
  deriving DecidableEq, Repr

namespace WritePath

inductive Label
  | post (data : Bytes)
  /-- the oldest posted function runs -/
  | send
  /-- the `i`th outstanding write puts `n` bytes more into the socket -/
  | transfer (i n : ℕ)
  | writeHandler (i : ℕ) (ok : Bool)
  /-- whatever else happens to the connection -/
  | io (l : Io)
  deriving DecidableEq, Repr

variable (s : WritePath)

/-- The constructor and `start`. -/
def start (listenerId id : ℤ) : WritePath := { conn := TcpConnection.start listenerId id }

/-- The `async_write` of the first string in the queue, if there is one. -/
def asyncWrite : List Write :=
  (s.conn.writeQueue.head?.map fun data => { item := s.done.length, buffer := data }).toList

/-- `do_write` -/
def doWrite : WritePath :=
  { s with conn := s.conn.doWrite, outstanding := s.outstanding ++ s.asyncWrite }

def send : WritePath :=
  match s.posted with
  | [] => s
  | data :: posted =>
    let s := { s with posted, conn := s.conn.enqueue data }
    if s.conn.isWriting then s else s.doWrite

def transfer (i n : ℕ) : WritePath :=
  match s.outstanding[i]? with
  | none => s
  | some w =>
    { s with
      outstanding := s.outstanding.set i { w with written := w.written + n }
      written := s.written ++ (w.buffer.drop w.written).take n }

def writeHandler (i : ℕ) (ok : Bool) : WritePath :=
  let s := { s with outstanding := s.outstanding.eraseIdx i }
  if ok then
    { s with
      conn := s.conn.dequeue
      done := s.done ++ s.conn.writeQueue.head?.toList }.doWrite
  else { s with conn := s.conn.writeHandler false, failed := true }

def exec : Label → WritePath
  | .post data => { s with posted := s.posted ++ [data], sent := s.sent ++ [data] }
  | .send => s.send
  | .transfer i n => s.transfer i n
  | .writeHandler i ok => s.writeHandler i ok
  | .io l => { s with conn := s.conn.exec l }

/-- The sends and the handlers of the writes have labels of their own. -/
def Elsewhere : Io → Prop
  | .send _ | .writeHandler _ => False
  | _ => True

/-- There is a write for which it is so. -/
def On (P : Write → Prop) (i : ℕ) : Prop := ∃ w ∈ s.outstanding[i]?, P w

def Enabled : Label → Prop
  | .post _ => True
  | .send => s.posted ≠ []
  | .transfer i n => s.On (fun w => 0 < n ∧ w.written + n ≤ w.buffer.length) i
  | .writeHandler i ok => s.On (fun w => ok = true → w.written = w.buffer.length) i
  | .io l => Elsewhere l ∧ s.conn.Enabled l

instance : ∀ l, Decidable (Elsewhere l)
  | .send _ | .writeHandler _ => isFalse id
  | .close | .pause | .resume | .shutdownWrite | .receive _ | .readFails | .readHandler =>
    isTrue trivial

instance (P : Write → Prop) [DecidablePred P] (i : ℕ) : Decidable (s.On P i) := by
  unfold On
  infer_instance

instance (l : Label) : Decidable (s.Enabled l) := by
  cases l <;> unfold Enabled <;> infer_instance

def step (s : WritePath) (l : Label) : Option WritePath :=
  if s.Enabled l then some (s.exec l) else none

/-- One write at most is outstanding, of the string that is first in the queue; the socket has got a
prefix of what was sent; `pending_bytes_` is the size of the queue, so that the size of its first
string can be subtracted; the queue moves unless a write has failed; and no warning came too
early. -/
structure InOrder (s : WritePath) : Prop where
  one : s.outstanding.length ≤ 1
  front : ∀ w ∈ s.outstanding, w.item = s.done.length ∧ s.conn.writeQueue.head? = some w.buffer
  written : s.written <+: s.sent.flatten
  pending : s.conn.pendingBytes = (s.conn.writeQueue.map List.length).sum
  covered : ∀ data ∈ s.conn.writeQueue.head?, data.length ≤ s.conn.pendingBytes
  moving : s.outstanding = [] → s.conn.writeQueue ≠ [] → s.failed = true
  warnings : ∀ listenerId id pending,
    .socketWarning listenerId id pending ∈ s.conn.events → SEND_BUFFER_WARNING ≤ pending

/-- What the write path is doing: nothing is queued, the first string is being written, or a write
has failed before the end of it. -/
inductive Doing (s : WritePath) : Prop
  | idle : s.outstanding = [] → s.conn.writeQueue = [] → s.conn.isWriting = false →
      s.conn.writes = false → s.written = s.done.flatten → Doing s
  | writing (data : Bytes) (rest : List Bytes) (n : ℕ) :
      s.outstanding = [{ item := s.done.length, buffer := data, written := n }] →
      s.conn.writeQueue = data :: rest → s.conn.isWriting = true → s.conn.writes = true →
      s.written = s.done.flatten ++ data.take n → Doing s
  | stopped (data : Bytes) (rest : List Bytes) (n : ℕ) : s.outstanding = [] →
      s.conn.writeQueue = data :: rest → s.conn.isWriting = true → s.conn.writes = false →
      s.failed = true → s.written = s.done.flatten ++ data.take n → Doing s

/-- The strings that were posted have left the queue, are in it, or have not run. -/
structure Accounted (s : WritePath) : Prop where
  doing : Doing s
  order : s.sent = s.done ++ s.conn.writeQueue ++ s.posted
  pending : s.conn.pendingBytes = (s.conn.writeQueue.map List.length).sum
  warnings : ∀ listenerId id pending,
    .socketWarning listenerId id pending ∈ s.conn.events → SEND_BUFFER_WARNING ≤ pending

end WritePath

end Network

end SkynetCpp
