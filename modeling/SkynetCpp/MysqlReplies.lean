import SkynetCpp.Lib.MysqlReplies
import SkynetCpp.MysqlRows
import SkynetCpp.SocketStream

/-!
# The MySQL client: replies

What the response functions of `query` and `execute` take from the bytes of a connection. Where
they raise, or wait for bytes that do not come, there is no result. `packet_no` is left out: every
request sets it anew.
-/

namespace SkynetCpp

open Lib LuaString MysqlBinary

namespace Mysql

section Packets

/-- `sock:read(n)`, and the bytes after it. -/
def read (n : ℕ) (s : Bytes) : Option (Bytes × Bytes) :=
  ((Socket.ReadOp.read n).takes false s).map fun (data, _) => (data, s.drop n)

inductive PacketType
  | ok
  | err
  | eof
  | data
  deriving DecidableEq

def PacketType.text : PacketType → Bytes
  | ok => ascii "OK"
  | err => ascii "ERR"
  | eof => ascii "EOF"
  | data => ascii "DATA"

/-- The type that the first byte of a packet says. -/
def packetType (data : Bytes) : PacketType :=
  match byte data 1 with
  | some 0x00 => .ok
  | some 0xff => .err
  | some 0xfe => .eof
  | _ => .data

/-- `_recv_packet`: the packet and its type, or nil and an error. -/
def recvPacket (s : Bytes) : Option (Except Bytes (Bytes × PacketType) × Bytes) := do
  let (data, s) ← read 4 s
  let (len, _) ← unpackUnsigned 3 data 1
  if len = 0 then return (.error (ascii "empty packet"), s)
  else
    let (data, s) ← read len.toNat s
    return (.ok (data, packetType data), s)

end Packets

section Parsers

/-- The result of an OK packet. -/
structure OkResult where
  affectedRows : Value
  insertId : Value
  serverStatus : ℕ
  warningCount : ℕ
  message : Option Bytes

def parseOkPacket (packet : Bytes) : Except Error OkResult := do
  let (affectedRows, pos) ← fromLengthCodedBin packet 2
  let (insertId, pos) ← fromLengthCodedBin packet pos
  let (serverStatus, pos) ← orRaise (unpackUnsigned 2 packet pos)
  let (warningCount, pos) ← orRaise (unpackUnsigned 2 packet pos)
  let message := sub packet pos (-1)
  return { affectedRows, insertId, serverStatus := serverStatus.toNat,
           warningCount := warningCount.toNat,
           message := if message ≠ [] then some message else none }

/-- `warning_count` and `status_flags` -/
def parseEofPacket (packet : Bytes) : Except Error (ℕ × ℕ) := do
  let (warningCount, pos) ← orRaise (unpackUnsigned 2 packet 2)
  let (statusFlags, _) ← orRaise (unpackUnsigned 2 packet pos)
  return (warningCount.toNat, statusFlags.toNat)

/-- What is returned after nil: `err`, `errno` and `sqlstate`. -/
structure Failure where
  err : Bytes
  errno : Option ℕ
  sqlstate : Option Bytes
  deriving DecidableEq

def parseErrPacket (packet : Bytes) : Except Error Failure := do
  let (errno, pos) ← orRaise (unpackUnsigned 2 packet 2)
  if sub packet pos pos = ascii "#" then
    let pos := pos + 1
    let sqlstate := sub packet pos (pos + 5 - 1)
    let pos := pos + 5
    return ⟨sub packet pos (-1), some errno.toNat, some sqlstate⟩
  else return ⟨sub packet pos (-1), some errno.toNat, none⟩

/-- `_parse_field_packet`. A nil name, of which a row would raise, raises here. -/
def parseFieldPacket (data : Bytes) : Except Error Col := do
  let (_, pos) ← fromLengthCodedStr data 1
  let (_, pos) ← fromLengthCodedStr data pos
  let (_, pos) ← fromLengthCodedStr data pos
  let (_, pos) ← fromLengthCodedStr data pos
  let (name, pos) ← fromLengthCodedStr data pos
  let (_, pos) ← fromLengthCodedStr data pos
  let pos := pos + 1
  let (_, pos) ← orRaise (unpackUnsigned 2 data pos)
  let (_, pos) ← orRaise (unpackUnsigned 4 data pos)
  let type ← orRaise (byte data pos)
  let pos := pos + 1
  let (flags, _) ← orRaise (unpackUnsigned 2 data pos)
  match name with
  | .string name => return ⟨name, type.toNat, decide (flags &&& 0x20 = 0)⟩
  | _ => .error .argument

variable (str2d : Bytes → Option UInt64)

/-- The types that have `tonumber` in `converters`. -/
def converters : List ℕ := [0x01, 0x02, 0x03, 0x04, 0x05, 0x08, 0x09, 0x0d, 0xf6]

def convert (type : ℕ) : Value → Value
  | .string s => if type ∈ converters then tonumber str2d s else .string s
  | v => v

/-- The columns of a text row from the `i`-th on; nil is assigned too. -/
def textColumns (data : Bytes) (compact : Bool) : ℕ → List Col → ℤ → Except Error Fields
  | _, [], _ => return []
  | i, col :: cols, pos => do
    let (value, pos) ← fromLengthCodedStr data pos
    let row ← textColumns data compact (i + 1) cols pos
    return (rowKey compact i col, convert str2d col.type value) :: row

def parseRowDataPacket (data : Bytes) (cols : List Col) (compact : Bool) : Except Error Fields :=
  textColumns str2d data compact 0 cols 1

end Parsers

section Results

/-- A result: of an OK packet, or rows. -/
inductive Result
  | ok (res : OkResult)
  | rows (rows : List Fields)

/-- A result and whether there are more (`"again"`), or nil; and the bytes after it. -/
abbrev Reading := Option (Except Failure (Result × Bool) × Bytes)

/-- `return nil, err` -/
def failed (err : Bytes) (s : Bytes) : Reading := some (.error ⟨err, none, none⟩, s)

/-- `SERVER_MORE_RESULTS_EXISTS` -/
def again (status : ℕ) : Bool := decide (status &&& 8 ≠ 0)

/-- What `read_result` and `read_execute_result` do with the first packet. -/
def readFirst (data : Bytes → Bytes → Reading) (s : Bytes) : Reading := do
  match ← recvPacket s with
  | (.error err, s) => failed err s
  | (.ok (packet, .err), s) =>
    let failure ← (parseErrPacket packet).toOption
    return (.error failure, s)
  | (.ok (packet, .ok), s) =>
    let res ← (parseOkPacket packet).toOption
    return (.ok (.ok res, again res.serverStatus), s)
  | (.ok (packet, .data), s) => data packet s
  | (.ok (_, typ), s) => failed (ascii "packet type " ++ typ.text ++ ascii " not supported") s

/-- The loop over the rows. An error of `_recv_packet` is looked at only if `checked`; else the
parser raises on nil. -/
def recvRows (parse : Bytes → Except Error Fields) (checked : Bool) :
    ℕ → List Fields → Bytes → Reading
  | 0, _, _ => none
  | rounds + 1, rows, s => do
    match ← recvPacket s with
    | (.error err, s) => if checked then failed err s else none
    | (.ok (packet, typ), s) =>
      if typ = .eof then
        let (_, statusFlags) ← (parseEofPacket packet).toOption
        return (.ok (.rows rows, again statusFlags), s)
      else
        let row ← (parse packet).toOption
        recvRows parse checked rounds (rows ++ [row]) s

section Text

/-- `_recv_field_packet`, without what its caller drops. -/
def recvFieldPacket (s : Bytes) : Option (Except Bytes Col × Bytes) := do
  match ← recvPacket s with
  | (.error err, s) => return (.error err, s)
  | (.ok (packet, .err), s) =>
    let failure ← (parseErrPacket packet).toOption
    return (.error failure.err, s)
  | (.ok (packet, .data), s) =>
    let col ← (parseFieldPacket packet).toOption
    return (.ok col, s)
  | (.ok (_, typ), s) => return (.error (ascii "bad field packet type: " ++ typ.text), s)

def recvFields : ℕ → Bytes → Option (Except Bytes (List Col) × Bytes)
  | 0, s => some (.ok [], s)
  | n + 1, s => do
    match ← recvFieldPacket s with
    | (.error err, s) => return (.error err, s)
    | (.ok col, s) =>
      let (cols, s) ← recvFields n s
      return (cols.map fun cols => col :: cols, s)

variable (str2d : Bytes → Option UInt64) (compact : Bool)

/-- `read_result` after a packet of the type `"DATA"`. -/
def readTextSet (packet : Bytes) (s : Bytes) : Reading := do
  match ← (fromLengthCodedBin packet 1).toOption with
  | (.integer fieldCount, _) =>
    match ← recvFields fieldCount.toNatClampNeg s with
    | (.error cerr, s) => failed cerr s
    | (.ok cols, s) =>
      match ← recvPacket s with
      | (.error err, s) => failed err s
      | (.ok (_, typ), s) =>
        if typ ≠ .eof then failed (ascii "unexpected packet type " ++ typ.text) s
        else
          recvRows (fun packet => parseRowDataPacket str2d packet cols compact) true s.length [] s
  | _ => none

def readResult : Bytes → Reading := readFirst (readTextSet str2d compact)

end Text

section Binary

/-- The loop over the columns. -/
def recvCols : ℕ → List Col → Bytes → Option (List Col × Bytes)
  | 0, _, _ => none
  | rounds + 1, cols, s => do
    match ← recvPacket s with
    | (.error _, _) => none
    | (.ok (packet, typ), s) =>
      if typ = .eof then return (cols, s)
      else
        let col ← (parseFieldPacket packet).toOption
        recvCols rounds (cols ++ [col]) s

variable (compact : Bool)

/-- `read_execute_result` after a packet of the type `"DATA"`. -/
def readBinarySet (_packet : Bytes) (s : Bytes) : Reading := do
  let (cols, s) ← recvCols s.length [] s
  if cols.length < 1 then return (.ok (.rows [], false), s)
  else recvRows (fun packet => parseRowDataBinary packet cols compact) false s.length [] s

def readExecuteResult : Bytes → Reading := readFirst (readBinarySet compact)

end Binary

end Results

section Responses

/-- What the request gets: a result, an error (`badresult`), or several results, of which the last
may be an error. -/
inductive Response
  | single (res : Result)
  | bad (failure : Failure)
  | multi (results : List Result) (bad : Option Failure)

/-- What a later error is kept as: `execute` drops its number and its state. -/
inductive Later
  | whole
  | errOnly

def Later.keep : Later → Failure → Failure
  | whole, failure => failure
  | errOnly, failure => ⟨failure.err, none, none⟩

variable (readNext : Bytes → Reading) (later : Later)

/-- `while err == "again"` -/
def respondLoop : ℕ → List Result → Bytes → Option (Response × Bytes)
  | 0, _, _ => none
  | rounds + 1, results, s => do
    match ← readNext s with
    | (.error failure, s) => return (.multi results (some (later.keep failure)), s)
    | (.ok (res, more), s) =>
      if more then respondLoop rounds (results ++ [res]) s
      else return (.multi (results ++ [res]) none, s)

def respond (s : Bytes) : Option (Response × Bytes) := do
  match ← readNext s with
  | (.error failure, s) => return (.bad failure, s)
  | (.ok (res, more), s) =>
    if more then respondLoop readNext later s.length [res] s else return (.single res, s)

/-- `_query_resp` -/
def queryResp (str2d : Bytes → Option UInt64) (compact : Bool) :
    Bytes → Option (Response × Bytes) :=
  respond (readResult str2d compact) .whole

/-- `self.execute_resp` -/
def executeResp (compact : Bool) : Bytes → Option (Response × Bytes) :=
  respond (readExecuteResult compact) .errOnly

end Responses

section Expected

/-- The result that an OK packet is; the numbers are integers of Lua with these 64 bits. -/
def okResult (p : MysqlReplies.Ok) : OkResult where
  affectedRows := .integer (Int64.ofNat p.affectedRows)
  insertId := .integer (Int64.ofNat p.insertId)
  serverStatus := p.status
  warningCount := p.warnings
  message := if p.info ≠ [] then some p.info else none

def failureOf (p : MysqlReplies.Err) : Failure := ⟨p.message, some p.errno, some p.sqlstate⟩

def colOf (c : MysqlReplies.Column) : Col := ⟨c.name, c.type, !c.flags.testBit 5⟩

variable {ρ : Type} (rowOf : List Col → ρ → Fields)

/-- A result, or an error. -/
def expectedResult : MysqlReplies.Result ρ → Except Failure Result
  | .ok p => .ok (.ok (okResult p))
  | .err p => .error (failureOf p)
  | .set s => s.rowsEnd.elim
    (fun _ => .ok (.rows (s.rows.map (rowOf (s.columns.map colOf))))) fun p => .error (failureOf p)

/-- The results from the second on. -/
def collect (later : Later) (results : List Result) : List (Except Failure Result) → Response
  | [] => .multi results none
  | .error failure :: _ => .multi results (some (later.keep failure))
  | .ok res :: outs => collect later (results ++ [res]) outs

/-- The response that these results make. -/
def responseOf (later : Later) : List (Except Failure Result) → Response
  | [] => .multi [] none
  | [.ok res] => .single res
  | .ok res :: outs => collect later [res] outs
  | .error failure :: _ => .bad failure

/-- A text row from the `i`-th column on; NULL is nil. -/
def textRow (str2d : Bytes → Option UInt64) (compact : Bool) :
    ℕ → List Col → List (Option Bytes) → Fields
  | i, col :: cols, cell :: cells =>
    (rowKey compact i col, (cell.map fun s => convert str2d col.type (.string s)).getD .nil)
      :: textRow str2d compact (i + 1) cols cells
  | _, _, _ => []

/-- What a binary row is read as. -/
def binaryRow (compact : Bool) (cols : List Col) (content : Bytes) : Fields :=
  (parseRowDataBinary (MysqlReplies.encodeBinaryRow content) cols compact).toOption.getD []

/-- The reply to a query is read as it is, and nothing of what follows. -/
def QueryInStep (str2d : Bytes → Option UInt64) (compact : Bool)
    (reply : List (MysqlReplies.Result (List (Option Bytes)))) : Prop :=
  ∀ rest, queryResp str2d compact
      (MysqlReplies.encodeReply MysqlReplies.encodeTextRow reply ++ rest)
    = some (responseOf .whole (reply.map (expectedResult (textRow str2d compact 0))), rest)

def ExecuteInStep (compact : Bool) (reply : List (MysqlReplies.Result Bytes)) : Prop :=
  ∀ rest, executeResp compact
      (MysqlReplies.encodeReply MysqlReplies.encodeBinaryRow reply ++ rest)
    = some (responseOf .whole (reply.map (expectedResult (binaryRow compact))), rest)

def FitsTextRow (columns : List MysqlReplies.Column) (cells : List (Option Bytes)) : Prop :=
  cells.length = columns.length

/-- The number of columns begins with no other byte than those of data, there is no error among the
rows, and each row is one that the client parses. -/
def ReadableResult (accepts : List Col → ρ → Prop) : MysqlReplies.Result ρ → Prop
  | .set s => s.columns.length < 2 ^ 24 ∧ s.rowsEnd.isLeft = true
    ∧ ∀ row ∈ s.rows, accepts (s.columns.map colOf) row
  | _ => True

/-- `_parse_row_data_binary` does not raise. -/
def Accepted (compact : Bool) (cols : List Col) (content : Bytes) : Prop :=
  (parseRowDataBinary (MysqlReplies.encodeBinaryRow content) cols compact).toOption.isSome = true

/-- No result but the first is an error. -/
def NoLaterError (reply : List (MysqlReplies.Result ρ)) : Prop :=
  ∀ r ∈ reply.tail, ∀ p, r ≠ .err p

end Expected

end Mysql

end SkynetCpp
