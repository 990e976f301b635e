import SkynetCpp.Lib.MysqlCommands
import SkynetCpp.Lib.Pipeline
import SkynetCpp.MysqlReplies

/-!
# The MySQL client: statements and sessions

`prepare` and what reads its reply, the other requests of the client, and a session: coroutines make
requests at any time, and the channel reads the replies in their order. What `execute` sends is in
the module of the statements. A connection that is lost is not told here.
-/

namespace SkynetCpp

open Lib LuaString MysqlBinary MysqlCommands

namespace Mysql

section Prepare

/-- The fields of a prepared statement. -/
structure Prepared extends Stmt where
  fieldCount : ℕ
  warningCount : ℕ
  params : List Col
  fields : List Col

/-- What `read_prepare_result` returns: true and a statement, true and an error, or false and an
error, which the channel raises. -/
inductive PrepareResult
  | prepared (p : Prepared)
  | bad (failure : Failure)
  | raised (failure : Failure)

/-- The loops over `_recv_field_packet`: until it returns nil, for whatever reason. -/
def recvDefinitions : ℕ → List Col → Bytes → Option (List Col × Bytes)
  | 0, _, _ => none
  | rounds + 1, cols, s => do
    match ← recvFieldPacket s with
    | (.error _, s) => return (cols, s)
    | (.ok col, s) => recvDefinitions rounds (cols ++ [col]) s

/-- The definitions, if there are any. -/
def readDefinitions (count : UInt64) (s : Bytes) : Option (List Col × Bytes) :=
  if 0 < count then recvDefinitions s.length [] s else some ([], s)

/-- `read_prepare_result` -/
def readPrepareResult (s : Bytes) : Option (PrepareResult × Bytes) := do
  match ← recvPacket s with
  | (.error err, s) => return (.raised ⟨err, some 300101, none⟩, s)
  | (.ok (packet, .err), s) =>
    let failure ← (parseErrPacket packet).toOption
    return (.bad failure, s)
  | (.ok (packet, .ok), s) =>
    let (prepareId, pos) ← unpackUnsigned 4 packet 2
    let (fieldCount, pos) ← unpackUnsigned 2 packet pos
    let (paramCount, pos) ← unpackUnsigned 2 packet pos
    let (warningCount, _) ← unpackUnsigned 2 packet (pos + 1)
    let (params, s) ← readDefinitions paramCount s
    let (fields, s) ← readDefinitions fieldCount s
    return (.prepared ⟨⟨prepareId.toUInt32, paramCount.toNat⟩, fieldCount.toNat,
      warningCount.toNat, params, fields⟩, s)
  | (.ok (_, typ), s) =>
    return (.raised ⟨ascii "first typ must be OK, got " ++ typ.text, some 300201, none⟩, s)

end Prepare

section Calls

def COM_QUERY : UInt8 := 0x03
def COM_PING : UInt8 := 0x0e
def COM_STMT_PREPARE : UInt8 := 0x16
def COM_STMT_CLOSE : UInt8 := 0x19
def COM_STMT_RESET : UInt8 := 0x1a

def composeQuery (query : Bytes) : Except Error (Bytes × ℤ) :=
  composePacket (-1) (COM_QUERY :: query)

def composeStmtPrepare (query : Bytes) : Except Error (Bytes × ℤ) :=
  composePacket (-1) (COM_STMT_PREPARE :: query)

/-- The packets of `stmt_reset` and `stmt_close`. -/
def composeStmt (command : UInt8) (stmt : Stmt) : Except Error (Bytes × ℤ) := do
  let id ← orRaise (packUnsigned 4 stmt.prepareId.toUInt64)
  composePacket (-1) (command :: id)

/-- The functions of a client that make a request. -/
inductive Call
  | query (sql : Bytes)
  | prepare (sql : Bytes)
  | execute (stmt : Stmt) (args : List Value)
  | stmtReset (stmt : Stmt)
  | stmtClose (stmt : Stmt)
  | ping

def Call.compose : Call → Except Error (Bytes × ℤ)
  | .query sql => composeQuery sql
  | .prepare sql => composeStmtPrepare sql
  | .execute stmt args => composeStmtExecute stmt 0 args
  | .stmtReset stmt => composeStmt COM_STMT_RESET stmt
  | .stmtClose stmt => composeStmt COM_STMT_CLOSE stmt
  | .ping => composePacket (-1) [COM_PING]

/-- `stmt_close` gives no response function. -/
def Call.expects : Call → Bool
  | .stmtClose _ => false
  | _ => true

inductive Outcome
  | response (res : Response)
  | prepare (res : PrepareResult)

variable (str2d : Bytes → Option UInt64) (compact : Bool)

/-- The response function of a call. -/
def Call.response : Call → Bytes → Option (Outcome × Bytes)
  | .query _ | .stmtReset _ | .ping => fun s =>
    (queryResp str2d compact s).map fun x => (.response x.1, x.2)
  | .prepare _ => fun s => (readPrepareResult s).map fun x => (.prepare x.1, x.2)
  | .execute _ _ => fun s => (executeResp compact s).map fun x => (.response x.1, x.2)
  | .stmtClose _ => fun _ => none

end Calls

section Session

variable (str2d : Bytes → Option UInt64) (compact : Bool)

/-- A client and a server; a request that raises sends nothing. -/
def protocol : Pipeline.Protocol Unit Unit Statements Call Command Answer Outcome where
  compose k call := (((call.compose).toOption.map Prod.fst).getD [], k)
  move k _ := k
  expects := Call.expects
  read := Call.response str2d compact
  take t := takeCommand t.count
  serve := Statements.serve
  answer := Answer.encode

abbrev Session := Pipeline.State Unit Statements Call Command Answer Outcome

/-- A statement as it was announced. -/
def preparedOf (p : Prepare) : Prepared where
  prepareId := UInt32.ofNat p.id
  paramCount := p.params.length
  fieldCount := p.columns.length
  warningCount := p.warnings
  params := p.params.map colOf
  fields := p.columns.map colOf

/-- What a call returns for an answer. -/
def outcomeOf : Answer → Outcome
  | .text reply =>
    .response (responseOf .whole (reply.map (expectedResult (textRow str2d compact 0))))
  | .binary reply => .response (responseOf .whole (reply.map (expectedResult (binaryRow compact))))
  | .prepared p => .prepare (.prepared (preparedOf p))
  | .error p => .prepare (.bad (failureOf p))

end Session

end Mysql

end SkynetCpp
