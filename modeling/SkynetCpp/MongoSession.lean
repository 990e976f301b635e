import SkynetCpp.BsonLayout
import SkynetCpp.Lib.Multiplex
import SkynetCpp.Lib.OpMsg
import SkynetCpp.MysqlReplies

/-!
# The MongoDB client: commands and replies

The messages of `mongo.lua`, and a session: coroutines run commands at any time, and the server
replies in any order. Commands have keys and values two by two. A connection that is lost is not
told here.
-/

namespace SkynetCpp

open Lib LuaString

namespace Mongo

section Wire

def OP_MSG : ℤ := 2013

/-- `op_msg`; it raises where an integer does not fit. -/
def opMsg (reqid flags : ℤ) (doc : Bytes) : Option Bytes := do
  let body := (← packInt 4 flags) ++ 0 :: doc
  let header := (← packInt 4 (16 + body.length)) ++ (← packInt 4 reqid) ++ (← packInt 4 0)
    ++ (← packInt 4 OP_MSG)
  return header ++ body

/-- `mongo_response`: the session and the data, and what is left on the wire; none while it waits,
or where it raises. -/
def mongoResponse (s : Bytes) : Option ((ℤ × Bytes) × Bytes) := do
  let (header, s) ← Mysql.read 4 s
  let (msgLen, _) ← unpackInt 4 header 1
  if msgLen < 4 then none
  else
    let (rest, s) ← Mysql.read (msgLen - 4).toNat s
    let (_, pos) ← unpackInt 4 rest 1
    let (respTo, pos) ← unpackInt 4 rest pos
    let (_, _) ← unpackInt 4 rest pos
    let (_, _) ← unpackInt 4 rest 13
    return ((respTo, sub rest 18 (-1)), s)

end Wire

section Commands

/-- `bson.encode_order`, of keys and values two by two. -/
def encodeOrder (env : Bson.Env) (args : Bson.Fields) : Option Bytes :=
  Bson.encodeDocument env (Bson.encoders env args)

/-- The functions of a database that send a command. -/
inductive Call
  | runCommand (name : Bytes) (args : Bson.Fields)
  | sendCommand (name : Bytes) (args : Bson.Fields)

/-- The arguments, and the name of the database behind them. -/
def Call.document : Call → Bson.Fields
  | .runCommand name args | .sendCommand name args =>
    args ++ [(.string (ascii "$db"), .string name)]

/-- 0 for a reply, 2 for none. -/
def Call.flags : Call → ℕ
  | .runCommand _ _ => 0
  | .sendCommand _ _ => 2

/-- `sendCommand` gives no session to the channel. -/
def Call.expects : Call → Bool
  | .runCommand _ _ => true
  | .sendCommand _ _ => false

/-- The packet, unless the encoder or `op_msg` raises. -/
def Call.compose (env : Bson.Env) (reqid : ℕ) (call : Call) : Option Bytes := do
  let doc ← encodeOrder env call.document
  opMsg reqid call.flags doc

end Commands

section Session

/-- What a server reads of a command. -/
structure Query where
  moreToCome : Bool
  document : Bytes

/-- What a server gives as an answer. -/
structure Answer where
  requestId : ℕ
  flags : ℕ
  document : Bytes

def Answer.message (a : Answer) (session : ℕ) : OpMsg.Message :=
  ⟨a.requestId, session, a.flags, a.document⟩

variable (env : Bson.Env)

def protocol : Multiplex.Protocol Call Query Answer Bytes where
  compose := Call.compose env
  expects := Call.expects
  take s := (OpMsg.take s).map fun x =>
    ((x.1.requestId, ⟨x.1.moreToCome, x.1.document⟩), x.2)
  wants query := !query.moreToCome
  answer session a := (a.message session).encode
  read := mongoResponse

abbrev Session := Multiplex.State Call Query Answer Bytes

/-- A server sees the bytes of a command's document, and the client those of the answer's. -/
def promise : Multiplex.Promise Call Query Answer Bytes where
  view call := ⟨!call.expects, (encodeOrder env call.document).getD []⟩
  Proper a := a.requestId < 2 ^ 31 ∧ a.flags < 2 ^ 31 ∧ 21 + a.document.length < 2 ^ 31
  outcome a := a.document

/-- `bson.decode(response)` at the end of `runCommand`. -/
def Returns (response : Bytes) (v : Bson.Value) : Prop :=
  ∃ n, ∀ rounds ≥ n, ∀ depth ≥ n,
    Bson.decode env response rounds depth 1 = .done (v, response.length + 1)

/-- Besides being exact, the run sends every document with an encoding as its bytes, with the
fields in their order; and where a document is given as an answer, the command returns what is
equal to it. -/
structure Understood (s : Session) : Prop where
  exact : Multiplex.Exact (protocol env) (promise env) s
  asked : ∀ x ∈ s.sent, Bson.IsDocument (.table x.2.document 0) →
    (∀ p ∈ x.2.document, Bson.Throughout Bson.Unmistaken p.2) →
    (Bson.bytesOf env x.2.document).length < 2 ^ 31 →
    (promise env).view x.2 = ⟨!x.2.expects, Bson.bytesOf env x.2.document⟩
  returned : ∀ x ∈ s.got, ∀ doc, Bson.IsDocument (.table doc 0) →
    Bson.Throughout Bson.Clean (.table doc 0) → (Bson.bytesOf env doc).length < 2 ^ 31 →
    x.2 = Bson.bytesOf env doc → ∃ v, Returns env x.2 v ∧ Bson.Equals (.table doc 0) v

end Session

end Mongo

end SkynetCpp
