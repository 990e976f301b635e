import Mathlib.Logic.Function.Basic
import SkynetCpp.Lib.MysqlReplies

/-!
# The commands of MySQL

The commands as a server reads them, which has to know how many parameters a statement has to read
its execution (`decodeCommand`); what it answers to the preparation of a statement; and the
statements of a session.
-/

namespace Lib

namespace MysqlCommands

open MysqlBinary MysqlReplies

section Commands

inductive Command
  | query (s : List UInt8)
  | prepare (s : List UInt8)
  | execute (e : Execute)
  /-- the execution of a statement that is not there -/
  | unknown (id : ℕ)
  | reset (id : ℕ)
  | close (id : ℕ)
  | ping
  deriving DecidableEq

/-- What a command is answered with: results with rows of text or of bytes, a statement, or nothing. -/
inductive Kind
  | text
  | binary
  | statement
  | nothing
  deriving DecidableEq

def Command.kind : Command → Kind
  | query _ | reset _ | ping => .text
  | execute _ | unknown _ => .binary
  | prepare _ => .statement
  | close _ => .nothing

/-- The number of a statement, with nothing after it. -/
def takeId (bs : List UInt8) : Option ℕ :=
  (takeInt 4 bs).bind fun x => if x.2 = [] then some x.1 else none

/-- The command of a packet, where `count` says how many parameters a statement has. -/
def decodeCommand (count : ℕ → Option ℕ) : List UInt8 → Option Command
  | [] => none
  | c :: bs =>
    if c = 0x03 then some (.query bs)
    else if c = 0x16 then some (.prepare bs)
    else if c = 0x17 then
      (takeInt 4 bs).bind fun x =>
        match count x.1 with
        | none => some (.unknown x.1)
        | some n => (decodeExecute n (c :: bs)).map .execute
    else if c = 0x19 then (takeId bs).map .close
    else if c = 0x1a then (takeId bs).map .reset
    else if c = 0x0e ∧ bs = [] then some .ping
    else none

/-- The first packet, of any number, and what it commands. -/
def takeCommand (count : ℕ → Option ℕ) (bs : List UInt8) : Option (Command × List UInt8) := do
  let (len, bs) ← takeInt 3 bs
  let (_, bs) ← takeInt 1 bs
  let (payload, bs) ← takeBytes len bs
  return (← decodeCommand count payload, bs)

end Commands

section Prepare

/-- A statement, as the server announces it. -/
structure Prepare where
  id : ℕ
  warnings : ℕ
  params : List Column
  paramsEnd : Eof
  columns : List Column
  columnsEnd : Eof

/-- Definitions, if there are any, end with an EOF packet. -/
def definitions (columns : List Column) (p : Eof) : List (List UInt8) :=
  if columns = [] then [] else columns.map Column.encode ++ [p.encode]

def Prepare.header (p : Prepare) : List UInt8 :=
  0x00 :: (le 4 p.id ++ le 2 p.columns.length ++ le 2 p.params.length ++ [0] ++ le 2 p.warnings)

def Prepare.payloads (p : Prepare) : List (List UInt8) :=
  p.header :: (definitions p.params p.paramsEnd ++ definitions p.columns p.columnsEnd)

structure Prepare.Fits (p : Prepare) : Prop where
  id : p.id < 2 ^ 32
  warnings : p.warnings < 2 ^ 16
  params : p.params.length < 2 ^ 16
  columns : p.columns.length < 2 ^ 16
  column : ∀ c ∈ p.params ++ p.columns, c.Fits ∧ c.encode.length < 2 ^ 24 - 1

end Prepare

section Statements

/-- What a server answers: results with rows of text or of bytes, a statement, or an error. -/
inductive Answer
  | text (reply : List (Result (List (Option (List UInt8)))))
  | binary (reply : List (Result (List UInt8)))
  | prepared (p : Prepare)
  | error (p : Err)

def Answer.encode : Answer → List UInt8
  | .text reply => encodeReply encodeTextRow reply
  | .binary reply => encodeReply encodeBinaryRow reply
  | .prepared p => packets 1 p.payloads
  | .error p => packets 1 [p.encode]

/-- The parameters of each statement that was ever prepared, and those that were closed. -/
structure Statements where
  counts : ℕ → Option ℕ := fun _ => none
  closed : List ℕ := []

namespace Statements

variable (t : Statements)

/-- How many parameters a statement has that is there. -/
def count (id : ℕ) : Option ℕ := if id ∈ t.closed then none else t.counts id

def serve : Command → Option Answer → Statements
  | .prepare _, some (.prepared p) =>
    { t with counts := Function.update t.counts p.id (some p.params.length) }
  | .close id, _ => { t with closed := id :: t.closed }
  | _, _ => t

end Statements

end Statements

end MysqlCommands

end Lib
