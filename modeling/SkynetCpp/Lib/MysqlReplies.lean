import SkynetCpp.Lib.MysqlBinary

/-!
# The replies of MySQL

What a server of the protocol 4.1 answers to a query or to the execution of a statement: results,
each of which but the last says in its status that there are more. A result is an OK packet, an ERR
packet, or the number of columns, their definitions, and rows between two EOF packets, the last of
which may be an ERR packet. What a row is in bytes is a parameter.
-/

namespace Lib

namespace MysqlReplies

open MysqlBinary

structure Ok where
  affectedRows : ℕ
  insertId : ℕ
  status : ℕ
  warnings : ℕ
  info : List UInt8

structure Err where
  errno : ℕ
  sqlstate : List UInt8
  message : List UInt8

structure Eof where
  warnings : ℕ
  status : ℕ

structure Column where
  schema : List UInt8
  table : List UInt8
  orgTable : List UInt8
  name : List UInt8
  orgName : List UInt8
  charset : ℕ
  length : ℕ
  type : ℕ
  flags : ℕ
  decimals : ℕ

/-- A result set of rows; an error may come instead of the rest of the rows. -/
structure ResultSet (ρ : Type) where
  columns : List Column
  columnsEnd : Eof
  rows : List ρ
  rowsEnd : Eof ⊕ Err

inductive Result (ρ : Type)
  | ok (p : Ok)
  | err (p : Err)
  | set (s : ResultSet ρ)

section Payloads

/-- `SERVER_MORE_RESULTS_EXISTS` -/
def moreResults (status : ℕ) : Bool := status.testBit 3

def Ok.encode (p : Ok) : List UInt8 :=
  0x00 :: (lenenc p.affectedRows ++ lenenc p.insertId ++ le 2 p.status ++ le 2 p.warnings
    ++ p.info)

/-- The state of SQL is marked by `#`. -/
def Err.encode (p : Err) : List UInt8 := 0xff :: (le 2 p.errno ++ 35 :: p.sqlstate ++ p.message)

def Eof.encode (p : Eof) : List UInt8 := 0xfe :: (le 2 p.warnings ++ le 2 p.status)

/-- The catalog is always `def`, and the parts of a fixed length have their length, 12, before
them. -/
def Column.encode (c : Column) : List UInt8 :=
  lenencStr [100, 101, 102] ++ lenencStr c.schema ++ lenencStr c.table ++ lenencStr c.orgTable
    ++ lenencStr c.name ++ lenencStr c.orgName ++ [0x0c] ++ le 2 c.charset ++ le 4 c.length
    ++ le 1 c.type ++ le 2 c.flags ++ le 1 c.decimals ++ [0, 0]

variable {ρ : Type} (row : ρ → List UInt8)

def ResultSet.payloads (s : ResultSet ρ) : List (List UInt8) :=
  lenenc s.columns.length :: (s.columns.map Column.encode ++ s.columnsEnd.encode
    :: (s.rows.map row ++ [s.rowsEnd.elim Eof.encode Err.encode]))

def Result.payloads : Result ρ → List (List UInt8)
  | ok p => [p.encode]
  | err p => [p.encode]
  | set s => s.payloads row

/-- There are more results. -/
def Result.more : Result ρ → Bool
  | ok p => moreResults p.status
  | err _ => false
  | set s => s.rowsEnd.elim (fun p => moreResults p.status) fun _ => false

end Payloads

section Packets

/-- A packet with its length and number. -/
def packet (number : ℕ) (payload : List UInt8) : List UInt8 :=
  le 3 payload.length ++ [UInt8.ofNat number] ++ payload

/-- Packets are numbered one after the other, modulo 256. -/
def packets : ℕ → List (List UInt8) → List UInt8
  | _, [] => []
  | number, payload :: payloads => packet number payload ++ packets (number + 1) payloads

variable {ρ : Type} (row : ρ → List UInt8)

/-- A reply; the packet with the number 0 was the request. -/
def encodeReply (reply : List (Result ρ)) : List UInt8 :=
  packets 1 (reply.flatMap (Result.payloads row))

theorem packets_append (number : ℕ) (ps qs : List (List UInt8)) :
    packets number (ps ++ qs) = packets number ps ++ packets (number + ps.length) qs := by
  induction ps generalizing number with
  | nil => rfl
  | cons p ps ih =>
    rw [List.cons_append, packets, packets, ih, List.append_assoc, List.length_cons,
      Nat.add_right_comm, Nat.add_assoc]

end Packets

section Fits

def Ok.Fits (p : Ok) : Prop :=
  p.affectedRows < 2 ^ 64 ∧ p.insertId < 2 ^ 64 ∧ p.status < 2 ^ 16 ∧ p.warnings < 2 ^ 16

def Err.Fits (p : Err) : Prop := p.errno < 2 ^ 16 ∧ p.sqlstate.length = 5

def Eof.Fits (p : Eof) : Prop := p.warnings < 2 ^ 16 ∧ p.status < 2 ^ 16

def Column.Fits (c : Column) : Prop :=
  c.charset < 2 ^ 16 ∧ c.length < 2 ^ 32 ∧ c.type < 2 ^ 8 ∧ c.flags < 2 ^ 16 ∧ c.decimals < 2 ^ 8

variable {ρ : Type} (fitsRow : List Column → ρ → Prop) (row : ρ → List UInt8)

def ResultSet.Fits (s : ResultSet ρ) : Prop :=
  s.columns ≠ [] ∧ s.columns.length < 2 ^ 64 ∧ (∀ c ∈ s.columns, c.Fits) ∧ s.columnsEnd.Fits
    ∧ (∀ r ∈ s.rows, fitsRow s.columns r) ∧ s.rowsEnd.elim Eof.Fits Err.Fits

def Result.Fits : Result ρ → Prop
  | ok p => p.Fits
  | err p => p.Fits
  | set s => s.Fits fitsRow

/-- Each result but the last says that there are more. -/
def Chained : List (Result ρ) → Prop
  | [] => False
  | [r] => r.more = false
  | r :: r' :: reply => r.more = true ∧ Chained (r' :: reply)

/-- No packet is so long that it has to be split. -/
structure WellFormed (reply : List (Result ρ)) : Prop where
  chained : Chained reply
  fits : ∀ r ∈ reply, r.Fits fitsRow
  short : ∀ r ∈ reply, ∀ p ∈ r.payloads row, p.length < 2 ^ 24 - 1

end Fits

section Rows

/-- A cell of a text row; NULL has no text. -/
def encodeCell : Option (List UInt8) → List UInt8
  | none => [0xfb]
  | some s => lenencStr s

def encodeTextRow (cells : List (Option (List UInt8))) : List UInt8 := cells.flatMap encodeCell

/-- A row of the binary protocol begins with a byte 0. -/
def encodeBinaryRow (content : List UInt8) : List UInt8 := 0 :: content

end Rows

end MysqlReplies

end Lib
