import SkynetCpp.Lib.MysqlBinary
import SkynetCpp.Mysql

/-!
# The MySQL client: binary rows

`_parse_row_data_binary` and the parsers of the types. A row is the assignments to its table, in
order. What they are to be is said by the cells of the row (`expectedFrom`).
-/

namespace SkynetCpp

open Lib LuaString MysqlBinary

namespace Mysql

/-- The exponent and the fraction of a C `float` converted to `double`. -/
def widen (e m : ℕ) : ℕ × ℕ :=
  if e = 255 then (2047, m * 2 ^ 29)
  else if 0 < e then (e + 896, m * 2 ^ 29)
  else if m = 0 then (0, 0)
  else (m.log2 + 874, (m - 2 ^ m.log2) * 2 ^ (52 - m.log2))

/-- A C `float` as a `double`; a NaN keeps its bits. -/
def doubleOfFloat (bits : UInt32) : UInt64 :=
  let (e, m) := widen (bits.toNat / 2 ^ 23 % 2 ^ 8) (bits.toNat % 2 ^ 23)
  UInt64.ofNat (bits.toNat / 2 ^ 31 * 2 ^ 63 + e * 2 ^ 52 + m)

/-- `%0wd` of a number that is not negative. -/
def padded (w n : ℕ) : Bytes := List.replicate (w - (numeral n).length) 48 ++ numeral n

section Parsers

/-- `string.unpack` of unsigned integers with these sizes, one after the other. -/
def unpackFields (data : Bytes) : List ℕ → ℤ → Option (List ℕ × ℤ)
  | [], pos => some ([], pos)
  | k :: ks, pos => do
    let (n, pos) ← unpackUnsigned k data pos
    let (ns, pos) ← unpackFields data ks pos
    return (n.toNat :: ns, pos)

def getInt (k : ℕ) (data : Bytes) (i : ℤ) (isSigned : Bool) : Except Error (Value × ℤ) :=
  orRaise <|
    if !isSigned then (unpackUnsigned k data i).map fun (n, pos) => (ofBits n, pos)
    else (unpackInt k data i).map fun (n, pos) => (.integer (Int64.ofInt n), pos)

def getInt1 := getInt 1
def getInt2 := getInt 2
def getInt3 := getInt 3
def getInt4 := getInt 4
def getInt8 := getInt 8

def getFloat (data : Bytes) (i : ℤ) (_isSigned : Bool) : Except Error (Value × ℤ) :=
  orRaise <| (unpackBytes 4 data i).map fun (bytes, pos) =>
    (.float (doubleOfFloat (UInt32.ofNat (ofLe bytes))), pos)

def getDouble (data : Bytes) (i : ℤ) (_isSigned : Bool) : Except Error (Value × ℤ) :=
  orRaise <| (unpackBytes 8 data i).map fun (bytes, pos) =>
    (.float (UInt64.ofNat (ofLe bytes)), pos)

/-- `%04d-%02d-%02d` -/
def dateText (year month day : ℕ) : Bytes :=
  padded 4 year ++ ascii "-" ++ padded 2 month ++ ascii "-" ++ padded 2 day

/-- `%02d:%02d:%02d` -/
def timeText (hour minute second : ℕ) : Bytes :=
  padded 2 hour ++ ascii ":" ++ padded 2 minute ++ ascii ":" ++ padded 2 second

def getDatetime (data : Bytes) (pos : ℤ) (_isSigned : Bool) : Except Error (Value × ℤ) := do
  let (len, pos) ← fromLengthCodedBin data pos
  match len with
  | .integer len =>
    if len = 7 then
      match ← orRaise (unpackFields data [2, 1, 1, 1, 1, 1] pos) with
      | ([year, month, day, hour, minute, second], pos) =>
        return (.string (dateText year month day ++ ascii " " ++ timeText hour minute second), pos)
      | _ => .error .argument
    else if len = 4 then
      match ← orRaise (unpackFields data [2, 1, 1] pos) with
      | ([year, month, day], pos) =>
        return (.string (dateText year month day ++ ascii " 00:00:00"), pos)
      | _ => .error .argument
    else return (.string (ascii "0000-00-00 00:00:00"), pos + len.toInt)
  | _ => .error .argument

def getDate (data : Bytes) (pos : ℤ) (_isSigned : Bool) : Except Error (Value × ℤ) := do
  let (len, pos) ← fromLengthCodedBin data pos
  match len with
  | .integer len =>
    if len = 4 then
      match ← orRaise (unpackFields data [2, 1, 1] pos) with
      | ([year, month, day], pos) => return (.string (dateText year month day), pos)
      | _ => .error .argument
    else .error (.message (ascii "unsupported date format, len=" ++ intNumeral len.toInt))
  | _ => .error .argument

def getString (data : Bytes) (pos : ℤ) (_isSigned : Bool) : Except Error (Value × ℤ) :=
  fromLengthCodedStr data pos

/-- `_binary_parser` -/
def binaryParser : ℕ → Option (Bytes → ℤ → Bool → Except Error (Value × ℤ))
  | 0x01 => some getInt1
  | 0x02 => some getInt2
  | 0x03 => some getInt4
  | 0x04 => some getFloat
  | 0x05 => some getDouble
  | 0x07 => some getDatetime
  | 0x08 => some getInt8
  | 0x09 => some getInt3
  | 0x0a => some getDate
  | 0x0c => some getDatetime
  | 0x0f | 0x10 | 0xf5 | 0xf9 | 0xfa | 0xfb | 0xfc | 0xfd | 0xfe => some getString
  | _ => none

end Parsers

section Row

/-- The fields of a column that a row is read with. -/
structure Col where
  name : Bytes
  type : ℕ
  isSigned : Bool
  deriving DecidableEq

/-- `null_fields`, from the bytes behind the first. -/
def nullFields (data : Bytes) (nullCount : ℕ) : Except Error (List Bool) := do
  let bytes ← orRaise ((List.range nullCount).mapM fun i => byte data (i + 2 : ℕ))
  return (bytes.flatMap fun byte =>
    (List.range 8).map fun j => decide (byte.toNat &&& (1 <<< j) ≠ 0)).drop 2

/-- Where the value of a column goes: the `i`-th, counted from 0. -/
def rowKey (compact : Bool) (i : ℕ) (col : Col) : Value :=
  if compact then .integer (Int64.ofNat (i + 1)) else .string col.name

/-- The columns from the `i`-th on, and the position after them. -/
def parseColumns (data : Bytes) (nulls : List Bool) (compact : Bool) :
    ℕ → List Col → ℤ → Except Error (Fields × ℤ)
  | _, [], pos => return ([], pos)
  | i, col :: cols, pos => do
    if nulls.getD i false then parseColumns data nulls compact (i + 1) cols pos
    else
      match binaryParser col.type with
      | none => .error (.message (ascii "unsupported field type " ++ numeral col.type))
      | some parser =>
        let (value, pos) ← parser data pos col.isSigned
        let (row, pos) ← parseColumns data nulls compact (i + 1) cols pos
        return ((rowKey compact i col, value) :: row, pos)

/-- `_parse_row_data_binary`, with the position that it ends at. -/
def parseRow (data : Bytes) (cols : List Col) (compact : Bool) : Except Error (Fields × ℤ) := do
  let nullCount := (cols.length + 9) / 8
  let nulls ← nullFields data nullCount
  parseColumns data nulls compact 0 cols (2 + nullCount : ℕ)

def parseRowDataBinary (data : Bytes) (cols : List Col) (compact : Bool) : Except Error Fields := do
  return (← parseRow data cols compact).1

end Row

section Expected

/-- The text of a date, or of a date and a time. -/
def temporalText (type : ℕ) (t : Temporal) : Bytes :=
  if type = 0x0a then dateText t.year t.month t.day
  else dateText t.year t.month t.day ++ ascii " " ++ timeText t.hour t.minute t.second
    ++ if t.micro = 0 then [] else ascii "." ++ padded 6 t.micro

/-- The value of a cell; an unsigned integer from `2^63` on is the negative one of its 64 bits. -/
def cellValue (type : ℕ) : Cell → Value
  | .int n => .integer (Int64.ofInt n)
  | .float bits => .float (doubleOfFloat bits)
  | .double bits => .float bits
  | .temporal t => .string (temporalText type t)
  | .string s => .string s

/-- The assignments for the columns from the `i`-th on. -/
def expectedFrom (compact : Bool) : ℕ → List Col → List (Option Cell) → Fields
  | i, col :: cols, some c :: cells =>
    (rowKey compact i col, cellValue col.type c) :: expectedFrom compact (i + 1) cols cells
  | i, _ :: cols, none :: cells => expectedFrom compact (i + 1) cols cells
  | _, _, _ => []

/-- There is a cell for each column, and it fits its column if it is not NULL. -/
def FitsRow (cols : List Col) (cells : List (Option Cell)) : Prop :=
  List.Forall₂ (fun col cell => ∀ c ∈ cell, Cell.Fits col.type (!col.isSigned) c) cols cells

/-- The row is read as what it is, and to its end. -/
def ReadRight (cols : List Col) (cells : List (Option Cell)) (compact : Bool) : Prop :=
  let data := encodeRow (cols.map Col.type) cells
  parseRow data cols compact = .ok (expectedFrom compact 0 cols cells, (data.length + 1 : ℕ))

/-- The cell is a zero `DATE`. -/
def ZeroDate (type : ℕ) : Cell → Prop
  | .temporal t => type = 0x0a ∧ t.Zero
  | _ => False

/-- Neither an `INT24` nor a fraction of a second. -/
def Plain (type : ℕ) : Cell → Prop
  | .int _ => type ≠ 0x09
  | .temporal t => t.micro = 0
  | _ => True

instance (type : ℕ) : ∀ c, Decidable (ZeroDate type c)
  | .int _ | .float _ | .double _ | .temporal _ | .string _ => by unfold ZeroDate; infer_instance

instance (type : ℕ) : ∀ c, Decidable (Plain type c)
  | .int _ | .float _ | .double _ | .temporal _ | .string _ => by unfold Plain; infer_instance

def Readable (type : ℕ) (c : Cell) : Prop := Plain type c ∧ ¬ ZeroDate type c

instance (type : ℕ) (c : Cell) : Decidable (Readable type c) := inferInstanceAs (Decidable (_ ∧ _))

/-- What holds of each cell that is not NULL. -/
def EachCell (p : ℕ → Cell → Prop) (cols : List Col) (cells : List (Option Cell)) : Prop :=
  List.Forall₂ (fun col cell => ∀ c ∈ cell, p col.type c) cols cells

end Expected

end Mysql

end SkynetCpp
