import SkynetCpp.Lib.Endian

/-!
# The binary protocol of MySQL

Integers and strings with their length before them, the values of the binary protocol, and the
command that executes a prepared statement, read as a server reads it (`decodeExecute`): the
statement, flags and the iteration count; then, if there are parameters, a bitmap of those that are
NULL, their types, and the values of the others. A row of a result is a byte 0, a bitmap that is
shifted by two bits, and the values that are not NULL (`encodeRow`).
-/

namespace Lib

namespace MysqlBinary

section Take

variable {k n : ℕ} {bs rest : List UInt8}

/-- The first `k` bytes, and the rest. -/
def takeBytes (k : ℕ) (bs : List UInt8) : Option (List UInt8 × List UInt8) :=
  if k ≤ bs.length then some (bs.take k, bs.drop k) else none

/-- An integer of `k` bytes. -/
def takeInt (k : ℕ) (bs : List UInt8) : Option (ℕ × List UInt8) :=
  (takeBytes k bs).map fun (n, rest) => (ofLe n, rest)

theorem takeBytes_append (h : bs.length = k) : takeBytes k (bs ++ rest) = some (bs, rest) := by
  subst h
  simp [takeBytes]

theorem takeInt_le (h : n < 256 ^ k) : takeInt k (le k n ++ rest) = some (n, rest) := by
  rw [takeInt, takeBytes_append (length_le k n), Option.map_some]
  simp only [ofLe_le_of_lt h]

theorem takeInt_one (b : UInt8) : takeInt 1 (b :: rest) = some (b.toNat, rest) := by
  simp [takeInt, takeBytes, ofLe]

end Take

section Length

/-- An integer in 1, 3, 4 or 9 bytes. -/
def lenenc (n : ℕ) : List UInt8 :=
  if n < 251 then le 1 n
  else if n < 2 ^ 16 then 0xfc :: le 2 n
  else if n < 2 ^ 24 then 0xfd :: le 3 n
  else 0xfe :: le 8 n

def takeLenenc : List UInt8 → Option (ℕ × List UInt8)
  | [] => none
  | b :: bs =>
    if b.toNat < 251 then some (b.toNat, bs)
    else if b = 0xfc then takeInt 2 bs
    else if b = 0xfd then takeInt 3 bs
    else if b = 0xfe then takeInt 8 bs
    else none

/-- A string with its length before it. -/
def lenencStr (s : List UInt8) : List UInt8 := lenenc s.length ++ s

def takeLenencStr (bs : List UInt8) : Option (List UInt8 × List UInt8) :=
  (takeLenenc bs).bind fun (n, bs) => takeBytes n bs

theorem takeLenenc_lenenc {n : ℕ} (h : n < 2 ^ 64) (rest : List UInt8) :
    takeLenenc (lenenc n ++ rest) = some (n, rest) := by
  unfold lenenc
  split_ifs with h1 h2 h3
  · have hb : (UInt8.ofNat n).toNat = n := by
      rw [UInt8.toNat_ofNat', Nat.mod_eq_of_lt (by omega)]
    simp [le, takeLenenc, hb, h1]
  · exact takeInt_le (k := 2) (by omega)
  · exact takeInt_le (k := 3) (by omega)
  · exact takeInt_le (k := 8) (by omega)

theorem takeLenencStr_lenencStr {s : List UInt8} (h : s.length < 2 ^ 64) (rest : List UInt8) :
    takeLenencStr (lenencStr s ++ rest) = some (s, rest) := by
  rw [takeLenencStr, lenencStr, List.append_assoc, takeLenenc_lenenc h, Option.bind_some]
  exact takeBytes_append rfl

end Length

section Execute

/-- The bytes of an integer: `TINY`, `SHORT`, `LONG`, `LONGLONG` and `INT24`. -/
def intWidth : ℕ → Option ℕ
  | 0x01 => some 1
  | 0x02 => some 2
  | 0x03 => some 4
  | 0x08 => some 8
  | 0x09 => some 4
  | _ => none

/-- A parameter, with its type where more than one has such values. -/
inductive Param
  | null
  | int (type : ℕ) (n : ℤ)
  | float (bits : ℕ)
  | double (bits : ℕ)
  | temporal (type : ℕ) (parts : List UInt8)
  | string (s : List UInt8)
  deriving DecidableEq

/-- The value of a type; a flag says that an integer is unsigned. -/
def takeValue (type flags : ℕ) (bs : List UInt8) : Option (Param × List UInt8) :=
  match intWidth type with
  | some w => (takeInt w bs).map fun (n, bs) =>
    (.int type (if flags = 0x80 then n else signed (8 * w) n), bs)
  | none =>
    if type = 0x04 then (takeInt 4 bs).map fun (bits, bs) => (.float bits, bs)
    else if type = 0x05 then (takeInt 8 bs).map fun (bits, bs) => (.double bits, bs)
    else if type = 0x06 then some (.null, bs)
    else if type ∈ [0x07, 0x0a, 0x0b, 0x0c] then
      (takeLenencStr bs).map fun (parts, bs) => (.temporal type parts, bs)
    else if type ∈ [0x0f, 0x10, 0xf5, 0xf6, 0xf9, 0xfa, 0xfb, 0xfc, 0xfd, 0xfe] then
      (takeLenencStr bs).map fun (s, bs) => (.string s, bs)
    else none

/-- Bit `i` of a bitmap. -/
def bitAt (bitmap : List UInt8) (i : ℕ) : Bool := (bitmap.getD (i / 8) 0).toNat.testBit (i % 8)

/-- The types of the parameters, each with its flags. -/
def takeTypes : ℕ → List UInt8 → Option (List (ℕ × ℕ) × List UInt8)
  | 0, bs => some ([], bs)
  | n + 1, bs => do
    let (type, bs) ← takeInt 1 bs
    let (flags, bs) ← takeInt 1 bs
    let (types, bs) ← takeTypes n bs
    return ((type, flags) :: types, bs)

/-- The values of the parameters from the `i`-th on. -/
def takeValues (bitmap : List UInt8) : ℕ → List (ℕ × ℕ) → List UInt8 →
    Option (List Param × List UInt8)
  | _, [], bs => some ([], bs)
  | i, (type, flags) :: types, bs => do
    let (v, bs) ← (if bitAt bitmap i then some (.null, bs) else takeValue type flags bs)
    let (vs, bs) ← takeValues bitmap (i + 1) types bs
    return (v :: vs, bs)

structure Execute where
  statementId : ℕ
  flags : ℕ
  iterationCount : ℕ
  params : List Param
  deriving DecidableEq

/-- The command for a statement with `n` parameters, with nothing after it. -/
def decodeExecute (n : ℕ) (bs : List UInt8) : Option Execute := do
  let (command, bs) ← takeInt 1 bs
  let (statementId, bs) ← takeInt 4 bs
  let (flags, bs) ← takeInt 1 bs
  let (iterationCount, bs) ← takeInt 4 bs
  if command ≠ 0x17 then none
  else if n = 0 then (if bs = [] then some ⟨statementId, flags, iterationCount, []⟩ else none)
  else
    let (bitmap, bs) ← takeBytes ((n + 7) / 8) bs
    let (bound, bs) ← takeInt 1 bs
    if bound ≠ 1 then none
    else
      let (types, bs) ← takeTypes n bs
      let (params, bs) ← takeValues bitmap 0 types bs
      if bs = [] then some ⟨statementId, flags, iterationCount, params⟩ else none

end Execute

section Rows

/-- A date and a time. -/
structure Temporal where
  year : ℕ
  month : ℕ
  day : ℕ
  hour : ℕ
  minute : ℕ
  second : ℕ
  micro : ℕ
  deriving DecidableEq

namespace Temporal

variable (t : Temporal)

def Midnight : Prop := t.hour = 0 ∧ t.minute = 0 ∧ t.second = 0 ∧ t.micro = 0

def Zero : Prop := t.year = 0 ∧ t.month = 0 ∧ t.day = 0 ∧ t.Midnight

instance : Decidable t.Midnight := inferInstanceAs (Decidable (_ ∧ _))

instance : Decidable t.Zero := inferInstanceAs (Decidable (_ ∧ _))

/-- Each part fits its bytes. -/
def Fits : Prop := t.year < 2 ^ 16 ∧ t.month < 2 ^ 8 ∧ t.day < 2 ^ 8 ∧ t.hour < 2 ^ 8
  ∧ t.minute < 2 ^ 8 ∧ t.second < 2 ^ 8 ∧ t.micro < 2 ^ 32

instance : Decidable t.Fits := inferInstanceAs (Decidable (_ ∧ _))

def date : List UInt8 := le 2 t.year ++ le 1 t.month ++ le 1 t.day

def time : List UInt8 := le 1 t.hour ++ le 1 t.minute ++ le 1 t.second

/-- The length and the parts: those at the end are left out if they are all zero. -/
def encode : List UInt8 :=
  if t.Zero then [0]
  else if t.Midnight then 4 :: t.date
  else if t.micro = 0 then 7 :: (t.date ++ t.time)
  else 11 :: (t.date ++ t.time ++ le 4 t.micro)

end Temporal

/-- A value of a row that is not NULL. -/
inductive Cell
  | int (n : ℤ)
  | float (bits : UInt32)
  | double (bits : UInt64)
  | temporal (t : Temporal)
  | string (s : List UInt8)
  deriving DecidableEq

/-- How many bits the integers of a type have: those of `INT24` fewer than their bytes. -/
def intBits : ℕ → ℕ
  | 0x09 => 24
  | type => 8 * (intWidth type).getD 0

/-- The cell is a value of a column: of a `DATE`, without a time. -/
def Cell.Fits (type : ℕ) (unsigned : Bool) : Cell → Prop
  | .int n => (intWidth type).isSome ∧
    if unsigned then 0 ≤ n ∧ n < 2 ^ intBits type
    else -2 ^ intBits type ≤ 2 * n ∧ 2 * n < 2 ^ intBits type
  | .float _ => type = 0x04
  | .double _ => type = 0x05
  | .temporal t => t.Fits ∧ (type = 0x07 ∨ type = 0x0c ∨ type = 0x0a ∧ t.Midnight)
  | .string _ => type ∈ [0x0f, 0x10, 0xf5, 0xf9, 0xfa, 0xfb, 0xfc, 0xfd, 0xfe]

instance (type : ℕ) (unsigned : Bool) (c : Cell) : Decidable (c.Fits type unsigned) := by
  cases c <;> unfold Cell.Fits <;> infer_instance

def Cell.encode (type : ℕ) : Cell → List UInt8
  | .int n =>
    let w := (intWidth type).getD 0
    le w (n % 2 ^ (8 * w)).toNat
  | .float bits => le 4 bits.toNat
  | .double bits => le 8 bits.toNat
  | .temporal t => t.encode
  | .string s => lenencStr s

/-- The `i`-th byte of a bitmap. -/
def bitmapByte (f : ℕ → Bool) (i : ℕ) : UInt8 :=
  UInt8.ofNat ((List.range 8).foldl (fun byte j => if f (8 * i + j) then byte ||| (1 <<< j)
    else byte) 0)

def bitmap (f : ℕ → Bool) (len : ℕ) : List UInt8 := (List.range len).map (bitmapByte f)

/-- The values of a row, one after the other. -/
def encodeCells (types : List ℕ) (cells : List (Option Cell)) : List UInt8 :=
  (types.zip cells).flatMap fun p => (p.2.map (Cell.encode p.1)).getD []

/-- A row with these cells, some of them NULL. -/
def encodeRow (types : List ℕ) (cells : List (Option Cell)) : List UInt8 :=
  0 :: bitmap (fun i => decide (2 ≤ i) && (cells[i - 2]?).any Option.isNone)
      ((cells.length + 9) / 8)
    ++ encodeCells types cells

/-- The bits that a loop sets. -/
theorem testBit_foldl (p : ℕ → Bool) (n k : ℕ) :
    ((List.range n).foldl (fun byte j => if p j then byte ||| (1 <<< j) else byte) 0).testBit k
      = (decide (k < n) && p k) := by
  induction n with
  | zero => simp
  | succ n ih =>
    rw [List.range_succ, List.foldl_append, List.foldl_cons, List.foldl_nil]
    have hbit : (1 <<< n).testBit k = decide (n = k) := by
      rw [Nat.shiftLeft_eq, Nat.one_mul, Nat.testBit_two_pow]
    by_cases hk : k = n
    · subst hk
      by_cases hp : p k
      · rw [if_pos hp, Nat.testBit_or, ih, hbit]
        simp [hp]
      · rw [if_neg hp, ih]
        simp [hp]
    · have hlt : k < n + 1 ↔ k < n := by omega
      have hne : (1 <<< n).testBit k = false := by simpa [hbit] using Ne.symm hk
      by_cases hp : p n
      · rw [if_pos hp, Nat.testBit_or, ih, hne, Bool.or_false]
        simp [hlt]
      · rw [if_neg hp, ih]
        simp [hlt]

theorem testBit_bitmapByte (f : ℕ → Bool) (i : ℕ) {j : ℕ} (hj : j < 8) :
    (bitmapByte f i).toNat.testBit j = f (8 * i + j) := by
  have hbit := testBit_foldl (fun j => f (8 * i + j)) 8 j
  rw [bitmapByte, UInt8.toNat_ofNat', Nat.testBit_mod_two_pow, hbit]
  simp [hj]

@[simp] theorem length_bitmap (f : ℕ → Bool) (len : ℕ) : (bitmap f len).length = len := by
  simp [bitmap]

end Rows

end MysqlBinary

end Lib
