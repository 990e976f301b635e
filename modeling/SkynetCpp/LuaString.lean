import SkynetCpp.Lib.Endian
import SkynetCpp.Lib.Numerals
import SkynetCpp.LuaValue
import SkynetCpp.Socket

/-!
# Lua strings

What the code uses of Lua's `string` library, and the reading of numbers: positions count from 1,
and from the end where they are negative. A string that is no integer may still be a float; the
reader of floats, C's `strtod`, is a parameter.
-/

namespace SkynetCpp

open Lib

namespace LuaString

/-- `posrelatI`: the first position of a range. -/
def posrelatI (pos : ℤ) (len : ℕ) : ℕ :=
  if 0 < pos then pos.toNat
  else if pos = 0 ∨ pos < -len then 1
  else (len + pos + 1).toNat

/-- `getendpos`: the last one. -/
def getendpos (pos : ℤ) (len : ℕ) : ℕ :=
  if len < pos then len
  else if 0 ≤ pos then pos.toNat
  else if pos < -len then 0
  else (len + pos + 1).toNat

/-- `s:sub(i, j)` -/
def sub (s : Bytes) (i j : ℤ) : Bytes :=
  let first := posrelatI i s.length
  let last := getendpos j s.length
  (s.drop (first - 1)).take (last + 1 - first)

/-- `s:find(sep, init, true)`: where it begins. -/
def find (s sep : Bytes) (init : ℤ) : Option ℕ :=
  let first := posrelatI init s.length
  if s.length < first - 1 then none
  else (Socket.find sep (s.drop (first - 1))).map (· + first)

/-- `s:byte(i)` -/
def byte (s : Bytes) (i : ℤ) : Option UInt8 :=
  let first := posrelatI i s.length
  if getendpos i s.length < first then none else s[first - 1]?

/-- The `k` bytes that `string.unpack` reads from `pos` on, and the next position; it raises where
they are not there. -/
def unpackBytes (k : ℕ) (s : Bytes) (pos : ℤ) : Option (Bytes × ℤ) :=
  let first := posrelatI pos s.length - 1
  if s.length < first ∨ s.length - first < k then none
  else some ((s.drop first).take k, first + k + 1)

/-- `string.unpack` of a signed integer of `k` bytes, the lowest first. -/
def unpackInt (k : ℕ) (s : Bytes) (pos : ℤ) : Option (ℤ × ℤ) :=
  (unpackBytes k s pos).map fun (bytes, next) => (signed (8 * k) (ofLe bytes), next)

/-- `string.pack` of it; it raises where the integer does not fit. -/
def packInt (k : ℕ) (n : ℤ) : Option Bytes :=
  if -2 ^ (8 * k) ≤ 2 * n ∧ 2 * n < 2 ^ (8 * k) then some (le k (n % 2 ^ (8 * k)).toNat) else none

/-- `string.unpack` of an unsigned integer of `k ≤ 8` bytes, the lowest first, as the bits of the
integer it gives. -/
def unpackUnsigned (k : ℕ) (s : Bytes) (pos : ℤ) : Option (UInt64 × ℤ) :=
  (unpackBytes k s pos).map fun (bytes, next) => (UInt64.ofNat (ofLe bytes), next)

/-- `string.pack` of it; it raises where it has more bytes, unless `k` is 8. -/
def packUnsigned (k : ℕ) (n : UInt64) : Option Bytes :=
  if k < 8 ∧ 2 ^ (8 * k) ≤ n.toNat then none else some (le k n.toNat)

/-- The same with the highest byte first. -/
def unpackBigUnsigned (k : ℕ) (s : Bytes) (pos : ℤ) : Option (UInt64 × ℤ) :=
  (unpackBytes k s pos).map fun (bytes, next) => (UInt64.ofNat (ofBe bytes), next)

def packBigUnsigned (k : ℕ) (n : UInt64) : Option Bytes := (packUnsigned k n).map List.reverse

/-- `lisspace` -/
def isSpace (b : UInt8) : Bool := b = 32 || (9 ≤ b.toNat && b.toNat ≤ 13)

/-- The matches of `s:gmatch("%S+")`, after the bytes `word` of one that has begun. -/
def wordsFrom (word : Bytes) : Bytes → List Bytes
  | [] => if word = [] then [] else [word]
  | b :: s =>
    if isSpace b then (if word = [] then [] else [word]) ++ wordsFrom [] s
    else wordsFrom (word ++ [b]) s

def words (s : Bytes) : List Bytes := wordsFrom [] s

/-- `luaO_hexavalue`, of a byte that is `lisxdigit`. -/
def hexaValue (b : UInt8) : Option ℕ :=
  if isDigit b then some (b.toNat - 48)
  else if 97 ≤ b.toNat ∧ b.toNat ≤ 102 then some (b.toNat - 87)
  else if 65 ≤ b.toNat ∧ b.toNat ≤ 70 then some (b.toNat - 55)
  else none

/-- The sign of a numeral, and the rest. -/
def isneg : Bytes → Bool × Bytes
  | 45 :: s => (true, s)
  | 43 :: s => (false, s)
  | s => (false, s)

def MAXBY10 : ℕ := (2 ^ 63 - 1) / 10
def MAXLASTD : ℕ := (2 ^ 63 - 1) % 10

/-- What the loops over the digits leave: the number, whether there was no digit, and the rest. -/
structure Digits where
  a : ℕ
  empty : Bool
  rest : Bytes

def hexadecimal (a : ℕ) (empty : Bool) : Bytes → Digits
  | [] => ⟨a, empty, []⟩
  | b :: s =>
    match hexaValue b with
    | some d => hexadecimal ((a * 16 + d) % 2 ^ 64) false s
    | none => ⟨a, empty, b :: s⟩

/-- The other loop, which gives up on an overflow. -/
def decimal (neg : Bool) (a : ℕ) (empty : Bool) : Bytes → Option Digits
  | [] => some ⟨a, empty, []⟩
  | b :: s =>
    if isDigit b then
      let d := b.toNat - 48
      if MAXBY10 ≤ a ∧ (MAXBY10 < a ∨ MAXLASTD + neg.toNat < d) then none
      else decimal neg (a * 10 + d) false s
    else some ⟨a, empty, b :: s⟩

/-- `l_str2int`, of a string without NUL. -/
def str2int (s : Bytes) : Option Int64 :=
  let (neg, s) := isneg (s.dropWhile isSpace)
  let digits := match s with
    | 48 :: 120 :: s | 48 :: 88 :: s => some (hexadecimal 0 true s)
    | s => decimal neg 0 true s
  digits.bind fun digits =>
    if digits.empty ∨ digits.rest.dropWhile isSpace ≠ [] then none
    else some (Int64.ofInt (if neg then -digits.a else digits.a))

/-- `tonumber(s)`, with `l_str2d` of a string without NUL. At a NUL both readers stop short of the
end of the string. -/
def tonumber (str2d : Bytes → Option UInt64) (s : Bytes) : Value :=
  if s.contains 0 then .nil
  else
    match str2int s with
    | some n => .integer n
    | none =>
      match str2d s with
      | some bits => .float bits
      | none => .nil

/-- `luaL_checkinteger`, unless it raises: a float counts if it is equal to an integer, and a string
if it is the text of a number. -/
def checkinteger (str2d : Bytes → Option UInt64) (v : Value) : Option Int64 :=
  let number := match v with
    | .string s => tonumber str2d s
    | v => v
  match number with
  | .integer n => some n
  | .float bits => Value.floatToInteger bits
  | _ => none

end LuaString

end SkynetCpp
