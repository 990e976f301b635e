import SkynetCpp.Lib.Endian
import SkynetCpp.LuaValue

/-!
# lua_seri

`luaseri_pack` and `luaseri_unpack`. Each value is a byte with its type in the low three bits and
a cookie in the high five, and what the two call for. The encoder writes into a chain of blocks of
128 bytes: the functions `wb…` give what they push, one `push` after the other, and `seri` is what
the chain holds in the end. The decoder reads a block of bytes, which is here what is left of it; a
read past the end reads nothing.
-/

namespace SkynetCpp

open Lib

namespace LuaSeri

def TYPE_NIL : ℕ := 0
def TYPE_BOOLEAN : ℕ := 1
def TYPE_NUMBER : ℕ := 2
def TYPE_USERDATA : ℕ := 3
def TYPE_SHORT_STRING : ℕ := 4
def TYPE_LONG_STRING : ℕ := 5
def TYPE_TABLE : ℕ := 6

def TYPE_NUMBER_ZERO : ℕ := 0
def TYPE_NUMBER_BYTE : ℕ := 1
def TYPE_NUMBER_WORD : ℕ := 2
def TYPE_NUMBER_DWORD : ℕ := 4
def TYPE_NUMBER_QWORD : ℕ := 6
def TYPE_NUMBER_DOUBLE : ℕ := 8

def MAX_COOKIE : ℕ := 32
def MAX_DEPTH : ℕ := 32
def BLOCK_SIZE : ℕ := 128

/-- `COMBINE_TYPE(t, v)`, for an `int` cookie. -/
def combineType (t : ℕ) (v : ℤ) : UInt8 := UInt8.ofNat (t ||| (v * 8 % 256).toNat)

/-- The chain of blocks: those that are full, and the current one up to the write position. -/
structure WriteBlock where
  full : List Bytes := []
  current : Bytes := []
  fits : current.length ≤ BLOCK_SIZE := by exact Nat.zero_le _

namespace WriteBlock

/-- A new block, if the current one is full. -/
def extend (wb : WriteBlock) : WriteBlock :=
  if BLOCK_SIZE - wb.current.length = 0 then { full := wb.full ++ [wb.current] } else wb

/-- The loop of `push`, for at most `n` rounds: copy what the current block has room for. -/
def pushLoop : ℕ → WriteBlock → Bytes → WriteBlock
  | 0, wb, _ => wb
  | n + 1, wb, data =>
    if data.length = 0 then wb
    else
      let wb := wb.extend
      let copy := min data.length (BLOCK_SIZE - wb.current.length)
      pushLoop n
        { wb with
          current := wb.current ++ data.take copy
          fits := by have := wb.fits; simp only [List.length_append, List.length_take]; omega }
        (data.drop copy)

/-- Every round copies at least a byte. -/
def push (wb : WriteBlock) (data : Bytes) : WriteBlock := pushLoop data.length wb data

end WriteBlock

/-- The buffer all blocks are copied to. -/
def seri (wb : WriteBlock) : Bytes := (wb.full ++ [wb.current]).flatten

def wbNil : List Bytes := [[combineType TYPE_NIL 0]]

def wbBoolean (b : Bool) : List Bytes := [[combineType TYPE_BOOLEAN (if b then 1 else 0)]]

def wbInteger (v : ℤ) : List Bytes :=
  if v = 0 then [[combineType TYPE_NUMBER TYPE_NUMBER_ZERO]]
  else if v ≠ toSigned 32 v then
    [[combineType TYPE_NUMBER TYPE_NUMBER_QWORD], le 8 (v % 2 ^ 64).toNat]
  else if v < 0 then [[combineType TYPE_NUMBER TYPE_NUMBER_DWORD], le 4 (v % 2 ^ 32).toNat]
  else if v < 0x100 then [[combineType TYPE_NUMBER TYPE_NUMBER_BYTE], le 1 v.toNat]
  else if v < 0x10000 then [[combineType TYPE_NUMBER TYPE_NUMBER_WORD], le 2 v.toNat]
  else [[combineType TYPE_NUMBER TYPE_NUMBER_DWORD], le 4 v.toNat]

def wbDouble (bits : UInt64) : List Bytes :=
  [[combineType TYPE_NUMBER TYPE_NUMBER_DOUBLE], le 8 bits.toNat]

def wbPointer (p : UInt64) : List Bytes := [[combineType TYPE_USERDATA 0], le 8 p.toNat]

def wbString (str : Bytes) : List Bytes :=
  let len := str.length
  if len < MAX_COOKIE then
    [combineType TYPE_SHORT_STRING len] :: if 0 < len then [str] else []
  else if len < 0x10000 then [[combineType TYPE_LONG_STRING 2], le 2 len, str]
  else [[combineType TYPE_LONG_STRING 4], le 4 len, str]

/-- The head of a table: its array size in the cookie, or behind it. -/
def wbArraySize (arraySize : ℤ) : List Bytes :=
  if MAX_COOKIE - 1 ≤ arraySize then
    [combineType TYPE_TABLE (MAX_COOKIE - 1)] :: wbInteger arraySize
  else [[combineType TYPE_TABLE arraySize]]

/-- The array part has this key. -/
def inArray (arraySize : ℤ) : Value → Bool
  | .integer x => 0 < x.toInt && x.toInt ≤ arraySize
  | _ => false

/-- A pair of the hash part: its key, then its value. -/
def packPair (pack : Value → Except String (List Bytes)) (p : Value × Value) :
    Except String (List Bytes) := do
  let key ← pack p.1
  let value ← pack p.2
  pure (key ++ value)

/-- `pack_one`, with `levels` more levels of tables before `wb_table` refuses: `MAX_DEPTH` less
the depth of that table. -/
def packOne : ℕ → Value → Except String (List Bytes)
  | _, .nil => .ok wbNil
  | _, .boolean b => .ok (wbBoolean b)
  | _, .integer n => .ok (wbInteger n.toInt)
  | _, .float bits => .ok (wbDouble bits)
  | _, .lightuserdata p => .ok (wbPointer p)
  | _, .string s => .ok (wbString s)
  | 0, .table _ _ => .error "serialize: table too deep (32)"
  | levels + 1, .table fields rawlen => do
    let arraySize := toSigned 32 rawlen
    let array ← ((List.range arraySize.toNat).map fun i => Fields.rawgeti fields (i + 1)).mapM
      (packOne levels)
    let hash ← (fields.filter fun p => !inArray arraySize p.1).mapM (packPair (packOne levels))
    pure (wbArraySize arraySize ++ array.flatten ++ hash.flatten ++ wbNil)
  | _, .other typename =>
    .error ("Unsupported type " ++ String.ofList (typename.map fun c => Char.ofNat c.toNat)
      ++ " to serialize")

/-- `luaseri_pack`: `pack_one` calls `wb_table` at depth 1. -/
def luaseriPack (values : List Value) : Except String Bytes := do
  let pushes ← values.mapM (packOne (MAX_DEPTH - 1))
  pure (seri (pushes.flatten.foldl WriteBlock.push {}))

/-- `ReadBlock::read` -/
def read (rb : Bytes) (sz : ℕ) : Option Bytes × Bytes :=
  if rb.length < sz then (none, rb) else (some (rb.take sz), rb.drop sz)

/-- A little-endian field of `sz` bytes, or `default` past the end. -/
def readInt (rb : Bytes) (sz : ℕ) (conv : ℕ → ℤ) : ℤ × Bytes :=
  match read rb sz with
  | (some p, rb) => (conv (ofLe p), rb)
  | (none, rb) => (0, rb)

def rbInteger (rb : Bytes) (cookie : ℕ) : ℤ × Bytes :=
  if cookie = TYPE_NUMBER_BYTE then readInt rb 1 (↑)
  else if cookie = TYPE_NUMBER_WORD then readInt rb 2 (↑)
  else if cookie = TYPE_NUMBER_DWORD then readInt rb 4 (signed 32)
  else if cookie = TYPE_NUMBER_QWORD then readInt rb 8 (signed 64)
  else (0, rb)

/-- The 8 bytes of a double or of a pointer. -/
def rbWord (rb : Bytes) : UInt64 × Bytes :=
  match read rb 8 with
  | (some p, rb) => (UInt64.ofNat (ofLe p), rb)
  | (none, rb) => (0, rb)

/-- The bytes of a string of a length read before, or nil past the end. -/
def rbString (rb : Bytes) (len : ℕ) : Value × Bytes :=
  match read rb len with
  | (some str, rb) => (.string str, rb)
  | (none, rb) => (.nil, rb)

/-- The array size of a table head. -/
def rbArraySize (rb : Bytes) (cookie : ℕ) : ℤ × Bytes :=
  if cookie = MAX_COOKIE - 1 then
    match read rb 1 with
    | (some st, rb) =>
      let (sz, rb) := rbInteger rb (ofLe st / 8)
      (toSigned 32 sz, rb)
    | (none, rb) => (cookie, rb)
  else (cookie, rb)

/-- The array part: `n` values for the keys from `i` on. -/
def rbArray (unpack : Bytes → Except String (Value × Bytes)) :
    ℕ → ℕ → Fields → Bytes → Except String (Fields × Bytes)
  | 0, _, fields, rb => .ok (fields, rb)
  | n + 1, i, fields, rb => do
    let (v, rb) ← unpack rb
    let fields ← fields.rawset (.integer (Int64.ofNat i)) v
    rbArray unpack n (i + 1) fields rb

mutual

/-- A value whose first byte `t` has been read. The key of a pair and any other value are read by
the same switch. `fuel` bounds the depth of the recursion: every second call reads a byte. -/
def unpackTagged : ℕ → ℕ → Bytes → Except String (Value × Bytes)
  | 0, _, _ => .error "out of fuel"
  | fuel + 1, t, rb =>
    let type := t % 8
    let cookie := t / 8
    if type = TYPE_NIL then .ok (.nil, rb)
    else if type = TYPE_BOOLEAN then .ok (.boolean (cookie ≠ 0), rb)
    else if type = TYPE_NUMBER then
      if cookie = TYPE_NUMBER_DOUBLE then
        let (bits, rb) := rbWord rb
        .ok (.float bits, rb)
      else
        let (n, rb) := rbInteger rb cookie
        .ok (.integer (Int64.ofInt n), rb)
    else if type = TYPE_USERDATA then
      let (p, rb) := rbWord rb
      .ok (.lightuserdata p, rb)
    else if type = TYPE_SHORT_STRING then .ok (rbString rb cookie)
    else if type = TYPE_LONG_STRING then
      let (len, rb) := readInt rb (if cookie = 2 then 2 else 4) (↑)
      .ok (rbString rb len.toNat)
    else if type = TYPE_TABLE then
      let (arraySize, rb) := rbArraySize rb cookie
      do
        let (fields, rb) ← rbArray (unpackOne fuel) arraySize.toNat 1 [] rb
        let (fields, rb) ← rbHash fuel fields rb
        pure (.table fields 0, rb)
    else .ok (.nil, rb)

/-- `unpack_one`: nil past the end. -/
def unpackOne : ℕ → Bytes → Except String (Value × Bytes)
  | 0, _ => .error "out of fuel"
  | fuel + 1, rb =>
    match read rb 1 with
    | (some t, rb) => unpackTagged fuel (ofLe t) rb
    | (none, rb) => .ok (.nil, rb)

/-- The hash part of `rb_table`: pairs until a nil key. -/
def rbHash : ℕ → Fields → Bytes → Except String (Fields × Bytes)
  | 0, _, _ => .error "out of fuel"
  | fuel + 1, fields, rb =>
    match read rb 1 with
    | (some t, rb) =>
      if ofLe t % 8 = TYPE_NIL then .ok (fields, rb)
      else do
        let (key, rb) ← unpackTagged fuel (ofLe t) rb
        let (value, rb) ← unpackOne fuel rb
        let fields ← fields.rawset key value
        rbHash fuel fields rb
    | (none, rb) => .ok (fields, rb)

end

/-- The loop of `unpack_impl`. -/
def unpackLoop : ℕ → Bytes → Except String (List Value)
  | 0, _ => .ok []
  | fuel + 1, rb =>
    if rb.length = 0 then .ok []
    else do
      let (v, rb) ← unpackOne (2 * rb.length + 1) rb
      let vs ← unpackLoop fuel rb
      pure (v :: vs)

/-- `luaseri_unpack` of a buffer and its size. The size is cast to an `int`; what a negative one
makes the code read is not defined. -/
def luaseriUnpack (buffer : Bytes) : Except String (List Value) :=
  let sz := toSigned 32 buffer.length
  if sz < 0 then .error "undefined"
  else
    let rb := buffer.take sz.toNat
    unpackLoop rb.length rb

end LuaSeri

end SkynetCpp
