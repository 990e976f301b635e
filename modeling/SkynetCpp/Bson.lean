import SkynetCpp.Lib.Outcome
import SkynetCpp.LuaString

/-!
# BSON

`bson.lua`: the Lua values that have an encoding, the encoder and the decoder. The decoder's loops
over the elements of a document or an array move by lengths that the bytes give, so each is run for
a number of rounds at most; and calls that are nested deeper than the Lua stack allows raise. What
`#` says of a table that was decoded is a parameter, and so are the reader of floats, `x + 1.0`, and
`tostring` of what is neither an integer nor a string.
-/

namespace SkynetCpp

open Lib LuaString

namespace Bson

/-- `tonumber(cc, 16)` -/
def tonumber16 (cc : Bytes) : Option ℤ :=
  let (neg, s) := isneg (cc.dropWhile isSpace)
  let digits := hexadecimal 0 true s
  if digits.empty ∨ digits.rest.dropWhile isSpace ≠ [] then none
  else some (if neg then -digits.a else digits.a)

/-- `hex:gsub("..", function(cc) return string.char(tonumber(cc, 16)) end)`, unless it raises. -/
def charsOfHex : Bytes → Option Bytes
  | a :: b :: hex => do
    let n ← tonumber16 [a, b]
    if n < 0 ∨ 255 < n then none
    else return UInt8.ofNat n.toNat :: (← charsOfHex hex)
  | rest => some rest

/-- `string.format("%02x", b)` -/
def hexOfByte (b : UInt8) : Bytes :=
  let digit (n : ℕ) : UInt8 := UInt8.ofNat (if n < 10 then 48 + n else 87 + n)
  [digit (b.toNat / 16), digit (b.toNat % 16)]

def hexOfBytes (bytes : Bytes) : Bytes := bytes.flatMap hexOfByte

/-- What `bson.objectid(hex)` returns. -/
structure ObjectId where
  hex : Bytes
  bytes : Bytes
  made : hex.length = 24 ∧ charsOfHex hex = some bytes
  deriving DecidableEq

/-- `bson.objectid(hex)`, unless it raises. -/
def objectid (hex : Bytes) : Option ObjectId :=
  match h : charsOfHex hex with
  | some bytes => if hlen : hex.length = 24 then some { hex, bytes, made := ⟨hlen, h⟩ } else none
  | none => none

/-- A Lua value that can be encoded; the keys of its tables are Lua values. -/
inductive Value
  | nil
  | boolean (b : Bool)
  | integer (n : Int64)
  | float (bits : UInt64)
  | string (s : Bytes)
  | null
  | minkey
  | maxkey
  | int64 (n : Int64)
  | objectid (o : ObjectId)
  | table (fields : List (SkynetCpp.Value × Value)) (rawlen : ℕ)

abbrev Fields := List (SkynetCpp.Value × Value)

/-- What is outside: Lua's numbers as texts and back, and what `#` says of a table. The text of a
number is what `lua_Number2strx` and the like write, which fits into a small buffer. -/
structure Env where
  str2d : Bytes → Option UInt64
  floatSucc : UInt64 → UInt64
  border : Fields → ℕ
  numberText : SkynetCpp.Value → Bytes
  numberText_le : ∀ v, (numberText v).length ≤ 30

section Encoding
variable (env : Env)

/-- `fields[key]`, of a table with any values. -/
def lookup {β : Type} (fields : List (SkynetCpp.Value × β)) (key : SkynetCpp.Value) : Option β :=
  (fields.find? fun p => SkynetCpp.Value.keyEq p.1 key).map Prod.snd

/-- A number or a string, as the library of Lua takes it. -/
def scalar : Option Value → SkynetCpp.Value
  | some (.integer n) => .integer n
  | some (.float bits) => .float bits
  | some (.string s) => .string s
  | _ => .nil

/-- `tostring(k)` -/
def tostring : SkynetCpp.Value → Bytes
  | .integer n => intNumeral n.toInt
  | .string s => s
  | v => env.numberText v

/-- What `..` appends, unless it raises. -/
def concat : SkynetCpp.Value → Option Bytes
  | .nil => none
  | v => some (tostring env v)

/-- `encode_cstring` -/
def encodeCstring (s : Bytes) : Bytes := s ++ [0]

/-- `string.pack("<i4", #body + 4) .. body` -/
def encodeBody (body : Bytes) : Option Bytes := do
  return (← packInt 4 (body.length + 4)) ++ body

def encodeNil (key : Bytes) : Bytes := 0x0A :: encodeCstring key

/-- The branch for a number that is the integer `iv`. -/
def encodeInteger (key : Bytes) (iv : ℤ) : Option Bytes :=
  if -2147483648 ≤ iv ∧ iv ≤ 2147483647 then do
    return 0x10 :: encodeCstring key ++ (← packInt 4 iv)
  else do return 0x12 :: encodeCstring key ++ (← packInt 8 iv)

/-- A key that the keys of an array with `n` elements may be; a stored float is no integer. -/
def arrayKey (n : ℕ) : SkynetCpp.Value → Bool
  | .integer k => 1 ≤ k.toInt && k.toInt ≤ n
  | .string s => s = ascii "n"
  | _ => false

/-- The loop from 1 to `n`, with `encode_element` of each field given. -/
def encodeArray (elements : List (SkynetCpp.Value × (Bytes → Option Bytes))) (n : ℕ) :
    Option Bytes := do
  let parts ← (List.range n).mapM fun i =>
    match lookup elements (.integer (Int64.ofNat (i + 1))) with
    | some element => element (numeral i)
    | none => some (encodeNil (numeral i))
  encodeBody (parts.flatten ++ [0])

/-- The loop over `pairs`, with `encode_element` of each field given. -/
def encodeDocument (elements : List (SkynetCpp.Value × (Bytes → Option Bytes))) :
    Option Bytes := do
  let parts ← elements.mapM fun (k, element) => element (tostring env k)
  encodeBody (parts.flatten ++ [0])

/-- `value[name]`, where it counts for no more than a number or a string. -/
def field (fields : Fields) (name : String) : SkynetCpp.Value :=
  scalar (lookup fields (.string (ascii name)))

mutual

/-- `encode_element` -/
def encodeElement : Value → Bytes → Option Bytes
  | .nil, key => some (encodeNil key)
  | .boolean b, key => some (0x08 :: encodeCstring key ++ [if b then 1 else 0])
  | .integer n, key => encodeInteger key n.toInt
  | .float bits, key =>
    match SkynetCpp.Value.floatToInteger bits with
    | some n => encodeInteger key n.toInt
    | none => some (0x01 :: encodeCstring key ++ le 8 bits.toNat)
  | .string s, key => do
    return 0x02 :: encodeCstring key ++ (← packInt 4 (s.length + 1)) ++ s ++ [0]
  | .null, key => some (0x0A :: encodeCstring key)
  | .minkey, key => some (0xFF :: encodeCstring key)
  | .maxkey, key => some (0x7F :: encodeCstring key)
  | .int64 n, key => do return 0x12 :: encodeCstring key ++ (← packInt 8 n.toInt)
  | .objectid o, key => some (0x07 :: encodeCstring key ++ o.bytes)
  | .table fields rawlen, key =>
    if SkynetCpp.Value.keyEq (field fields "__bson_type") (.string (ascii "int64")) then do
      let n ← checkinteger env.str2d (field fields "value")
      return 0x12 :: encodeCstring key ++ (← packInt 8 n.toInt)
    else if SkynetCpp.Value.keyEq (field fields "__bson_type") (.string (ascii "objectid")) then do
      return 0x07 :: encodeCstring key ++ (← concat env (field fields "bytes"))
    else if 0 < rawlen ∧ fields.all (fun p => arrayKey rawlen p.1) then do
      return 0x04 :: encodeCstring key ++ (← encodeArray (encoders fields) rawlen)
    else do return 0x03 :: encodeCstring key ++ (← encodeDocument env (encoders fields))

def encoders : Fields → List (SkynetCpp.Value × (Bytes → Option Bytes))
  | [] => []
  | (k, v) :: fields => (k, encodeElement v) :: encoders fields

end

/-- `bson.encode`, of a table with these fields. -/
def encode (doc : Fields) : Option Bytes := encodeDocument env (encoders env doc)

end Encoding

section Decoding

variable (env : Env) (data : Bytes)

/-- An integer of Lua wraps. -/
def wrap (n : ℤ) : ℤ := toSigned 64 n

/-- `decode_cstring` -/
def decodeCstring (pos : ℤ) : Option (Bytes × ℤ) :=
  (find data [0] pos).map fun (e : ℕ) => (sub data pos (e - 1), (e : ℤ) + 1)

/-- `fields[key] = value`, of a value that is not nil. -/
def put (fields : Fields) (key : SkynetCpp.Value) (value : Value) : Fields :=
  (fields.filter fun p => !SkynetCpp.Value.keyEq p.1 key) ++ [(key, value)]

/-- The key that an element is stored under: its text, or `tonumber(key) + 1`. -/
def slot (isArray : Bool) (key : Bytes) : Option SkynetCpp.Value :=
  if isArray then
    match tonumber env.str2d key with
    | .integer n => some (.integer (n + 1))
    | .float bits =>
      let bits := env.floatSucc bits
      if SkynetCpp.Value.isNaN bits then none else some (SkynetCpp.Value.normKey (.float bits))
    | _ => none
  else some (.string key)

/-- What `string.unpack` reads of an integer. -/
def decodeInt (k : ℕ) (pos : ℤ) : Outcome (Value × ℤ) := do
  let (n, pos) ← .of (unpackInt k data pos)
  return (.integer (Int64.ofInt n), pos)

/-- The branches of `decode_element`, behind the key, with `decode_document` and `decode_array`
given. -/
def decodeValue (table : Bool → ℤ → Outcome (Value × ℤ)) (type : Option UInt8) (pos : ℤ) :
    Outcome (Value × ℤ) :=
  match type with
  | some 0x01 => do
    let (bits, pos) ← .of (unpackBytes 8 data pos)
    return (.float (UInt64.ofNat (ofLe bits)), pos)
  | some 0x02 => do
    let (len, pos) ← .of (unpackInt 4 data pos)
    return (.string (sub data pos (pos + len - 2)), pos + len)
  | some 0x03 => table false pos
  | some 0x04 => table true pos
  | some 0x05 => do
    let (len, pos) ← .of (unpackInt 4 data pos)
    return (.string (sub data (pos + 1) (pos + len)), pos + 1 + len)
  | some 0x07 => do
    let id ← .of (objectid (hexOfBytes (sub data pos (pos + 11))))
    return (.objectid id, pos + 12)
  | some 0x08 => return (.boolean (byte data pos ≠ some 0), pos + 1)
  | some 0x09 => decodeInt data 8 pos
  | some 0x0A => return (.null, pos)
  | some 0x10 => decodeInt data 4 pos
  | some 0x12 => decodeInt data 8 pos
  | some 0xFF => return (.minkey, pos)
  | some 0x7F => return (.maxkey, pos)
  | _ => .raised

/-- `decode_element` -/
def decodeElement (table : Bool → ℤ → Outcome (Value × ℤ)) (pos : ℤ) :
    Outcome (Bytes × Value × ℤ) := do
  let (key, keyEnd) ← .of (decodeCstring data (pos + 1))
  let (value, next) ← decodeValue data table (byte data pos) keyEnd
  return (key, value, next)

/-- One round of the loop of `decode_document` or `decode_array`. -/
def decodeRound (table : Bool → ℤ → Outcome (Value × ℤ)) (isArray : Bool) (s : ℤ × Fields) :
    Outcome (ℤ × Fields) := do
  let (key, value, next) ← decodeElement data table s.1
  let key ← .of (slot env isArray key)
  return (next, put s.2 key value)

/-- `decode_document` or `decode_array`, with stack for tables that are nested `depth` deep. -/
def decodeTable (rounds : ℕ) : ℕ → Bool → ℤ → Outcome (Value × ℤ)
  | 0, _, _ => .raised
  | depth + 1, isArray, pos => do
    let (len, _) ← .of (unpackInt 4 data pos)
    let endPos := wrap (pos + len)
    let (_, fields) ← whileLoop (· < wrap (endPos - 1))
      (decodeRound env data (decodeTable rounds depth) isArray) rounds (wrap (pos + 4), [])
    return (.table fields (env.border fields), endPos)

/-- `bson.decode` -/
def decode (rounds depth : ℕ) (pos : ℤ) : Outcome (Value × ℤ) :=
  decodeTable env data rounds depth false pos

/-- It reaches a result or an error. -/
def Terminates (depth : ℕ) (pos : ℤ) : Prop :=
  ∃ rounds, decode env data rounds depth pos ≠ .unfinished

end Decoding

end Bson

end SkynetCpp
