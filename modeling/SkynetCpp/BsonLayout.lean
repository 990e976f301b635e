import SkynetCpp.Bson

/-!
# BSON documents and their bytes

The documents that have an encoding (`IsDocument`), the bytes that BSON gives them, in which every
length is the size of its part (`layout`), and when a decoded value is equal to a document
(`Equals`). A document round-trips if the encoder raises, or writes those bytes and the decoder
makes the document of them again.
-/

namespace SkynetCpp

open Lib LuaString

namespace Bson

/-- A document with string keys, an array without holes, or a value that is no table. -/
inductive IsDocument : Value → Prop
  | scalar {v : Value} : v ≠ .nil → (∀ fields n, v ≠ .table fields n) → IsDocument v
  | document {fields : Fields} : (∀ p ∈ fields, ∃ s, p.1 = .string s) →
      (fields.map Prod.fst).Nodup → (∀ p ∈ fields, IsDocument p.2) → IsDocument (.table fields 0)
  | array {fields : Fields} : fields.length < 2 ^ 63 →
      (fields.map Prod.fst).Perm
        ((List.range fields.length).map fun i => .integer (Int64.ofNat (i + 1))) →
      (∀ p ∈ fields, IsDocument p.2) → IsDocument (.table fields fields.length)

section Layout

/-- Elements between their size and a NUL. -/
def framed (elements : Bytes) : Bytes := le 4 (elements.length + 5) ++ elements ++ [0]

/-- The type of an element, and its bytes behind the key. -/
abbrev Part := UInt8 × Bytes

def element (key : Bytes) (part : Part) : Bytes := part.1 :: key ++ [0] ++ part.2

def integerPart (n : ℤ) : Part :=
  if -2 ^ 31 ≤ n ∧ n < 2 ^ 31 then (0x10, le 4 (n % 2 ^ 32).toNat)
  else (0x12, le 8 (n % 2 ^ 64).toNat)

def arrayPart (parts : List (SkynetCpp.Value × Part)) (n : ℕ) : Part :=
  (0x04, framed ((List.range n).flatMap fun i =>
    element (numeral i) ((lookup parts (.integer (Int64.ofNat (i + 1)))).getD (0x0A, []))))

def documentPart (env : Env) (parts : List (SkynetCpp.Value × Part)) : Part :=
  (0x03, framed (parts.flatMap fun p => element (tostring env p.1) p.2))

mutual

def layout (env : Env) : Value → Part
  | .nil => (0x0A, [])
  | .boolean b => (0x08, [if b then 1 else 0])
  | .integer n => integerPart n.toInt
  | .float bits =>
    match SkynetCpp.Value.floatToInteger bits with
    | some n => integerPart n.toInt
    | none => (0x01, le 8 bits.toNat)
  | .string s => (0x02, le 4 (s.length + 1) ++ s ++ [0])
  | .null => (0x0A, [])
  | .minkey => (0xFF, [])
  | .maxkey => (0x7F, [])
  | .int64 n => (0x12, le 8 (n.toInt % 2 ^ 64).toNat)
  | .objectid o => (0x07, o.bytes)
  | .table fields rawlen =>
    if 0 < rawlen then arrayPart (layouts env fields) rawlen
    else documentPart env (layouts env fields)

def layouts (env : Env) : Fields → List (SkynetCpp.Value × Part)
  | [] => []
  | (k, v) :: fields => (k, layout env v) :: layouts env fields

end

/-- The bytes of a document with these fields. -/
def bytesOf (env : Env) (doc : Fields) : Bytes := (layout env (.table doc 0)).2

end Layout

mutual

/-- What was decoded is equal to the document: an integer for a float that is integer-valued, and
for an int64, and in a table a value at the same keys. -/
def Equals : Value → Value → Prop
  | .float bits, v =>
    match SkynetCpp.Value.floatToInteger bits with
    | some n => v = .integer n
    | none => v = .float bits
  | .int64 n, v => v = .integer n
  | .table fields _, .table fields' _ =>
    EqualFields fields fields' ∧ ∀ p ∈ fields', (lookup fields p.1).isSome
  | .table _ _, _ => False
  | v, v' => v = v'

def EqualFields : Fields → Fields → Prop
  | [], _ => True
  | (k, v) :: fields, fields' =>
    (∃ v', lookup fields' k = some v' ∧ Equals v v') ∧ EqualFields fields fields'

end

/-- The encoder raises, or its bytes are the document's, and the decoder makes of them what is equal
to the document and ends where they end. -/
def RoundTrips (env : Env) (doc : Fields) : Prop :=
  encode env doc = none ∨
    encode env doc = some (bytesOf env doc) ∧
      ∃ rounds depth v, decode env (bytesOf env doc) rounds depth 1
          = .done (v, (bytesOf env doc).length + 1) ∧ Equals (.table doc 0) v

section Faithful

/-- `p` of a value and of all that it holds. -/
inductive Throughout (p : Value → Prop) : Value → Prop
  | scalar {v : Value} : (∀ fields n, v ≠ .table fields n) → p v → Throughout p v
  | table {fields : Fields} {n : ℕ} : p (.table fields n) →
      (∀ q ∈ fields, Throughout p q.2) → Throughout p (.table fields n)

/-- No NUL in a key, and of the object ids only those whose digits are as `%02x` writes them. -/
def Clean : Value → Prop
  | .objectid o => o.hex = hexOfBytes o.bytes
  | .table fields _ => ∀ p ∈ fields, ∀ s, p.1 = .string s → 0 ∉ s
  | _ => True

/-- The table is taken for a wrapper of this type. -/
def TakenFor (fields : Fields) (type : String) : Prop :=
  field fields "__bson_type" = .string (ascii type)

/-- The table is taken for neither. -/
def Unmistaken : Value → Prop
  | .table fields _ => ¬ TakenFor fields "int64" ∧ ¬ TakenFor fields "objectid"
  | _ => True

/-- A table is met that is taken for a wrapper, but has no value of a wrapper. -/
inductive Refused (env : Env) : Value → Prop
  | int64 {fields : Fields} {n : ℕ} : TakenFor fields "int64" →
      checkinteger env.str2d (field fields "value") = none → Refused env (.table fields n)
  | objectid {fields : Fields} {n : ℕ} : TakenFor fields "objectid" →
      concat env (field fields "bytes") = none → Refused env (.table fields n)
  | within {fields : Fields} {n : ℕ} {p : SkynetCpp.Value × Value} :
      Unmistaken (.table fields n) → p ∈ fields → Refused env p.2 → Refused env (.table fields n)

end Faithful

end Bson

end SkynetCpp
