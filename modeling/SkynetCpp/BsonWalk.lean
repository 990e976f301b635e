import SkynetCpp.Bson

/-!
# Where the BSON decoder goes

Where the lengths in the bytes lead the loops of the decoder, apart from the values it reads there:
`Goes` from one element to the next, `Returns` through a whole document or array. A table `Spins` if
that way comes back to a position where it was.
-/

namespace SkynetCpp

open Lib LuaString Relation

namespace Bson

variable (env : Env) (data : Bytes)

/-- The types that are tables: is it an array? -/
def tableType : Option UInt8 → Option Bool
  | some 0x03 => some false
  | some 0x04 => some true
  | _ => none

/-- Behind its key, an element of this type goes from `pos` to `q`, and one that is a table as
`nested` says. -/
def Ends (nested : Bool → ℤ → ℤ → Prop) (type : Option UInt8) (pos q : ℤ) : Prop :=
  match type with
  | some 0x02 => ∃ len next, unpackInt 4 data pos = some (len, next) ∧ q = next + len
  | some 0x03 => nested false pos q
  | some 0x04 => nested true pos q
  | some 0x05 => ∃ len next, unpackInt 4 data pos = some (len, next) ∧ q = next + 1 + len
  | some 0x07 => (sub data pos (pos + 11)).length = 12 ∧ q = pos + 12
  | some 0x08 => q = pos + 1
  | some 0x10 => ∃ bytes, unpackBytes 4 data pos = some (bytes, q)
  | some 0x01 | some 0x09 | some 0x12 => ∃ bytes, unpackBytes 8 data pos = some (bytes, q)
  | some 0x0A | some 0xFF | some 0x7F => q = pos
  | _ => False

/-- The loop of a table that ends at `endPos` goes from the element at `p` to one at `q`. -/
def Goes (nested : Bool → ℤ → ℤ → Prop) (isArray : Bool) (endPos p q : ℤ) : Prop :=
  p < wrap (endPos - 1) ∧ ∃ key keyEnd, decodeCstring data (p + 1) = some (key, keyEnd) ∧
    Ends data nested (byte data p) keyEnd q ∧ (slot env isArray key).isSome

/-- The table at `pos` is read, and ends at `q`. -/
def Returns : ℕ → Bool → ℤ → ℤ → Prop
  | 0, _, _, _ => False
  | depth + 1, isArray, pos, q =>
    ∃ len next, unpackInt 4 data pos = some (len, next) ∧ q = wrap (pos + len) ∧
      ∃ p, ReflTransGen (Goes env data (Returns depth) isArray q) (wrap (pos + 4)) p ∧
        ¬ p < wrap (q - 1)

/-- From its first element on, the table at `pos` comes to an element that leads back to itself, or
to a table that spins. -/
def Spins : ℕ → Bool → ℤ → Prop
  | 0, _, _ => False
  | depth + 1, isArray, pos =>
    ∃ len next, unpackInt 4 data pos = some (len, next) ∧
      let endPos := wrap (pos + len)
      let goes := Goes env data (Returns env data depth) isArray endPos
      ∃ p, ReflTransGen goes (wrap (pos + 4)) p ∧
        (TransGen goes p p ∨ p < wrap (endPos - 1) ∧ ∃ key keyEnd isArray,
          decodeCstring data (p + 1) = some (key, keyEnd) ∧
          tableType (byte data p) = some isArray ∧ Spins depth isArray keyEnd)

end Bson

end SkynetCpp
