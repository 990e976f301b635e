import Mathlib.Data.List.Forall2
import SkynetCpp.Message

/-!
# Lua values

The values that pass between Lua and C++, as trees. A table is its pairs in the order `lua_next`
gives them, and the border `lua_rawlen` returns, which the pairs do not determine.
-/

namespace SkynetCpp

/-- A Lua value. A number is an integer or the 64 bits of a double; `other` is a value of a type
that does not leave its state, under the name of that type. -/
inductive Value
  | nil
  | boolean (b : Bool)
  | integer (n : Int64)
  | float (bits : UInt64)
  | lightuserdata (p : UInt64)
  | string (s : Bytes)
  | table (fields : List (Value × Value)) (rawlen : ℕ)
  | other (typename : Bytes)

abbrev Fields := List (Value × Value)

namespace Value

/-- `lua_typename` -/
def typename : Value → Bytes
  | nil => ascii "nil"
  | boolean _ => ascii "boolean"
  | integer _ | float _ => ascii "number"
  | lightuserdata _ => ascii "userdata"
  | string _ => ascii "string"
  | table _ _ => ascii "table"
  | other typename => typename

def isNil : Value → Bool
  | nil => true
  | _ => false

/-- The integer a double is equal to, for a double that has one: what Lua turns a float key
into. The exponent is biased by 1023 and the fraction has 52 bits. -/
def floatToInteger (bits : UInt64) : Option Int64 :=
  let e := bits.toNat / 2 ^ 52 % 2 ^ 11
  let m := bits.toNat % 2 ^ 52
  let sign : ℤ := if bits.toNat / 2 ^ 63 = 0 then 1 else -1
  if e = 2047 then none
  else if e = 0 then (if m = 0 then some 0 else none)
  else
    let magnitude : Option ℕ :=
      if 1075 ≤ e then (if e ≤ 1086 then some ((2 ^ 52 + m) * 2 ^ (e - 1075)) else none)
      else if (2 ^ 52 + m) % 2 ^ (1075 - e) = 0 then some ((2 ^ 52 + m) / 2 ^ (1075 - e))
      else none
    magnitude.bind fun a =>
      if -(2 ^ 63) ≤ sign * a ∧ sign * a < 2 ^ 63 then some (Int64.ofInt (sign * a)) else none

def isNaN (bits : UInt64) : Bool :=
  bits.toNat / 2 ^ 52 % 2 ^ 11 = 2047 && bits.toNat % 2 ^ 52 ≠ 0

/-- A key as a table stores it. -/
def normKey : Value → Value
  | float bits =>
    match floatToInteger bits with
    | some n => integer n
    | none => float bits
  | k => k

/-- Equality of two stored keys. Two tables that are met as trees are two objects. -/
def keyEq : Value → Value → Bool
  | nil, nil => true
  | boolean b, boolean b' => b = b'
  | integer n, integer n' => n = n'
  | float x, float x' => x = x'
  | lightuserdata p, lightuserdata p' => p = p'
  | string s, string s' => s = s'
  | _, _ => false

end Value

namespace Fields

open Value

/-- `lua_rawget` with a stored key. -/
def rawget (fields : Fields) (k : Value) : Value :=
  match fields.find? fun p => keyEq p.1 k with
  | some p => p.2
  | none => .nil

/-- `lua_rawgeti` -/
def rawgeti (fields : Fields) (i : ℕ) : Value := fields.rawget (.integer (Int64.ofNat i))

/-- `lua_rawset`: a nil value removes the key. -/
def rawset (fields : Fields) (key value : Value) : Except String Fields :=
  let k := key.normKey
  match key with
  | .nil => .error "table index is nil"
  | .float bits =>
    if isNaN bits then .error "table index is NaN" else .ok (put fields k value)
  | _ => .ok (put fields k value)
where
  put (fields : Fields) (k value : Value) : Fields :=
    let rest := fields.filter fun p => !keyEq p.1 k
    if value.isNil then rest else rest ++ [(k, value)]

/-- `n` can be what `lua_rawlen` returns: a border of the table. -/
def IsBorder (fields : Fields) (n : ℕ) : Prop :=
  n < 2 ^ 63 ∧ (n = 0 ∨ (fields.rawgeti n).isNil = false)
    ∧ (n + 1 < 2 ^ 63 → (fields.rawgeti (n + 1)).isNil = true)

/-- The pairs of a table: no nil value, no key a table cannot store, no key twice. -/
structure WellFormed (fields : Fields) : Prop where
  keys : ∀ p ∈ fields, p.1.isNil = false ∧ p.1.normKey = p.1
    ∧ ∀ bits, p.1 = .float bits → isNaN bits = false
  values : ∀ p ∈ fields, p.2.isNil = false
  distinct : fields.Pairwise fun p p' => keyEq p.1 p'.1 = false

end Fields

/-- Equal as trees: the same pairs in each table, in any order. -/
inductive Value.Same : Value → Value → Prop
  | scalar {v : Value} : (∀ fields n, v ≠ .table fields n) → Same v v
  | table {fields fields' fields'' : Fields} {n n' : ℕ} : fields.Perm fields' →
      List.Forall₂ Same (fields'.map Prod.fst) (fields''.map Prod.fst) →
      List.Forall₂ Same (fields'.map Prod.snd) (fields''.map Prod.snd) →
      Same (.table fields n) (.table fields'' n')

/-- Equal pair by pair. -/
def Fields.Same : Fields → Fields → Prop :=
  List.Forall₂ fun p p' => p.1.Same p'.1 ∧ p.2.Same p'.2

theorem Value.same_table {fields fields' fields'' : Fields} {n n' : ℕ}
    (hp : fields.Perm fields') (h : Fields.Same fields' fields'') :
    Value.Same (.table fields n) (.table fields'' n') := by
  refine .table hp ?_ ?_
  · rw [List.forall₂_map_left_iff, List.forall₂_map_right_iff]
    exact h.imp fun _ _ h => h.1
  · rw [List.forall₂_map_left_iff, List.forall₂_map_right_iff]
    exact h.imp fun _ _ h => h.2

theorem Fields.Same.exists_mem {fields fields' : Fields} (h : Fields.Same fields fields')
    {p' : Value × Value} (hp : p' ∈ fields') :
    ∃ p ∈ fields, p.1.Same p'.1 ∧ p.2.Same p'.2 := by
  unfold Fields.Same at h
  induction h with
  | nil => cases hp
  | @cons q q' fields fields' hq _ ih =>
    rcases List.mem_cons.1 hp with rfl | hp
    · exact ⟨q, List.mem_cons_self, hq⟩
    · obtain ⟨p, hm, hs⟩ := ih hp
      exact ⟨p, List.mem_cons_of_mem _ hm, hs⟩

end SkynetCpp
