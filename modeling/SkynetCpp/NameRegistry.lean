import SkynetCpp.Lib.Runs
import SkynetCpp.Clusterd

/-!
# The names of clusterd

`register_name` holds the names of a node and their addresses, both ways, and
`register_name_cache` the addresses that were found when another node asked for a name.
-/

namespace SkynetCpp

namespace Clusterd

open Cluster Lib

/-- `registered` is a history: the address each name was given last, and has still. -/
structure Registry where
  registerName : Address → Option Address := fun _ => none
  registerNameCache : Bytes → Option Address := fun _ => none
  registered : Bytes → Option ℕ := fun _ => none

namespace Registry

inductive Label
  | register (source : ℕ) (name : Bytes) (addr : Option ℕ)
  | unregister (name : Bytes)
  | queryname (name : Bytes)
  /-- another node asks for the name, or has a request for "@name" -/
  | resolve (name : Bytes)
  deriving DecidableEq, Repr

variable (s : Registry)

def set (k : Address) (v : Option Address) : Registry :=
  { s with registerName := Function.update s.registerName k v }

/-- The old name of the address is taken away. -/
def forget (addr : Address) : Registry :=
  match s.registerName addr with
  | some oldName => s.set oldName none
  | none => s

/-- `command.register` -/
def register (source : ℕ) (name : Bytes) (addr : Option ℕ) : Registry :=
  let addr := addr.getD source
  let t := ((s.forget (.number addr)).set (.number addr) (some (.name name))).set (.name name) (some (.number addr))
  { t with registered := fun n =>
      if n = name then some addr
      else if s.registered n = some addr then none else s.registered n }

/-- `command.unregister` -/
def unregister (name : Bytes) : Registry :=
  match s.registerName (.name name) with
  | none => s
  | some addr =>
    { (s.set addr none).set (.name name) none with
      registered := Function.update s.registered name none }

/-- `command.queryname` -/
def queryname (name : Bytes) : Option Address := s.registerName (.name name)

/-- `register_name_cache[key]` -/
def lookup (key : Bytes) : Option Address :=
  match s.registerNameCache key with
  | some addr => some addr
  | none => s.registerName (.name (key.drop 1))

/-- The key of a name: `"@" .. name`. -/
def keyOf (name : Bytes) : Bytes := 0x40 :: name

/-- `register_name_cache[key]` remembers what it has found. -/
def resolve (key : Bytes) : Registry :=
  { s with registerNameCache := Function.update s.registerNameCache key (s.lookup key) }

def exec : Label → Registry
  | .register source name addr => s.register source name addr
  | .unregister name => s.unregister name
  | .queryname _ => s
  | .resolve name => s.resolve (keyOf name)

def step (s : Registry) (l : Label) : Option Registry := some (s.exec l)

/-- The table is a bijection between the registered names and their addresses, and this is what both
ways of asking find. -/
structure Bijective (s : Registry) : Prop where
  names : ∀ name v, s.registerName (.name name) = some v →
    ∃ n, v = .number n ∧ s.registerName (.number n) = some (.name name)
  addresses : ∀ n v, s.registerName (.number n) = some v →
    ∃ name, v = .name name ∧ s.registerName (.name name) = some (.number n)
  queried : ∀ name, s.queryname name = (s.registered name).map .number
  resolved : ∀ name, s.lookup (keyOf name) = (s.registered name).map .number

/-- The name that the address has is not another that was looked up. -/
def Spares (name : Bytes) : Option Address → Prop
  | some (.name old) => old = name ∨ s.registerNameCache (keyOf old) = none
  | _ => True

/-- No name is registered again for another address, and none that was looked up is taken away. -/
def Careful (s : Registry) : Label → Prop
  | .register source name addr =>
    (∀ a ∈ s.registerName (.name name), a = .number (addr.getD source)) ∧
      s.Spares name (s.registerName (.number (addr.getD source)))
  | .unregister name =>
    s.registerName (.name name) ≠ none → s.registerNameCache (keyOf name) = none
  | _ => True

instance (name : Bytes) : ∀ a, Decidable (s.Spares name a)
  | some (.name old) =>
    inferInstanceAs (Decidable (old = name ∨ s.registerNameCache (keyOf old) = none))
  | none | some (.number _) => isTrue trivial

instance (l : Label) : Decidable (s.Careful l) := by
  cases l <;> unfold Careful <;> infer_instance

end Registry

end Clusterd

end SkynetCpp
