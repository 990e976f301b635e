import Mathlib.Algebra.BigOperators.Group.List.Basic
import Mathlib.Algebra.GroupWithZero.Nat
import SkynetCpp.Lib.Runs

/-!
# The allocator of a Lua state

`LuaActor::lua_alloc` with the counters of its actor and the blocks of the C heap that its Lua state
has. `size_t` has 64 bits.
-/

namespace SkynetCpp

open Lib

namespace LuaAlloc

/-- A block, with the size that was asked for. -/
structure Block where
  ptr : ℕ
  size : UInt64
  deriving DecidableEq

structure State where
  mem : UInt64
  memLimit : UInt64
  memReport : UInt64
  blocks : List Block
  /-- `mem_` at each call of `error`. -/
  warnings : List UInt64
  deriving DecidableEq

namespace State

variable (s : State)

/-- Before `lua_newstate`. -/
def initial : State := ⟨0, 0, 8 * 1024 * 1024, [], []⟩

/-- The sizes of the blocks. -/
def total : ℕ := (s.blocks.map fun b => b.size.toNat).sum

/-- `std::free`; of the null pointer it frees nothing. -/
def free (ptr : Option ℕ) : State := { s with blocks := s.blocks.filter fun b => some b.ptr ≠ ptr }

/-- `std::realloc`, where it returns `p`. -/
def realloc (ptr : Option ℕ) (nsize : UInt64) (p : ℕ) : State :=
  { s with blocks := (s.free ptr).blocks ++ [⟨p, nsize⟩] }

/-- The memory warning. -/
def report : State :=
  if s.memReport < s.mem then
    { s with memReport := s.memReport * 2, warnings := s.warnings ++ [s.mem] }
  else s

/-- What it returns, and the state after it; `new` is what `std::realloc` returns if it is
called. -/
def luaAlloc (ptr : Option ℕ) (osize nsize : UInt64) (new : Option ℕ) : Option ℕ × State :=
  let oldMem := s.mem
  let newMem := oldMem + nsize
  let newMem := if ptr.isSome then newMem - osize else newMem
  if (s.memLimit ≠ 0 ∧ s.memLimit < newMem) ∧ (ptr = none ∨ osize < nsize) then (none, s)
  else if nsize = 0 then (none, { s.free ptr with mem := newMem })
  else
    match new with
    | none => (none, s)
    | some p => (some p, { s.realloc ptr nsize p with mem := newMem }.report)

def setMemLimit (limit : UInt64) : State := { s with memLimit := limit }

/-- Lua gives the size of the block with it, and anything for the null pointer. -/
def Permits (ptr : Option ℕ) (osize : UInt64) : Prop :=
  match ptr with
  | none => True
  | some p => ⟨p, osize⟩ ∈ s.blocks

/-- Two blocks are at two places, and there are only `2^64` bytes. -/
def Gives (ptr : Option ℕ) (nsize : UInt64) (new : Option ℕ) : Prop :=
  match new with
  | none => True
  | some p => p ∉ (s.free ptr).blocks.map Block.ptr ∧ (s.realloc ptr nsize p).total < 2 ^ 64

instance (ptr : Option ℕ) (osize : UInt64) : Decidable (s.Permits ptr osize) := by
  unfold Permits
  split <;> infer_instance

instance (ptr : Option ℕ) (nsize : UInt64) (new : Option ℕ) : Decidable (s.Gives ptr nsize new) := by
  unfold Gives
  split <;> infer_instance

/-- What the blocks come to with `nsize` bytes in the place of the block at `ptr`. -/
def newTotal (ptr : Option ℕ) (osize nsize : UInt64) : ℕ :=
  s.total - (if ptr.isSome then osize.toNat else 0) + nsize.toNat

end State

inductive Label
  | alloc (ptr : Option ℕ) (osize nsize : UInt64) (new : Option ℕ)
  | setMemLimit (limit : UInt64)
  deriving DecidableEq

def Enabled (s : State) : Label → Prop
  | .alloc ptr osize nsize new => s.Permits ptr osize ∧ s.Gives ptr nsize new
  | .setMemLimit _ => True

instance (s : State) (l : Label) : Decidable (Enabled s l) := by
  unfold Enabled
  split <;> infer_instance

def exec (s : State) : Label → State
  | .alloc ptr osize nsize new => (s.luaAlloc ptr osize nsize new).2
  | .setMemLimit limit => s.setMemLimit limit

/-- What happens to the state: a call of `lua_alloc`, or of `set_mem_limit`. -/
def step (s : State) (l : Label) : Option State := if Enabled s l then some (exec s l) else none

end LuaAlloc

end SkynetCpp
