import SkynetCpp.Lib.Scripts
import SkynetCpp.LuaUnpack

/-!
# What a block of bytes holds

The decoder reads any bytes as a row of trees; past the end it reads nil. How many slots of the
stack it takes to read a tree, and how deep it nests, is what it takes up to the first key that no
table can have.
-/

namespace SkynetCpp

namespace LuaUnpack

open Lib LuaSeri

mutual

/-- A value that is not a table, or the rows of a table. -/
inductive Tree
  | leaf (v : Value)
  | table (rows : Rows)

/-- The array part, then the pairs. -/
inductive Rows
  | done
  | item (t : Tree) (rest : Rows)
  | pair (key value : Tree) (rest : Rows)

end

/-- No table has this key. -/
def badKey : Value → Bool
  | .nil => true
  | .float bits => Value.isNaN bits
  | _ => false

def Tree.isBadKey : Tree → Bool
  | .leaf v => badKey v
  | .table _ => false

mutual

/-- The decoder comes to a bad key. -/
def Tree.stops : Tree → Bool
  | .leaf _ => false
  | .table rows => rows.stops

def Rows.stops : Rows → Bool
  | .done => false
  | .item t rest => t.stops || rest.stops
  | .pair key value rest => key.stops || value.stops || key.isBadKey || rest.stops

end

mutual

/-- A measure of the tree as far as it is read: `one` for a leaf; a table is one more than what is
in it; beside a value, its key counts for `one`. -/
def Tree.measure (one : ℕ) : Tree → ℕ
  | .leaf _ => one
  | .table rows => 1 + rows.measure one

def Rows.measure (one : ℕ) : Rows → ℕ
  | .done => 0
  | .item t rest => max (t.measure one) (if t.stops then 0 else rest.measure one)
  | .pair key value rest =>
    max (key.measure one) (if key.stops then 0 else
      max (one + value.measure one)
        (if value.stops || key.isBadKey then 0 else rest.measure one))

end

/-- The slots it takes: one for each table that is being read, one for each key. -/
def Tree.slots : Tree → ℕ := Tree.measure 1

/-- The tables that are nested. -/
def Tree.height : Tree → ℕ := Tree.measure 0

mutual

/-- The requests for memory, if no key is bad: a string, a table and each assignment. -/
def Tree.asks : Tree → ℕ
  | .leaf (.string _) => 1
  | .leaf _ => 0
  | .table rows => 1 + rows.asks

def Rows.asks : Rows → ℕ
  | .done => 0
  | .item t rest => t.asks + 1 + rest.asks
  | .pair key value rest => key.asks + value.asks + 1 + rest.asks

end

/-- `n` values, and then what comes after them. -/
def itemRows (tree : Bytes → Tree × Bytes) (rows : Bytes → Rows × Bytes) : ℕ → Bytes → Rows × Bytes
  | 0, rb => rows rb
  | n + 1, rb =>
    let (t, rb) := tree rb
    let (rest, rb) := itemRows tree rows n rb
    (.item t rest, rb)

/-- A value that is not a table, after its first byte. -/
def leafTagged (t : ℕ) (rb : Bytes) : Tree × Bytes :=
  match LuaSeri.unpackTagged 1 t rb with
  | .ok (v, rb) => (.leaf v, rb)
  | .error _ => (.leaf .nil, rb)

mutual

/-- The tree after its first byte, and what is left of the block. -/
def treeTagged : ℕ → ℕ → Bytes → Tree × Bytes
  | 0, _, rb => (.leaf .nil, rb)
  | fuel + 1, t, rb =>
    if t % 8 = TYPE_TABLE then
      let (arraySize, rb) := rbArraySize rb (t / 8)
      let (rows, rb) := itemRows (treeOne fuel) (pairRows fuel) arraySize.toNat rb
      (.table rows, rb)
    else leafTagged t rb

def treeOne : ℕ → Bytes → Tree × Bytes
  | 0, rb => (.leaf .nil, rb)
  | fuel + 1, rb =>
    match read rb 1 with
    | (some t, rb) => treeTagged fuel (ofLe t) rb
    | (none, rb) => (.leaf .nil, rb)

/-- The pairs of a table. -/
def pairRows : ℕ → Bytes → Rows × Bytes
  | 0, rb => (.done, rb)
  | fuel + 1, rb =>
    match read rb 1 with
    | (some t, rb) =>
      if ofLe t % 8 = TYPE_NIL then (.done, rb)
      else
        let (key, rb) := treeTagged fuel (ofLe t) rb
        let (value, rb) := treeOne fuel rb
        let (rest, rb) := pairRows fuel rb
        (.pair key value rest, rb)
    | (none, rb) => (.done, rb)

end

/-- The trees of a block. -/
def trees : ℕ → Bytes → List Tree
  | 0, _ => []
  | fuel + 1, rb =>
    if rb.length = 0 then []
    else
      let (t, rb) := treeOne (2 * rb.length + 1) rb
      t :: trees fuel rb

/-- The requests for memory while the values from number `count` on are read. -/
def asksFrom : ℕ → List Tree → ℕ
  | _, [] => 0
  | count, t :: ts => (if count % 8 = 7 then 1 else 0) + t.asks + asksFrom (count + 1) ts

/-- A call with `nargs` arguments. -/
def State.called (nargs : ℕ) (memory : ℕ → Bool) : State where
  stack := List.replicate nargs .nil
  limit := nargs + LUA_MINSTACK
  memory := memory

/-- The call reads its block, uses no more slots than are guaranteed, and goes no deeper than the
encoder, whatever memory there is. -/
structure Disciplined (free : Bool) (nargs : ℕ) (source : Source) : Prop where
  defined : source.block.isSome = true
  slots : ∀ memory,
    (finalState (unpackImpl free source (.called nargs memory))).overflow = false
  depth : ∀ memory,
    (finalState (unpackImpl free source (.called nargs memory))).deepest ≤ MAX_DEPTH

/-- The slots that are guaranteed while value number `i` is read: those of a call with `nargs`
arguments, or those reserved at the last value whose number was 7 more than a multiple of 8. -/
def guaranteed (nargs i : ℕ) : ℕ := max (nargs + LUA_MINSTACK) (8 * ((i + 1) / 8) + 19)

/-- The decoder comes to this value. -/
def Reached (ts : List Tree) (i : ℕ) (t : Tree) : Prop :=
  ts[i]? = some t ∧ ∀ t' ∈ ts.take i, t'.stops = false

/-- Every value that is reached fits, beside those before it, into the slots that are guaranteed,
and nests no deeper than the encoder goes. -/
def Fits (nargs : ℕ) (rb : Bytes) : Prop :=
  ∀ i t, Reached (trees rb.length rb) i t →
    i + t.slots ≤ guaranteed nargs i ∧ t.height ≤ MAX_DEPTH

end LuaUnpack

end SkynetCpp
