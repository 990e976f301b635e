import Mathlib.Logic.Relation
import SkynetCpp.LuaSeri

/-!
# Packing the tables of a Lua state

`luaseri_pack` where it runs: the tables are objects that may hold each other, a request for memory
may fail, and an error leaves the blocks where they are. A block is always got: the code does not
look whether `malloc` gave it one.
-/

namespace SkynetCpp

namespace LuaPack

open Lib LuaSeri

/-- A value as it lies on the stack; a table is a reference. -/
inductive Ref
  | nil
  | boolean (b : Bool)
  | integer (n : Int64)
  | float (bits : UInt64)
  | lightuserdata (p : UInt64)
  | string (s : Bytes)
  | table (id : ℕ)
  | other (typename : Bytes)
  deriving DecidableEq, Repr

/-- A table: its pairs in the order of `lua_next`, no key twice, and what `lua_rawlen` returns. -/
structure Table where
  fields : List (Ref × Ref) := []
  rawlen : ℕ := 0
  distinct : fields.Pairwise fun p q => p.1 ≠ q.1 := by decide

/-- `lua_rawgeti` -/
def Table.rawgeti (t : Table) (i : ℕ) : Ref :=
  match t.fields.find? fun p => p.1 = .integer (Int64.ofNat i) with
  | some p => p.2
  | none => .nil

abbrev Heap := ℕ → Table

/-- What `luaseri_pack` runs on: the tables, which requests for memory are met and how many were
made, the blocks, and the buffer `seri` got. -/
structure State where
  heap : Heap
  memory : ℕ → Bool
  requests : ℕ := 0
  wb : WriteBlock := {}
  buffer : Option Bytes := none

/-- An error leaves the state as it is. -/
abbrev PackM := EStateM String State

/-- A request for memory, and the error if it is not met. -/
def request (message : String) : PackM Unit := fun s =>
  let s' := { s with requests := s.requests + 1 }
  if s.memory s.requests then .ok () s' else .error message s'

/-- Several `push`, one after the other. -/
def push (pushes : List Bytes) : PackM Unit :=
  modify fun s => { s with wb := pushes.foldl WriteBlock.push s.wb }

/-- The table that is there now. -/
def getTable (id : ℕ) : PackM Table := return (← get).heap id

/-- `wb_table_array` -/
def wbTableArray (pack : Ref → PackM Unit) (id : ℕ) : PackM ℤ := do
  let arraySize := toSigned 32 (← getTable id).rawlen
  push (wbArraySize arraySize)
  (List.range arraySize.toNat).forM fun i => do pack ((← getTable id).rawgeti (i + 1))
  return arraySize

/-- The array part has this key. -/
def inArray (arraySize : ℤ) : Ref → Bool
  | .integer x => 0 < x.toInt && x.toInt ≤ arraySize
  | _ => false

/-- `wb_table_hash` -/
def wbTableHash (pack : Ref → PackM Unit) (id : ℕ) (arraySize : ℤ) : PackM Unit := do
  (← getTable id).fields.forM fun p => do
    if inArray arraySize p.1 then return
    pack p.1
    pack p.2
  push wbNil

/-- `pack_one`, with `levels` more levels of tables before `wb_table` refuses. -/
def packOne : ℕ → Ref → PackM Unit
  | _, .nil => push wbNil
  | _, .boolean b => push (wbBoolean b)
  | _, .integer n => push (wbInteger n.toInt)
  | _, .float bits => push (wbDouble bits)
  | _, .lightuserdata p => push (wbPointer p)
  | _, .string s => push (wbString s)
  | 0, .table _ => throw "serialize: table too deep (32)"
  | levels + 1, .table id => do
    request "stack overflow (serialize: table too deep)"
    let arraySize ← wbTableArray (packOne levels) id
    wbTableHash (packOne levels) id arraySize
  | _, .other typename =>
    throw ("Unsupported type " ++ String.ofList (typename.map fun c => Char.ofNat c.toNat)
      ++ " to serialize")

/-- `seri` -/
def seri : PackM Bytes := do
  let bytes := LuaSeri.seri (← get).wb
  request ("serialize: out of memory (" ++ toString bytes.length ++ " bytes)")
  modify fun s => { s with buffer := some bytes }
  return bytes

/-- `WriteBlock::free_blocks` -/
def freeBlocks : PackM Unit := modify fun s => { s with wb := {} }

/-- `luaseri_pack` -/
def luaseriPack (values : List Ref) : PackM Bytes := do
  values.forM (packOne (MAX_DEPTH - 1))
  let buffer ← seri
  freeBlocks
  return buffer

/-- An action of `pack_one` on the state. -/
inductive Op
  | push (pushes : List Bytes)
  | request (message : String)
  | throw (message : String)

def Op.act : Op → PackM Unit
  | .push pushes => LuaPack.push pushes
  | .request message => LuaPack.request message
  | .throw message => MonadExcept.throw message

/-- The actions of `pack_one`, if none raises an error. -/
def visit (heap : Heap) : ℕ → Ref → List Op
  | _, .nil => [.push wbNil]
  | _, .boolean b => [.push (wbBoolean b)]
  | _, .integer n => [.push (wbInteger n.toInt)]
  | _, .float bits => [.push (wbDouble bits)]
  | _, .lightuserdata p => [.push (wbPointer p)]
  | _, .string s => [.push (wbString s)]
  | 0, .table _ => [.throw "serialize: table too deep (32)"]
  | levels + 1, .table id =>
    let arraySize := toSigned 32 (heap id).rawlen
    (.request "stack overflow (serialize: table too deep)" :: .push (wbArraySize arraySize) ::
      (List.range arraySize.toNat).flatMap fun i => visit heap levels ((heap id).rawgeti (i + 1)))
    ++ (((heap id).fields.flatMap fun p =>
        if inArray arraySize p.1 then [] else visit heap levels p.1 ++ visit heap levels p.2)
      ++ [.push wbNil])
  | _, .other typename =>
    [.throw ("Unsupported type " ++ String.ofList (typename.map fun c => Char.ofNat c.toNat)
      ++ " to serialize")]

/-- The blocks that were allocated and are not freed; the first is on the C stack. -/
def State.blocks (s : State) : ℕ := s.wb.full.length

/-- All requests were met. -/
def State.Met (s : State) : Prop := ∀ n < s.requests, s.memory n = true

/-- Of a type that can be packed. -/
def Ref.Plain : Ref → Prop
  | .other _ => False
  | _ => True

/-- A key or a value of a table. -/
def Heap.Holds (heap : Heap) : Ref → Ref → Prop
  | .table id, w => ∃ p ∈ (heap id).fields, w = p.1 ∨ w = p.2
  | _, _ => False

/-- What can be reached from the values can be packed, and no more than 31 tables are nested. -/
structure InDomain (heap : Heap) (values : List Ref) : Prop where
  plain : ∀ v ∈ values, ∀ w, Relation.ReflTransGen heap.Holds v w → w.Plain
  depth : ∀ v ∈ values, ∀ chain, (v :: chain).IsChain heap.Holds →
    (∀ w ∈ v :: chain, ∃ id, w = .table id) → (v :: chain).length ≤ 31

end LuaPack

end SkynetCpp
