import SkynetCpp.LuaPack
import SkynetCpp.LuaTree

/-!
# The memory of the serializer

Calls of `luaseri_pack` and `luaseri_unpacktrash`: what they allocate, and what they free.
-/

namespace SkynetCpp

namespace SeriMemory

open Lib

inductive Call
  | pack (heap : LuaPack.Heap) (values : List LuaPack.Ref)
  /-- a buffer, in a call with so many arguments -/
  | unpacktrash (nargs : ℕ) (buffer : Bytes)

/-- All that was allocated is freed: the blocks, unless the call returns the buffer, and the buffer
that is unpacked, once. -/
def Balanced (memory : ℕ → Bool) : Call → Prop
  | .pack heap values =>
    let r := LuaPack.luaseriPack values { heap, memory }
    (finalState r).blocks = 0 ∧
      match r with
      | .ok bytes s => s.buffer = some bytes
      | .error _ s => s.buffer = none
  | .unpacktrash nargs buffer =>
    (finalState (LuaUnpack.unpackImpl true (.buffer buffer) (.called nargs memory))).freed = 1

section Pack

open LuaPack

/-- No action raises an error, when `n` requests were made before. -/
def completes (memory : ℕ → Bool) : ℕ → List LuaPack.Op → Bool
  | _, [] => true
  | n, .push _ :: ops => completes memory n ops
  | n, .request _ :: ops => memory n && completes memory (n + 1) ops
  | _, .throw _ :: _ => false

/-- What is written before an action raises an error. -/
def written (memory : ℕ → Bool) : ℕ → List LuaPack.Op → Bytes
  | _, [] => []
  | n, .push pushes :: ops => pushes.flatten ++ written memory n ops
  | n, .request _ :: ops => if memory n then written memory (n + 1) ops else []
  | _, .throw _ :: _ => []

/-- The values one after the other, and the buffer. -/
def visitAll (heap : Heap) (values : List Ref) : List LuaPack.Op :=
  values.flatMap (visit heap (LuaSeri.MAX_DEPTH - 1))
    ++ [.request "serialize: out of memory"]

end Pack

/-- To pack, nothing stands in the way, or something does before more than a block is written. To
unpack, the size fits an `int`, no key is nil or NaN, and all requests for memory are met. -/
def Fine (memory : ℕ → Bool) : Call → Prop
  | .pack heap values =>
    completes memory 0 (visitAll heap values) = true ∨
      (written memory 0 (visitAll heap values)).length ≤ LuaSeri.BLOCK_SIZE
  | .unpacktrash _ buffer =>
    ∃ rb, (LuaUnpack.Source.buffer buffer).block = some rb ∧
      (∀ t ∈ LuaUnpack.trees rb.length rb, t.stops = false) ∧
      ∀ n < LuaUnpack.asksFrom 0 (LuaUnpack.trees rb.length rb), memory n = true

end SeriMemory

end SkynetCpp
