import SkynetCpp.Cluster

/-!
# The string buffer of the Lua library

`luaL_Buffer` of `lauxlib.c`, as far as `cluster.concat` uses it. The buffer starts in an array of
its own, with a placeholder on the Lua stack. When it outgrows the array it moves to a box: a
userdata that takes the place of the placeholder, which `luaL_addlstring` expects on top of the
stack, and whose memory is freed when it is popped.
-/

namespace SkynetCpp

namespace LuaBuffer

open Cluster

/-- `16 * sizeof(void*) * sizeof(lua_Number)` -/
def LUAL_BUFFERSIZE : ℕ := 1024

/-- What a slot of the Lua stack holds. -/
inductive Slot
  | value
  | placeholder
  | box
  deriving DecidableEq, Repr

/-- What the C code must not do: take for a box what is not one, or write to a box that is freed. -/
inductive Fault
  | notBox
  | freed
  deriving DecidableEq, Repr

/-- The stack, top first, and the buffer: what was added, the size, and whether it is in a box
(`buffonstack`) and the box's memory is not freed. -/
structure Buffer where
  stack : List Slot
  bytes : Bytes
  size : ℕ
  boxed : Bool
  live : Bool
  deriving DecidableEq, Repr

namespace Buffer

/-- `luaL_buffinit` -/
def init (stack : List Slot) : Buffer where
  stack := .placeholder :: stack
  bytes := []
  size := LUAL_BUFFERSIZE
  boxed := false
  live := false

def push (b : Buffer) (slot : Slot) : Buffer := { b with stack := slot :: b.stack }

/-- `lua_pop`: a box is closed. -/
def pop (b : Buffer) : Buffer :=
  match b.stack with
  | .box :: stack => { b with stack, live := false }
  | _ :: stack => { b with stack }
  | [] => b

/-- `newbuffsize`, without the limit of the size of a string. -/
def newSize (b : Buffer) (sz : ℕ) : ℕ := max (b.size + b.size / 2) (b.bytes.length + sz + 1)

/-- `prepbuffsize` with `boxidx` -1. -/
def prepbuffsize (b : Buffer) (sz : ℕ) : Except Fault Buffer :=
  if sz ≤ b.size - b.bytes.length then .ok b
  else if b.boxed then
    match b.stack with
    | .box :: _ => .ok { b with size := b.newSize sz, live := true }
    | _ => .error .notBox
  else .ok { b with stack := .box :: b.stack.tail, size := b.newSize sz, boxed := true,
                    live := true }

/-- `luaL_addlstring` -/
def addlstring (b : Buffer) (s : Bytes) : Except Fault Buffer :=
  if s.length = 0 then .ok b
  else do
    let b ← b.prepbuffsize s.length
    if b.boxed && !b.live then .error .freed else .ok { b with bytes := b.bytes ++ s }

/-- `luaL_pushresult` -/
def pushresult (b : Buffer) : Except Fault Bytes :=
  if b.boxed then
    match b.stack with
    | .box :: _ => if b.live then .ok b.bytes else .error .freed
    | _ => .error .notBox
  else .ok b.bytes

end Buffer

/-- The loop of `lconcat`: each string is pushed, added and popped. -/
def concatLoop (b : Buffer) : List Part → Except Fault Buffer
  | .string s :: parts => do
    let b ← (b.push .value).addlstring s
    concatLoop b.pop parts
  | _ => .ok b

/-- `lconcat`, with the table below on the stack. -/
def lconcat : List Part → Except Fault (Option (Bytes × ℕ))
  | .number sz :: parts => do
    let b ← concatLoop (.init [.value]) parts
    if b.bytes.length ≠ sz then .ok none
    else do
      let s ← b.pushresult
      .ok (some (s, sz))
  | _ => .ok none

end LuaBuffer

end SkynetCpp
