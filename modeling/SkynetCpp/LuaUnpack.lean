import SkynetCpp.LuaSeri

/-!
# Unpacking on the Lua stack

`luaseri_unpack` and `luaseri_unpacktrash` where they run: each value that is read takes a slot of
the stack, of which only those may be used that `LUA_MINSTACK` or `luaL_checkstack` guarantee; what
the Lua library does may fail for want of memory; and the buffer is freed at the end.
-/

namespace SkynetCpp

namespace LuaUnpack

open Lib LuaSeri

def LUA_MINSTACK : ℕ := 20

/-- The slots of the function, top first, how many are guaranteed, and whether more were used; the
calls of `rb_table` that are under way, and the most there were; which requests for memory are met,
and how many were made; how often the buffer was freed. -/
structure State where
  stack : List Value := []
  limit : ℕ
  overflow : Bool := false
  depth : ℕ := 0
  deepest : ℕ := 0
  memory : ℕ → Bool
  requests : ℕ := 0
  freed : ℕ := 0

/-- An error leaves the state as it is. -/
abbrev UnpackM := EStateM String State

/-- The library asks for memory, and raises an error if it does not get it. -/
def request (message : String) : UnpackM Unit := fun s =>
  let s' := { s with requests := s.requests + 1 }
  if s.memory s.requests then .ok () s' else .error message s'

def pushValue (v : Value) : UnpackM Unit :=
  modify fun s => { s with
    stack := v :: s.stack, overflow := s.overflow || s.limit < s.stack.length + 1 }

/-- `luaL_checkstack(L, LUA_MINSTACK, nullptr)` -/
def checkstack : UnpackM Unit := do
  request "stack overflow"
  modify fun s => { s with limit := max s.limit (s.stack.length + LUA_MINSTACK) }

/-- `lua_pushlstring` of the next bytes, or `lua_pushnil` past the end. -/
def pushString (rb : Bytes) (len : ℕ) : UnpackM Bytes :=
  match read rb len with
  | (some str, rb) => do
    request "not enough memory"
    pushValue (.string str)
    return rb
  | (none, rb) => do
    pushValue .nil
    return rb

/-- `lua_rawset`, where this is below the key and the value. -/
def store (key value : Value) (fields : Fields) (rawlen : ℕ) (stack : List Value) : UnpackM Unit :=
  match fields.rawset key value with
  | .ok fields => do
    request "not enough memory"
    modify fun s => { s with stack := .table fields rawlen :: stack }
  | .error message => throw message

/-- `lua_rawseti(L, -2, i)` -/
def rawseti (i : ℕ) : UnpackM Unit := do
  match (← get).stack with
  | value :: .table fields rawlen :: stack =>
    store (.integer (Int64.ofNat i)) value fields rawlen stack
  | _ => throw "undefined"

/-- `lua_rawset(L, -3)` -/
def rawset : UnpackM Unit := do
  match (← get).stack with
  | value :: key :: .table fields rawlen :: stack => store key value fields rawlen stack
  | _ => throw "undefined"

/-- `rb_table` is entered. -/
def enter : UnpackM Unit :=
  modify fun s => { s with depth := s.depth + 1, deepest := max s.deepest (s.depth + 1) }

/-- `rb_table` returns. -/
def leave : UnpackM Unit := modify fun s => { s with depth := s.depth - 1 }

/-- The array part of `rb_table`. -/
def rbArray (unpack : Bytes → UnpackM Bytes) : ℕ → ℕ → Bytes → UnpackM Bytes
  | 0, _, rb => return rb
  | n + 1, i, rb => do
    let rb ← unpack rb
    rawseti i
    rbArray unpack n (i + 1) rb

mutual

/-- A value whose first byte `t` has been read, as in `LuaSeri.unpackTagged`. What is returned is
left of the block. -/
def unpackTagged : ℕ → ℕ → Bytes → UnpackM Bytes
  | 0, _, _ => throw "out of fuel"
  | fuel + 1, t, rb =>
    let type := t % 8
    let cookie := t / 8
    if type = TYPE_NIL then do
      pushValue .nil
      return rb
    else if type = TYPE_BOOLEAN then do
      pushValue (.boolean (cookie ≠ 0))
      return rb
    else if type = TYPE_NUMBER then
      if cookie = TYPE_NUMBER_DOUBLE then do
        pushValue (.float (rbWord rb).1)
        return (rbWord rb).2
      else do
        pushValue (.integer (Int64.ofInt (rbInteger rb cookie).1))
        return (rbInteger rb cookie).2
    else if type = TYPE_USERDATA then do
      pushValue (.lightuserdata (rbWord rb).1)
      return (rbWord rb).2
    else if type = TYPE_SHORT_STRING then pushString rb cookie
    else if type = TYPE_LONG_STRING then
      let (len, rb) := readInt rb (if cookie = 2 then 2 else 4) (↑)
      pushString rb len.toNat
    else if type = TYPE_TABLE then do
      let (arraySize, rb) := rbArraySize rb cookie
      enter
      request "not enough memory"
      pushValue (.table [] 0)
      let rb ← rbArray (unpackOne fuel) arraySize.toNat 1 rb
      let rb ← rbHash fuel rb
      leave
      return rb
    else do
      pushValue .nil
      return rb

/-- `unpack_one` -/
def unpackOne : ℕ → Bytes → UnpackM Bytes
  | 0, _ => throw "out of fuel"
  | fuel + 1, rb =>
    match read rb 1 with
    | (some t, rb) => unpackTagged fuel (ofLe t) rb
    | (none, rb) => do
      pushValue .nil
      return rb

/-- The hash part of `rb_table`. -/
def rbHash : ℕ → Bytes → UnpackM Bytes
  | 0, _ => throw "out of fuel"
  | fuel + 1, rb =>
    match read rb 1 with
    | (some t, rb) =>
      if ofLe t % 8 = TYPE_NIL then return rb
      else do
        let rb ← unpackTagged fuel (ofLe t) rb
        let rb ← unpackOne fuel rb
        rawset
        rbHash fuel rb
    | (none, rb) => return rb

end

/-- The loop of `unpack_impl`. -/
def unpackLoop : ℕ → ℕ → Bytes → UnpackM Unit
  | 0, _, _ => return
  | fuel + 1, count, rb =>
    if rb.length = 0 then return
    else do
      if count % 8 = 7 then checkstack
      let rb ← unpackOne (2 * rb.length + 1) rb
      unpackLoop fuel (count + 1) rb

/-- What is to be unpacked: a string, or a buffer with its size. -/
inductive Source
  | string (s : Bytes)
  | buffer (b : Bytes)
  deriving DecidableEq, Repr

/-- The block that is read, where that is defined: the size of a buffer is cast to an `int`. -/
def Source.block : Source → Option Bytes
  | .string s => some s
  | .buffer b =>
    let sz := toSigned 32 b.length
    if sz < 0 then none else some (b.take sz.toNat)

/-- `unpack_impl`, `free` for `luaseri_unpacktrash`. -/
def unpackImpl (free : Bool) (source : Source) : UnpackM Unit :=
  match source.block with
  | none => throw "undefined"
  | some rb => do
    modify fun s => { s with stack := [] }
    unpackLoop rb.length 0 rb
    match source with
    | .buffer _ => if free then modify fun s => { s with freed := s.freed + 1 }
    | .string _ => return

end LuaUnpack

end SkynetCpp
