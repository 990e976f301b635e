import SkynetCpp.Lib.Outcome
import SkynetCpp.LuaSeri

/-!
# The blocks lua_seri writes to

`WriteBlock` with its pointers: blocks of 128 bytes that `next` links, the first one on the stack
of `luaseri_pack` and each further one from `malloc`, when a `push` finds the current block full.
The write position may rest at a block's end. Memory is the list of the blocks, an address is a
place in it, and what a block holds before it is written to can be anything. `push` takes for
granted that `malloc` has a block, `seri` does not.
-/

namespace SkynetCpp

open Lib

namespace SeriBlocks

open LuaSeri (BLOCK_SIZE)

/-- Memory of `n` bytes as it is given out: it can hold anything. -/
abbrev Raw (n : ℕ) := { b : Bytes // b.length = n }

structure Block where
  next : Option ℕ := none
  buffer : Bytes
  deriving DecidableEq

/-- `memcpy` of all of `src` to the place `offset` of `dst`. -/
def memcpy (dst : Bytes) (offset : ℕ) (src : Bytes) : Bytes :=
  dst.take offset ++ src ++ dst.drop (offset + src.length)

structure WriteBlock where
  memory : List Block
  head : ℕ
  current : ℕ
  len : ℕ
  ptr : ℕ
  deriving DecidableEq

namespace WriteBlock

/-- `init`, with the block `temp` of `luaseri_pack`. -/
def init (temp : Raw BLOCK_SIZE) : WriteBlock :=
  { memory := [{ buffer := temp.1 }], head := 0, current := 0, len := 0, ptr := 0 }

section Push

-- what a block from `malloc` holds, by its address
variable (malloc : ℕ → Raw BLOCK_SIZE)

/-- A new block behind the current one, which it becomes. -/
def newBlock (wb : WriteBlock) : WriteBlock :=
  let nb := wb.memory.length
  let block : Block := { buffer := (malloc nb).1 }
  { wb with
    memory := (wb.memory ++ [block]).modify wb.current fun b => { b with next := some nb }
    current := nb
    ptr := 0 }

/-- A round of the loop of `push`, and what it leaves of `src`. -/
def pushRound (wb : WriteBlock) (src : Bytes) : WriteBlock × Bytes :=
  let wb := if BLOCK_SIZE - wb.ptr = 0 then wb.newBlock malloc else wb
  let space := BLOCK_SIZE - wb.ptr
  let copy := if src.length < space then src.length else space
  ({ wb with
      memory := wb.memory.modify wb.current fun b =>
        { b with buffer := memcpy b.buffer wb.ptr (src.take copy) }
      ptr := wb.ptr + copy
      len := wb.len + copy },
    src.drop copy)

/-- The loop of `push`, for at most so many rounds. -/
def pushLoop : ℕ → WriteBlock → Bytes → WriteBlock × Bytes
  | 0, wb, src => (wb, src)
  | n + 1, wb, src =>
    if 0 < src.length then
      let r := wb.pushRound malloc src
      pushLoop n r.1 r.2
    else (wb, src)

/-- Every round copies at least a byte. -/
def push (wb : WriteBlock) (data : Bytes) : WriteBlock :=
  (wb.pushLoop malloc data.length data).1

end Push

/-- The addresses that a walk along `next` comes to, for at most so many steps. -/
def addresses (wb : WriteBlock) : ℕ → Option ℕ → List ℕ
  | n + 1, some b => b :: addresses wb n (wb.memory[b]?.bind Block.next)
  | _, _ => []

/-- All blocks from `head` on. -/
def blocks (wb : WriteBlock) : List ℕ := wb.addresses wb.memory.length (some wb.head)

/-- What the block at an address holds. -/
def bufferAt (wb : WriteBlock) (b : ℕ) : Bytes := (wb.memory[b]?.map Block.buffer).getD []

/-- `free_blocks`, and the addresses it gives to `free`: the first block is not from `malloc`. -/
def freeBlocks (wb : WriteBlock) : WriteBlock × List ℕ :=
  ({ wb with memory := wb.memory.modify wb.head fun b => { b with next := none } },
    wb.addresses wb.memory.length (wb.memory[wb.head]?.bind Block.next))

end WriteBlock

/-- The loop of `seri`, for at most so many rounds: the block it is at, how much it has copied and
how much is left, and the buffer. -/
def seriLoop (wb : WriteBlock) : ℕ → Option ℕ → ℕ → ℕ → Bytes → Outcome Bytes
  | 0, _, _, _, _ => .unfinished
  | _ + 1, none, _, _, buffer => .done buffer
  | n + 1, some b, dst, remaining, buffer =>
    if 0 < remaining then
      let copy := if b = wb.current then wb.ptr else BLOCK_SIZE
      let copy := if remaining < copy then remaining else copy
      seriLoop wb n (wb.memory[b]?.bind Block.next) (dst + copy) (remaining - copy)
        (memcpy buffer dst ((wb.bufferAt b).take copy))
    else .done buffer

/-- `seri`, with what `malloc` makes of the size: it raises where `malloc` has nothing, and else
gives the buffer and its size. -/
def seri (malloc : (n : ℕ) → Option (Raw n)) (rounds : ℕ) (wb : WriteBlock) : Outcome (Bytes × ℕ) := do
  let sz := wb.len
  let buffer ← .of (malloc sz)
  let buffer ← seriLoop wb rounds (some wb.head) 0 sz buffer.1
  pure (buffer, sz)

end SeriBlocks

end SkynetCpp
