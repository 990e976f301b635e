import SkynetCpp.Lib.Endian
import SkynetCpp.Message

/-!
# netpack

Frames of two bytes of length, most significant first, and a payload: `lua_netpack.cpp`. Where an
`int` overflows it wraps.
-/

namespace SkynetCpp

namespace Netpack

open Lib

/-- `lpack` -/
def lpack (data : Bytes) : Except String Bytes :=
  let len := data.length
  if 0xFFFF < len then
    .error ("netpack.pack: data too large (" ++ toString (toSigned 32 len) ++ " bytes, max 65535)")
  else .ok (UInt8.ofNat (len >>> 8) :: UInt8.ofNat len :: data)

/-- The length in the header of the frame at `pos`. -/
def payloadLen (buf : Bytes) (pos : ℕ) : ℕ :=
  (buf.getD pos 0).toNat <<< 8 ||| (buf.getD (pos + 1) 0).toNat

/-- `lunpack`: the offset after the frame at this offset, and its payload. Offsets are from 1. -/
def lunpack (buf : Bytes) (offset : ℤ) : Option (ℤ × Bytes) :=
  let offset := toSigned 32 (toSigned 32 offset - 1)
  if offset < 0 ∨ buf.length ≤ offset then none
  else
    let pos := offset.toNat
    let remaining := buf.length - pos
    if remaining < 2 then none
    else
      let len := payloadLen buf pos
      if remaining < 2 + len then none
      else some (toSigned 32 (offset + 2 + len + 1), (buf.drop (pos + 2)).take len)

/-- The frames from `offset` on: `netpack.unpack`, until it returns nil. -/
def unpackFrom (buf : Bytes) : ℕ → ℤ → Option (List Bytes)
  | 0, _ => none
  | n + 1, offset =>
    match lunpack buf offset with
    | some (next, payload) => (unpackFrom buf n next).map (payload :: ·)
    | none => some []

/-- The loop of `lfilter`, for at most `n` rounds: the messages, and where it ends. -/
def filterLoop (combined : Bytes) : ℕ → ℕ → List Bytes × ℕ
  | 0, pos => ([], pos)
  | n + 1, pos =>
    if pos + 2 ≤ combined.length then
      let len := payloadLen combined pos
      if combined.length < pos + 2 + len then ([], pos)
      else
        let (msgs, last) := filterLoop combined n (pos + 2 + len)
        ((combined.drop (pos + 2)).take len :: msgs, last)
    else ([], pos)

/-- `lfilter`; every round of its loop takes two bytes at least. -/
def lfilter (buf newData : Bytes) : List Bytes × Bytes :=
  let combined := buf ++ newData
  let (msgs, pos) := filterLoop combined combined.length 0
  (msgs, if pos < combined.length then combined.drop pos else [])

/-- The chunks go through `netpack.filter` one by one, with the remainder it has returned. -/
def filterChunks : Bytes → List Bytes → List Bytes × Bytes
  | buf, [] => ([], buf)
  | buf, chunk :: chunks =>
    let (msgs, remaining) := lfilter buf chunk
    let (msgs', remaining') := filterChunks remaining chunks
    (msgs ++ msgs', remaining')

end Netpack

end SkynetCpp
