import SkynetCpp.Lib.Endian

/-!
# SHA-1 and HMAC

The hash of FIPS 180-4, on words of 32 bits, and the keyed hash of RFC 2104 over any hash. The
length of a message is written with 64 bits, so it counts modulo `2^61` bytes; the standard takes
no longer message.
-/

namespace Lib

namespace Sha1

/-- A circular shift by `n` places, `0 < n < 32`. -/
def rotl (n x : UInt32) : UInt32 := (x <<< n) ||| (x >>> (32 - n))

def ch (x y z : UInt32) : UInt32 := (x &&& y) ^^^ (~~~x &&& z)

def parity (x y z : UInt32) : UInt32 := x ^^^ y ^^^ z

def maj (x y z : UInt32) : UInt32 := (x &&& y) ^^^ (x &&& z) ^^^ (y &&& z)

/-- The function of round `t`. -/
def f (t : ℕ) : UInt32 → UInt32 → UInt32 → UInt32 :=
  if t < 20 then ch else if t < 40 then parity else if t < 60 then maj else parity

/-- The constant of round `t`. -/
def k (t : ℕ) : UInt32 :=
  if t < 20 then 0x5a827999 else if t < 40 then 0x6ed9eba1
  else if t < 60 then 0x8f1bbcdc else 0xca62c1d6

/-- The five words of a hash value, which are also the working variables. -/
@[ext] structure Words where
  a : UInt32
  b : UInt32
  c : UInt32
  d : UInt32
  e : UInt32

def initial : Words := ⟨0x67452301, 0xefcdab89, 0x98badcfe, 0x10325476, 0xc3d2e1f0⟩

/-- The `t`-th word of a block. -/
def word (block : List UInt8) (t : ℕ) : UInt32 :=
  UInt32.ofNat (ofBe ((block.drop (4 * t)).take 4))

/-- The message schedule. -/
def schedule (block : List UInt8) (t : ℕ) : UInt32 :=
  if t < 16 then word block t
  else rotl 1 (schedule block (t - 3) ^^^ schedule block (t - 8) ^^^ schedule block (t - 14)
    ^^^ schedule block (t - 16))

def round (w : ℕ → UInt32) (v : Words) (t : ℕ) : Words :=
  ⟨rotl 5 v.a + f t v.b v.c v.d + v.e + k t + w t, v.a, rotl 30 v.b, v.c, v.d⟩

def compress (h : Words) (block : List UInt8) : Words :=
  let v := (List.range 80).foldl (round (schedule block)) h
  ⟨h.a + v.a, h.b + v.b, h.c + v.c, h.d + v.d, h.e + v.e⟩

/-- How many zeros follow the bit 1 and its seven. -/
def zeros (len : ℕ) : ℕ := (119 - len % 64) % 64

def padded (msg : List UInt8) : List UInt8 :=
  msg ++ [0x80] ++ List.replicate (zeros msg.length) 0 ++ be 8 (8 * msg.length)

/-- The `i`-th block of 64 bytes. -/
def block (msg : List UInt8) (i : ℕ) : List UInt8 := (msg.drop (64 * i)).take 64

def digest (h : Words) : List UInt8 :=
  be 4 h.a.toNat ++ be 4 h.b.toNat ++ be 4 h.c.toNat ++ be 4 h.d.toNat ++ be 4 h.e.toNat

def hash (msg : List UInt8) : List UInt8 :=
  let m := padded msg
  digest ((List.range (m.length / 64)).foldl (fun h i => compress h (block m i)) initial)

theorem zeros_lt (len : ℕ) : zeros len < 64 := Nat.mod_lt _ (by omega)

/-- With the byte of the 1 and the eight of the length, the message fills whole blocks. -/
theorem zeros_spec (len : ℕ) : (len + 1 + zeros len) % 64 = 56 := by
  unfold zeros
  omega

theorem zeros_eq {len z : ℕ} (hz : z < 64) (h : (len + 1 + z) % 64 = 56) : z = zeros len := by
  unfold zeros
  omega

theorem length_padded_mod (msg : List UInt8) : (padded msg).length % 64 = 0 := by
  have := zeros_spec msg.length
  simp only [padded, List.length_append, List.length_cons, List.length_nil, List.length_replicate,
    length_be]
  omega

end Sha1

/-- HMAC over the hash `h` with blocks of `size` bytes. -/
def hmac (h : List UInt8 → List UInt8) (size : ℕ) (key text : List UInt8) : List UInt8 :=
  let key := if size < key.length then h key else key
  let key := key ++ List.replicate (size - key.length) 0
  h (key.map (· ^^^ 0x5c) ++ h (key.map (· ^^^ 0x36) ++ text))

end Lib
