import SkynetCpp.LuaString

/-!
# Hashes and base 64

`crypt.lua`: SHA-1 and HMAC-SHA1 with the integers of Lua, and base 64. An integer has 64 bits, which
`&`, `|`, `~`, the shifts and `+` take as an unsigned number modulo `2^64`.
-/

namespace SkynetCpp

open Lib LuaString

namespace Crypt

section Sha1

def uint32 (n : UInt64) : UInt64 := n &&& 0xFFFFFFFF

/-- Both shifts are by less than 64 places. -/
def rotl (x n : UInt64) : UInt64 :=
  let x := uint32 x
  uint32 ((x <<< n) ||| (x >>> (32 - n)))

/-- `h0` to `h4`, or `a` to `e`. -/
structure Hash where
  a : UInt64
  b : UInt64
  c : UInt64
  d : UInt64
  e : UInt64
  deriving DecidableEq

/-- The message with the byte of the bit 1, the zeros and its length in bits. -/
def pad (msg : Bytes) : Option Bytes := do
  let bitLen := UInt64.ofNat (msg.length * 8)
  let msg := msg ++ [0x80]
  let padLen := ((56 - (msg.length % 64 : ℕ) : ℤ) % 64).toNat
  let msg := msg ++ List.replicate padLen 0
  return msg ++ (← packBigUnsigned 8 bitLen)

/-- `w[0]` to `w[15]` -/
def blockWords (msg : Bytes) (i : ℕ) : Option (List UInt64) :=
  (List.range 16).mapM fun j => (unpackBigUnsigned 4 msg (i + j * 4 : ℕ)).map (·.1)

/-- `w[j]`, behind those before it. -/
def extend (w : List UInt64) (j : ℕ) : Option (List UInt64) := do
  return w ++ [rotl ((← w[j - 3]?) ^^^ (← w[j - 8]?) ^^^ (← w[j - 14]?) ^^^ (← w[j - 16]?)) 1]

def f (j : ℕ) (b c d : UInt64) : UInt64 :=
  if j ≤ 19 then (b &&& c) ||| (~~~b &&& d)
  else if j ≤ 39 then b ^^^ c ^^^ d
  else if j ≤ 59 then (b &&& c) ||| (b &&& d) ||| (c &&& d)
  else b ^^^ c ^^^ d

def k (j : ℕ) : UInt64 :=
  if j ≤ 19 then 0x5A827999 else if j ≤ 39 then 0x6ED9EBA1
  else if j ≤ 59 then 0x8F1BBCDC else 0xCA62C1D6

def round (w : List UInt64) (v : Hash) (j : ℕ) : Option Hash := do
  let temp := uint32 (rotl v.a 5 + f j v.b v.c v.d + v.e + k j + (← w[j]?))
  return ⟨temp, v.a, rotl v.b 30, v.c, v.d⟩

/-- The block that begins at `i`. -/
def processBlock (msg : Bytes) (h : Hash) (i : ℕ) : Option Hash := do
  let w ← (List.range' 16 64).foldlM extend (← blockWords msg i)
  let v ← (List.range 80).foldlM (round w) h
  return ⟨uint32 (h.a + v.a), uint32 (h.b + v.b), uint32 (h.c + v.c), uint32 (h.d + v.d),
    uint32 (h.e + v.e)⟩

def initial : Hash := ⟨0x67452301, 0xEFCDAB89, 0x98BADCFE, 0x10325476, 0xC3D2E1F0⟩

def sha1 (msg : Bytes) : Option Bytes := do
  let msg ← pad msg
  let h ← (List.range ((msg.length + 63) / 64)).foldlM
    (fun h n => processBlock msg h (1 + 64 * n)) initial
  return (← packBigUnsigned 4 h.a) ++ (← packBigUnsigned 4 h.b) ++ (← packBigUnsigned 4 h.c)
    ++ (← packBigUnsigned 4 h.d) ++ (← packBigUnsigned 4 h.e)

def hmacSha1 (key msg : Bytes) : Option Bytes := do
  let key ← (if 64 < key.length then sha1 key else some key)
  let key := if key.length < 64 then key ++ List.replicate (64 - key.length) 0 else key
  let opad ← (List.range 64).mapM fun i => (byte key (i + 1 : ℕ)).map (· ^^^ 0x5c)
  let ipad ← (List.range 64).mapM fun i => (byte key (i + 1 : ℕ)).map (· ^^^ 0x36)
  sha1 (opad ++ (← sha1 (ipad ++ msg)))

end Sha1

section Base64

def b64chars : Bytes := ascii "ABCDEFGHIJKLMNOPQRSTUVWXYZabcdefghijklmnopqrstuvwxyz0123456789+/"

/-- `b64chars:sub(n + 1, n + 1)` -/
def b64char (n : ℕ) : Bytes := (b64chars.drop n).take 1

/-- One round of the loop: three bytes, 0 for those that are not there, and how many there are. -/
def encodeGroup (a b c : UInt8) (len : ℕ) : Bytes :=
  let n := (a.toNat <<< 16) ||| (b.toNat <<< 8) ||| c.toNat
  b64char (n >>> 18) ++ b64char ((n >>> 12) &&& 63)
    ++ (if 1 < len then b64char ((n >>> 6) &&& 63) else ascii "=")
    ++ (if 2 < len then b64char (n &&& 63) else ascii "=")

def base64encode : Bytes → Bytes
  | [] => []
  | [a] => encodeGroup a 0 0 1
  | [a, b] => encodeGroup a b 0 2
  | a :: b :: c :: rest => encodeGroup a b c 3 ++ base64encode rest

/-- `b64lookup[b] or 0`, also where there is no byte. -/
def b64lookup (b : Option UInt8) : ℕ := (b.bind fun b => b64chars.idxOf? b).getD 0

/-- `%w` -/
def isAlnum (b : UInt8) : Bool :=
  (48 ≤ b && b ≤ 57) || (65 ≤ b && b ≤ 90) || (97 ≤ b && b ≤ 122)

/-- `[%w+/=]` -/
def isB64 (b : UInt8) : Bool := isAlnum b || b = 43 || b = 47 || b = 61

/-- One round of the loop: a byte, and the three that may follow it. -/
def decodeGroup (a : UInt8) (b c d : Option UInt8) : Bytes :=
  let n := (b64lookup a <<< 18) ||| (b64lookup b <<< 12) ||| (b64lookup c <<< 6) ||| b64lookup d
  [UInt8.ofNat ((n >>> 16) &&& 0xFF)]
    ++ (if c ≠ some 61 then [UInt8.ofNat ((n >>> 8) &&& 0xFF)] else [])
    ++ (if d ≠ some 61 then [UInt8.ofNat (n &&& 0xFF)] else [])

def decodeGroups : Bytes → Bytes
  | [] => []
  | [a] => decodeGroup a none none none
  | [a, b] => decodeGroup a b none none
  | [a, b, c] => decodeGroup a b c none
  | a :: b :: c :: d :: rest => decodeGroup a b c d ++ decodeGroups rest

def base64decode (data : Bytes) : Bytes := decodeGroups (data.filter isB64)

end Base64

end Crypt

end SkynetCpp
