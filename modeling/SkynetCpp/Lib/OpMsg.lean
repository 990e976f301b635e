import SkynetCpp.Lib.MysqlBinary

/-!
# OP_MSG

The messages of the wire protocol of MongoDB since 3.6, with one section of the kind 0, whose
document is not looked into here.
-/

namespace Lib

namespace OpMsg

open MysqlBinary (takeInt takeBytes takeInt_le takeInt_one takeBytes_append)

structure Message where
  requestId : ℕ
  responseTo : ℕ
  flags : ℕ
  document : List UInt8
  deriving DecidableEq

namespace Message

variable (m : Message)

/-- The flag `moreToCome`: no reply is to be given. -/
def moreToCome : Bool := m.flags.testBit 1

def body : List UInt8 :=
  le 4 m.requestId ++ (le 4 m.responseTo ++ (le 4 2013 ++ (le 4 m.flags ++ 0 :: m.document)))

def encode : List UInt8 := le 4 (4 + m.body.length) ++ m.body

structure Fits : Prop where
  requestId : m.requestId < 2 ^ 31
  responseTo : m.responseTo < 2 ^ 31
  flags : m.flags < 2 ^ 31
  length : 21 + m.document.length < 2 ^ 31

theorem length_body : m.body.length = 17 + m.document.length := by
  simp only [body, List.length_append, length_le, List.length_cons]
  omega

end Message

/-- What follows the length of a message. -/
def decodeBody (bs : List UInt8) : Option Message := do
  let (requestId, bs) ← takeInt 4 bs
  let (responseTo, bs) ← takeInt 4 bs
  let (opcode, bs) ← takeInt 4 bs
  let (flags, bs) ← takeInt 4 bs
  let (kind, bs) ← takeInt 1 bs
  if opcode = 2013 ∧ kind = 0 then some ⟨requestId, responseTo, flags, bs⟩ else none

/-- The first message of a stream. -/
def take (bs : List UInt8) : Option (Message × List UInt8) := do
  let (size, bs) ← takeInt 4 bs
  let (body, bs) ← takeBytes (size - 4) bs
  let m ← decodeBody body
  return (m, bs)

variable {m : Message}

theorem decodeBody_body (h : m.Fits) : decodeBody m.body = some m := by
  have hid := h.requestId
  have hto := h.responseTo
  have hflags := h.flags
  have hkind (s : List UInt8) : takeInt 1 (0 :: s) = some (0, s) := takeInt_one 0
  rw [decodeBody, Message.body, takeInt_le (by omega)]
  simp only [Option.bind_eq_bind, Option.bind_some]
  rw [takeInt_le (by omega), Option.bind_some, takeInt_le (by omega), Option.bind_some,
    takeInt_le (by omega), Option.bind_some, hkind, Option.bind_some]
  exact if_pos ⟨rfl, rfl⟩

theorem take_encode (h : m.Fits) (rest : List UInt8) : take (m.encode ++ rest) = some (m, rest) := by
  have hlen := h.length
  have hbody := m.length_body
  rw [take, Message.encode, List.append_assoc, takeInt_le (by omega)]
  simp only [Option.bind_eq_bind, Option.bind_some]
  rw [takeBytes_append (by omega), Option.bind_some, decodeBody_body h]
  rfl

end OpMsg

end Lib
