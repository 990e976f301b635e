import Mathlib.Algebra.GroupWithZero.Nat
import Mathlib.Algebra.Ring.Int.Defs
import Mathlib.Data.List.Basic

/-!
# Messages

The messages actors send one another. `MessageType` is the code of `skynet.h`; a message's `type`
is an `int`, which need not be one of them.
-/

namespace SkynetCpp

/-- A `uint32_t` actor handle. -/
abbrev Handle := ℕ

def PTYPE_TEXT : ℤ := 0
def PTYPE_RESPONSE : ℤ := 1
def PTYPE_MULTICAST : ℤ := 2
def PTYPE_CLIENT : ℤ := 3
def PTYPE_SYSTEM : ℤ := 4
def PTYPE_HARBOR : ℤ := 5
def PTYPE_SOCKET : ℤ := 6
def PTYPE_ERROR : ℤ := 7
def PTYPE_TIMER : ℤ := 8
def PTYPE_DEBUG : ℤ := 9
def PTYPE_LUA : ℤ := 10
def PTYPE_SNAX : ℤ := 11
def PTYPE_TRACE : ℤ := 12

/-- The bytes of a `std::string`. -/
abbrev Bytes := List UInt8

/-- The bytes of an ASCII text. -/
def ascii (s : String) : Bytes := s.toList.map fun c => UInt8.ofNat c.toNat

/-- `MessagePayload`: the alternatives of the variant. A heap buffer is its address and size. -/
inductive Payload
  | monostate
  | string (s : Bytes)
  | seri (data size : ℕ)
  | socketAccept (listenerId connectionId : ℤ) (remoteAddress : Bytes) (remotePort : ℕ)
  | socketData (listenerId connectionId : ℤ) (data : Bytes)
  | socketClose (listenerId connectionId : ℤ)
  | socketOpen (connectionId : ℤ) (remoteAddress : Bytes) (remotePort : ℕ)
  | socketWarning (listenerId connectionId : ℤ) (pendingBytes : ℕ)
  | socketUDP (socketId : ℤ) (data remoteAddress : Bytes) (remotePort : ℕ)
  deriving DecidableEq, Repr

structure Message where
  source : Handle := 0
  session : ℤ := 0
  type : ℤ := PTYPE_TEXT
  data : Payload := .monostate
  deriving DecidableEq, Repr

namespace Message

/-- The sender waits for an answer: the test `push_message` and `drain_queue` make before they
report that the message will not be handled. -/
def isRequest (m : Message) : Bool :=
  m.session ≠ 0 && m.source ≠ 0 && m.type ≠ PTYPE_RESPONSE && m.type ≠ PTYPE_ERROR

/-- What is sent to the source of a request that will not be handled. -/
def errorReply (m : Message) : Message :=
  { source := 0, session := m.session, type := PTYPE_ERROR, data := .monostate }

end Message

end SkynetCpp
