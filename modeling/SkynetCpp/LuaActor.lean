import SkynetCpp.ActorSystem
import SkynetCpp.LuaValue

/-!
# Payloads between Lua services

What `lsend` and `lredirect` put into a message, what `LuaActor::on_message` gives to the callback
from it, and who frees a heap buffer: the callback that gets it, `on_message`, or, where
`on_message` does not see the message, `drain_queue` or `push_message`.
-/

namespace SkynetCpp

/-- The payload of `lsend`, from its fifth argument and what `luaL_checkinteger` returns for its
sixth, unless that raises; `none` is an error. -/
def lsend (msg : Value) (sz : Option Int64) : Option Payload :=
  match msg with
  | .string s => some (.string s)
  | .lightuserdata p => sz.map fun sz => .seri p.toNat sz.toUInt64.toNat
  | .nil => some (.string [])
  | _ => none

/-- That of `lredirect`. -/
def lredirect (msg : Value) (sz : Option Int64) : Option Payload :=
  match msg with
  | .string s => some (.string s)
  | .lightuserdata p => sz.map fun sz => .seri p.toNat sz.toUInt64.toNat
  | _ => some (.string [])

namespace Payload

/-- Lua code can send it. -/
def Built (d : Payload) : Prop := ∃ msg sz, lsend msg sz = some d ∨ lredirect msg sz = some d

/-- The heap buffer, if it is one. -/
def heap : Payload → List UInt64
  | .seri p _ => [.ofNat p]
  | _ => []

/-- The payload and its size, as Lua has them. -/
def luaArgs : Payload → Value × Int64
  | .string s => (.string s, Int64.ofNat s.length)
  | .seri p n => (.lightuserdata (UInt64.ofNat p), Int64.ofNat n)
  | _ => (.nil, 0)

/-- `std::to_string` -/
def toString (n : ℤ) : Bytes := ascii (ToString.toString n)

/-- The compact string of a socket event. -/
def encoded : Payload → Bytes
  | .socketAccept l c address port =>
    ascii "accept " ++ toString l ++ ascii " " ++ toString c ++ ascii " " ++ address ++ ascii " "
      ++ toString port
  | .socketData l c data =>
    ascii "data " ++ toString l ++ ascii " " ++ toString c ++ ascii " " ++ data
  | .socketClose l c => ascii "close " ++ toString l ++ ascii " " ++ toString c
  | .socketOpen c address port =>
    ascii "open " ++ toString c ++ ascii " " ++ address ++ ascii " " ++ toString port
  | .socketWarning l c pending =>
    ascii "warning " ++ toString l ++ ascii " " ++ toString c ++ ascii " " ++ toString pending
  | .socketUDP id data address port =>
    ascii "udp " ++ toString id ++ ascii " " ++ address ++ ascii " " ++ toString port ++ ascii " "
      ++ data
  | _ => ascii "unknown"

end Payload

/-- What the registry has at `callback_ref_`. -/
inductive CallbackRef
  | nil
  | function
  deriving DecidableEq, Repr

/-- `L_`, whether it is there, and `has_callback_`. `lcallback` registers a function only. -/
structure LuaActor where
  L : Bool := true
  hasCallback : Bool := false
  callbackRef : Option CallbackRef := none
  registered : hasCallback = true → callbackRef = some .function := by decide
  deriving DecidableEq

namespace LuaActor

/-- `lcallback`, of a function: any other value raises before. -/
def lcallback (a : LuaActor) : LuaActor :=
  if a.L then
    { a with hasCallback := true, callbackRef := some .function, registered := fun _ => rfl }
  else a

/-- `on_destroy` -/
def onDestroy (a : LuaActor) : LuaActor := if a.L then { L := false } else a

/-- The arguments of the callback. -/
structure Callback where
  type : ℤ
  msg : Value
  sz : Int64
  session : ℤ
  source : Handle

/-- What `on_message` has done: the call, if it calls, and the buffers it has freed. -/
structure Outcome where
  callback : Option Callback := none
  freed : List UInt64 := []

/-- The arguments `msg` and `sz`. -/
def callbackArgs (m : Message) : Value × Int64 :=
  if m.type = PTYPE_LUA ∨ m.type = PTYPE_RESPONSE ∨ m.type = PTYPE_MULTICAST ∨
      m.type = PTYPE_DEBUG then
    match m.data with
    | .seri p n => (.lightuserdata (UInt64.ofNat p), Int64.ofNat n)
    | .string s => (.string s, Int64.ofNat s.length)
    | _ => (.nil, 0)
  else if m.type = PTYPE_TEXT ∨ m.type = PTYPE_ERROR then
    match m.data with
    | .string s => (.string s, Int64.ofNat s.length)
    | _ => (.nil, 0)
  else if m.type = PTYPE_SOCKET then
    (.string m.data.encoded, Int64.ofNat m.data.encoded.length)
  else (.nil, 0)

def onMessage (a : LuaActor) (m : Message) : Outcome :=
  if a.L = false ∨ a.hasCallback = false then { freed := m.data.heap }
  else if a.callbackRef ≠ some .function then {}
  else
    let (msg, sz) := callbackArgs m
    { callback := some { type := m.type, msg, sz, session := m.session, source := m.source } }

end LuaActor

/-- How a message ends: `push_message` refuses it, `drain_queue` takes it, or `on_message`. -/
inductive Ending
  | refused
  | drained
  | delivered (a : LuaActor)
  deriving DecidableEq

/-- The call and the frees that the message ends with. -/
def Ending.outcome (m : Message) : Ending → LuaActor.Outcome
  | .refused | .drained => { freed := m.data.heap }
  | .delivered a => a.onMessage m

/-- What a point of the code has in its hands, on the way to the mailbox or to `on_message`. -/
def Op.carried : Op → Option Message
  | .pushEnqueue m | .batchCount _ _ m | .batchMessage _ _ m => some m
  | _ => none

namespace State

variable (s : State) (q : QId)

/-- What `push_message` has refused, the queue being gone or closed. -/
def refused : List Message :=
  (s.unrouted.filter fun d => d.1 = (s.queues q).handle).map Prod.snd ++ (s.queues q).rejected

def sent : List Message := s.refused q ++ (s.queues q).accepted

/-- What is in the mailbox, or on the way there or from there. -/
def pending : List Message := (s.queues q).mailbox.map Entry.msg ++ (s.opsOn q).filterMap Op.carried

/-- How the messages have ended, if `as` are the states of the `LuaActor` when `on_message` was
called for those that were handed over. -/
def endings (as : List LuaActor) : List (Message × Ending) :=
  (s.refused q).map (·, .refused) ++ (s.queues q).drained.map (·, .drained)
    ++ ((s.queues q).handed.zip as).map fun d => (d.1, .delivered d.2)

end State

namespace Message

/-- The callback gets the payload and its size, and the buffer is its own; or there is no call, and
the buffer is freed. -/
def Settled (m : Message) (e : Ending) : Prop :=
  match (e.outcome m).callback with
  | some c => (c.msg, c.sz) = m.data.luaArgs ∧ (e.outcome m).freed = []
  | none => (e.outcome m).freed = m.data.heap

/-- How many owners the ending gives to the buffer at `p`: who frees it, and the callback that gets
it. -/
def owners (m : Message) (e : Ending) (p : UInt64) : ℕ :=
  (e.outcome m).freed.count p +
    match (e.outcome m).callback.map LuaActor.Callback.msg with
    | some (.lightuserdata p') => if p' = p then 1 else 0
    | _ => 0

/-- The message does not get to a callback, or its type lets its payload through. -/
def Passes (m : Message) : Ending → Prop
  | .refused | .drained => True
  | .delivered a => a.L = false ∨ a.hasCallback = false ∨
    m.type = PTYPE_LUA ∨ m.type = PTYPE_RESPONSE ∨ m.type = PTYPE_MULTICAST ∨
    m.type = PTYPE_DEBUG ∨
    (m.type = PTYPE_TEXT ∨ m.type = PTYPE_ERROR) ∧ (∃ s, m.data = .string s) ∨
    m.type = PTYPE_SOCKET ∧ m.data = .string (ascii "unknown")

end Message

/-- What came from Lua has been given to the callback or freed; every buffer that Lua has sent is
still pending, or has one owner. -/
def State.Owned (s : State) (q : QId) (as : List LuaActor) : Prop :=
  (∀ d ∈ s.endings q as, d.1.data.Built → d.1.Settled d.2) ∧
    ∀ p, (∀ m ∈ s.sent q, p ∈ m.data.heap → m.data.Built) →
      ((s.sent q).flatMap fun m => m.data.heap).count p =
      ((s.pending q).flatMap fun m => m.data.heap).count p +
        ((s.endings q as).map fun d => d.1.owners d.2 p).sum

end SkynetCpp
