import SkynetCpp.LuaActor
import SkynetCpp.LuaService
import SkynetCpp.LuaString

/-!
# Calls that raise

`skynet.call`, `rawcall`, `sleep`, `timeout` and `wait` up to where they suspend, return or raise,
with the arguments as Lua has them: what is looked up and packed first, what is written into the
tables, and what `c.send`, `c.timeout` and `coroutine_yield` refuse after that. The names, the
protocols, and the reader of floats are parameters, and so is whether the caller can yield: the main
thread cannot, nor can a coroutine below a C function.
-/

namespace SkynetCpp

open LuaString

namespace ApiCalls

open LuaService (Coroutine)

/-- A value that stands for a sleeper, as a table tells it from others: a coroutine, any other
value that can be a key, or the float that cannot. -/
inductive Token
  | thread (co : Coroutine)
  | object (n : ℕ)
  | nan
  deriving DecidableEq, Repr

/-- A value of `session_id_coroutine`. -/
inductive Slot
  | token (t : Token)
  | broken
  deriving DecidableEq, Repr

structure Tables where
  sessionIdCoroutine : ℤ → Option Slot := fun _ => none
  sleepSession : Token → Option ℤ := fun _ => none
  wakeupQueue : List Token := []
  nextSession : ℤ := 1

/-- `pack` of a protocol gives `msg, sz`, or raises; it does not touch the tables. -/
structure Protocol where
  id : Value
  pack : List Value → Option (Value × Value)

structure Env where
  str2d : Bytes → Option UInt64
  /-- `ActorSystem::find_name` -/
  findName : Bytes → Handle
  proto : Value → Option Protocol
  yields : Bool

inductive Api
  | call (addr typename : Value) (args : List Value)
  | rawcall (addr typename msg sz : Value)
  /-- with the coroutine that `co_create` returns -/
  | timeout (ti : Value) (co : Coroutine)
  | sleep (ti : Value)
  | wait (co : Option Token)

inductive Outcome
  | raised
  | suspended
  | returned
  deriving DecidableEq, Repr

section Functions

variable (env : Env) (t : Tables) (self : Coroutine)

/-- `resolve_addr`; `lquery` takes a name up to its first NUL. -/
def resolveAddr (addr : Value) : Option Value :=
  match addr with
  | .string name =>
    let h := env.findName (name.takeWhile (· ≠ 0))
    if h = 0 then none else some (.integer (Int64.ofNat h))
  | _ => some addr

/-- `c.send` with a session accepts its arguments. -/
def sends (dest type msg sz : Value) : Bool :=
  (checkinteger env.str2d dest).isSome && (checkinteger env.str2d type).isSome
    && (lsend msg (checkinteger env.str2d sz)).isSome

def genid : Tables :=
  { t with
    nextSession := if t.nextSession = 2 ^ 31 - 1 then -(2 ^ 31) else t.nextSession + 1 }

def setSlot (session : ℤ) (token : Token) : Tables :=
  { t with
    sessionIdCoroutine := Function.update t.sessionIdCoroutine session (some (.token token)) }

def setSleep (token : Token) (session : ℤ) : Tables :=
  { t with sleepSession := Function.update t.sleepSession token (some session) }

/-- `coroutine_yield("SUSPEND")` -/
def yield : Outcome := if env.yields then .suspended else .raised

/-- The end of `call` and `rawcall`. -/
def sendAndYield (dest : Value) (p : Protocol) (msg sz : Value) : Outcome × Tables :=
  let session := t.nextSession
  let t := setSlot (genid t) session (.thread self)
  if sends env dest p.id msg sz then (yield env, t) else (.raised, t)

def call (addr typename : Value) (args : List Value) : Outcome × Tables :=
  match env.proto typename with
  | none => (.raised, t)
  | some p =>
    match resolveAddr env addr with
    | none => (.raised, t)
    | some dest =>
      match p.pack args with
      | none => (.raised, t)
      | some (msg, sz) => sendAndYield env t self dest p msg sz

def rawcall (addr typename msg sz : Value) : Outcome × Tables :=
  match env.proto typename with
  | none => (.raised, t)
  | some p =>
    match resolveAddr env addr with
    | none => (.raised, t)
    | some dest => sendAndYield env t self dest p msg sz

/-- `co` is the coroutine that `co_create` returns. -/
def timeout (ti : Value) (co : Coroutine) : Outcome × Tables :=
  let session := t.nextSession
  let t := setSlot (genid t) session (.thread co)
  if (checkinteger env.str2d ti).isSome then (.returned, t) else (.raised, t)

def sleep (ti : Value) : Outcome × Tables :=
  let session := t.nextSession
  let t := setSleep (setSlot (genid t) session (.thread self)) (.thread self) session
  if (checkinteger env.str2d ti).isSome then (yield env, t) else (.raised, t)

def wait (co : Option Token) : Outcome × Tables :=
  let co := co.getD (.thread self)
  let session := t.nextSession
  let t := setSlot (genid t) session co
  if co = .nan then (.raised, t) else (yield env, setSleep t co session)

def invoke : Api → Outcome × Tables
  | .call addr typename args => call env t self addr typename args
  | .rawcall addr typename msg sz => rawcall env t self addr typename msg sz
  | .timeout ti co => timeout env t ti co
  | .sleep ti => sleep env t self ti
  | .wait co => wait env t self co

/-- The three tables are what they were. -/
structure Tables.Same (t t' : Tables) : Prop where
  sessionIdCoroutine : t'.sessionIdCoroutine = t.sessionIdCoroutine
  sleepSession : t'.sleepSession = t.sleepSession
  wakeupQueue : t'.wakeupQueue = t.wakeupQueue

/-- If it raises, it leaves no trace. -/
def NoTrace (a : Api) : Prop :=
  (invoke env t self a).1 = .raised → t.Same (invoke env t self a).2

/-- What the function looks up or packs before it has a session is refused. -/
def Early : Api → Prop
  | .call addr typename args =>
    ∀ p ∈ env.proto typename, (resolveAddr env addr).isSome → p.pack args = none
  | .rawcall addr typename _ _ => (env.proto typename).isSome → resolveAddr env addr = none
  | _ => False

/-- What it calls once it has written to the tables accepts its arguments, and it can yield. -/
def Accepted : Api → Prop
  | .call addr typename args =>
    ∀ p ∈ env.proto typename, ∀ dest ∈ resolveAddr env addr, ∀ m ∈ p.pack args,
      sends env dest p.id m.1 m.2 = true ∧ env.yields = true
  | .rawcall addr typename msg sz =>
    ∀ p ∈ env.proto typename, ∀ dest ∈ resolveAddr env addr,
      sends env dest p.id msg sz = true ∧ env.yields = true
  | .timeout ti _ => (checkinteger env.str2d ti).isSome
  | .sleep ti => (checkinteger env.str2d ti).isSome ∧ env.yields = true
  | .wait co => co ≠ some .nan ∧ env.yields = true

/-- What it writes is there already, from a session of the same number. -/
def Stale : Api → Prop
  | .call _ _ _ | .rawcall _ _ _ _ =>
    t.sessionIdCoroutine t.nextSession = some (.token (.thread self))
  | .timeout _ co => t.sessionIdCoroutine t.nextSession = some (.token (.thread co))
  | .sleep _ =>
    t.sessionIdCoroutine t.nextSession = some (.token (.thread self)) ∧
      t.sleepSession (.thread self) = some t.nextSession
  | .wait co =>
    t.sessionIdCoroutine t.nextSession = some (.token (co.getD (.thread self))) ∧
      (co ≠ some .nan → t.sleepSession (co.getD (.thread self)) = some t.nextSession)

end Functions

/-- The tables of a service whose sleepers are coroutines. -/
def tablesOf (s : LuaService.State) : Tables where
  sessionIdCoroutine session := (s.sessionIdCoroutine session).map fun
    | .thread co => .token (.thread co)
    | .broken => .broken
  sleepSession
    | .thread co => s.sleepSession co
    | _ => none
  wakeupQueue := s.wakeupQueue.map .thread
  nextSession := s.nextSession

end ApiCalls

end SkynetCpp
