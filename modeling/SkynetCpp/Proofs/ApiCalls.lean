import SkynetCpp.ApiCalls

/-!
# What a call that raises leaves behind

Each function takes a session and writes its caller, or the coroutine it has made, into the tables;
what it calls after that may still raise, and nothing takes the entries back. So a call that raises
leaves no trace exactly where it raises before the first write, or the writes change nothing
(`noTrace_iff`).
-/

namespace SkynetCpp

namespace ApiCalls

open LuaService (Coroutine)

variable {env : Env} {t : Tables} {self : Coroutine}

section Writes

theorem same_setSlot {token : Token} :
    t.Same (setSlot (genid t) t.nextSession token)
      ↔ t.sessionIdCoroutine t.nextSession = some (.token token) := by
  constructor
  · intro h
    have := congrFun h.sessionIdCoroutine t.nextSession
    simpa [setSlot, genid] using this.symm
  · intro h
    refine ⟨?_, rfl, rfl⟩
    simp only [setSlot, genid]
    rw [← h, Function.update_eq_self]

theorem same_setSleep {token : Token} :
    t.Same (setSleep (setSlot (genid t) t.nextSession token) token t.nextSession)
      ↔ t.sessionIdCoroutine t.nextSession = some (.token token)
        ∧ t.sleepSession token = some t.nextSession := by
  constructor
  · intro h
    have hslot := congrFun h.sessionIdCoroutine t.nextSession
    have hsleep := congrFun h.sleepSession token
    simp only [setSleep, setSlot, genid, Function.update_self] at hslot hsleep
    exact ⟨hslot.symm, hsleep.symm⟩
  · rintro ⟨hslot, hsleep⟩
    refine ⟨(same_setSlot.2 hslot).sessionIdCoroutine, ?_, rfl⟩
    simp only [setSleep, setSlot, genid]
    rw [← hsleep, Function.update_eq_self]

theorem Tables.Same.refl (t : Tables) : t.Same t := ⟨rfl, rfl, rfl⟩

theorem yield_eq : yield env = .raised ↔ ¬ env.yields = true := by
  unfold yield
  split_ifs with h <;> simp [h]

end Writes

section Functions

/-- After the session is taken: either all that is called accepts its arguments, or the entry was
there. -/
theorem sendAndYield_noTrace {dest msg sz : Value} {p : Protocol} :
    ((sendAndYield env t self dest p msg sz).1 = .raised →
        t.Same (sendAndYield env t self dest p msg sz).2)
      ↔ (sends env dest p.id msg sz = true ∧ env.yields = true)
        ∨ t.sessionIdCoroutine t.nextSession = some (.token (.thread self)) := by
  simp only [sendAndYield]
  split_ifs with hs
  · rw [same_setSlot, yield_eq]
    tauto
  · simp only [same_setSlot, forall_const, hs]
    simp

theorem call_noTrace (addr typename : Value) (args : List Value) :
    NoTrace env t self (.call addr typename args) ↔ Early env (.call addr typename args)
      ∨ Accepted env (.call addr typename args) ∨ Stale t self (.call addr typename args) := by
  simp only [NoTrace, invoke, call, Early, Accepted, Stale]
  cases hp : env.proto typename with
  | none => simp [Tables.Same.refl]
  | some p =>
    cases hd : resolveAddr env addr with
    | none => simp [Tables.Same.refl]
    | some dest =>
      cases hm : p.pack args with
      | none => simp [Tables.Same.refl, hm]
      | some m =>
        obtain ⟨msg, sz⟩ := m
        simp [sendAndYield_noTrace, hm]

theorem rawcall_noTrace (addr typename msg sz : Value) :
    NoTrace env t self (.rawcall addr typename msg sz) ↔ Early env (.rawcall addr typename msg sz)
      ∨ Accepted env (.rawcall addr typename msg sz)
      ∨ Stale t self (.rawcall addr typename msg sz) := by
  simp only [NoTrace, invoke, rawcall, Early, Accepted, Stale]
  cases hp : env.proto typename with
  | none => simp [Tables.Same.refl]
  | some p =>
    cases hd : resolveAddr env addr with
    | none => simp [Tables.Same.refl]
    | some dest => simp [sendAndYield_noTrace]

theorem timeout_noTrace (ti : Value) (co : Coroutine) :
    NoTrace env t self (.timeout ti co)
      ↔ Accepted env (.timeout ti co) ∨ Stale t self (.timeout ti co) := by
  simp only [NoTrace, invoke, timeout, Accepted, Stale]
  split_ifs with h
  · simp [h]
  · simp [h, same_setSlot]

theorem sleep_noTrace (ti : Value) :
    NoTrace env t self (.sleep ti) ↔ Accepted env (.sleep ti) ∨ Stale t self (.sleep ti) := by
  simp only [NoTrace, invoke, sleep, Accepted, Stale]
  split_ifs with h
  · rw [yield_eq, same_setSleep]
    tauto
  · simp [h, same_setSleep]

theorem wait_noTrace (co : Option Token) :
    NoTrace env t self (.wait co) ↔ Accepted env (.wait co) ∨ Stale t self (.wait co) := by
  have hnan : co.getD (.thread self) = .nan ↔ co = some .nan := by
    cases co <;> simp
  simp only [NoTrace, invoke, wait, Accepted, Stale, hnan]
  split_ifs with h
  · simp [h, same_setSlot]
  · rw [yield_eq, same_setSleep]
    tauto

end Functions

/-- A call leaves no trace when it raises if and only if it raises before it has a session, or
cannot raise after that, or its entries were there. -/
theorem noTrace_iff (env : Env) (t : Tables) (self : Coroutine) (a : Api) :
    NoTrace env t self a ↔ Early env a ∨ Accepted env a ∨ Stale t self a := by
  cases a with
  | call addr typename args => exact call_noTrace addr typename args
  | rawcall addr typename msg sz => exact rawcall_noTrace addr typename msg sz
  | timeout ti co =>
    rw [timeout_noTrace]
    exact (iff_of_eq (false_or _)).symm
  | sleep ti =>
    rw [sleep_noTrace]
    exact (iff_of_eq (false_or _)).symm
  | wait co =>
    rw [wait_noTrace]
    exact (iff_of_eq (false_or _)).symm

/-- The protocol "lua", of a pack function that gives a string. -/
def plainEnv : Env where
  str2d _ := none
  findName _ := 0
  proto
    | .string _ =>
      some { id := .integer PTYPE_LUA.toInt64, pack := fun _ => some (.string [], .integer 0) }
    | _ => none
  yields := true

/-- A call to the address nil. -/
theorem call_nil_leaves_trace :
    ¬ NoTrace plainEnv {} 1 (.call .nil (.string (ascii "lua")) []) := by
  intro h
  have := congrFun (h rfl).sessionIdCoroutine 1
  exact absurd this (by decide)

section Service

variable (s : LuaService.State)

theorem tablesOf_genid (co : Coroutine) : tablesOf (s.genid co) = genid (tablesOf s) := rfl

theorem tablesOf_setEntry (session : ℤ) (co : Coroutine) :
    tablesOf (s.setEntry session (some (.thread co)))
      = setSlot (tablesOf s) session (.thread co) := by
  simp only [tablesOf, LuaService.State.setEntry, setSlot, Tables.mk.injEq, and_true]
  funext k
  simp only [Function.update_apply]
  split_ifs <;> rfl

theorem tablesOf_setSleep (co : Coroutine) (session : ℤ) :
    tablesOf (s.setSleep co (some session)) = setSleep (tablesOf s) (.thread co) session := by
  simp only [tablesOf, LuaService.State.setSleep, setSleep, Tables.mk.injEq, and_true, true_and]
  funext k
  cases k <;> simp [Function.update_apply]

/-- The model of the whole service writes what these functions write, whether or not they raise
after that. -/
theorem tablesOf_call (co : Coroutine) (ok : Bool) :
    tablesOf (s.call co ok)
      = setSlot (genid (tablesOf s)) (tablesOf s).nextSession (.thread co) := by
  rw [← tablesOf_genid s co]
  refine Eq.trans ?_ (tablesOf_setEntry _ _ co)
  unfold LuaService.State.call
  cases ok <;> rfl

theorem tablesOf_sleep (co : Coroutine) (ok : Bool) :
    tablesOf (s.sleep co ok) = setSleep (setSlot (genid (tablesOf s)) (tablesOf s).nextSession
      (.thread co)) (.thread co) (tablesOf s).nextSession := by
  rw [← tablesOf_genid s co]
  refine Eq.trans ?_ ((tablesOf_setSleep _ _ _).trans
    (congrArg (setSleep · _ _) (tablesOf_setEntry _ _ co)))
  unfold LuaService.State.sleep
  cases ok <;> rfl

theorem tablesOf_wait (co : Coroutine) (token : Option Coroutine) :
    tablesOf (s.wait co token) = setSleep (setSlot (genid (tablesOf s)) (tablesOf s).nextSession
      (.thread (token.getD co))) (.thread (token.getD co)) (tablesOf s).nextSession := by
  rw [← tablesOf_genid s co]
  exact (tablesOf_setSleep _ _ _).trans
    (congrArg (setSleep · _ _) (tablesOf_setEntry _ _ (token.getD co)))

theorem tablesOf_timeout (co : Coroutine) :
    tablesOf (s.timeout co)
      = setSlot (genid (tablesOf s)) (tablesOf s).nextSession (.thread co) :=
  tablesOf_setEntry ((s.coCreate co).genid co) s.nextSession co

end Service

end ApiCalls

end SkynetCpp
