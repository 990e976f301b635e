import Mathlib.Logic.Function.Basic
import Mathlib.Data.Int.Notation
import Mathlib.Data.Nat.Notation

/-!
# The serialization queue

`skynet.queue`: a queue object runs the functions given to it one after the other. Only one
coroutine of a service runs at a time, and what it does between two suspensions is one step here:
the call of the queue up to the body or to the wait, the return from the wait up to the body, and
the end of a body with `xpcall_ret`. A wait ends by the wakeup of the queue only.
-/

namespace SkynetCpp

namespace SerialQueue

variable {V : Type*}

/-- One queue object, the two tables of `skynet.lua` it uses, and the coroutines that call it. -/
structure State (V : Type*) where
  currentThread : Option ℕ := none
  ref : ℤ := 0
  threadQueue : List ℕ := []
  /-- `sleep_session[co]` is set -/
  sleepSession : ℕ → Bool := fun _ => false
  wakeupQueue : ℕ → Bool := fun _ => false
  /-- how many bodies the coroutine is in, one within the other -/
  bodies : ℕ → ℕ := fun _ => 0
  -- what has happened: first calls, first entries, releases, what callers got, failed asserts
  called : List ℕ := []
  entered : List ℕ := []
  released : List ℕ := []
  outcomes : List (ℕ × Except V (List V)) := []
  asserted : Bool := false

inductive Event (V : Type*)
  | call
  | waitReturns
  /-- the innermost body returns or raises -/
  | bodyEnds (r : Except V (List V))

abbrev Label (V : Type*) := ℕ × Event V

namespace State

variable (s : State V) (co : ℕ)

/-- `skynet.wakeup` -/
def wakeup : State V :=
  if s.sleepSession co then { s with wakeupQueue := Function.update s.wakeupQueue co true } else s

/-- From `current_thread = thread` into the body. -/
def enter : State V :=
  { s with
    currentThread := some co
    ref := s.ref + 1
    bodies := Function.update s.bodies co (s.bodies co + 1)
    entered := if s.bodies co = 0 then s.entered ++ [co] else s.entered }

def call : State V :=
  let s := if s.bodies co = 0 then { s with called := s.called ++ [co] } else s
  if s.currentThread.isSome ∧ s.currentThread ≠ some co then
    { s with
      threadQueue := s.threadQueue ++ [co]
      sleepSession := Function.update s.sleepSession co true }
  else s.enter co

/-- After `skynet.wait`. -/
def waitReturns : State V :=
  let s := { s with
    sleepSession := Function.update s.sleepSession co false
    wakeupQueue := Function.update s.wakeupQueue co false }
  if s.ref = 0 then s.enter co else { s with asserted := true }

/-- The next of `thread_queue` becomes the current thread. -/
def handOver : State V :=
  match s.threadQueue with
  | [] => { s with currentThread := none }
  | next :: rest => { s with currentThread := some next, threadQueue := rest }.wakeup next

/-- `xpcall_ret`, with what `xpcall` has made of the end of the body. -/
def xpcallRet (r : Except V (List V)) : State V :=
  let s := { s with
    ref := s.ref - 1
    bodies := Function.update s.bodies co (s.bodies co - 1) }
  let s := if s.ref = 0 then { s with released := s.released ++ [co] }.handOver else s
  { s with outcomes := s.outcomes ++ [(co, r)] }

/-- A coroutine in its wait does nothing else, and its wait ends after the wakeup only. -/
def Enabled : Event V → Prop
  | .call => s.sleepSession co = false
  | .waitReturns => s.sleepSession co = true ∧ s.wakeupQueue co = true
  | .bodyEnds _ => s.sleepSession co = false ∧ 0 < s.bodies co

instance : ∀ e, Decidable (s.Enabled co e)
  | .call | .waitReturns | .bodyEnds _ => by unfold Enabled; infer_instance

def exec (traceback : V → V) : Event V → State V
  | .call => s.call co
  | .waitReturns => s.waitReturns co
  | .bodyEnds r => s.xpcallRet co (r.mapError traceback)

def step (traceback : V → V) (s : State V) (l : Label V) : Option (State V) :=
  if s.Enabled l.1 l.2 then some (s.exec l.1 traceback l.2) else none

/-- The queue is a fair re-entrant critical section. -/
structure Fair (traceback : V → V) (s : State V) : Prop where
  exclusive : ∀ co co', 0 < s.bodies co → 0 < s.bodies co' → co = co'
  inOrder : s.entered <+: s.called
  reentrant : ∀ co, 0 < s.bodies co →
    ∃ s', s.step traceback (co, .call) = some s' ∧ s'.bodies co = s.bodies co + 1
  /-- each first entry is released once, when its body has ended, and not before -/
  releasedOnce : ∀ co, 0 < s.bodies co → s.entered = s.released ++ [co]
  allReleased : (∀ co, s.bodies co = 0) → s.entered = s.released
  reported : ∀ co r s', s.step traceback (co, .bodyEnds r) = some s' →
    s'.outcomes = s.outcomes ++ [(co, r.mapError traceback)] ∧ s'.bodies co + 1 = s.bodies co
      ∧ s'.released = s.released ++ (if s.bodies co = 1 then [co] else [])
  /-- a coroutine to which the queue has been handed over has its wakeup -/
  woken : ∀ co, s.currentThread = some co → s.bodies co = 0 →
    s.sleepSession co = true ∧ s.wakeupQueue co = true
  refZero : ∀ co, s.wakeupQueue co = true → s.ref = 0
  noAssert : s.asserted = false
  noneLeft : s.currentThread = none → s.threadQueue = [] ∧ ∀ co, s.sleepSession co = false

end State

end SerialQueue

end SkynetCpp
