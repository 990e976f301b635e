import SkynetCpp.Lib.Runs
import Mathlib.Data.Rat.Defs
import Mathlib.Logic.Function.Basic

/-!
# lua_profile

`profile.start`, `stop`, `resume` and `wrap` of one Lua state. The two tables from a coroutine to
its start time and its total time are functions. The coroutines that are running are a stack: the
one whose code runs, the one that waits for it to yield, and so on down to the main thread. Clock
readings are rationals that do not decrease; a resume and what it reads of the clock, and a yield
and what is read after it, are at one moment each.
-/

namespace SkynetCpp

open Lib

namespace Profile

/-- A Lua thread. -/
abbrev Thread := ℕ

/-- It is never resumed and never yields. -/
def main : Thread := 0

structure State where
  clock : ℚ := 0
  stack : List Thread := [main]
  /-- coroutines that have returned or raised -/
  dead : Thread → Bool := fun _ => false
  startTime : Thread → Option ℚ := fun _ => none
  totalTime : Thread → Option ℚ := fun _ => none
  /-- for how long a coroutine has been running since its last `profile.start` -/
  ran : Thread → ℚ := fun _ => 0

inductive Label
  | tick (d : ℚ)
  /-- `profile.resume(co)`, or a call of what `profile.wrap` made of `co` -/
  | resume (co : Thread)
  | yield
  /-- the running coroutine returns or raises -/
  | finish
  | start (co : Thread)
  | stop (co : Thread)

/-- `diff_time`, where `get_time` reads `now`. -/
def diffTime (now start : ℚ) : ℚ := if now < start then now + 0x10000 - start else now - start

namespace State

/-- `timing_total`: `lua_tonumber` of nil is 0. -/
def timingTotal (s : State) (co : Thread) : ℚ := (s.totalTime co).getD 0

/-- What `timing_resume` does before `auxresume`. -/
def beforeResume (s : State) (co : Thread) : State :=
  match s.startTime co with
  | some _ => { s with startTime := Function.update s.startTime co (some s.clock) }
  | none => s

/-- And what it does afterwards. -/
def afterResume (s : State) (co : Thread) : State :=
  match s.startTime co with
  | some start =>
    { s with
      totalTime :=
        Function.update s.totalTime co (some (s.timingTotal co + diffTime s.clock start)) }
  | none => s

def lstart (s : State) (co : Thread) : Except String State :=
  match s.startTime co with
  | some _ => .error s!"Thread {co} start profile more than once"
  | none =>
    .ok { s with
      totalTime := Function.update s.totalTime co (some 0)
      startTime := Function.update s.startTime co (some s.clock) }

def lstop (s : State) (co : Thread) : Except String (ℚ × State) :=
  match s.startTime co with
  | none => .error "Call profile.start() before profile.stop()"
  | some start =>
    let ti := diffTime s.clock start
    let total := s.timingTotal co
    .ok (total + ti,
      { s with
        startTime := Function.update s.startTime co none
        totalTime := Function.update s.totalTime co none })

/-- The running coroutine gives up to the one that resumed it. -/
def leave (s : State) : Option (Thread × State) :=
  match s.stack with
  | co :: resumer :: rest => some (co, { s with stack := resumer :: rest }.afterResume co)
  | _ => none

def step (s : State) : Label → Option State
  | .tick d =>
    if 0 ≤ d then
      some { s with
        clock := s.clock + d
        ran := fun co => if co ∈ s.stack then s.ran co + d else s.ran co }
    else none
  | .resume co =>
    let s := s.beforeResume co
    -- `lua_resume` refuses a coroutine that is not suspended
    if co ∈ s.stack ∨ s.dead co then some (s.afterResume co)
    else some { s with stack := co :: s.stack }
  | .yield => s.leave.map (·.2)
  | .finish => s.leave.map fun r => { r.2 with dead := Function.update r.2.dead r.1 true }
  | .start co =>
    match s.lstart co with
    | .ok s => some { s with ran := Function.update s.ran co 0 }
    | .error _ => some s
  | .stop co =>
    match s.lstop co with
    | .ok r => some r.2
    | .error _ => some s

/-- `profile.stop(co)` returns for how long `co` was running. -/
def StopsRight (s : State) (co : Thread) : Prop :=
  ∃ s', s.lstop co = .ok (s.ran co, s')

/-- Nobody tries to resume a running coroutine that is profiled, but at the moment of its last
start or resume. -/
def Calm (s : State) : Label → Prop
  | .resume co => ∀ start ∈ s.startTime co, co ∈ s.stack → s.clock = start
  | _ => True

instance (s : State) (l : Label) : Decidable (s.Calm l) := by
  cases l <;> unfold Calm <;> infer_instance

end State

end Profile

end SkynetCpp
