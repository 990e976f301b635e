import SkynetCpp.Counters

/-!
# Names, and what becomes of errors

The actor system with a history of the calls of `error`. A call goes from `error` to the end of
`push_message`, on one thread, or to `stderr`; the history follows it there and decides nothing.
-/

namespace SkynetCpp

open Lib

/-- What has become of a call of `error`. -/
inductive Report
  /-- on `stderr` -/
  | printed
  /-- in the mailbox of queue `q`, and whether its actor was live -/
  | mailed (q : QId) (live : Bool)
  /-- freed by `push_message` -/
  | refused
  deriving DecidableEq, Repr

def Report.Arrived : Report → Prop
  | .printed | .mailed _ true => True
  | .mailed _ false | .refused => False

namespace State

variable (s : State)

instance (q : QId) : Decidable (s.LiveActor q) := inferInstanceAs (Decidable (_ ∧ _ ∧ _))

/-- The handle is that of a live actor. -/
def Alive (h : Handle) : Prop := ∃ q, s.registry h = some q ∧ s.LiveActor q

/-- The actor to which the handle was given last has been killed. -/
def Dead (h : Handle) : Prop :=
  ∃ q < s.spawned, (s.queues q).handle = h ∧ (s.queues q).killed = true ∧
    ∀ q' < s.spawned, (s.queues q').handle = h → q' ≤ q

/-- How a call of `error` ends in an access, if it does. -/
def outcome : Frame → Option Report
  | .errorFind _ _ => if s.names (ascii "logger") = 0 then some .printed else none
  | .call (.send dest _) => if s.registry dest = none then some .refused else none
  | .op q (.pushAccepting _) => if (s.queues q).accepting then none else some .refused
  | .op q (.pushEnqueue _) => some (.mailed q (s.LiveActor q))
  | _ => none

/-- Where a call of `error` is going. -/
def target : Frame → Option Handle
  | .errorStore _ _ h | .call (.send h _) => some h
  | .op q _ => some (s.queues q).handle
  | _ => none

end State

structure Reported where
  state : State
  /-- the threads in a call of `error` -/
  reporting : ℕ → Bool := fun _ => false
  reports : List Report := []

namespace Reported

def init (n m : ℕ) : Reported where
  state := .init n m

def step (s : Reported) (l : State.Label) : Option Reported :=
  (s.state.step l).map fun state =>
    match s.state.threads[l.1]? with
    | some (.call (.error _ _) :: _) =>
      { s with state, reporting := Function.update s.reporting l.1 true }
    | some (f :: _) =>
      match s.reporting l.1, s.state.outcome f with
      | true, some r =>
        { state
          reporting := Function.update s.reporting l.1 false
          reports := s.reports ++ [r] }
      | _, _ => { s with state }
    | _ => { s with state }

variable (s : Reported)

/-- The thread is in a call of `error`, at this point of the code. -/
def ReportsAt (tid : ℕ) (f : Frame) : Prop :=
  s.reporting tid = true ∧ (s.state.threads[tid]?).bind List.head? = some f

/-- The handle is that of the logger, or a call of `error` is on its way there. -/
def Aimed (h : Handle) : Prop :=
  h ≠ 0 ∧ (s.state.loggerHandle = h ∨ s.state.names (ascii "logger") = h ∨
    ∃ tid f, s.ReportsAt tid f ∧ s.state.target f = some h)

/-- No name is that of an actor that was killed. No call of `error` is lost: it has been printed or
mailed to a live actor, or it is in `error`, or in the `push_message` that `error` calls. -/
structure NamesSafe : Prop where
  names : ∀ name, s.state.names name ≠ 0 → ¬ s.state.Dead (s.state.names name)
  reports : ∀ r ∈ s.reports, r.Arrived
  pending : ∀ tid, s.reporting tid = true → ∃ f, s.ReportsAt tid f ∧
    match f with
    | .errorFind _ _ | .errorStore _ _ _ | .call (.send _ _) | .op _ (.pushAccepting _)
    | .op _ (.pushEnqueue _) => True
    | _ => False

/-- No actor is killed that has a name; none that is the logger, or that an error is on its way to,
is killed or fails in `on_init`. A name is registered for no actor that was killed, and that of the
logger for a live actor only. -/
def Careful (s : Reported) (l : State.Label) : Prop :=
  ∀ f, (s.state.threads[l.1]?).bind List.head? = some f →
    match f, l.2 with
    | .call (.kill h), _ => s.state.registry h ≠ none →
      (∀ name, s.state.names name = h → h = 0) ∧ ¬ s.Aimed h
    | .call (.registerName name h), _ => h ≠ 0 →
      ¬ s.state.Dead h ∧ (name = ascii "logger" → s.state.Alive h)
    | .op q .onInit, .failInit | .op q .spawnMark, _ => ¬ s.Aimed (s.state.queues q).handle
    | _, _ => True

end Reported

end SkynetCpp
