import SkynetCpp.LuaService

/-!
# Runs of a Lua service

What the runs of a service are to come to, and the steps that do not keep to it: those at which an
error cuts `dispatch_message` short.
-/

namespace SkynetCpp

namespace LuaService

/-- `coroutine_resume` returns true, as far as `skynet.lua` can tell. -/
def CoStatus.Resumable : CoStatus → Prop
  | .ready | .suspended _ | .pooled => True
  | _ => False

namespace State

variable (s : State)

/-- The resume that a response of this type makes of an entry raises. -/
def EntryFails (type : ℤ) : Option Entry → Prop
  | some (.thread c) => ¬ (s.status c).Resumable
  | some .broken => type = PTYPE_ERROR
  | none => False

/-- `raw_dispatch_message` raises before the code of the service runs, or finds a dead coroutine. -/
def DispatchFails (m : Message) (co : Coroutine) (unpacks : Bool) : Prop :=
  if m.type = PTYPE_RESPONSE ∨ m.type = PTYPE_ERROR then
    s.EntryFails m.type (s.sessionIdCoroutine m.session)
  else s.Dispatches m ∧ (unpacks = false ∨ ¬ (s.status co = .unborn ∨ s.status co = .pooled))

/-- The wakeup loop raises. -/
def WakeupFails : Phase → Prop
  | .wakeups (co :: _) => s.sleepSession co ≠ none ∧ ¬ (s.status co).Resumable
  | _ => False

/-- An error ends `dispatch_message`. Only the resumes of the fork loop are protected. -/
def Aborts : Label → Prop
  | .message m co unpacks => s.DispatchFails m co unpacks
  | .replay co unpacks =>
    s.phase ≠ .forked ∧ ∃ m ∈ s.queue.head?, s.DispatchFails m co unpacks
  | .code c => s.phase ≠ .forked ∧ c = .raise
  | .next => s.WakeupFails s.phase
  | _ => False

/-- `wakeup_queue` without what the step takes out. -/
def leftover : Label → List Coroutine
  | .next =>
    match s.phase with
    | .wakeups (co :: _) => s.wakeupQueue.erase co
    | _ => s.wakeupQueue
  | _ => s.wakeupQueue

/-- Where an error ends `dispatch_message`, nothing is left in its queues. -/
def Unhurt (s : State) (l : Label) : Prop := s.Aborts l → s.forkQueue = [] ∧ s.leftover l = []

instance : ∀ st : CoStatus, Decidable st.Resumable
  | .ready | .suspended _ | .pooled => isTrue trivial
  | .unborn | .running | .normal | .spoiled | .dead => isFalse id

instance (type : ℤ) : ∀ e, Decidable (s.EntryFails type e)
  | some (.thread c) => inferInstanceAs (Decidable (¬ (s.status c).Resumable))
  | some .broken => inferInstanceAs (Decidable (type = PTYPE_ERROR))
  | none => isFalse id

instance (m : Message) (co : Coroutine) (unpacks : Bool) :
    Decidable (s.DispatchFails m co unpacks) := by
  unfold DispatchFails
  infer_instance

instance : ∀ p, Decidable (s.WakeupFails p)
  | .wakeups (co :: _) =>
    inferInstanceAs (Decidable (s.sleepSession co ≠ none ∧ ¬ (s.status co).Resumable))
  | .wakeups [] | .loading | .idle | .handler | .forks | .forked | .woken _ => isFalse id

instance : DecidablePred s.Aborts
  | .message m co unpacks => inferInstanceAs (Decidable (s.DispatchFails m co unpacks))
  | .replay _ _ => inferInstanceAs (Decidable (s.phase ≠ .forked ∧ ∃ m ∈ s.queue.head?, _))
  | .code c => inferInstanceAs (Decidable (s.phase ≠ .forked ∧ c = .raise))
  | .next => inferInstanceAs (Decidable (s.WakeupFails s.phase))
  | .main _ | .start _ | .loaded | .collect _ => isFalse id

instance (l : Label) : Decidable (s.Unhurt l) := by
  unfold Unhurt
  infer_instance

/-- `dispatch_message` has returned, or raised, and each coroutine that was ever put into one of
the queues has been taken out of it and resumed, or found not to sleep, as often. -/
def Drained (s : State) : Prop :=
  s.phase = .idle → (∃ m started, .called m started ∈ s.log) →
    s.forkQueue = [] ∧ s.wakeupQueue = [] ∧ ∀ co,
      s.log.count (.forkResumed co) = s.log.count (.forked co) ∧
        s.log.count (.taken co) = s.log.count (.queued co)

end State

end LuaService

end SkynetCpp
