import SkynetCpp.ActorSystem
import SkynetCpp.SessionRouting

/-!
# Sessions and handles

`alloc_session` and `spawn` count in 32 bits, and what they return is used as a key: a session in
`session_id_coroutine`, with 0 for none, and a handle in the registry, with 0 for no service.
-/

namespace SkynetCpp

namespace LuaService

open Lib

/-- A step of the service, or a call of `skynet.genid` by its code. -/
inductive Act
  | step (l : Label)
  | genid (co : Coroutine)
  deriving DecidableEq, Repr

instance : ∀ c : Call, Decidable c.Allocates
  | .timeout _ | .call _ | .sleep _ | .wait _ => isTrue trivial
  | .fork _ | .wakeup _ | .registerProtocol _ _ | .dispatch _ _ | .ignoreret | .ret _ | .response
  | .respond _ _ _ | .startReturns | .finish | .raise => isFalse not_false

/-- A session is allocated: it is `next_session_`. -/
def Act.Allocates : Act → Prop
  | .step (.main c) | .step (.code c) => c.Allocates
  | .step (.start _) | .genid _ => True
  | _ => False

instance : ∀ a : Act, Decidable a.Allocates
  | .step (.main c) | .step (.code c) => inferInstanceAs (Decidable c.Allocates)
  | .step (.start _) | .genid _ => isTrue trivial
  | .step .loaded | .step (.message _ _ _) | .step (.replay _ _) | .step .next
  | .step (.collect _) => isFalse not_false

namespace State

variable (s : State)

/-- The main chunk, or the coroutine that runs, goes on. -/
def act : Act → Option State
  | .step l => s.step l
  | .genid co =>
    if s.phase = .loading ∨ s.running.head? = some co then some (s.genid co) else none

/-- A session that is allocated is positive, and is not outstanding. -/
def FreshSession (a : Act) : Prop :=
  a.Allocates → 0 < s.nextSession ∧ s.sessionIdCoroutine s.nextSession = none

/-- Fewer than 2^31 - 1 sessions were allocated before. -/
def FewSessions (a : Act) : Prop := a.Allocates → s.sessions < 2 ^ 31 - 1

instance (a : Act) : Decidable (s.FewSessions a) := inferInstanceAs (Decidable (_ → _))

end State

end LuaService

namespace State

variable (s : State)

/-- The actor is neither killed, nor has its `on_init` failed. -/
def LiveActor (q : QId) : Prop :=
  q < s.spawned ∧ (s.queues q).killed = false ∧ (s.queues q).initFailed = false

/-- The handle that a successful `spawn` returns is not 0, and no other live actor's. -/
def UniqueHandles : Prop :=
  ∀ q < s.spawned, (s.queues q).initialized = true →
    (s.queues q).handle ≠ 0 ∧ ∀ q', s.LiveActor q' → q' ≠ q →
      (s.queues q').handle ≠ (s.queues q).handle

/-- Fewer than 2^32 - 1 actors were spawned before. -/
def FewSpawns (l : Label) : Prop :=
  ∀ rest, s.threads[l.1]? = some (.call .spawn :: rest) → s.spawned + 1 < 2 ^ 32

instance (l : Label) : Decidable (s.FewSpawns l) :=
  match ht : s.threads[l.1]? with
  | some (.call .spawn :: rest) =>
    decidable_of_iff (s.spawned + 1 < 2 ^ 32) ⟨fun h _ _ => h, fun h => h rest ht⟩
  | some [] | some (.worker :: _) | some (.external :: _) | some (.op _ _ :: _)
  | some (.killLogger _ :: _) | some (.killLoggerCas _ :: _) | some (.errorFind _ _ :: _)
  | some (.errorStore _ _ _ :: _) | some (.call (.send _ _) :: _) | some (.call (.kill _) :: _)
  | some (.call (.error _ _) :: _) | some (.call (.registerName _ _) :: _) | none =>
    isTrue fun rest h => by rw [ht] at h; cases h

end State

end SkynetCpp
