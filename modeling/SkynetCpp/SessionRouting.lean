import SkynetCpp.LuaService

/-!
# The sessions of a Lua service

What a session is for: the coroutine that has allocated it is resumed by a response or an error of
that session, or, where it sleeps, by a wakeup. -/

namespace SkynetCpp

namespace LuaService

/-- A session that `sleep_session` holds for the coroutine. -/
def CoStatus.sleeps : CoStatus → Option ℤ
  | .suspended (.sleep session) | .suspended (.wait session _) => some session
  | _ => none

/-- With what `skynet.wakeup` is called to wake the coroutine, and the session there is for it. -/
def CoStatus.waits (co : Coroutine) : CoStatus → Option (Coroutine × ℤ)
  | .suspended (.sleep session) => some (co, session)
  | .suspended (.wait session token) => some (token, session)
  | _ => none

/-- The session of which the event ends the suspension. -/
def Event.ends : Event → Option ℤ
  | .resumed _ m => some m.session
  | .woken _ (.suspended why) => some why.session
  | _ => none

def Event.IsAllocated : Event → Bool
  | .allocated _ _ => true
  | _ => false

/-- The event resumes the coroutine, which was made before. -/
def Event.resumes (co : Coroutine) : Event → Bool
  | .resumed c _ | .forkResumed c | .woken c _ => c = co
  | _ => false

/-- The call allocates a session. -/
def Call.Allocates : Call → Prop
  | .timeout _ | .call _ | .sleep _ | .wait _ => True
  | _ => False

namespace State

variable (s : State)

/-- How many sessions were allocated. -/
def sessions : ℕ := s.log.countP Event.IsAllocated

/-- Waits are for the coroutine that waits, and no call raises before it suspends. -/
def Direct (_ : State) : Label → Prop
  | .code (.call sends) => sends = true
  | .code (.sleep sets) => sets = true
  | .code (.wait token) => token = none
  | _ => True

/-- A coroutine that is suspended has one session, and is resumed by a message of that session only,
and once; what is in the pool has nothing left from its former use. -/
structure Routes (s : State) : Prop where
  suspended : ∀ co why, s.status co = .suspended why →
    ∀ session, s.sessionIdCoroutine session = some (.thread co) ↔ session = why.session
  owner : ∀ co co' session, .allocated co session ∈ s.log → .allocated co' session ∈ s.log →
    co = co'
  resumed : ∀ co m, .resumed co m ∈ s.log → .allocated co m.session ∈ s.log
  once : ∀ session, s.log.countP (fun e => e.ends = some session) ≤ 1
  answered : ∀ m co unpacks s', m.type = PTYPE_RESPONSE ∨ m.type = PTYPE_ERROR →
    step s (.message m co unpacks) = some s' →
    s'.sessionIdCoroutine m.session = none ∧
    match s.sessionIdCoroutine m.session with
    | some (.thread c) => s'.running = [c] ∧ s'.status c = .running ∧
        s'.log = s.log ++ [.called m s.serviceStarted, .resumed c m]
    | some .broken | none => s'.running = [] ∧ s'.log = s.log ++ [.called m s.serviceStarted]
  pooled : ∀ co ∈ s.coroutinePool, s.sessionCoroutineId co = none ∧
    s.sessionCoroutineAddress co = none ∧ s.sleepSession co = none ∧
    ∀ session, s.sessionIdCoroutine session ≠ some (.thread co)

/-- What becomes of the coroutine that a `skynet.wakeup` was for: it is resumed by the wakeup loop,
from the suspension that had this session; or it is still there, and to be resumed. -/
def Ended (token : Coroutine) (session : ℤ) (co : Coroutine) : Option Event → Prop
  | some e => ∃ st, e = .woken co st ∧ st.waits co = some (token, session)
  | none => token ∈ s.wakeupQueue ∧ (s.status co).waits co = some (token, session)

/-- `skynet.wakeup` returns true only where a coroutine sleeps, or waits for the token; it ends that
suspension, before anything else resumes the coroutine, and no other. -/
structure Paired (s : State) : Prop where
  pending : ∀ token session, s.sleepSession token = some session →
    ∃ co, (s.status co).waits co = some (token, session)
  ended : ∀ l₁ l₂ token session, s.log = l₁ ++ .wakeup token session :: l₂ →
    ∃ co, s.Ended token session co (l₂.find? (Event.resumes co))
  woken : ∀ l₁ l₂ co st, s.log = l₁ ++ .woken co st :: l₂ →
    ∃ token session a b, st.waits co = some (token, session) ∧
      l₁ = a ++ .wakeup token session :: b ∧ b.find? (Event.resumes co) = none

/-- The entry is that of the suspension of its coroutine, or of one that has not begun. -/
def Current (session : ℤ) : Option Entry → Prop
  | some (.thread c) =>
    match s.status c with
    | .ready => c ∉ s.forkQueue
    | .suspended why => why.session = session
    | _ => False
  | some .broken | none => True

/-- The message resumes no coroutine that is to be woken. -/
def Undue : Option Entry → Prop
  | some (.thread c) => c ∉ s.wakeupQueue
  | some .broken | none => True

/-- The call, if it allocates a session, gets one that is not in use; `self` waits for itself, and
sleeps with a timer. -/
def Safe (self : Coroutine) : Call → Prop
  | .timeout _ | .call _ => s.sessionIdCoroutine s.nextSession = none
  | .sleep sets => s.sessionIdCoroutine s.nextSession = none ∧ sets = true
  | .wait token => s.sessionIdCoroutine s.nextSession = none ∧ (token = none ∨ token = some self)
  | _ => True

/-- Sessions are not in use when they are allocated, waits are for the coroutine that waits, no
sleep goes without a timer, and a response or an error resumes a coroutine only from the suspension
its session is for. -/
def Regular (s : State) : Label → Prop
  | .main c => s.Safe 0 c
  | .start _ => s.sessionIdCoroutine s.nextSession = none
  | .code c => ∀ self ∈ s.running.head?, s.Safe self c
  | .message m _ _ => m.type = PTYPE_RESPONSE ∨ m.type = PTYPE_ERROR →
    s.Current m.session (s.sessionIdCoroutine m.session)
  | _ => True

/-- The step is regular, and a response or an error resumes no coroutine that is to be woken. -/
def Timely (s : State) (l : Label) : Prop :=
  s.Regular l ∧ match l with
    | .message m _ _ => m.type = PTYPE_RESPONSE ∨ m.type = PTYPE_ERROR →
      s.Undue (s.sessionIdCoroutine m.session)
    | _ => True

section Decidable

instance (l : Label) : Decidable (s.Direct l) := by
  unfold Direct
  split <;> infer_instance

instance (session : ℤ) : ∀ e, Decidable (s.Current session e)
  | some (.thread c) => by
    unfold Current
    dsimp only
    cases s.status c <;> infer_instance
  | some .broken | none => isTrue trivial

instance : ∀ e, Decidable (s.Undue e)
  | some (.thread c) => inferInstanceAs (Decidable (c ∉ s.wakeupQueue))
  | some .broken | none => isTrue trivial

instance (self : Coroutine) : ∀ c, Decidable (s.Safe self c)
  | .timeout _ | .call _ => inferInstanceAs (Decidable (s.sessionIdCoroutine s.nextSession = none))
  | .sleep _ | .wait _ => inferInstanceAs (Decidable (_ ∧ _))
  | .fork _ | .wakeup _ | .registerProtocol _ _ | .dispatch _ _ | .ignoreret | .ret _ | .response
  | .respond _ _ _ | .startReturns | .finish | .raise => isTrue trivial

instance : DecidablePred s.Regular
  | .main c => inferInstanceAs (Decidable (s.Safe 0 c))
  | .start _ => inferInstanceAs (Decidable (s.sessionIdCoroutine s.nextSession = none))
  | .code c => inferInstanceAs (Decidable (∀ self ∈ s.running.head?, s.Safe self c))
  | .message m _ _ =>
    inferInstanceAs (Decidable (m.type = PTYPE_RESPONSE ∨ m.type = PTYPE_ERROR → s.Current _ _))
  | .loaded | .replay _ _ | .next | .collect _ => isTrue trivial

instance : DecidablePred s.Timely
  | .message m _ _ => inferInstanceAs (Decidable (s.Regular _ ∧
    (m.type = PTYPE_RESPONSE ∨ m.type = PTYPE_ERROR → s.Undue _)))
  | .main _ | .start _ | .code _ | .loaded | .replay _ _ | .next | .collect _ =>
    inferInstanceAs (Decidable (s.Regular _ ∧ True))

end Decidable

end State

end LuaService

end SkynetCpp
