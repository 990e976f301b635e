import SkynetCpp.StartBuffer

/-!
# The answers to requests

A request with a session is owed one answer. The coroutine that handles it sends it by `skynet.ret`,
or a function that `skynet.response` has returned does; and where there is no dispatch function, or
the handler raises before it has replied, the request is owed an error.
-/

namespace SkynetCpp

namespace LuaService

/-- What the request is answered by, with a reply or an error. -/
def answerTo (m : Message) (type : ℤ) : Answer :=
  { address := m.source, type, session := m.session }

/-- An answer to the request `n`. -/
def Event.answer (n : ℕ) : Event → Option Answer
  | .answered n' a => if n' = n then some a else none
  | _ => none

namespace State

variable (s : State)

/-- The answers to the request `n`. -/
def answers (n : ℕ) : List Answer := s.log.filterMap (Event.answer n)

/-- Only requests with a session are answered, each at most once, by a reply or an error that
carries the session to the source; and where a request finds no dispatch function, or what handles
it raises with no reply sent, by one error. -/
structure Answered (s : State) : Prop where
  once : ∀ n, s.answers n = [] ∨ ∃ m, s.requests[n]? = some m ∧ m.session ≠ 0 ∧
    ∃ type, (type = PTYPE_RESPONSE ∨ type = PTYPE_ERROR) ∧ s.answers n = [answerTo m type]
  failed : ∀ n m, s.requests[n]? = some m → m.session ≠ 0 → .failed n ∈ s.log →
    s.answers n = [answerTo m PTYPE_ERROR]

/-- The request is for a type that was never registered, is buffered, or comes to its handler; or it
has no session. -/
def Admits (m : Message) (co : Coroutine) (unpacks : Bool) : Prop :=
  m.type ≠ PTYPE_RESPONSE → m.type ≠ PTYPE_ERROR → m.session ≠ 0 →
    (s.proto m.type = some false → s.serviceStarted = false) ∧
      (s.proto m.type = some true → s.Takes co unpacks)

/-- The coroutine has no session that it is to reply to. -/
def OwesNone (co : Coroutine) : Prop := ∀ session ∈ s.sessionCoroutineId co, session = 0

/-- The function of `skynet.response` has sent what it sends. -/
def Spent (i : ℕ) : Prop := ∀ r ∈ s.responses[i]?, r.sent = true

/-- The call does not raise where an answer is due. -/
def Settles (self : Coroutine) : Call → Prop
  | .raise => s.OwesNone self
  | .ret sends => sends = true ∨ s.OwesNone self
  | .respond i _ sends => sends = true ∨ s.Spent i
  | _ => True

/-- No request with a session finds a protocol with no dispatch function, or a coroutine that does
not take it, and nothing raises from where it is unpacked until it is answered. -/
def Diligent (s : State) : Label → Prop
  | .message m co unpacks => s.Admits m co unpacks
  | .replay co unpacks => ∀ m ∈ s.queue.head?, s.Admits m co unpacks
  | .code c => ∀ self ∈ s.running.head?, s.Settles self c
  | _ => True

instance (m : Message) (co : Coroutine) (unpacks : Bool) : Decidable (s.Admits m co unpacks) := by
  unfold Admits
  infer_instance

instance (co : Coroutine) : Decidable (s.OwesNone co) := by
  unfold OwesNone
  infer_instance

instance (i : ℕ) : Decidable (s.Spent i) := by
  unfold Spent
  infer_instance

instance (self : Coroutine) : ∀ c, Decidable (s.Settles self c)
  | .raise => inferInstanceAs (Decidable (s.OwesNone self))
  | .ret sends => inferInstanceAs (Decidable (sends = true ∨ s.OwesNone self))
  | .respond i _ sends => inferInstanceAs (Decidable (sends = true ∨ s.Spent i))
  | .fork _ | .timeout _ | .wakeup _ | .registerProtocol _ _ | .dispatch _ _ | .call _ | .sleep _
  | .wait _ | .ignoreret | .response | .startReturns | .finish => isTrue trivial

instance : DecidablePred s.Diligent
  | .message m co unpacks => inferInstanceAs (Decidable (s.Admits m co unpacks))
  | .replay co unpacks => inferInstanceAs (Decidable (∀ m ∈ s.queue.head?, s.Admits m co unpacks))
  | .code c => inferInstanceAs (Decidable (∀ self ∈ s.running.head?, s.Settles self c))
  | .main _ | .start _ | .loaded | .next | .collect _ => isTrue trivial

end State

end LuaService

end SkynetCpp
