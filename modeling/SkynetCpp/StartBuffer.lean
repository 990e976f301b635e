import SkynetCpp.LuaService

/-!
# What arrives before a service has started

A request that finds no dispatch function before the function of `skynet.start` has returned waits
in `pending_messages`, and `dispatch_pending_messages` hands it on when it has.
-/

namespace SkynetCpp

namespace LuaService

/-- The request of this type for which the callback is called, before the start or after it. -/
def Event.arrival (type : ℤ) (started : Bool) : Event → Option Message
  | .called m started' => if m.type = type ∧ started' = started then some m else none
  | _ => none

/-- The request of this type that is handed to the dispatch function. -/
def Event.handover (type : ℤ) : Event → Option Message
  | .handed m => if m.type = type then some m else none
  | _ => none

namespace State

variable (s : State)

/-- The requests of the type that have arrived, before the start has completed, or after. -/
def arrived (type : ℤ) (started : Bool) : List Message :=
  s.log.filterMap (Event.arrival type started)

/-- The requests of the type that were handed to the dispatch function. -/
def handed (type : ℤ) : List Message := s.log.filterMap (Event.handover type)

/-- The function of `skynet.start` has raised. -/
def Failed : Prop := s.serviceStarted = false ∧ ∃ co ∈ s.starter, s.status co = .dead

/-- Between callbacks of a service that has started, each request that has arrived before was handed
to the dispatch function of its type, once, in the order of arrival, before those that have arrived
after; and where the start has failed, what was buffered is answered. -/
structure Replayed (s : State) : Prop where
  ordered : s.phase = .idle → s.serviceStarted = true →
    ∀ type, type ≠ PTYPE_RESPONSE → type ≠ PTYPE_ERROR →
      ∃ l, l.Sublist (s.arrived type true) ∧ s.handed type = s.arrived type false ++ l
  refused : s.Failed → ∀ m, .buffered m ∈ s.log → m.session ≠ 0 →
    ∃ n, .answered n { address := m.source, type := PTYPE_ERROR, session := m.session } ∈ s.log

/-- The coroutine takes what `raw_dispatch_message` gives it. -/
def Takes (co : Coroutine) (unpacks : Bool) : Prop :=
  unpacks = true ∧ (s.status co = .unborn ∨ s.status co = .pooled)

/-- A request is handed on at once only where none of its type is buffered, what is buffered finds a
dispatch function, nothing is buffered that is to be answered when the start fails or after, and
nothing raises while `dispatch_pending_messages` has more to dispatch. -/
def Smooth (s : State) : Label → Prop
  | .message m co unpacks =>
    s.serviceStarted = false → m.type ≠ PTYPE_RESPONSE → m.type ≠ PTYPE_ERROR →
      if s.proto m.type = some true then
        (∀ m' ∈ s.pendingMessages, m'.type ≠ m.type) ∧ s.Takes co unpacks
      else s.Failed → m.session = 0
  | .replay co unpacks => ∀ m ∈ s.queue.head?, s.proto m.type = some true ∧ s.Takes co unpacks
  | .code .raise => s.queue = [] ∧ ∀ self ∈ s.running.head?,
      s.starter = some self → s.serviceStarted = false → ∀ m ∈ s.pendingMessages, m.session = 0
  | _ => True

instance : Decidable s.Failed := by
  unfold Failed
  infer_instance

instance (co : Coroutine) (unpacks : Bool) : Decidable (s.Takes co unpacks) :=
  inferInstanceAs (Decidable (_ ∧ _))

instance : DecidablePred s.Smooth
  | .message _ _ _ => inferInstanceAs (Decidable (_ → _ → _ → _))
  | .replay _ _ => inferInstanceAs (Decidable (∀ m ∈ s.queue.head?, _))
  | .code .raise => inferInstanceAs (Decidable (_ ∧ ∀ self ∈ s.running.head?, _))
  | .code (.fork _) | .code (.timeout _) | .code (.wakeup _) | .code (.registerProtocol _ _)
  | .code (.dispatch _ _) | .code (.call _) | .code (.sleep _) | .code (.wait _)
  | .code .ignoreret | .code (.ret _) | .code .response | .code (.respond _ _ _)
  | .code .startReturns | .code .finish | .main _ | .start _ | .loaded | .next | .collect _ =>
    isTrue trivial

end State

end LuaService

end SkynetCpp
