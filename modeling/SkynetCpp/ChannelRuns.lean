import SkynetCpp.SocketChannel

/-!
# Runs of a socket channel

A channel in session mode with its dispatchers and the coroutines that wait in `channel:request`.
What happens between two suspensions is one step, or several; a new connection has an id that no
earlier one had. The response callback is outside: it returns a response or nothing or raises,
whenever it does, also after its connection is closed, or it never returns.
-/

namespace SkynetCpp

namespace SocketChannel

variable {α ε : Type}

/-- What a coroutine is told of a failure: what the callback raised, or a text of the channel. -/
inductive ErrMsg (ε : Type)
  | raised (e : ε)
  | text (s : String)
  deriving DecidableEq, Repr

/-- A request whose coroutine waits: its number, where it was sent, and the responses of its session
since, as the callback returned them. -/
structure Request (α : Type) where
  index : ℕ
  session : ℕ
  conn : ℤ
  responses : List (Decoded α) := []
  deriving DecidableEq, Repr

/-- What `channel:request` found when it was resumed, and whether its connection was gone. -/
structure Outcome (α ε : Type) where
  request : Request α
  ok : Option Bool
  data : Option (ResultData α (ErrMsg ε))
  gone : Bool
  deriving DecidableEq, Repr

structure State (α ε : Type) where
  channel : Channel α (ErrMsg ε) := .init
  connections : List ℤ := []
  /-- dispatchers that have not begun, and those in the response callback, by connection -/
  forked : List ℤ := []
  dispatchers : List ℤ := []
  waiting : Coroutine → Option (Request α) := fun _ => none
  /-- `wakeup_queue` -/
  woken : Coroutine → Bool := fun _ => false
  sent : ℕ := 0
  outcomes : List (Outcome α ε) := []

/-- What closes the connection and wakes nobody. -/
inductive Closer
  | changehost
  | connect
  | auth
  deriving DecidableEq, Repr

inductive Label (α ε : Type)
  | connected (c : ℤ)
  | startDispatch (c : ℤ)
  | request (session : ℕ) (co : Coroutine)
  | callback (c : ℤ) (r : Except ε (Option (Decoded α)))
  | close
  | closeSocket (closer : Closer)
  | resume (co : Coroutine)
  /-- the wait ends without a wakeup of the channel: its timer, or another's wakeup -/
  | interrupt (co : Coroutine)
  deriving DecidableEq, Repr

namespace State

variable (s : State α ε)

/-- `skynet.wakeup`, of each. -/
def wakeup (cos : List Coroutine) : State α ε :=
  { s with woken := fun co => s.woken co || (decide (co ∈ cos) && (s.waiting co).isSome) }

/-- `close_channel_socket` and `wakeup_all` -/
def closeAll (errmsg : ErrMsg ε) : State α ε :=
  let (channel, cos) := s.channel.closeSocket.wakeupAll errmsg
  { s with channel }.wakeup cos

/-- A response is seen by the requests of its session that are not answered yet. -/
def record (r : Decoded α) : State α ε :=
  { s with waiting := fun co => (s.waiting co).map fun w =>
      if w.session = r.session ∧ s.woken co = false then
        { w with responses := w.responses ++ [r] }
      else w }

/-- One round of `dispatch_by_session`, from where the callback returns. -/
def dispatch (c : ℤ) : Except ε (Option (Decoded α)) → State α ε
  | .error e => { s with dispatchers := s.dispatchers.erase c }.closeAll (.raised e)
  | .ok none => { s with dispatchers := s.dispatchers.erase c }.closeAll (.text "closed by remote")
  | .ok (some r) =>
    let (channel, co) := s.channel.respond r
    let s := { s.record r with channel }.wakeup co.toList
    if s.channel.connId = some c then s else { s with dispatchers := s.dispatchers.erase c }

/-- The end of `channel:request`, after its wait. -/
def finish (co : Coroutine) : State α ε :=
  match s.waiting co with
  | some w =>
    let (channel, ok, data) := s.channel.collect co
    { s with
      channel
      waiting := Function.update s.waiting co none
      woken := Function.update s.woken co false
      outcomes := s.outcomes ++ [⟨w, ok, data, s.channel.connId ≠ some w.conn⟩] }
  | none => s

def Enabled : Label α ε → Prop
  | .connected c => s.channel.connId = none ∧ c ∉ s.connections
  | .startDispatch c => c ∈ s.forked
  | .request session co =>
    s.channel.connId ≠ none ∧ s.waiting co = none ∧ s.channel.waiter session = none
  | .callback c _ => c ∈ s.dispatchers
  | .close | .closeSocket _ => True
  | .resume co => s.woken co = true
  | .interrupt co => s.waiting co ≠ none ∧ s.woken co = false

def exec : Label α ε → State α ε
  | .connected c =>
    { s with
      channel := { s.channel with connId := some c }
      connections := c :: s.connections
      forked := c :: s.forked }
  | .startDispatch c =>
    let s := { s with forked := s.forked.erase c }
    if s.channel.connId = some c then { s with dispatchers := c :: s.dispatchers } else s
  | .request session co =>
    { s with
      channel := s.channel.pushResponse session co
      waiting := Function.update s.waiting co
        (s.channel.connId.map fun conn => { index := s.sent, session, conn })
      sent := s.sent + 1 }
  | .callback c r => s.dispatch c r
  | .close => s.closeAll (.text "channel closed")
  | .closeSocket _ => { s with channel := s.channel.closeSocket }
  | .resume co | .interrupt co => s.finish co

instance : ∀ l, Decidable (s.Enabled l)
  | .connected _ | .startDispatch _ | .request _ _ | .callback _ _ | .close | .closeSocket _
  | .resume _ | .interrupt _ => by unfold Enabled; infer_instance

def step (s : State α ε) (l : Label α ε) : Option (State α ε) :=
  if s.Enabled l then some (s.exec l) else none

/-- No connection is closed over a request that waits, but by `close()` or by its dispatcher, and no
wait is interrupted. -/
def Quiet (s : State α ε) : Label α ε → Prop
  | .closeSocket _ => ∀ co, s.waiting co ≠ none → s.woken co = true
  | .interrupt _ => False
  | _ => True

end State

/-- What a response in several parts, or in one, comes to. -/
def answer : List (Decoded α) → ResultData α (ErrMsg ε)
  | [r] => .data r.data
  | rs => .parts (rs.map Decoded.data)

/-- The request got the whole response of its session, or an error after its connection was gone. -/
def Outcome.Right (o : Outcome α ε) : Prop :=
  (∀ r ∈ o.request.responses, r.session = o.request.session) ∧
    ((∃ parts last, o.request.responses = parts ++ [last] ∧ (∀ r ∈ parts, r.padding = true) ∧
        last.padding = false ∧ o.ok = some last.ok ∧ o.data = some (answer (parts ++ [last])))
      ∨ (∀ r ∈ o.request.responses, r.padding = true) ∧ o.gone = true ∧ o.ok = some false ∧
        ∃ errmsg, o.data = some (.error errmsg))

namespace State

/-- Each request is answered once and rightly: one that still waits has been woken, or it is in the
table and its connection is the channel's, with a dispatcher. -/
structure Answered (s : State α ε) : Prop where
  served : ∀ co w, s.waiting co = some w → s.woken co = true ∨
    s.channel.waiter w.session = some co ∧ s.channel.connId = some w.conn
      ∧ (w.conn ∈ s.forked ∨ w.conn ∈ s.dispatchers)
  right : ∀ o ∈ s.outcomes, o.Right
  once : (s.outcomes.map fun o => o.request.index).Nodup
  counted : ∀ n, n < s.sent ↔ (∃ o ∈ s.outcomes, o.request.index = n)
    ∨ ∃ co w, s.waiting co = some w ∧ w.index = n
  notTwice : ∀ co w, s.waiting co = some w → ∀ o ∈ s.outcomes, o.request.index ≠ w.index
  clean : ∀ co, s.waiting co = none →
    s.channel.result co = none ∧ s.channel.resultData co = none

end State

end SocketChannel

end SkynetCpp
