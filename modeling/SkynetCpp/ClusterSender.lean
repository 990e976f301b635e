import SkynetCpp.LuaBuffer
import SkynetCpp.SocketChannel

/-!
# The cluster sender

`clustersender.lua`: the requests to one node, over a channel whose responses are read by
`cluster.unpackresponse`, and what a requester is sent when its response has arrived.
-/

namespace SkynetCpp

namespace ClusterSender

open Cluster SocketChannel

variable {ε : Type}

/-- What `read_response` returns of a packet that is a response. -/
def decoded (r : Response) : Decoded Part where
  session := r.session
  ok := r.ok
  data := r.data
  padding := r.padding

/-- What happens to the channel between the request and its answer: a response is dispatched, a
coroutine sends a request, or it takes its result. -/
inductive Event
  | response (r : Response)
  | request (session : ℕ) (co : Coroutine)
  | collect (co : Coroutine)
  deriving DecidableEq, Repr

def handle (ch : Channel Part ε) : Event → Channel Part ε
  | .response r => (ch.respond (decoded r)).1
  | .request session co => ch.pushResponse session co
  | .collect co => (ch.collect co).1

def handleAll (ch : Channel Part ε) (events : List Event) : Channel Part ε :=
  events.foldl handle ch

/-- The responses of a session. -/
def responsesOf (session : ℕ) (events : List Event) : List Response :=
  events.filterMap fun
    | .response r => if r.session = session then some r else none
    | _ => none

/-- A response, or a request or a result of another session's coroutine. -/
def Event.Spares (session : ℕ) (co : Coroutine) : Event → Prop
  | .response _ => True
  | .request session' co' => session' ≠ session ∧ co' ≠ co
  | .collect co' => co' ≠ co

instance (session : ℕ) (co : Coroutine) (e : Event) : Decidable (e.Spares session co) := by
  cases e <;> unfold Event.Spares <;> infer_instance

/-- What the source of a request is sent: a message, the packed result, or an error. -/
inductive Reply (ε : Type)
  | ret (msg : Bytes)
  | retpack (result : Option (ResultData Part ε))
  | error
  deriving DecidableEq, Repr

/-- The end of `channel:request`: raises unless the result is true. -/
def requestResult (ch : Channel Part ε) (co : Coroutine) :
    Except (Option (ResultData Part ε)) (Option (ResultData Part ε)) :=
  let (_, ok, data) := ch.collect co
  if ok = some true then .ok data else .error data

/-- `command.req`, of what the `pcall` returns. `skynet.ret` takes no message as an empty one. -/
def commandReq : Except (Option (ResultData Part ε)) (Option (ResultData Part ε)) →
    Except LuaBuffer.Fault (Reply ε)
  | .ok (some (.parts result)) => do
    match ← LuaBuffer.lconcat result with
    | some (msg, _) => pure (.ret msg)
    | none => pure (.ret [])
  | .ok (some (.data (.string result))) => .ok (.ret result)
  | .ok result => .ok (.retpack result)
  | .error _ => .ok .error

/-- A coroutine waits for the response of its session, of which nothing has come. -/
structure Waits (ch : Channel Part ε) (session : ℕ) (co : Coroutine) : Prop where
  waiter : ch.waiter session = some co
  only : ∀ session', ch.waiter session' = some co → session' = session
  clean : ch.resultData co = none

/-- Whatever else the channel does, the packets of the response give the requester the message. -/
def Arrives (ε : Type) (session : ℕ) (msg : Bytes) : Prop :=
  ∀ (ch : Channel Part ε) (co : Coroutine) (events : List Event),
    Waits ch session co → (∀ e ∈ events, e.Spares session co) →
    (packresponse session true msg).map (fun p => Checked.unpackresponse (p.drop 2))
      = (responsesOf session events).map (fun r => .ok (some r)) →
    commandReq (requestResult (handleAll ch events) co) = .ok (.ret msg)

end ClusterSender

end SkynetCpp
