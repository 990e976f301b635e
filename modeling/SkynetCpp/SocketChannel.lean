import SkynetCpp.Message

/-!
# Socket channels

The tables of a channel of `socketchannel.lua` in session mode, and what its functions do to them
between suspensions.
-/

namespace SkynetCpp

namespace SocketChannel

abbrev Coroutine := ℕ

/-- An entry of `__result_data`: a response, the parts of a padded one, or an error. -/
inductive ResultData (α ε : Type)
  | data (a : α)
  | parts (l : List α)
  | error (e : ε)
  deriving DecidableEq, Repr

/-- `__conn_id`, `__thread`, `__result` and `__result_data`. A session is a key of `__thread` once. -/
structure Channel (α ε : Type) where
  connId : Option ℤ
  thread : List (ℕ × Coroutine)
  result : Coroutine → Option Bool
  resultData : Coroutine → Option (ResultData α ε)

/-- What the response callback returns for a session. -/
structure Decoded (α : Type) where
  session : ℕ
  ok : Bool
  data : α
  padding : Bool
  deriving DecidableEq, Repr

variable {α ε : Type}

namespace Channel

def init : Channel α ε where
  connId := none
  thread := []
  result _ := none
  resultData _ := none

/-- `self.__thread[session]` -/
def waiter (ch : Channel α ε) (session : ℕ) : Option Coroutine :=
  (ch.thread.find? fun p => p.1 = session).map Prod.snd

/-- `close_channel_socket`: the channel's part. -/
def closeSocket (ch : Channel α ε) : Channel α ε := { ch with connId := none }

/-- `wakeup_all`: the coroutines that are woken, with an error. -/
def wakeupAll (ch : Channel α ε) (errmsg : ε) : Channel α ε × List Coroutine :=
  let woken := ch.thread.map Prod.snd
  ({ ch with
      thread := []
      result := fun co => if co ∈ woken then some false else ch.result co
      resultData := fun co => if co ∈ woken then some (.error errmsg) else ch.resultData co },
    woken)

/-- `push_response` -/
def pushResponse (ch : Channel α ε) (session : ℕ) (co : Coroutine) : Channel α ε :=
  { ch with thread := ch.thread.filter (fun p => p.1 ≠ session) ++ [(session, co)] }

/-- The body of `dispatch_by_session` for a response: the coroutine that is woken, if the response
is complete. -/
def respond (ch : Channel α ε) (r : Decoded α) : Channel α ε × Option Coroutine :=
  match ch.waiter r.session with
  | none => (ch, none)
  | some co =>
    let parts := match ch.resultData co with
      | some (.parts l) => some l
      | _ => none
    if r.padding then
      ({ ch with resultData :=
          Function.update ch.resultData co (some (.parts (parts.getD [] ++ [r.data]))) }, none)
    else
      let data := match parts with
        | some l => .parts (l ++ [r.data])
        | none => .data r.data
      ({ ch with
          thread := ch.thread.filter fun p => p.1 ≠ r.session
          result := Function.update ch.result co (some r.ok)
          resultData := Function.update ch.resultData co (some data) }, some co)

/-- The end of `channel:request`, when the coroutine is resumed: its result. -/
def collect (ch : Channel α ε) (co : Coroutine) :
    Channel α ε × Option Bool × Option (ResultData α ε) :=
  ({ ch with
      result := Function.update ch.result co none
      resultData := Function.update ch.resultData co none },
    ch.result co, ch.resultData co)

end Channel

end SocketChannel

end SkynetCpp
