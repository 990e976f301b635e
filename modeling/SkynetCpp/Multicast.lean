import Mathlib.Data.Finset.Basic
import Mathlib.Data.List.AList
import SkynetCpp.Lib.Histories
import SkynetCpp.Lib.Runs
import SkynetCpp.Message

/-!
# Multicast

`multicastd.lua`, and any number of services that use it through `multicast.lua`. What a service
and multicastd send each other arrives in the order it was sent; which of them goes on next is not
determined. A payload is carried as it is: packing and unpacking it is the serializer's.

What is to be sent to a service, by the requests that multicastd has processed (`sent`), is stated
apart from the tables of either side.
-/

namespace SkynetCpp

namespace Multicast

open Lib

variable {α : Type}

/-- The functions that call multicastd. -/
inductive Call
  | new
  | delete (channel : ℕ)
  | subscribe (channel : ℕ)
  | unsubscribe (channel : ℕ)
  deriving DecidableEq, Repr

inductive Request (α : Type)
  /-- `NEW`, `DEL`, `SUB` and `USUB` -/
  | call (session : ℕ) (c : Call)
  | pub (channel : ℕ) (payload : α)

inductive Message (α : Type)
  | response (session : ℕ) (value : Option ℕ)
  | multicast (channel : ℕ) (payload : α)

/-- What the coroutine that made the call does to `multicast_dispatchers` when it goes on. -/
def Call.switch : Call → Finset ℕ → Finset ℕ
  | new, dispatchers => dispatchers
  | subscribe channel, dispatchers => insert channel dispatchers
  | unsubscribe channel, dispatchers | delete channel, dispatchers => dispatchers.erase channel

/-- `session_id_coroutine`, by what the coroutine has called; the channels that have an entry in
`multicast_dispatchers`, which passes to the function of the channel's one object; what is under way
to multicastd and from it; and what was taken from it, created and passed on. -/
structure Service (α : Type) where
  nextSession : ℕ := 1
  waiting : AList fun _ : ℕ => Call := ∅
  dispatchers : Finset ℕ := ∅
  outbox : List (Request α) := []
  inbox : List (Message α) := []
  taken : List (Message α) := []
  created : List ℕ := []
  passed : List (ℕ × α) := []

namespace Service

variable (v : Service α)

/-- `skynet.call` up to where it waits. -/
def call (c : Call) : Service α :=
  { v with
    nextSession := v.nextSession + 1
    waiting := v.waiting.insert v.nextSession c
    outbox := v.outbox ++ [.call v.nextSession c] }

def publish (channel : ℕ) (payload : α) : Service α :=
  { v with outbox := v.outbox ++ [.pub channel payload] }

def send (m : Message α) : Service α := { v with inbox := v.inbox ++ [m] }

/-- The coroutine that waits for the session goes on. -/
def resume (session : ℕ) (value : Option ℕ) : Service α :=
  match v.waiting.lookup session with
  | some c =>
    { v with
      waiting := v.waiting.erase session
      dispatchers := c.switch v.dispatchers
      created := v.created ++ if c = .new then value.toList else [] }
  | none => v

/-- `raw_dispatch_message` -/
def dispatch : Message α → Service α
  | .response session value => v.resume session value
  | .multicast channel payload =>
    if channel ∈ v.dispatchers then { v with passed := v.passed ++ [(channel, payload)] } else v

/-- The service takes the next message of multicastd. -/
def take : Service α :=
  match v.inbox with
  | m :: inbox => { v with inbox, taken := v.taken ++ [m] }.dispatch m
  | [] => v

end Service

/-- The tables of multicastd; the services; the ids that `NEW` has handed out; and the requests it
has processed, with who sent them, the latest first. -/
structure State (α : Type) where
  channelId : ℕ := 0
  channels : AList fun _ : ℕ => Finset Handle := ∅
  service : Handle → Service α := fun _ => {}
  handed : List ℕ := []
  processed : List (Handle × Request α) := []

inductive Label (α : Type)
  | call (a : Handle) (c : Call)
  | publish (a : Handle) (channel : ℕ) (payload : α)
  /-- multicastd takes the next request of the service -/
  | process (a : Handle)
  | take (a : Handle)

namespace State

variable (s : State α)

def set (a : Handle) (v : Service α) : State α :=
  { s with service := Function.update s.service a v }

/-- `skynet.ret` -/
def ret (source : Handle) (session : ℕ) (value : Option ℕ) : State α :=
  s.set source ((s.service source).send (.response session value))

def new (source : Handle) (session : ℕ) : State α :=
  { s with
    channelId := s.channelId + 1
    channels := s.channels.insert (s.channelId + 1) ∅
    handed := s.handed ++ [s.channelId + 1] }.ret source session (some (s.channelId + 1))

def del (source : Handle) (session id : ℕ) : State α :=
  { s with channels := s.channels.erase id }.ret source session none

/-- `CMD.SUB` and `CMD.USUB`, by what they do to the subscribers. -/
def change (f : Finset Handle → Finset Handle) (source : Handle) (session id : ℕ) : State α :=
  match s.channels.lookup id with
  | some subscribers =>
    { s with channels := s.channels.insert id (f subscribers) }.ret source session none
  | none => s.ret source session none

def sub (source : Handle) (session id : ℕ) : State α :=
  s.change (insert source ·) source session id

def usub (source : Handle) (session id : ℕ) : State α :=
  s.change (Finset.erase · source) source session id

def pub (id : ℕ) (payload : α) : State α :=
  match s.channels.lookup id with
  | some subscribers =>
    { s with
      service := fun a =>
        if a ∈ subscribers then (s.service a).send (.multicast id payload) else s.service a }
  | none => s

/-- `CMD[cmd]` -/
def cmd (source : Handle) : Request α → State α
  | .call session .new => s.new source session
  | .call session (.delete id) => s.del source session id
  | .call session (.subscribe id) => s.sub source session id
  | .call session (.unsubscribe id) => s.usub source session id
  | .pub id payload => s.pub id payload

def process (a : Handle) : State α :=
  match (s.service a).outbox with
  | r :: outbox =>
    { s.set a { s.service a with outbox } with processed := (a, r) :: s.processed }.cmd a r
  | [] => s

def exec : Label α → State α
  | .call a c => s.set a ((s.service a).call c)
  | .publish a channel payload => s.set a ((s.service a).publish channel payload)
  | .process a => s.process a
  | .take a => s.set a (s.service a).take

def Enabled : Label α → Prop
  | .call _ _ | .publish _ _ _ => True
  | .process a => (s.service a).outbox.isEmpty = false
  | .take a => (s.service a).inbox.isEmpty = false

instance : ∀ l, Decidable (s.Enabled l)
  | .call _ _ | .publish _ _ _ => isTrue trivial
  | .process a => inferInstanceAs (Decidable ((s.service a).outbox.isEmpty = false))
  | .take a => inferInstanceAs (Decidable ((s.service a).inbox.isEmpty = false))

def step (s : State α) (l : Label α) : Option (State α) :=
  if s.Enabled l then some (s.exec l) else none

end State

section Sent

/-! ## What is to be sent

`past` is what multicastd has processed before, the latest first. -/

abbrev Event (α : Type) := Handle × Request α

def IsNew : Event α → Bool
  | (_, .call _ .new) => true
  | _ => false

def Deletes (channel : ℕ) (e : Event α) : Prop := ∃ session, e.2 = .call session (.delete channel)

/-- The channel is there: its `NEW`, and no `DEL` since. -/
def Live (channel : ℕ) : List (Event α) → Prop :=
  Since (fun e before => IsNew e ∧ channel = before.countP IsNew + 1) fun e => ¬ Deletes channel e

/-- A `USUB` of the service, or a `DEL`. -/
def Leaves (a : Handle) (channel : ℕ) (e : Event α) : Prop :=
  (∃ session, e = (a, .call session (.unsubscribe channel))) ∨ Deletes channel e

/-- A `SUB` of the service, which found the channel as `there` says, and no `USUB` of the service
nor `DEL` since. -/
def Subscribed (there : ℕ → List (Event α) → Prop) (a : Handle) (channel : ℕ) :
    List (Event α) → Prop :=
  Since (fun e before => (∃ session, e = (a, .call session (.subscribe channel)))
    ∧ there channel before) fun e => ¬ Leaves a channel e

def Call.value (past : List (Event α)) : Call → Option ℕ
  | new => some (past.countP IsNew + 1)
  | _ => none

variable (there : ℕ → List (Event α) → Prop) (a : Handle)

open Classical in
/-- What the service is sent for one request: the reply, if it is its own, or the payload, if it has
subscribed. -/
noncomputable def sentFor (past : List (Event α)) : Event α → List (Message α)
  | (b, .call session c) => if b = a then [.response session (c.value past)] else []
  | (_, .pub channel payload) =>
    if Subscribed there a channel past then [.multicast channel payload] else []

noncomputable def sent : List (Event α) → List (Message α)
  | [] => []
  | e :: past => sent past ++ sentFor there a past e

def Message.copy : Message α → Option (ℕ × α)
  | multicast channel payload => some (channel, payload)
  | response _ _ => none

/-- Every service is sent what it is to be sent, each message once and in the order in which
multicastd processed the requests; it passes on every payload that it takes, so all of them once it
has taken what is under way; and no id is handed out twice. -/
structure Delivers (s : State α) : Prop where
  order : ∀ a, (s.service a).taken ++ (s.service a).inbox = sent there a s.processed
  passed : ∀ a, (s.service a).passed = (s.service a).taken.filterMap Message.copy
  all : ∀ a, (Service.take^[(s.service a).inbox.length] (s.service a)).passed
    = (sent there a s.processed).filterMap Message.copy
  ids : s.handed.Nodup

end Sent

end Multicast

end SkynetCpp
