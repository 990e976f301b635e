import Mathlib.Data.Finset.Image
import SkynetCpp.Lib.PubSub
import SkynetCpp.Lib.Runs
import SkynetCpp.Redis

/-!
# Watching a redis server

The object that `redis.watch` returns, without `auth` and `db`, and the server. Coroutines subscribe
and unsubscribe at any time, `watch:message` reads what the server pushes, and connections are lost
and made anew, with a login that asks for what is in the tables. The keys of the tables are strings.
-/

namespace SkynetCpp

open Lib LuaString PubSub

namespace Redis

/-- The keys of `__subscribe` and of `__psubscribe`. -/
abbrev Tables := Finset Key

section Messages

/-- `ret[i]`; it raises for what is no table and no string. -/
def index (ret : Value) (i : ℕ) : Option Value :=
  match ret with
  | .table fields _ => some (Fields.rawgeti fields i)
  | .string _ => some .nil
  | _ => none

/-- `self.__subscribe[channel] = true` or nil, and the like. -/
def setKey (tables : Tables) (kind : Kind) (add : Bool) : Value → Tables
  | .string channel => (opOf kind add channel).apply tables
  | _ => tables

/-- The branches of `watch:message`: the tables, and what is returned, if it returns. -/
def onMessage (tables : Tables) (ttype channel data data2 : Value) : Tables × Option (List Value) :=
  match ttype with
  | .string ttype =>
    if ttype = ascii "message" then (tables, some [data, channel])
    else if ttype = ascii "pmessage" then (tables, some [data2, channel, data])
    else if ttype = ascii "subscribe" then (setKey tables .channel true channel, none)
    else if ttype = ascii "psubscribe" then (setKey tables .pattern true channel, none)
    else if ttype = ascii "unsubscribe" then (setKey tables .channel false channel, none)
    else if ttype = ascii "punsubscribe" then (setKey tables .pattern false channel, none)
    else (tables, none)
  | _ => (tables, none)

/-- One round of its loop; where it raises, nothing is stored or returned. -/
def message (tables : Tables) (reply : Reply) : Tables × Option (List Value) :=
  if reply.ok then
    match index reply.value 1, index reply.value 2, index reply.value 3, index reply.value 4 with
    | some ttype, some channel, some data, some data2 => onMessage tables ttype channel data data2
    | _, _, _, _ => (tables, none)
  else (tables, none)

end Messages

namespace Watch

structure Connection where
  wire : Bytes := []
  back : Bytes := []
  /-- what the server has of the client -/
  server : Tables := ∅

/-- The tables, the caches of the composer, and the connection, with what was pushed and returned on
it or on the last one, and on those before. -/
structure State where
  caches : Caches := {}
  tables : Tables := ∅
  conn : Option Connection := none
  pushed : List Publication := []
  returned : List (List Value) := []
  past : List (List Publication × List (List Value)) := []

inductive Label
  /-- the keys in the order of `pairs` -/
  | connect (patterns channels : List Bytes)
  | drop
  | request (kind : Kind) (add : Bool) (msg : Msg)
  /-- the caches are used elsewhere, or collected -/
  | elsewhere (l : Redis.Label)
  | serve (count : Bytes → ℤ)
  | publish (m : Publication)
  | receive

section Steps

variable (tostring : Value → Bytes)

/-- The functions that `watch_func` made. -/
def funcName : Kind → Bool → Bytes
  | .channel, true => ascii "subscribe"
  | .pattern, true => ascii "psubscribe"
  | .channel, false => ascii "unsubscribe"
  | .pattern, false => ascii "punsubscribe"

/-- `so:request(compose_message(NAME, v))` -/
def send (x : Caches × Connection) (kind : Kind) (add : Bool) (msg : Msg) : Caches × Connection :=
  let (lines, caches) := composeMessage tostring x.1 (upper (funcName kind add)) msg
  (caches, { x.2 with wire := x.2.wire ++ lines.flatten })

/-- One of the loops of `watch_login`. -/
def login (kind : Kind) (keys : List Bytes) (x : Caches × Connection) : Caches × Connection :=
  keys.foldl (fun x k => send tostring x kind true (.scalar (.string k))) x

def keysOf (tables : Tables) (kind : Kind) : Finset Bytes :=
  (tables.filter fun k => k.1 = kind).image Prod.snd

/-- These are the keys of the table, each of them once. -/
def Lists (tables : Tables) (kind : Kind) (keys : List Bytes) : Prop :=
  keys.Nodup ∧ keys.toFinset = keysOf tables kind

instance (tables : Tables) (kind : Kind) (keys : List Bytes) :
    Decidable (Lists tables kind keys) := inferInstanceAs (Decidable (_ ∧ _))

variable (w : State)

/-- `try_connect`, with its login. -/
def connect (patterns channels : List Bytes) : Option State :=
  if w.conn.isNone ∧ Lists w.tables .pattern patterns ∧ Lists w.tables .channel channels then
    let (caches, conn) := login tostring .channel channels
      (login tostring .pattern patterns (w.caches, {}))
    some { w with
      caches
      conn := some conn
      pushed := []
      returned := []
      past := w.past ++ [(w.pushed, w.returned)] }
  else none

def request (kind : Kind) (add : Bool) (msg : Msg) : Option State :=
  w.conn.map fun conn =>
    let (caches, conn) := send tostring (w.caches, conn) kind add msg
    { w with caches, conn := some conn }

def serve (count : Bytes → ℤ) : Option State := do
  let conn ← w.conn
  let (c, wire) ← takeCommand conn.wire
  return { w with conn := some {
    wire
    back := conn.back ++ (c.confirmations count).flatMap fun p => p.toResp.encode
    server := Mirror.applyAll conn.server c.ops } }

def publish (m : Publication) : Option State :=
  w.conn.map fun conn =>
    { w with
      conn := some { conn with back := conn.back ++ m.toResp.encode }
      pushed := w.pushed ++ [m] }

variable (str2d : Bytes → Option UInt64) (border : Fields → ℕ)

/-- A coroutine that is in `watch:message` gets a reply. -/
def receive : Option State := do
  let conn ← w.conn
  let reply ← readResponse str2d border conn.back
  let (tables, result) := message w.tables reply
  return { w with
    tables
    conn := some { conn with back := reply.rest }
    returned := w.returned ++ result.toList }

def step (w : State) : Label → Option State
  | .connect patterns channels => connect tostring w patterns channels
  | .drop => some { w with conn := none }
  | .request kind add msg => request tostring w kind add msg
  | .elsewhere l => (Redis.step tostring w.caches l).map fun caches => { w with caches }
  | .serve count => serve w count
  | .publish m => publish w m
  | .receive => receive w str2d border

end Steps

section Exact

variable (tostring : Value → Bytes) (str2d : Bytes → Option UInt64) (border : Fields → ℕ)

/-- The argument stands for these values: it is one of them, or a table of them. -/
def Holds (msg : Msg) (args : List Value) : Prop :=
  (∃ v, msg = .scalar v ∧ args = [v]) ∨
    ∃ item, msg = .table args.length item ∧ (∀ v ∈ args, v.isNil = false) ∧
      ∀ (k : ℕ) v, args[k]? = some v → item (k + 1) = v

/-- What `watch:message` returns for a message. -/
def valuesOf : Publication → List Value
  | .message channel payload => [.string payload, .string channel]
  | .pmessage pattern channel payload => [.string payload, .string pattern, .string channel]

/-- All strings are of a size that memory can hold. -/
def PublicationFits : Publication → Prop
  | .message channel payload => channel.length < 2 ^ 63 ∧ payload.length < 2 ^ 63
  | .pmessage pattern channel payload =>
    pattern.length < 2 ^ 63 ∧ channel.length < 2 ^ 63 ∧ payload.length < 2 ^ 63

/-- Requests have channels, and what the server pushes can be read. -/
def Keeps (_ : State) : Label → Prop
  | .request _ _ msg =>
    ∃ args, args ≠ [] ∧ Holds msg args ∧ ∀ v ∈ args, (tostring v).length < 2 ^ 63
  | .serve count => ∀ name, -2 ^ 63 ≤ count name ∧ count name < 2 ^ 63
  | .publish m => PublicationFits m
  | _ => True

/-- What is under way are commands and pushes, and when all has arrived the tables are what the
server has; neither side gets stuck; and messages are returned as they were pushed, in their order,
and none is missing but those that were under way when a connection was lost. -/
structure Exact (w : State) : Prop where
  converges : ∀ conn, w.conn = some conn → ∃ (cmds : List Command) (pushes : List Push),
    conn.wire = cmds.flatMap (fun c => c.toResp.encode) ∧
    conn.back = pushes.flatMap (fun p => p.toResp.encode) ∧
    Mirror.applyAll w.tables (pushes.filterMap Push.op ++ cmds.flatMap Command.ops)
      = Mirror.applyAll conn.server (cmds.flatMap Command.ops)
  settled : ∀ conn, w.conn = some conn → conn.wire = [] → conn.back = [] → w.tables = conn.server
  serves : ∀ conn count, w.conn = some conn → conn.wire ≠ [] → (serve w count).isSome
  receives : ∀ conn, w.conn = some conn → conn.back ≠ [] → (receive w str2d border).isSome
  returned : w.returned <+: w.pushed.map valuesOf
  complete : ∀ conn, w.conn = some conn → conn.back = [] → w.returned = w.pushed.map valuesOf
  past : ∀ x ∈ w.past, x.2 <+: x.1.map valuesOf

end Exact

end Watch

end Redis

end SkynetCpp
