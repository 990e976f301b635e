import SkynetCpp.Lib.Mirror
import SkynetCpp.Lib.Resp

/-!
# Publish and subscribe in RESP

The commands that change what a client of a Redis server is subscribed to, and what the server
pushes to the client: a confirmation for each channel or pattern of a command, and messages.
-/

namespace Lib

namespace PubSub

open Mirror (Op)

inductive Kind
  | channel
  | pattern
  deriving DecidableEq

/-- A channel or a pattern that a client is subscribed to. -/
abbrev Key := Kind × List UInt8

def text (s : String) : List UInt8 := s.toList.map fun c => UInt8.ofNat c.toNat

def opOf (kind : Kind) (add : Bool) (name : List UInt8) : Op Key :=
  if add then .add (kind, name) else .remove (kind, name)

section Commands

structure Command where
  kind : Kind
  add : Bool
  names : List (List UInt8)
  deriving DecidableEq

def commandName : Kind → Bool → List UInt8
  | .channel, true => text "SUBSCRIBE"
  | .channel, false => text "UNSUBSCRIBE"
  | .pattern, true => text "PSUBSCRIBE"
  | .pattern, false => text "PUNSUBSCRIBE"

def Command.toResp (c : Command) : Resp :=
  .array (.bulk (commandName c.kind c.add) :: c.names.map .bulk)

def Command.ops (c : Command) : List (Op Key) := c.names.map (opOf c.kind c.add)

def decodeName : Resp → Option (List UInt8)
  | .bulk s => some s
  | _ => none

/-- The commands by their names; there has to be an argument. -/
def decodeCommand : Resp → Option Command
  | .array (.bulk name :: arg :: args) => do
    let (kind, add) ← [(Kind.channel, true), (.channel, false), (.pattern, true),
      (.pattern, false)].find? fun x => commandName x.1 x.2 = name
    return ⟨kind, add, ← (arg :: args).mapM decodeName⟩
  | _ => none

/-- The first command of a stream. -/
def takeCommand (bs : List UInt8) : Option (Command × List UInt8) := do
  let (v, bs) ← Resp.parse bs
  let c ← decodeCommand v
  return (c, bs)

theorem mapM_decodeName (names : List (List UInt8)) :
    (names.map Resp.bulk).mapM decodeName = some names := by
  induction names with
  | nil => rfl
  | cons name names ih =>
    rw [List.map_cons, List.mapM_cons, ih]
    rfl

theorem cleanAll_bulk (names : List (List UInt8)) : Resp.CleanAll (names.map Resp.bulk) := by
  induction names with
  | nil => trivial
  | cons name names ih => exact ⟨trivial, ih⟩

theorem decodeCommand_toResp {c : Command} (h : c.names ≠ []) :
    decodeCommand c.toResp = some c := by
  obtain ⟨kind, add, names⟩ := c
  cases names with
  | nil => exact absurd rfl h
  | cons name names =>
    have hnames := mapM_decodeName (name :: names)
    rw [List.map_cons] at hnames
    rw [Command.toResp, List.map_cons, decodeCommand, hnames]
    cases kind <;> cases add <;> rfl

theorem takeCommand_encode {c : Command} (h : c.names ≠ []) (rest : List UInt8) :
    takeCommand (c.toResp.encode ++ rest) = some (c, rest) := by
  have hclean : c.toResp.Clean := ⟨trivial, cleanAll_bulk c.names⟩
  rw [takeCommand, Resp.parse_encode hclean]
  simp only [Option.bind_eq_bind, Option.bind_some, decodeCommand_toResp h]
  rfl

end Commands

section Pushes

inductive Publication
  | message (channel payload : List UInt8)
  | pmessage (pattern channel payload : List UInt8)
  deriving DecidableEq

inductive Push
  | confirm (kind : Kind) (add : Bool) (name : List UInt8) (count : ℤ)
  | deliver (m : Publication)
  deriving DecidableEq

def replyName : Kind → Bool → List UInt8
  | .channel, true => text "subscribe"
  | .channel, false => text "unsubscribe"
  | .pattern, true => text "psubscribe"
  | .pattern, false => text "punsubscribe"

def Publication.toResp : Publication → Resp
  | message channel payload => .array [.bulk (text "message"), .bulk channel, .bulk payload]
  | pmessage pattern channel payload =>
    .array [.bulk (text "pmessage"), .bulk pattern, .bulk channel, .bulk payload]

def Push.toResp : Push → Resp
  | confirm kind add name count => .array [.bulk (replyName kind add), .bulk name, .integer count]
  | deliver m => m.toResp

/-- What is confirmed. -/
def Push.op : Push → Option (Op Key)
  | confirm kind add name _ => some (opOf kind add name)
  | deliver _ => none

def Push.publication : Push → Option Publication
  | confirm _ _ _ _ => none
  | deliver m => some m

/-- The confirmations of a command; `count` is what they say of the number of subscriptions. -/
def Command.confirmations (c : Command) (count : List UInt8 → ℤ) : List Push :=
  c.names.map fun name => .confirm c.kind c.add name (count name)

theorem filterMap_op_confirmations (c : Command) (count : List UInt8 → ℤ) :
    (c.confirmations count).filterMap Push.op = c.ops := by
  rw [Command.confirmations, List.filterMap_map, Command.ops]
  exact congrFun (List.filterMap_eq_map (f := opOf c.kind c.add)) c.names

theorem filterMap_publication_confirmations (c : Command) (count : List UInt8 → ℤ) :
    (c.confirmations count).filterMap Push.publication = [] := by
  rw [Command.confirmations, List.filterMap_map]
  exact List.filterMap_eq_nil_iff.2 fun _ _ => rfl

end Pushes

end PubSub

end Lib
