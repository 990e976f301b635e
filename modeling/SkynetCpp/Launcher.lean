import Mathlib.Data.FinEnum
import Mathlib.Data.List.AList
import SkynetCpp.Lib.Runs
import SkynetCpp.LuaString

/-!
# The launcher

The requests of `launcher.lua` that start, kill, forget and restart services. `launch_service` has
the service started when it comes to wait in `skynet.newservice`, and records it when it goes on;
all else in a handler is one step. Which child of a name `pairs` meets first is not determined, nor
is what the process starts besides.
-/

namespace SkynetCpp

namespace Launcher

open Lib LuaString

/-- A value in a request. `nil` stands for `false` too, and `other` for a value that is neither a
number nor a string. -/
inductive Arg
  | nil
  | integer (n : Int64)
  | float (bits : UInt64)
  | string (s : Bytes)
  | other
  deriving DecidableEq, Repr

namespace Arg

/-- `luaL_checkstring` takes the value. -/
def IsName : Arg → Prop
  | integer _ | float _ | string _ => True
  | nil | other => False

instance : DecidablePred IsName
  | integer _ | float _ | string _ => isTrue trivial
  | nil | other => isFalse not_false

def ofValue : Value → Arg
  | .integer n => integer n
  | .float bits => float bits
  | .string s => string s
  | .nil | .boolean false => nil
  | _ => other

/-- The handle that the value is as a key of `children`. -/
def key (a : Arg) : Option Handle :=
  let n := match a with
    | integer n => some n
    | float bits => Value.floatToInteger bits
    | _ => none
  n.bind fun n => if 0 ≤ n then some n.toNatClampNeg else none

end Arg

/-- `addr:match("^:(%x+)$")` -/
def matchHex : Bytes → Option Bytes
  | 58 :: hex => if hex ≠ [] ∧ ∀ b ∈ hex, (hexaValue b).isSome then some hex else none
  | _ => none

section ParseAddress

variable (str2d : Bytes → Option UInt64)

def parseAddress : Arg → Arg
  | .string addr =>
    match matchHex addr with
    | some hex => .integer (Int64.ofNat (hexadecimal 0 true hex).a)
    | none => .ofValue (tonumber str2d addr)
  | addr => addr

end ParseAddress

/-- An entry of `children`, less the time of its launch. -/
structure Child where
  name : Arg
  restart : ℕ
  deriving DecidableEq, Repr

inductive Reply
  | nil
  | boolean (b : Bool)
  | handle (h : Handle)
  deriving DecidableEq, Repr

/-- `children`; the launches that wait in `skynet.newservice`, each with the entry it is to make;
the least handle that is free; and what the launcher has replied, started, killed and removed, and
which services have exited. -/
structure State where
  children : AList fun _ : Handle => Child := ∅
  launches : AList fun _ : Handle => Child := ∅
  nextHandle : Handle := 1
  replies : List Reply := []
  started : List (Handle × Arg) := []
  killed : List Handle := []
  removed : List Handle := []
  exited : List Handle := []

inductive Label
  /-- `LAUNCH`, where `c.newservice` returns the handle, or raises, for 0 -/
  | launch (name : Arg) (handle : Handle)
  /-- the launch of the handle goes on -/
  | resume (handle : Handle)
  | remove (handle : Arg)
  /-- `KILL` and `STOP` -/
  | kill (addr : Arg)
  /-- `RESTART`, where the search for a name finds a child, or does not -/
  | restart (target : Arg) (found : Option Handle) (handle : Handle)
  | exit (handle : Handle)
  deriving DecidableEq, Repr

namespace State

variable (str2d : Bytes → Option UInt64) (s : State)

def ret (r : Reply) : State := { s with replies := s.replies ++ [r] }

/-- `launch_service` up to where it waits. A name that is missing or no text and a service that
fails are logged alike. -/
def launchService (name : Arg) (restart : ℕ) (handle : Handle) : State :=
  if name.IsName ∧ handle ≠ 0 then
    { s with
      launches := s.launches.insert handle ⟨name, restart⟩
      nextHandle := handle + 1
      started := s.started ++ [(handle, name)] }
  else s.ret .nil

/-- The rest of `launch_service`. -/
def resume (handle : Handle) : State :=
  match s.launches.lookup handle with
  | some child =>
    { s with
      children := s.children.insert handle child
      launches := s.launches.erase handle }.ret (.handle handle)
  | none => s

/-- `children[addr]`, with its handle -/
def childAt (addr : Arg) : Option (Handle × Child) :=
  addr.key.bind fun h => (s.children.lookup h).map (h, ·)

def handleRemove (handle : Arg) : State :=
  match s.childAt handle with
  | some (h, _) =>
    { s with children := s.children.erase h, removed := s.removed ++ [h] }.ret (.boolean true)
  | none => s.ret (.boolean false)

/-- `skynet.kill`, and the entry is erased. -/
def kill (h : Handle) : State :=
  { s with children := s.children.erase h, killed := s.killed ++ [h] }

def handleKill (addr : Arg) : State :=
  match s.childAt (parseAddress str2d addr) with
  | some (h, _) => (s.kill h).ret (.boolean true)
  | none => s.ret (.boolean false)

/-- What `find_child_by_name` may return. -/
def Finds (name : Arg) : Option Handle → Prop
  | some h => (s.children.lookup h).map Child.name = some name
  | none => ∀ p ∈ s.children.entries, p.2.name ≠ name

instance (name : Arg) : ∀ found, Decidable (s.Finds name found)
  | some h => inferInstanceAs (Decidable ((s.children.lookup h).map Child.name = some name))
  | none => inferInstanceAs (Decidable (∀ p ∈ s.children.entries, p.2.name ≠ name))

/-- The child that `handle_restart` takes: the one at the address, else the one of the name. -/
def taken (target : Arg) (found : Option Handle) : Option (Handle × Child) :=
  match s.childAt (parseAddress str2d target), target with
  | some p, _ => some p
  | none, .string _ => found.bind fun h => (s.children.lookup h).map (h, ·)
  | none, _ => none

/-- The name `handle_restart` launches. -/
def nameOf (target : Arg) : Option (Handle × Child) → Arg
  | some (_, child) => child.name
  | none =>
    match target with
    | .string name => .string name
    | _ => .nil

def restartName (target : Arg) (found : Option Handle) : Arg :=
  nameOf target (s.taken str2d target found)

def handleRestart (target : Arg) (found : Option Handle) (handle : Handle) : State :=
  match s.taken str2d target found with
  | some (h, child) => (s.kill h).launchService child.name (child.restart + 1) handle
  | none => s.launchService (nameOf target none) 0 handle

def exec : Label → State
  | .launch name handle => s.launchService name 0 handle
  | .resume handle => s.resume handle
  | .remove handle => s.handleRemove handle
  | .kill addr => s.handleKill str2d addr
  | .restart target found handle => s.handleRestart str2d target found handle
  | .exit handle => { s with exited := s.exited ++ [handle] }

/-- `next_handle_` only goes up. -/
def Fresh (handle : Handle) : Prop := handle = 0 ∨ s.nextHandle ≤ handle

instance (handle : Handle) : Decidable (s.Fresh handle) := inferInstanceAs (Decidable (_ ∨ _))

def Enabled : Label → Prop
  | .launch _ handle => s.Fresh handle
  | .resume handle => (s.launches.lookup handle).isSome
  | .restart target found handle => s.Fresh handle ∧ s.Finds target found
  | .exit handle => handle ∈ s.started.map Prod.fst
  | .remove _ | .kill _ => True

instance : ∀ l, Decidable (s.Enabled l)
  | .launch _ handle => inferInstanceAs (Decidable (s.Fresh handle))
  | .resume handle => inferInstanceAs (Decidable ((s.launches.lookup handle).isSome = true))
  | .restart target found handle =>
    inferInstanceAs (Decidable (s.Fresh handle ∧ s.Finds target found))
  | .exit handle => inferInstanceAs (Decidable (handle ∈ s.started.map Prod.fst))
  | .remove _ | .kill _ => isTrue trivial

def step (s : State) (l : Label) : Option State :=
  if s.Enabled l then some (s.exec str2d l) else none

/-- The instances of a name that run: neither killed, nor have they exited. -/
def running (name : Arg) : List Handle :=
  (s.started.filter fun p => p.2 = name ∧ p.1 ∉ s.killed ∧ p.1 ∉ s.exited).map Prod.fst

/-- The children are the services that were started, and neither killed nor removed. -/
structure Bookkept (s : State) : Prop where
  recorded : ∀ h name, (h, name) ∈ s.started → h ∉ s.killed → h ∉ s.removed →
    ∃ child, s.children.lookup h = some child ∧ child.name = name
  started : ∀ h child, s.children.lookup h = some child →
    (h, child.name) ∈ s.started ∧ h ∉ s.killed ∧ h ∉ s.removed

/-- A restart leaves one instance of its name, or no more than there were. -/
def Bounded (s' : State) : Label → Prop
  | .restart target found _ =>
    (s'.running (s.restartName str2d target found)).length
      ≤ max 1 (s.running (s.restartName str2d target found)).length
  | _ => True

/-- A restart that starts a service takes an instance that runs, if there is one of the name. -/
def TakesRunning : Label → Prop
  | .restart target found handle =>
    (s.restartName str2d target found).IsName → handle ≠ 0 →
      s.running (s.restartName str2d target found) = [] ∨
        ∃ p ∈ s.taken str2d target found, p.1 ∈ s.running (s.restartName str2d target found)
  | _ => True

end State

end Launcher

end SkynetCpp
