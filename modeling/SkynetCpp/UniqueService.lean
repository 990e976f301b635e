import SkynetCpp.Lib.Runs
import SkynetCpp.Message

/-!
# Unique services

`skynet.uniqueservice`, called by any number of services at a time. The lookup of the name, the spawn
and the registration of the new handle are three steps, and the table of names is the process's.
-/

namespace SkynetCpp

namespace UniqueService

open Lib

/-- Where a call of `skynet.uniqueservice` is. -/
inductive Stage
  /-- before `c.query` -/
  | called (name : Bytes)
  /-- in `c.newservice` -/
  | spawning (name : Bytes)
  /-- before `c.nameservice` -/
  | naming (name : Bytes) (handle : Handle)
  | ended
  deriving DecidableEq, Repr

/-- The call has not found the name, and has not registered it. -/
def Stage.Opens (name : Bytes) : Stage → Prop
  | .spawning n | .naming n _ => n = name
  | _ => False

instance (name : Bytes) : ∀ c : Stage, Decidable (c.Opens name)
  | .spawning n | .naming n _ => inferInstanceAs (Decidable (n = name))
  | .called _ | .ended => isFalse not_false

/-- The table of names, the calls in the order in which they began, and what was spawned and
returned. -/
structure State where
  names : Bytes → Option Handle := fun _ => none
  calls : List Stage := []
  spawned : List (Bytes × Handle) := []
  returned : List (Bytes × Handle) := []

inductive Label
  | uniqueservice (name : Bytes)
  | query (i : ℕ)
  /-- `spawn` returns a handle, or 0, and the call raises -/
  | newservice (i : ℕ) (handle : Handle)
  | nameservice (i : ℕ)
  deriving DecidableEq, Repr

namespace State

variable (s : State)

def setCall (i : ℕ) (c : Stage) : State := { s with calls := s.calls.set i c }

def ret (name : Bytes) (handle : Handle) : State :=
  { s with returned := s.returned ++ [(name, handle)] }

def query (i : ℕ) : Option Stage → State
  | some (.called name) =>
    match s.names name with
    | some handle => (s.setCall i .ended).ret name handle
    | none => s.setCall i (.spawning name)
  | _ => s

def newservice (i : ℕ) (handle : Handle) : Option Stage → State
  | some (.spawning name) =>
    if handle = 0 then s.setCall i .ended
    else { s.setCall i (.naming name handle) with spawned := s.spawned ++ [(name, handle)] }
  | _ => s

def nameservice (i : ℕ) : Option Stage → State
  | some (.naming name handle) =>
    { (s.setCall i .ended).ret name handle with names := Function.update s.names name (some handle) }
  | _ => s

def exec : Label → State
  | .uniqueservice name => { s with calls := s.calls ++ [.called name] }
  | .query i => s.query i s.calls[i]?
  | .newservice i handle => s.newservice i handle s.calls[i]?
  | .nameservice i => s.nameservice i s.calls[i]?

/-- The step of the label is the next one of its call. -/
def Next : Label → Option Stage → Prop
  | .uniqueservice _, _ | .query _, some (.called _) | .newservice _ _, some (.spawning _)
  | .nameservice _, some (.naming _ _) => True
  | _, _ => False

def call : Label → Option Stage
  | .uniqueservice _ => none
  | .query i | .newservice i _ | .nameservice i => s.calls[i]?

def Enabled (l : Label) : Prop := Next l (s.call l)

instance : ∀ l c, Decidable (Next l c)
  | .uniqueservice _, _ | .query _, some (.called _) | .newservice _ _, some (.spawning _)
  | .nameservice _, some (.naming _ _) => isTrue trivial
  | .query _, none | .query _, some (.spawning _) | .query _, some (.naming _ _)
  | .query _, some .ended | .newservice _ _, none | .newservice _ _, some (.called _)
  | .newservice _ _, some (.naming _ _) | .newservice _ _, some .ended | .nameservice _, none
  | .nameservice _, some (.called _) | .nameservice _, some (.spawning _)
  | .nameservice _, some .ended => isFalse not_false

instance (l : Label) : Decidable (s.Enabled l) := inferInstanceAs (Decidable (Next _ _))

def step (s : State) (l : Label) : Option State := if s.Enabled l then some (s.exec l) else none

def instances (name : Bytes) : List Handle :=
  (s.spawned.filter fun p => p.1 = name).map Prod.snd

/-- Of each name one instance was spawned at most, and all calls have returned its handle. -/
structure Singleton (s : State) : Prop where
  once : ∀ name, (s.instances name).length ≤ 1
  same : ∀ name h h', (name, h) ∈ s.returned → (name, h') ∈ s.returned → h = h'

/-- The lookup finds the name, or no other call is between its own and its registration. -/
def Finds : Option Stage → Prop
  | some (.called name) => s.names name = none → ∀ c ∈ s.calls, ¬ c.Opens name
  | _ => True

/-- No lookup falls between one that has not found the name and its registration. -/
def Alone (s : State) : Label → Prop
  | .query i => s.Finds s.calls[i]?
  | _ => True

instance : ∀ c, Decidable (s.Finds c)
  | some (.called name) =>
    inferInstanceAs (Decidable (s.names name = none → ∀ c ∈ s.calls, ¬ c.Opens name))
  | none | some (.spawning _) | some (.naming _ _) | some .ended => isTrue trivial

instance (l : Label) : Decidable (s.Alone l) := by
  cases l <;> unfold Alone <;> infer_instance

end State

end UniqueService

end SkynetCpp
