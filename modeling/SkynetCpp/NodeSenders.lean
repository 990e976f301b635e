import SkynetCpp.Lib.Runs
import SkynetCpp.Message

/-!
# The senders of clusterd

`open_channel` and `loadconfig`: how clusterd starts one clustersender a node, tells it the address of
the configuration, and holds back the coroutines that ask for it in the meantime.
-/

namespace SkynetCpp

namespace NodeSenders

open Lib

/-- A value of `node_address`: a text, or `false`. -/
inductive Address
  | text (addr : Bytes)
  | down
  deriving DecidableEq, Repr

def isDigit (b : UInt8) : Bool := 0x30 ≤ b && b ≤ 0x39

def tonumber (digits : Bytes) : ℕ := digits.foldl (fun n b => 10 * n + (b.toNat - 0x30)) 0

/-- `addr_str:match("^(.+):(%d+)$")` -/
def parseAddress (addr : Bytes) : Option (Bytes × ℕ) :=
  let port := (addr.reverse.takeWhile isDigit).reverse
  match addr.reverse.dropWhile isDigit with
  | 0x3a :: host => if host = [] ∨ port = [] then none else some (host.reverse, tonumber port)
  | _ => none

example : parseAddress (ascii "127.0.0.1:19191") = some (ascii "127.0.0.1", 19191) := by decide

example : parseAddress (ascii "bad-address") = none := by decide

/-- Where an `open_channel` is suspended. -/
inductive Stage
  /-- in the sleep of `skynet.newservice` -/
  | newservice (c : Handle)
  | sleep (c : Handle)
  /-- in the call of `changenode` -/
  | changenode (c : Handle)
  deriving DecidableEq, Repr

/-- An `open_channel` that holds `connecting[key]`, with the address it has read. -/
structure Opener where
  co : ℕ
  address : Bytes
  stage : Stage
  deriving DecidableEq, Repr

/-- What the tables hold for one node, the coroutines in `open_channel` for it, and the senders that
run, each with the address it was given last. -/
structure Node where
  address : Option Address := none
  sender : Option Handle := none
  channel : Option Handle := none
  connecting : Option (List ℕ) := none
  openers : List Opener := []
  waiting : List ℕ := []
  woken : List ℕ := []
  senders : List (Handle × Bytes × ℕ) := []
  deriving DecidableEq, Repr

namespace Node

variable (n : Node)

/-- `connecting[key] = nil`, and `skynet.wakeup` of those in `ct`. -/
def close : Node :=
  let ct := n.connecting.getD []
  { n with
    connecting := none
    waiting := n.waiting.filter fun co => co ∉ ct
    woken := n.woken ++ ct.filter fun co => co ∈ n.waiting }

def give (c : Handle) (peer : Bytes × ℕ) : Node :=
  { n with senders := n.senders.map fun p => if p.1 = c then (c, peer) else p }

def kill (c : Handle) : Node := { n with senders := n.senders.filter fun p => p.1 ≠ c }

def addOpener (op : Opener) : Node := { n with openers := n.openers ++ [op] }

def setStage (co : ℕ) (stage : Stage) : Node :=
  { n with openers := n.openers.map fun op => if op.co = co then { op with stage } else op }

def endOpener (co : ℕ) : Node := { n with openers := n.openers.filter fun op => op.co ≠ co }

/-- `open_channel` after it has set `connecting[key]`. `c` is the next handle. -/
def connect (co : ℕ) (c : Handle) (raises : Bool) : Node :=
  match n.address with
  | some (.text address) =>
    match parseAddress address with
    | some peer =>
      match n.sender with
      | none =>
        if raises then n
        else { n.addOpener ⟨co, address, .newservice c⟩ with
          senders := n.senders ++ [(c, peer)] }
      | some c =>
        if raises then n
        else (n.addOpener ⟨co, address, .changenode c⟩).give c peer
    | none => n.close
  -- `not address` holds of `false` too, so the test for it comes too late
  | none | some .down => n.close

/-- `open_channel`, up to where it suspends or raises. -/
def openChannel (co : ℕ) (c : Handle) (raises : Bool) : Node :=
  match n.connecting with
  | some ct => { n with connecting := some (ct ++ [co]), waiting := n.waiting ++ [co] }
  | none => { n with connecting := some [] }.connect co c raises

/-- `node_channel[key]` -/
def index (co : ℕ) (c : Handle) (raises : Bool) : Node :=
  match n.channel with
  | some _ => n
  | none => n.openChannel co c raises

/-- The end of `open_channel`. -/
def publish (co : ℕ) (c : Handle) : Node := ({ n with channel := some c }.close).endOpener co

/-- An `open_channel` that was suspended goes on. -/
def goOn (co : ℕ) (raises : Bool) : Option Opener → Node
  | some ⟨_, _, .newservice c⟩ =>
    match n.sender with
    | some c' => (n.kill c).setStage co (.sleep c')
    | none => { n with sender := some c }.setStage co (.sleep c)
  | some ⟨_, _, .sleep c⟩ => n.publish co c
  | some ⟨_, _, .changenode c⟩ => if raises then n.endOpener co else n.publish co c
  | none => n

def opener (co : ℕ) : Option Opener := n.openers.find? fun op => op.co = co

/-- `loadconfig` for a name whose address may have changed, and whether it is to be opened again. -/
def reload (address : Address) : Node × Bool :=
  if n.address = some address then (n, false)
  else if n.sender.isSome then ({ n with channel := none, address := some address }, true)
  else ({ n with address := some address }, false)

end Node

/-- The nodes by name, the coroutines that were forked for `open_channel`, and how many coroutines and
services there were. -/
structure State where
  nodes : Bytes → Node := fun _ => {}
  forks : List Bytes := []
  coroutines : ℕ := 0
  services : ℕ := 0

inductive Label
  /-- the entries in the order of `pairs`; `none` is neither a text nor `false` -/
  | reload (cfg : List (Bytes × Option Address))
  /-- `raises` says of a coroutine that its `newservice` or its call raises, if it gets there -/
  | sender (name : Bytes) (raises : Bool)
  | fork (raises : Bool)
  | resume (name : Bytes) (co : ℕ) (raises : Bool)
  | goOn (name : Bytes) (co : ℕ) (raises : Bool)
  deriving DecidableEq, Repr

namespace State

variable (s : State)

def set (name : Bytes) (n : Node) : State := { s with nodes := Function.update s.nodes name n }

/-- The loop of `loadconfig`. An entry that fails the assertion ends it, and nothing is forked. -/
def loadconfig : List (Bytes × Option Address) → List Bytes → State → State
  | [], reload, s => { s with forks := s.forks ++ reload }
  | (name, address) :: cfg, reload, s =>
    if name.take 2 = ascii "__" then loadconfig cfg reload s
    else
      match address with
      | none => s
      | some address =>
        let (n, again) := (s.nodes name).reload address
        loadconfig cfg (if again then reload ++ [name] else reload) (s.set name n)

/-- A new coroutine calls `f`. -/
def start (name : Bytes) (f : Node → ℕ → Handle → Node) : State :=
  { s.set name (f (s.nodes name) s.coroutines s.services) with
    coroutines := s.coroutines + 1
    services := s.services + 1 }

/-- A coroutine that was woken reads `node_channel[key]`. -/
def resume (name : Bytes) (co : ℕ) (raises : Bool) : State :=
  let n := s.nodes name
  { s.set name ({ n with woken := n.woken.erase co }.index co s.services raises) with
    services := s.services + 1 }

/-- The coroutine that was forked first begins. -/
def fork (raises : Bool) : List Bytes → State
  | name :: forks => { s with forks }.start name fun n co c => n.openChannel co c raises
  | [] => s

def exec : Label → State
  | .reload cfg => s.loadconfig cfg []
  | .sender name raises => s.start name fun n co c => n.index co c raises
  | .fork raises => s.fork raises s.forks
  | .resume name co raises => s.resume name co raises
  | .goOn name co raises =>
    s.set name ((s.nodes name).goOn co raises ((s.nodes name).opener co))

def Enabled : Label → Prop
  | .reload _ | .sender _ _ => True
  | .fork _ => s.forks ≠ []
  | .resume name co _ => co ∈ (s.nodes name).woken
  | .goOn name co _ => ((s.nodes name).opener co).isSome

instance (l : Label) : Decidable (s.Enabled l) := by
  cases l <;> unfold Enabled <;> infer_instance

def step (s : State) (l : Label) : Option State := if s.Enabled l then some (s.exec l) else none

end State

/-- One sender of the node runs at most; while no coroutine opens it, none is held back, and the sender
in `node_channel` was given the address of the configuration last. -/
structure Node.Follows (n : Node) : Prop where
  senders : n.senders.length ≤ 1
  connecting : n.openers = [] → n.connecting = none
  waiting : n.openers = [] → n.waiting = []
  address : n.openers = [] → ∀ c, n.channel = some c →
    ∃ address peer, n.address = some (.text address) ∧ parseAddress address = some peer ∧
      (c, peer) ∈ n.senders

/-- `open_channel` would start a sender, or call it. -/
def Node.Connects (n : Node) : Prop := n.connecting = none ∧
  match n.address with
  | some (.text address) => (parseAddress address).isSome
  | none | some .down => False

/-- When it ends here, the address is still the one it has read, and its call has not raised. -/
def Node.Keeps (n : Node) (raises : Bool) : Option Opener → Prop
  | some ⟨_, address, .sleep _⟩ => n.address = some (.text address)
  | some ⟨_, address, .changenode _⟩ => raises = false ∧ n.address = some (.text address)
  | some ⟨_, _, .newservice _⟩ | none => True

/-- No `newservice` and no call of `changenode` raises, and no reload changes the address of a node
while it is being opened. -/
def State.Steady (s : State) : Label → Prop
  | .reload _ => True
  | .sender name raises | .resume name _ raises =>
    (s.nodes name).channel = none → (s.nodes name).Connects → raises = false
  | .fork raises => ∀ name ∈ s.forks.head?, (s.nodes name).Connects → raises = false
  | .goOn name co raises => (s.nodes name).Keeps raises ((s.nodes name).opener co)

section Decidable

variable (n : Node) (raises : Bool)

instance : Decidable n.Connects := by
  unfold Node.Connects
  exact match n.address with
  | some (.text address) =>
    inferInstanceAs (Decidable (_ ∧ ((parseAddress address).isSome : Prop)))
  | none | some .down => inferInstanceAs (Decidable (_ ∧ False))

instance : ∀ op, Decidable (n.Keeps raises op)
  | some ⟨_, address, .sleep _⟩ => inferInstanceAs (Decidable (n.address = some (.text address)))
  | some ⟨_, address, .changenode _⟩ =>
    inferInstanceAs (Decidable (raises = false ∧ n.address = some (.text address)))
  | some ⟨_, _, .newservice _⟩ | none => isTrue trivial

instance (s : State) (l : Label) : Decidable (s.Steady l) := by
  cases l <;> unfold State.Steady <;> infer_instance

end Decidable

end NodeSenders

end SkynetCpp
