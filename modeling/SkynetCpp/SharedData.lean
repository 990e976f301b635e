import SkynetCpp.Lib.Runs
import Mathlib.Logic.Function.Basic
import Mathlib.Data.Nat.Notation

/-!
# Shared data

sharedatad and the services that query one name of it. A client caches what it was answered, and a
monitor coroutine asks sharedatad to be told when the version it has is no longer stored. Nothing of
one name depends on another's tables or messages.
-/

namespace SkynetCpp

namespace SharedData

open Lib

/-- A Lua value that is shared. -/
inductive Data
  | nil
  | table (n : ℕ)
  /-- a chunk can return what `skynet.pack` raises on -/
  | function
  deriving DecidableEq, Repr

def Data.Packs : Data → Prop
  | .nil | .table _ => True
  | .function => False

instance : ∀ d : Data, Decidable d.Packs
  | .nil | .table _ => isTrue trivial
  | .function => isFalse not_false

/-- The value given to `new` and `update`. -/
inductive Arg
  | table (n : ℕ)
  /-- a text, with what it evaluates to, unless it does not compile or raises -/
  | chunk (result : Option Data)
  | other
  deriving DecidableEq, Repr

/-- The data after `CMD.update`, unless it raises. -/
def Arg.data (old : Data) : Arg → Option Data
  | .table n => some (.table n)
  | .chunk result => result
  | .other => some old

/-- What is stored of the name, or known of it. `life` is a history: which `new` has made it. -/
structure Entry where
  data : Data
  version : ℕ
  life : ℕ
  deriving DecidableEq, Repr

/-- A command in the mailbox of sharedatad, with its client. A suspended monitor is where its session
is: in its request, among those that wait, or in the response; `e` is the entry it has taken from the
cache, and `life` that of the version it sends. -/
inductive Request
  | new (client : ℕ) (v : Arg)
  | query (client : ℕ)
  | update (client : ℕ) (v : Arg)
  | delete (client : ℕ)
  | monitor (client e : ℕ) (version life : ℕ)
  deriving DecidableEq, Repr

inductive Response
  | new
  | query (x : Entry)
  | update
  | delete
  /-- `none` is `nil` -/
  | monitor (e : ℕ) (x : Option Entry)
  | error
  deriving DecidableEq, Repr

/-- A response of `monitors[name]`, and whether it was sent. -/
structure Waiter where
  client : ℕ
  e : ℕ
  sent : Bool := false
  deriving DecidableEq, Repr

/-- A client: the entries it has made, the one in `cache[name]`, the monitors that were forked and have
not run, and its mailbox. -/
structure Client where
  entries : List Entry := []
  cache : Option ℕ := none
  forked : ℕ := 0
  mailbox : List Response := []
  deriving DecidableEq, Repr

/-- sharedatad, with its mailbox. -/
structure Server where
  store : Option Entry := none
  lives : ℕ := 0
  monitors : List Waiter := []
  inbox : List Request := []
  deriving DecidableEq, Repr

structure State extends Server where
  clients : ℕ → Client := fun _ => {}

inductive Label
  | new (client : ℕ) (v : Arg)
  | query (client : ℕ)
  | update (client : ℕ) (v : Arg)
  | delete (client : ℕ)
  | flush (client : ℕ)
  /-- a monitor that was forked begins -/
  | fork (client : ℕ)
  /-- sharedatad handles a command -/
  | serve
  /-- a client handles a response -/
  | receive (client : ℕ)
  deriving DecidableEq, Repr

namespace Client

variable (c : Client)

/-- The loop of `monitor`, up to its call. -/
def monitor (client : ℕ) : List Request :=
  match c.cache with
  | none => []
  | some e =>
    match c.entries[e]? with
    | some x => [.monitor client e x.version x.life]
    | none => []

/-- The coroutine that has waited for the response goes on; what it sends. -/
def handle (client : ℕ) : Response → Client × List Request
  | .new | .error => (c, [])
  | .query x =>
    ({ c with
      entries := c.entries ++ [x]
      cache := some c.entries.length
      forked := c.forked + 1 }, [])
  | .update | .delete | .monitor _ none => ({ c with cache := none }, [])
  | .monitor e (some x) =>
    if x.data = .nil then ({ c with cache := none }, [])
    else
      let c := { c with entries := c.entries.set e x }
      (c, c.monitor client)

end Client

/-- The loop that responds to the monitors: which were sent the response, the list afterwards, and
whether it raises. -/
def respond (x : Option Entry) : List Waiter → List Waiter × List Waiter × Bool
  | [] => ([], [], false)
  | m :: ms =>
    if m.sent then ([], m :: ms, true)
    else if ∀ y ∈ x, y.data.Packs then
      let (answered, ms, raised) := respond x ms
      (m :: answered, { m with sent := true } :: ms, raised)
    else ([], { m with sent := true } :: ms, true)

namespace State

variable (s : State)

def setClient (i : ℕ) (c : Client) : State := { s with clients := Function.update s.clients i c }

def post (rs : List Request) : State := { s with inbox := s.inbox ++ rs }

/-- The responses go to the mailboxes of their clients. -/
def send (rs : List (ℕ × Response)) : State :=
  { s with clients := fun i => { s.clients i with
      mailbox := (s.clients i).mailbox ++ (rs.filter fun r => r.1 = i).map Prod.snd } }

/-- `CMD.new` stores the value. -/
def put (client : ℕ) (d : Data) : State :=
  { s with store := some ⟨d, 1, s.lives + 1⟩, lives := s.lives + 1 }.send [(client, .new)]

/-- `CMD.new` -/
def new (client : ℕ) (v : Arg) : State :=
  match s.store with
  | some _ => s.send [(client, .error)]
  | none =>
    match v with
    | .table n => s.put client (.table n)
    | .chunk (some d) => s.put client d
    | .chunk none | .other => s.send [(client, .error)]

/-- `CMD.query` -/
def query (client : ℕ) : State :=
  match s.store with
  | none => s.send [(client, .error)]
  | some x =>
    if x.data.Packs then s.send [(client, .query x)] else s.send [(client, .error)]

/-- The monitors are told, and the command is answered. -/
def notify (client : ℕ) (x : Option Entry) (r : Response) : State :=
  let (answered, ms, raised) := respond x s.monitors
  let s := s.send (answered.map fun m => (m.client, .monitor m.e x))
  if raised then { s with monitors := ms }.send [(client, .error)]
  else { s with monitors := [] }.send [(client, r)]

/-- `CMD.delete` -/
def delete (client : ℕ) : State := { s with store := none }.notify client none .delete

/-- `CMD.update` -/
def update (client : ℕ) (v : Arg) : State :=
  match s.store with
  | none => s.send [(client, .error)]
  | some x =>
    match v.data x.data with
    | none => s.send [(client, .error)]
    | some d =>
      let x := { x with data := d, version := x.version + 1 }
      { s with store := some x }.notify client (some x) .update

/-- `CMD.monitor` -/
def monitor (client e oldVersion : ℕ) : State :=
  match s.store with
  | none => s.send [(client, .monitor e none)]
  | some x =>
    if x.version ≠ oldVersion then
      if x.data.Packs then s.send [(client, .monitor e (some x))] else s.send [(client, .error)]
    else { s with monitors := s.monitors ++ [{ client, e }] }

def serve : List Request → State
  | [] => s
  | .new client v :: rs => { s with inbox := rs }.new client v
  | .query client :: rs => { s with inbox := rs }.query client
  | .update client v :: rs => { s with inbox := rs }.update client v
  | .delete client :: rs => { s with inbox := rs }.delete client
  | .monitor client e version _ :: rs => { s with inbox := rs }.monitor client e version

def receive (i : ℕ) : List Response → State
  | [] => s
  | r :: rs =>
    let (c, requests) := { s.clients i with mailbox := rs }.handle i r
    (s.setClient i c).post requests

def exec : Label → State
  | .new client v => s.post [.new client v]
  | .query client =>
    match (s.clients client).cache with
    | some _ => s
    | none => s.post [.query client]
  | .update client v => s.post [.update client v]
  | .delete client => s.post [.delete client]
  | .flush client => s.setClient client { s.clients client with cache := none }
  | .fork client =>
    let c := s.clients client
    (s.setClient client { c with forked := c.forked - 1 }).post (c.monitor client)
  | .serve => s.serve s.inbox
  | .receive client => s.receive client (s.clients client).mailbox

def Enabled : Label → Prop
  | .new _ _ | .query _ | .update _ _ | .delete _ | .flush _ => True
  | .fork client => 0 < (s.clients client).forked
  | .serve => s.inbox ≠ []
  | .receive client => (s.clients client).mailbox ≠ []

instance (l : Label) : Decidable (s.Enabled l) := by
  cases l <;> unfold Enabled <;> infer_instance

def step (s : State) (l : Label) : Option State := if s.Enabled l then some (s.exec l) else none

/-- No message is in flight, and no coroutine is to run. -/
structure Quiet (s : State) : Prop where
  inbox : s.inbox = []
  mailbox : ∀ i, (s.clients i).mailbox = []
  forked : ∀ i, (s.clients i).forked = 0

/-- When all is quiet, a client with a monitor that waits has cached what is stored, and none has
cached a name that was deleted. -/
structure Consistent (s : State) : Prop where
  cached : s.Quiet → ∀ i e, (s.clients i).cache = some e →
    (∃ m ∈ s.monitors, m.client = i ∧ m.sent = false) →
    ∃ x y, (s.clients i).entries[e]? = some x ∧ s.store = some y ∧ x.data = y.data ∧
      x.version = y.version
  deleted : s.Quiet → s.store = none → ∀ i, (s.clients i).cache = none

/-- The command answers no monitor with what cannot be packed, and lets none wait whose version was
that of a name deleted since. -/
def Answers (s : State) : Option Request → Prop
  | some (.update _ v) => s.monitors ≠ [] → ∀ x ∈ s.store, ∀ d ∈ v.data x.data, d.Packs
  | some (.monitor _ _ version life) => ∀ x ∈ s.store,
    if x.version = version then x.life = life else x.data.Packs
  | _ => True

/-- Each command that sharedatad handles meets `Answers`. -/
def Told (s : State) : Label → Prop
  | .serve => s.Answers s.inbox.head?
  | _ => True

instance : ∀ r, Decidable (s.Answers r)
  | some (.update _ v) =>
    inferInstanceAs (Decidable (s.monitors ≠ [] → ∀ x ∈ s.store, ∀ d ∈ v.data x.data, d.Packs))
  | some (.monitor _ _ version life) => inferInstanceAs (Decidable (∀ x ∈ s.store,
    if x.version = version then x.life = life else x.data.Packs))
  | none | some (.new _ _) | some (.query _) | some (.delete _) => isTrue trivial

instance (l : Label) : Decidable (s.Told l) := by
  cases l <;> unfold Told <;> infer_instance

end State

end SharedData

end SkynetCpp
