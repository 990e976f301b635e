import Mathlib.Logic.Function.Basic
import SkynetCpp.Roles
import SkynetCpp.Lib.Runs
import SkynetCpp.Lib.Stacks

/-!
# The actor system

Any number of queues, worker threads and other threads, stepping in any order, each step one
atomic access. A worker takes a token of the global queue and dispatches its queue; another
thread, and the code of an actor, calls `send`, `kill`, `spawn`, `error` and `register_name` as it
likes. How an idle worker sleeps is left out: here it may take a token whenever there is one.
-/

namespace SkynetCpp

open Lib

/-- The queues in the order of the `spawn` calls that made them. -/
abbrev QId := ℕ

/-- What a thread has still to do in one function. -/
inductive Frame
  /-- `worker_loop`, between two tokens -/
  | worker
  /-- code outside any actor -/
  | external
  | call (c : Call)
  | op (q : QId) (o : Op)
  /-- `kill`, between the registry and the queue's flags -/
  | killLogger (h : Handle)
  | killLoggerCas (h : Handle)
  /-- `error`, when no logger handle is cached -/
  | errorFind (source : Handle) (text : Bytes)
  | errorStore (source : Handle) (text : Bytes) (h : Handle)
  deriving DecidableEq, Repr

structure State where
  queues : QId → ActorQueue
  /-- How many queues there are: `next_handle_` is one more, modulo `2^32`. -/
  spawned : ℕ
  /-- `actor_shards_`, all shards together. -/
  registry : Handle → Option QId
  names : Bytes → Handle
  loggerHandle : Handle
  globalQueue : List QId
  threads : List (List Frame)
  workerCount : ℕ
  /-- History: the messages sent to a handle with no queue, and the errors sent for them. -/
  unrouted : List (Handle × Message)
  unroutedErrors : List (Handle × Handle × Message)

/-- `n` workers and `m` other threads, before the first `spawn`. -/
def State.init (n m : ℕ) : State where
  queues := fun _ => { handle := 0 }
  spawned := 0
  registry := fun _ => none
  names := fun _ => 0
  loggerHandle := 0
  globalQueue := []
  threads := List.replicate n [.worker] ++ List.replicate m [.external]
  workerCount := n
  unrouted := []
  unroutedErrors := []

/-- `calc_weight` -/
def calcWeight (workerCount workerId : ℕ) : ℤ :=
  let quarter := workerCount / 4
  if quarter < 1 then 0
  else if workerId < quarter then -1
  else if workerId < quarter * 2 then 0
  else if workerId < quarter * 3 then 1
  else 2

namespace State

/-- What an access to queue `q` does outside the queue. -/
def applyShared (s : State) (q : QId) : Shared → State
  | .none => s
  | .token => { s with globalQueue := s.globalQueue ++ [q] }
  | .register => { s with registry := Function.update s.registry (s.queues q).handle (some q) }
  | .unregister =>
    if s.registry (s.queues q).handle = some q then
      { s with registry := Function.update s.registry (s.queues q).handle none }
    else s

/-- The message `error` sends to the logger; its text is cut to the 512-byte buffer. -/
def errorMessage (source : Handle) (text : Bytes) : Message :=
  { source, session := 0, type := PTYPE_ERROR, data := .string (text.take 511) }

/-- The start of one of the functions of `ActorSystem`. -/
def execCall (s : State) : Call → State × List Frame
  | .send dest m =>
    match s.registry dest with
    | some q => (s, [.op q (.pushAccepting m)])
    | none =>
      ({ s with unrouted := (dest, m) :: s.unrouted,
                unroutedErrors := (errorFor m).map (dest, ·) ++ s.unroutedErrors },
        (sendErrors m).map .call)
  | .kill h =>
    match s.registry h with
    | some q =>
      ({ s with registry := Function.update s.registry h none,
                queues := Function.update s.queues q { s.queues q with killed := true } },
        [.killLogger h, .op q .killAccepting])
    | none => (s, [])
  | .spawn =>
    ({ s with spawned := s.spawned + 1,
              queues := Function.update s.queues s.spawned
                { handle := (s.spawned + 1) % 2 ^ 32 } },
      [.op s.spawned .spawnRegister])
  | .error source text =>
    (s, if s.loggerHandle = 0 then [.errorFind source text]
        else [.call (.send s.loggerHandle (errorMessage source text))])
  | .registerName name h =>
    ({ s with names := Function.update s.names name h,
              loggerHandle := if name = ascii "logger" then h else s.loggerHandle }, [])

/-- One access by thread `tid`: the new state and the frames that replace its top frame. -/
def exec (s : State) (tid : ℕ) : Frame → Choice → Option (State × List Frame)
  | .worker, .pick i =>
    (s.globalQueue[i]?).map fun q =>
      ({ s with globalQueue := s.globalQueue.eraseIdx i }, [.op q .dispatchState, .worker])
  | .external, .call c => some (s, [.call c, .external])
  | .call c, .go => some (s.execCall c)
  | .op q o, c =>
    (o.exec tid (calcWeight s.workerCount tid) (s.queues q) c).map fun r =>
      ({ s with queues := Function.update s.queues q r.queue }.applyShared q r.shared,
        r.calls.map .call ++ r.next.map (.op q))
  | .killLogger h, .go => some (s, if s.loggerHandle = h then [.killLoggerCas h] else [])
  | .killLoggerCas h, .go =>
    some ({ s with loggerHandle := if s.loggerHandle = h then 0 else s.loggerHandle }, [])
  | .errorFind source text, .go =>
    some (s, if s.names (ascii "logger") = 0 then []
             else [.errorStore source text (s.names (ascii "logger"))])
  | .errorStore source text h, .go =>
    some ({ s with loggerHandle := h }, [.call (.send h (errorMessage source text))])
  | _, _ => none

/-- A step: the thread, and what the code leaves open. -/
abbrev Label := ℕ × Choice

def step (s : State) (l : Label) : Option State :=
  match s.threads[l.1]? with
  | some (f :: rest) => (s.exec l.1 f l.2).map fun r =>
      { r.1 with threads := s.threads.set l.1 (r.2 ++ rest) }
  | _ => none

end State

/-- The frames that run on queue `q`, in any thread and at any depth of its stack. -/
def Frame.opOn (q : QId) : Frame → Option Op
  | .op q' o => if q' = q then some o else none
  | _ => none

def State.opsOn (s : State) (q : QId) : List Op := (frames s.threads).filterMap (Frame.opOn q)

/-- The step, if it runs on queue `q`, meets `P`. -/
def StepsOn (q : QId) (P : ActorQueue → Counts → Op → Prop) (s : State) (l : State.Label) : Prop :=
  ∀ o rest, s.threads[l.1]? = some (.op q o :: rest) → P (s.queues q) (.of (s.opsOn q)) o

instance {q : QId} {P : ActorQueue → Counts → Op → Prop} [∀ a n o, Decidable (P a n o)]
    (s : State) (l : State.Label) : Decidable (StepsOn q P s l) :=
  match ht : s.threads[l.1]? with
  | some (.op q' o :: rest) =>
    if hq : q' = q then
      decidable_of_iff (P (s.queues q) (.of (s.opsOn q)) o)
        ⟨fun h o' rest' h' => by rw [ht] at h'; cases h'; exact h,
          fun h => h o rest (by rw [ht, hq])⟩
    else isTrue fun o' rest' h' => by rw [ht] at h'; cases h'; exact absurd rfl hq
  | some [] | some (.worker :: _) | some (.external :: _) | some (.call _ :: _)
  | some (.killLogger _ :: _) | some (.killLoggerCas _ :: _) | some (.errorFind _ _ :: _)
  | some (.errorStore _ _ _ :: _) | none => isTrue fun o' rest' h' => by rw [ht] at h'; cases h'

end SkynetCpp
