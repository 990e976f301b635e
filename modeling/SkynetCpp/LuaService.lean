import Mathlib.Logic.Function.Basic
import SkynetCpp.Lib.Runs
import SkynetCpp.Message

/-!
# A Lua service

The tables of `skynet.lua`, and what a service does with them from one suspension of a coroutine to
the next: `raw_dispatch_message`, the loops of `dispatch_message`, the start of the service, and
the functions that its coroutines call. What the code of the service does between these calls is
not determined: a coroutine that runs may call any of them next, or end, or raise, and an error
that a function raises may be caught. Coroutines are made by `co_create`, and resumed by
`skynet.lua` only.
-/

namespace SkynetCpp

namespace LuaService

abbrev Coroutine := ℕ

/-- A value of `session_id_coroutine`: a coroutine, or "BREAK". -/
inductive Entry
  | thread (co : Coroutine)
  | broken
  deriving DecidableEq, Repr

/-- Where a coroutine has called `coroutine_yield("SUSPEND")`. -/
inductive Suspension
  /-- `call` or `rawcall` -/
  | call (session : ℤ)
  | sleep (session : ℤ)
  | wait (session : ℤ) (token : Coroutine)
  deriving DecidableEq, Repr

def Suspension.session : Suspension → ℤ
  | .call session | .sleep session | .wait session _ => session

inductive CoStatus
  | unborn
  /-- `co_create` has returned it -/
  | ready
  | suspended (why : Suspension)
  | running
  /-- in `dispatch_pending_messages`, having resumed another -/
  | normal
  /-- in `coroutine_pool` -/
  | pooled
  /-- in `coroutine_pool`, and resumed there, so that it is at its second yield -/
  | spoiled
  | dead
  deriving DecidableEq, Repr

/-- Where the main thread is: the main chunk, between callbacks, or in `dispatch_message`. -/
inductive Phase
  | loading
  | idle
  /-- in `raw_dispatch_message` -/
  | handler
  /-- before a round of the fork loop, and in it -/
  | forks
  | forked
  /-- before a round of the wakeup loop, and in it, with the rest of `wakeup_list` -/
  | wakeups (rest : List Coroutine)
  | woken (rest : List Coroutine)
  deriving DecidableEq, Repr

/-- Where the main thread goes on when a resume has returned. -/
def Phase.after : Phase → Phase
  | .handler | .forked => .forks
  | .woken rest => .wakeups rest
  | p => p

def Phase.Waking : Phase → Prop
  | .wakeups _ => True
  | _ => False

/-- The coroutines and the main thread. -/
structure Threads where
  status : Coroutine → CoStatus := fun _ => .unborn
  /-- the coroutines that have been resumed and not come back, the one that runs first -/
  running : List Coroutine := []
  phase : Phase := .loading
  /-- what `dispatch_pending_messages` has still to dispatch -/
  queue : List Message := []

namespace Threads

variable (t : Threads)

def setStatus (co : Coroutine) (st : CoStatus) : Threads :=
  { t with status := Function.update t.status co st }

/-- A resume has returned, and so does `suspend`. -/
def back : Threads :=
  match t.running with
  | [] => { t with phase := t.phase.after }
  | co :: _ => t.setStatus co .running

/-- An error: of the code that runs on the main thread, or one that `suspend` raises again, up to
there. It ends `dispatch_message`, unless it comes up in the fork loop. -/
def abort : Threads where
  status co := if co ∈ t.running then .dead else t.status co
  running := []
  phase := if t.phase = .forked then .forks else .idle
  queue := []

def run (co : Coroutine) : Threads :=
  let t := match t.running with
    | [] => t
    | starter :: _ => t.setStatus starter .normal
  { t.setStatus co .running with running := co :: t.running }

/-- `suspend(co, coroutine_resume(co, ...))`, up to where `co` runs, or to the end. -/
def resume (co : Coroutine) : Threads :=
  match t.status co with
  | .ready | .suspended _ => t.run co
  | .pooled => (t.setStatus co .spoiled).back
  | .spoiled => (t.setStatus co .dead).abort
  | _ => t.abort

/-- The coroutine that runs yields, or has ended. -/
def yield (co : Coroutine) (st : CoStatus) : Threads :=
  { t.setStatus co st with running := t.running.tail }.back

end Threads

/-- A function that `skynet.response` has returned, and the request it is for. -/
structure Response where
  request : ℕ
  session : ℤ
  address : Option Handle
  sent : Bool := false
  deriving DecidableEq, Repr

/-- What `c.send` is given by the functions that answer a request. -/
structure Answer where
  address : Handle
  type : ℤ
  session : ℤ
  deriving DecidableEq, Repr

/-- What has happened. A request that `raw_dispatch_message` does not buffer has a number. -/
inductive Event
  /-- the callback is called, and whether `skynet.start` was done -/
  | called (m : Message) (started : Bool)
  | buffered (m : Message)
  /-- a dispatch function is called -/
  | handed (m : Message)
  | answered (request : ℕ) (a : Answer)
  /-- the request finds no dispatch function, or what handles it raises with no reply sent -/
  | failed (request : ℕ)
  | allocated (co : Coroutine) (session : ℤ)
  /-- by a response or an error -/
  | resumed (co : Coroutine) (m : Message)
  | forked (co : Coroutine)
  | forkResumed (co : Coroutine)
  /-- `skynet.wakeup` returns true, with the session in `sleep_session` -/
  | wakeup (co : Coroutine) (session : ℤ)
  /-- put into `wakeup_queue`, and taken out of it -/
  | queued (co : Coroutine)
  | taken (co : Coroutine)
  /-- resumed by the wakeup loop, where it was -/
  | woken (co : Coroutine) (st : CoStatus)
  deriving DecidableEq, Repr

/-- `proto`, by type, as `skynet.lua` fills it: whether there is a dispatch function. -/
def builtinProto (type : ℤ) : Option Bool :=
  if type ∈ [PTYPE_LUA, PTYPE_TEXT, PTYPE_RESPONSE, PTYPE_ERROR] then some false else none

/-- The last four fields are a history, and decide nothing. -/
structure State extends Threads where
  sessionIdCoroutine : ℤ → Option Entry := fun _ => none
  sessionCoroutineId : Coroutine → Option ℤ := fun _ => none
  sessionCoroutineAddress : Coroutine → Option Handle := fun _ => none
  proto : ℤ → Option Bool := builtinProto
  forkQueue : List Coroutine := []
  serviceStarted : Bool := false
  pendingMessages : List Message := []
  coroutinePool : List Coroutine := []
  sleepSession : Coroutine → Option ℤ := fun _ => none
  wakeupQueue : List Coroutine := []
  nextSession : ℤ := 1
  /-- the coroutine of `skynet.start`, until it ends -/
  starter : Option Coroutine := none
  responses : List Response := []
  /-- the requests that have numbers, and those the coroutines handle -/
  requests : List Message := []
  serving : Coroutine → Option ℕ := fun _ => none
  log : List Event := []

namespace State

variable (s : State)

def record (e : Event) : State := { s with log := s.log ++ [e] }

/-- `c.genid`, of an `atomic<int>`, for `co`. -/
def genid (co : Coroutine) : State :=
  { s with nextSession := if s.nextSession = 2 ^ 31 - 1 then -(2 ^ 31) else s.nextSession + 1 }.record
    (.allocated co s.nextSession)

def setEntry (session : ℤ) (e : Option Entry) : State :=
  { s with sessionIdCoroutine := Function.update s.sessionIdCoroutine session e }

def setSleep (co : Coroutine) (session : Option ℤ) : State :=
  { s with sleepSession := Function.update s.sleepSession co session }

/-- `session_coroutine_id[co]` and `session_coroutine_address[co]`, for the request `n`. -/
def setRequest (co : Coroutine) (session : Option ℤ) (address : Option Handle) (n : Option ℕ) :
    State :=
  { s with
    sessionCoroutineId := Function.update s.sessionCoroutineId co session
    sessionCoroutineAddress := Function.update s.sessionCoroutineAddress co address
    serving := Function.update s.serving co n }

/-- `c.send` of an answer; it raises where there is no address, and may raise otherwise. -/
def send (n : ℕ) (address : Option Handle) (type session : ℤ) (sends : Bool) : State :=
  match address, sends with
  | some address, true => s.record (.answered n { address, type, session })
  | _, _ => s.record (.failed n)

def back : State := { s with toThreads := s.toThreads.back }

def abort : State := { s with toThreads := s.toThreads.abort }

def yield (co : Coroutine) (st : CoStatus) : State := { s with toThreads := s.toThreads.yield co st }

/-- `sleep_session`, after what the function that has suspended `co` does first. -/
def sleepAfter (co : Coroutine) : Coroutine → Option ℤ :=
  match s.status co with
  | .suspended (.sleep _) => Function.update s.sleepSession co none
  | .suspended (.wait _ token) => Function.update s.sleepSession token none
  | _ => s.sleepSession

def resume (co : Coroutine) : State :=
  { s with toThreads := s.toThreads.resume co, sleepSession := s.sleepAfter co }

/-- `co_create` can return it: it is new, or in the pool, which is weak. -/
def CanCreate (co : Coroutine) : Prop := s.status co = .unborn ∨ co ∈ s.coroutinePool

/-- `co_create`. Where a coroutine of the pool is at its second yield, the function is taken for the
arguments of what is no function, and the coroutine dies. -/
def coCreate (co : Coroutine) : State :=
  { s with
    toThreads := s.toThreads.setStatus co
      (if s.status co = .unborn ∨ s.status co = .pooled then .ready else .dead)
    coroutinePool := s.coroutinePool.erase co }

/-- `raw_dispatch_message` of a request that is not buffered, with the coroutine that `co_create`
returns, and whether the unpack function returns. -/
def accept (m : Message) (co : Coroutine) (unpacks : Bool) : State :=
  let n := s.requests.length
  let s := { s with requests := s.requests ++ [m] }
  match s.proto m.type with
  | none =>
    let s := s.record (.failed n)
    if m.session ≠ 0 then (s.send n (some m.source) PTYPE_ERROR m.session true).back else s.back
  | some false => (s.record (.failed n)).back
  | some true =>
    let s := (s.coCreate co).setRequest co (some m.session) (some m.source) (some n)
    if unpacks = false then (s.record (.failed n)).abort
    else if s.status co = .ready then (s.record (.handed m)).resume co
    else (s.record (.failed n)).resume co

def rawDispatchMessage (m : Message) (co : Coroutine) (unpacks : Bool) : State :=
  if m.type = PTYPE_RESPONSE then
    match s.sessionIdCoroutine m.session with
    | some .broken => (s.setEntry m.session none).back
    | none => s.back
    | some (.thread c) => ((s.setEntry m.session none).record (.resumed c m)).resume c
  else if m.type = PTYPE_ERROR then
    match s.sessionIdCoroutine m.session with
    | some .broken => (s.setEntry m.session none).abort
    | none => s.back
    | some (.thread c) => ((s.setEntry m.session none).record (.resumed c m)).resume c
  else if s.serviceStarted = false ∧ s.proto m.type ≠ some true then
    ({ s with pendingMessages := s.pendingMessages ++ [m] }.record (.buffered m)).back
  else s.accept m co unpacks

/-- `skynet.wakeup` -/
def wakeup (co : Coroutine) : State :=
  match s.sleepSession co with
  | some session =>
    let s := s.record (.wakeup co session)
    if co ∈ s.wakeupQueue then s
    else { s with wakeupQueue := s.wakeupQueue ++ [co] }.record (.queued co)
  | none => s

/-- `skynet.call`, up to its yield; `c.send` may raise before. -/
def call (co : Coroutine) (sends : Bool) : State :=
  let session := s.nextSession
  let s := (s.genid co).setEntry session (some (.thread co))
  if sends then s.yield co (.suspended (.call session)) else s

/-- `skynet.sleep`; `c.timeout` may raise. -/
def sleep (co : Coroutine) (sets : Bool) : State :=
  let session := s.nextSession
  let s := ((s.genid co).setEntry session (some (.thread co))).setSleep co (some session)
  if sets then s.yield co (.suspended (.sleep session)) else s

/-- `skynet.wait` -/
def wait (co : Coroutine) (token : Option Coroutine) : State :=
  let session := s.nextSession
  let token := token.getD co
  let s := ((s.genid co).setEntry session (some (.thread token))).setSleep token (some session)
  s.yield co (.suspended (.wait session token))

/-- `skynet.timeout` -/
def timeout (co : Coroutine) : State :=
  ((s.coCreate co).genid co).setEntry s.nextSession (some (.thread co))

/-- `skynet.fork` -/
def fork (co : Coroutine) : State :=
  { s.coCreate co with forkQueue := s.forkQueue ++ [co] }.record (.forked co)

/-- `skynet.ignoreret` -/
def ignoreret (co : Coroutine) : State :=
  { s with
    sessionCoroutineId := Function.update s.sessionCoroutineId co none
    serving := Function.update s.serving co none }

/-- `skynet.ret` -/
def ret (co : Coroutine) (sends : Bool) : State :=
  match s.sessionCoroutineId co with
  | some session =>
    let n := (s.serving co).getD 0
    let s := s.ignoreret co
    if session = 0 then s
    else s.send n (s.sessionCoroutineAddress co) PTYPE_RESPONSE session sends
  | none => s

/-- `skynet.response` -/
def response (co : Coroutine) : State :=
  match s.sessionCoroutineId co with
  | some session =>
    if session = 0 then s
    else
      let r : Response :=
        { request := (s.serving co).getD 0, session, address := s.sessionCoroutineAddress co }
      { s.setRequest co none none none with responses := s.responses ++ [r] }
  | none => s

/-- A function that `skynet.response` has returned is called; `pack` or `c.send` may raise. -/
def respond (i : ℕ) (ok sends : Bool) : State :=
  match s.responses[i]? with
  | some r =>
    if r.sent then s
    else { s with responses := s.responses.set i { r with sent := true } }.send r.request r.address
      (if ok then PTYPE_RESPONSE else PTYPE_ERROR) r.session sends
  | none => s

/-- The function of `skynet.start` has returned, and `dispatch_pending_messages` begins. -/
def startReturns : State :=
  { s with
    serviceStarted := true
    queue := s.pendingMessages
    pendingMessages := [] }

/-- The end of a coroutine's function: the coroutine is recycled. -/
def finish (co : Coroutine) : State :=
  { s.setRequest co none none none with
    coroutinePool := s.coroutinePool ++ [co]
    starter := if s.starter = some co then none else s.starter }.yield co .pooled

/-- An error of the coroutine that runs. The function of `skynet.start` is called by `xpcall`. -/
def raise (co : Coroutine) : State :=
  { s with
    pendingMessages :=
      if s.starter = some co ∧ s.serviceStarted = false then [] else s.pendingMessages
    log := s.log ++ (s.serving co).toList.map Event.failed }.abort

end State

/-- What the code of the service can do next. -/
inductive Call
  | fork (co : Coroutine)
  | timeout (co : Coroutine)
  | wakeup (co : Coroutine)
  | registerProtocol (type : ℤ) (dispatch : Bool)
  | dispatch (type : ℤ) (dispatch : Bool)
  | call (sends : Bool)
  | sleep (sets : Bool)
  | wait (token : Option Coroutine)
  | ignoreret
  | ret (sends : Bool)
  | response
  | respond (i : ℕ) (ok sends : Bool)
  | startReturns
  | finish
  | raise
  deriving DecidableEq, Repr

inductive Label
  /-- the main chunk: a call, `skynet.start`, and its end -/
  | main (c : Call)
  | start (co : Coroutine)
  | loaded
  /-- the callback is called -/
  | message (m : Message) (co : Coroutine) (unpacks : Bool)
  /-- `dispatch_pending_messages` goes on -/
  | replay (co : Coroutine) (unpacks : Bool)
  | code (c : Call)
  /-- the fork loop, or the wakeup loop, goes on -/
  | next
  /-- the keys of `wakeup_queue`, in the order of `pairs` -/
  | collect (l : List Coroutine)
  deriving DecidableEq, Repr

namespace State

variable (s : State)

/-- A call of the coroutine `self`. -/
def perform (self : Coroutine) : Call → State
  | .fork co => s.fork co
  | .timeout co => s.timeout co
  | .wakeup co => s.wakeup co
  | .registerProtocol type dispatch =>
    { s with proto := Function.update s.proto type (some dispatch) }
  | .dispatch type dispatch =>
    if (s.proto type).isSome then
      { s with proto := Function.update s.proto type (some dispatch) }
    else s
  | .call sends => s.call self sends
  | .sleep sets => s.sleep self sets
  | .wait token => s.wait self token
  | .ignoreret => s.ignoreret self
  | .ret sends => s.ret self sends
  | .response => s.response self
  | .respond i ok sends => s.respond i ok sends
  | .startReturns => s.startReturns
  | .finish => s.finish self
  | .raise => s.raise self

/-- One step of the loops of `dispatch_message`. -/
def next : State :=
  match s.phase with
  | .forks =>
    match s.forkQueue with
    | co :: rest =>
      ({ s with forkQueue := rest, phase := .forked }.record (.forkResumed co)).resume co
    | [] => s
  | .wakeups (co :: rest) =>
    let s := { s with wakeupQueue := s.wakeupQueue.erase co }.record (.taken co)
    match s.sleepSession co with
    | some session =>
      ({ (s.setSleep co none).setEntry session (some .broken) with phase := .woken rest }.record
        (.woken co (s.status co))).resume co
    | none => { s with phase := .wakeups rest }
  | .wakeups [] => { s with phase := .forks }
  | _ => s

def exec : Label → State
  | .main c => s.perform 0 c
  | .start co => { s.timeout co with starter := some co }
  | .loaded => { s with phase := .idle }
  | .message m co unpacks =>
    ({ s with phase := .handler }.record (.called m s.serviceStarted)).rawDispatchMessage m co unpacks
  | .replay co unpacks =>
    match s.queue with
    | m :: rest => { s with queue := rest }.rawDispatchMessage m co unpacks
    | [] => s
  | .code c =>
    match s.running with
    | self :: _ => s.perform self c
    | [] => s
  | .next => s.next
  | .collect l => { s with phase := if l = [] then .idle else .wakeups l }

/-- The code of the coroutine `self` can make the call. That of `skynet.start` does nothing more
when its function has returned, but dispatch what is pending and end. -/
def CanCall (self : Coroutine) : Call → Prop
  | .startReturns => s.starter = some self ∧ s.serviceStarted = false
  | .finish => s.starter = some self → s.serviceStarted = true ∧ s.queue = []
  | .fork co | .timeout co =>
    ¬ (s.starter = some self ∧ s.serviceStarted = true) ∧ s.CanCreate co
  | _ => ¬ (s.starter = some self ∧ s.serviceStarted = true)

def CanCallMain : Call → Prop
  | .fork co | .timeout co => s.CanCreate co
  | .wakeup _ | .registerProtocol _ _ | .dispatch _ _ => True
  | _ => False

/-- The request is not buffered, and its type has a dispatch function. -/
def Dispatches (m : Message) : Prop :=
  m.type ≠ PTYPE_RESPONSE ∧ m.type ≠ PTYPE_ERROR ∧ s.proto m.type = some true

def Enabled : Label → Prop
  | .main c => s.phase = .loading ∧ s.CanCallMain c
  | .start co => s.phase = .loading ∧ s.starter = none ∧ s.CanCreate co
  | .loaded => s.phase = .loading ∧ s.starter ≠ none
  | .message m co _ => s.phase = .idle ∧ (s.Dispatches m → s.CanCreate co)
  | .replay co _ =>
    s.starter ≠ none ∧ s.running = s.starter.toList ∧ s.serviceStarted = true ∧
      ∃ m ∈ s.queue.head?, s.Dispatches m → s.CanCreate co
  | .code c => ∃ self ∈ s.running.head?, s.CanCall self c
  | .next => s.phase = .forks ∧ s.forkQueue ≠ [] ∨ s.phase.Waking
  | .collect l => s.phase = .forks ∧ s.forkQueue = [] ∧ l.Perm s.wakeupQueue

instance (co : Coroutine) : Decidable (s.CanCreate co) := inferInstanceAs (Decidable (_ ∨ _))

instance (m : Message) : Decidable (s.Dispatches m) := inferInstanceAs (Decidable (_ ∧ _ ∧ _))

instance (self : Coroutine) (c : Call) : Decidable (s.CanCall self c) := by
  cases c <;> unfold CanCall <;> infer_instance

instance (c : Call) : Decidable (s.CanCallMain c) := by
  cases c <;> unfold CanCallMain <;> infer_instance

instance : ∀ p : Phase, Decidable p.Waking
  | .wakeups _ => isTrue trivial
  | .loading | .idle | .handler | .forks | .forked | .woken _ => isFalse id

instance (l : Label) : Decidable (s.Enabled l) := by
  cases l <;> unfold Enabled <;> infer_instance

def step (s : State) (l : Label) : Option State := if s.Enabled l then some (s.exec l) else none

end State

end LuaService

end SkynetCpp
