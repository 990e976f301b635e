import SkynetCpp.Proofs.Coroutines

/-!
# What leaves coroutines alone

What happens in a service from one suspension to the next concerns the coroutines that run, the one
that is resumed and the one that is made; of the others nothing changes (`Calm`). -/

namespace SkynetCpp

namespace LuaService

open Lib

/-- The event allocates no session, resumes nothing that was made before, and is no wakeup. -/
def Event.Routine : Event → Prop
  | .called _ _ | .buffered _ | .handed _ | .answered _ _ | .failed _ | .forked _ | .queued _
  | .taken _ => True
  | _ => False

namespace State

variable {s s' t u : State} {p : Event → Bool} {C : Coroutine → Prop} {co c : Coroutine}
  {st : CoStatus} {session : ℤ}

/-- From `s` to `t` nothing was done to the coroutines of `C`, none of which runs, but that they may
have been put into `wakeup_queue`, and no event of `p` has happened. -/
structure Calm (p : Event → Bool) (C : Coroutine → Prop) (s t : State) : Prop where
  idle : ∀ c, C c → c ∉ t.running
  status : ∀ c, C c → t.status c = s.status c
  forks : ∀ c, C c → c ∈ t.forkQueue → c ∈ s.forkQueue
  wakeups : ∀ c, C c → c ∈ s.wakeupQueue → c ∈ t.wakeupQueue
  log : ∃ es, t.log = s.log ++ es ∧ ∀ e ∈ es, p e = false

theorem Calm.refl (h : ∀ c, C c → c ∉ s.running) : Calm p C s s :=
  ⟨h, fun _ _ => rfl, fun _ _ => id, fun _ _ => id, ⟨[], by simp, by simp⟩⟩

theorem Calm.same (h : Calm p C s t) (hthreads : u.toThreads = t.toThreads)
    (hforks : u.forkQueue = t.forkQueue) (hwake : u.wakeupQueue = t.wakeupQueue)
    (hlog : u.log = t.log) : Calm p C s u := by
  refine ⟨fun c hc => ?_, fun c hc => ?_, fun c hc hmem => ?_, fun c hc hmem => ?_, hlog ▸ h.log⟩
  · rw [hthreads]
    exact h.idle c hc
  · rw [hthreads]
    exact h.status c hc
  · exact h.forks c hc (hforks ▸ hmem)
  · rw [hwake]
    exact h.wakeups c hc hmem

theorem Calm.record (h : Calm p C s t) {e : Event} (he : p e = false) :
    Calm p C s (t.record e) := by
  obtain ⟨es, hlog, hes⟩ := h.log
  refine ⟨h.idle, h.status, h.forks, h.wakeups, es ++ [e], ?_, fun e' he' => ?_⟩
  · change t.log ++ [e] = _
    rw [hlog, List.append_assoc]
  · rcases List.mem_append.1 he' with he' | he'
    · exact hes e' he'
    · rw [List.mem_singleton.1 he']
      exact he

/-- The event is not one that `p` is about. -/
def Spares (p : Event → Bool) : Prop := ∀ e, Event.Routine e → p e = false

theorem Calm.routine (h : Calm p C s t) (hp : Spares p) {e : Event} (he : e.Routine) :
    Calm p C s (t.record e) := h.record (hp e he)

/-- The threads change, and leave the coroutines of `C` alone. -/
theorem Calm.threads (h : Calm p C s t) {u : Threads}
    (hu : ∀ c, C c → c ∉ t.running → c ∉ u.running ∧ u.status c = t.status c) :
    Calm p C s { t with toThreads := u } := by
  refine ⟨fun c hc => (hu c hc (h.idle c hc)).1, fun c hc => ?_, h.forks, h.wakeups, h.log⟩
  exact (hu c hc (h.idle c hc)).2.trans (h.status c hc)

theorem Calm.back (h : Calm p C s t) : Calm p C s t.back := by
  refine h.threads fun c _ hrun => ?_
  rw [Threads.running_back]
  refine ⟨hrun, ?_⟩
  unfold Threads.back
  rcases hr : t.running with - | ⟨a, l⟩
  · rfl
  · have hne : c ≠ a := fun heq => hrun (by rw [hr, heq]; exact List.mem_cons_self)
    simp [Threads.setStatus, hne]

theorem Calm.abort (h : Calm p C s t) : Calm p C s t.abort :=
  h.threads fun _ _ hrun => ⟨List.not_mem_nil, if_neg hrun⟩

theorem Calm.setStatus (h : Calm p C s t) (hco : ¬ C co) :
    Calm p C s { t with toThreads := t.toThreads.setStatus co st } := by
  refine h.threads fun c hc hrun => ⟨hrun, ?_⟩
  have hne : c ≠ co := fun heq => hco (heq ▸ hc)
  rw [status_setStatus, if_neg hne]

theorem Calm.run (h : Calm p C s t) (hco : ¬ C co) :
    Calm p C s { t with toThreads := t.toThreads.run co } := by
  refine h.threads fun c hc hrun => ?_
  have hne : c ≠ co := fun heq => hco (heq ▸ hc)
  rw [running_run, status_run, if_neg hne, if_neg]
  · exact ⟨fun hmem => (List.mem_cons.1 hmem).elim hne hrun, rfl⟩
  · exact fun hhead => hrun (List.mem_of_head? hhead)

theorem Calm.resume (h : Calm p C s t) (hco : ¬ C co) : Calm p C s (t.resume co) := by
  unfold State.resume Threads.resume
  split
  · exact (h.run hco).same rfl rfl rfl rfl
  · exact (h.run hco).same rfl rfl rfl rfl
  · exact (h.setStatus hco).back.same rfl rfl rfl rfl
  · exact (h.setStatus hco).abort.same rfl rfl rfl rfl
  · exact h.abort.same rfl rfl rfl rfl

theorem Calm.yield (h : Calm p C s t) (hco : ¬ C co) : Calm p C s (t.yield co st) := by
  rw [yield_eq]
  refine Calm.back (h.threads fun c hc hrun => ⟨fun hmem => hrun (List.mem_of_mem_tail hmem), ?_⟩)
  have hne : c ≠ co := fun heq => hco (heq ▸ hc)
  change (t.toThreads.setStatus co st).status c = _
  rw [status_setStatus, if_neg hne]

theorem Calm.coCreate (h : Calm p C s t) (hco : ¬ C co) : Calm p C s (t.coCreate co) :=
  (h.setStatus hco).same rfl rfl rfl rfl

theorem Calm.setEntry (h : Calm p C s t) {e : Option Entry} :
    Calm p C s (t.setEntry session e) := h.same rfl rfl rfl rfl

theorem Calm.setSleep (h : Calm p C s t) {o : Option ℤ} :
    Calm p C s (t.setSleep co o) := h.same rfl rfl rfl rfl

theorem Calm.genid (h : Calm p C s t) (hp : ∀ session, p (.allocated co session) = false) :
    Calm p C s (t.genid co) := by
  refine Calm.record (t := { t with nextSession := _ }) ?_ (hp t.nextSession)
  exact h.same rfl rfl rfl rfl

theorem Calm.send (h : Calm p C s t) (hp : Spares p) {n : ℕ} {address : Option Handle}
    {type session : ℤ} {sends : Bool} : Calm p C s (t.send n address type session sends) := by
  unfold State.send
  split
  · exact h.routine hp (by trivial)
  · exact h.routine hp (by trivial)

theorem Calm.accept (h : Calm p C s t) (hp : Spares p) {m : Message} {unpacks : Bool}
    (hco : t.proto m.type = some true → ¬ C co) : Calm p C s (t.accept m co unpacks) := by
  unfold State.accept
  have hrequests : Calm p C s { t with requests := t.requests ++ [m] } :=
    h.same rfl rfl rfl rfl
  dsimp only
  split
  · split_ifs
    · exact ((hrequests.routine hp (by trivial)).send hp).back
    · exact (hrequests.routine hp (by trivial)).back
  · exact (hrequests.routine hp (by trivial)).back
  next hproto =>
    have hmade : Calm p C s ((State.coCreate { t with requests := t.requests ++ [m] } co).setRequest
        co (some m.session) (some m.source) (some t.requests.length)) :=
      (hrequests.coCreate (hco hproto)).same rfl rfl rfl rfl
    split_ifs
    · exact (hmade.routine hp (by trivial)).abort
    · exact (hmade.routine hp (by trivial)).resume (hco hproto)
    · exact (hmade.routine hp (by trivial)).resume (hco hproto)

/-- A request is buffered, or handled by a new coroutine. -/
theorem Calm.request (h : Calm p C s t) (hp : Spares p) {m : Message} {unpacks : Bool}
    (hm : m.type ≠ PTYPE_RESPONSE ∧ m.type ≠ PTYPE_ERROR) (hco : t.Dispatches m → ¬ C co) :
    Calm p C s (t.rawDispatchMessage m co unpacks) := by
  unfold State.rawDispatchMessage
  rw [if_neg hm.1, if_neg hm.2]
  split_ifs
  · refine Calm.back (Calm.routine ?_ hp (by trivial))
    exact h.same rfl rfl rfl rfl
  · exact h.accept hp fun hproto => hco ⟨hm.1, hm.2, hproto⟩

theorem Calm.ret (h : Calm p C s t) (hp : Spares p) {sends : Bool} :
    Calm p C s (t.ret co sends) := by
  have hreset : Calm p C s (t.ignoreret co) := h.same rfl rfl rfl rfl
  unfold State.ret
  split
  · dsimp only
    split_ifs
    · exact hreset
    · exact hreset.send hp
  · exact h

theorem Calm.response (h : Calm p C s t) : Calm p C s (t.response co) := by
  unfold State.response
  split
  · split_ifs
    · exact h
    · exact h.same rfl rfl rfl rfl
  · exact h

theorem Calm.respond (h : Calm p C s t) (hp : Spares p) {i : ℕ} {ok sends : Bool} :
    Calm p C s (t.respond i ok sends) := by
  unfold State.respond
  generalize (if ok then PTYPE_RESPONSE else PTYPE_ERROR) = type
  split
  · split_ifs
    · exact h
    · refine Calm.send ?_ hp
      exact h.same rfl rfl rfl rfl
  · exact h

theorem Calm.raise (h : Calm p C s t) (hp : Spares p) : Calm p C s (t.raise co) := by
  obtain ⟨es, hlog, hes⟩ := h.log
  refine Calm.abort ⟨h.idle, h.status, h.forks, h.wakeups,
    es ++ (t.serving co).toList.map Event.failed, ?_, fun e he => ?_⟩
  · change t.log ++ _ = _
    rw [hlog, List.append_assoc]
  · rcases List.mem_append.1 he with he | he
    · exact hes e he
    · obtain ⟨n, -, rfl⟩ := List.mem_map.1 he
      exact hp _ trivial

theorem Calm.fork (h : Calm p C s t) (hp : Spares p) (hco : ¬ C co) : Calm p C s (t.fork co) := by
  have hmade := h.coCreate hco
  refine Calm.record (t := { t.coCreate co with forkQueue := t.forkQueue ++ [co] }) ?_
    (hp (.forked co) trivial)
  refine ⟨hmade.idle, hmade.status, fun c hc hmem => ?_, hmade.wakeups, hmade.log⟩
  rcases List.mem_append.1 hmem with hmem | hmem
  · exact hmade.forks c hc hmem
  · exact absurd hc (List.mem_singleton.1 hmem ▸ hco)

theorem Calm.wakeup (h : Calm p C s t) (hp : Spares p)
    (hwakeup : ∀ session, p (.wakeup co session) = false) : Calm p C s (t.wakeup co) := by
  unfold State.wakeup
  split
  next session _ =>
    have hwoken : Calm p C s (t.record (.wakeup co session)) := h.record (hwakeup session)
    dsimp only
    split_ifs
    · exact hwoken
    · refine Calm.routine ?_ hp (by trivial)
      refine ⟨hwoken.idle, hwoken.status, hwoken.forks, fun c hc hmem => ?_, hwoken.log⟩
      exact List.mem_append_left _ (hwoken.wakeups c hc hmem)
  next => exact h

theorem Calm.timeout (h : Calm p C s t) (hco : ¬ C co)
    (hallocated : ∀ co session, p (.allocated co session) = false) : Calm p C s (t.timeout co) :=
  ((h.coCreate hco).genid (hallocated co)).setEntry

theorem Calm.call (h : Calm p C s t) (hco : ¬ C co) {sends : Bool}
    (hallocated : ∀ co session, p (.allocated co session) = false) :
    Calm p C s (t.call co sends) := by
  have hentry : Calm p C s ((t.genid co).setEntry t.nextSession (some (.thread co))) :=
    (h.genid (hallocated co)).setEntry
  unfold State.call
  dsimp only
  split_ifs
  · exact hentry.yield hco
  · exact hentry

theorem Calm.sleep (h : Calm p C s t) (hco : ¬ C co) {sets : Bool}
    (hallocated : ∀ co session, p (.allocated co session) = false) :
    Calm p C s (t.sleep co sets) := by
  have hsleep : Calm p C s (((t.genid co).setEntry t.nextSession (some (.thread co))).setSleep co
      (some t.nextSession)) := ((h.genid (hallocated co)).setEntry).setSleep
  unfold State.sleep
  dsimp only
  split_ifs
  · exact hsleep.yield hco
  · exact hsleep

section Perform

variable {call : Call}

theorem Calm.performMain (h : Calm p C s t) (hp : Spares p) (hcan : t.CanCallMain call)
    (hnew : ∀ co, t.CanCreate co → ¬ C co)
    (hallocated : call.Allocates → ∀ co session, p (.allocated co session) = false)
    (hwakeup : ∀ co session, call = .wakeup co → p (.wakeup co session) = false) :
    Calm p C s (t.perform 0 call) := by
  cases call with
  | fork co => exact h.fork hp (hnew co hcan)
  | timeout co => exact h.timeout (hnew co hcan) (hallocated trivial)
  | wakeup co => exact h.wakeup hp fun session => hwakeup co session rfl
  | registerProtocol type dispatch => exact h.same rfl rfl rfl rfl
  | dispatch type dispatch =>
    change Calm p C s (if _ then _ else t)
    split_ifs
    · exact h.same rfl rfl rfl rfl
    · exact h
  | _ => exact hcan.elim

theorem Calm.perform (h : Calm p C s t) (hp : Spares p) (hself : ¬ C co) (hcan : t.CanCall co call)
    (hnew : ∀ co, t.CanCreate co → ¬ C co)
    (hallocated : call.Allocates → ∀ co session, p (.allocated co session) = false)
    (hwakeup : ∀ co session, call = .wakeup co → p (.wakeup co session) = false) :
    Calm p C s (t.perform co call) := by
  cases call with
  | fork co' => exact h.fork hp (hnew co' hcan.2)
  | timeout co' => exact h.timeout (hnew co' hcan.2) (hallocated trivial)
  | wakeup co' => exact h.wakeup hp fun session => hwakeup co' session rfl
  | registerProtocol type dispatch | ignoreret => exact h.same rfl rfl rfl rfl
  | startReturns => exact ⟨h.idle, h.status, h.forks, h.wakeups, h.log⟩
  | dispatch type dispatch =>
    change Calm p C s (if _ then _ else t)
    split_ifs
    · exact h.same rfl rfl rfl rfl
    · exact h
  | call sends => exact h.call hself (hallocated trivial)
  | sleep sets => exact h.sleep hself (hallocated trivial)
  | wait token => exact (((h.genid (hallocated trivial co)).setEntry).setSleep).yield hself
  | ret sends => exact h.ret hp
  | response => exact h.response
  | respond i ok sends => exact h.respond hp
  | finish =>
    refine Calm.yield ?_ hself
    exact h.same rfl rfl rfl rfl
  | raise => exact h.raise hp

end Perform

/-- The loops resume what is at the head of `fork_queue`, or of `wakeup_list`. -/
theorem Calm.next (h : Calm p C s s) (hp : Spares p)
    (hforks : ∀ co ∈ s.forkQueue, ¬ C co ∧ p (.forkResumed co) = false)
    (hwakes : ∀ co rest, s.phase = .wakeups (co :: rest) → ¬ C co ∧
      ∀ session, s.sleepSession co = some session → p (.woken co (s.status co)) = false) :
    Calm p C s s.next := by
  unfold State.next
  split
  · split
    next co rest hq =>
      obtain ⟨hco, hresumed⟩ := hforks co (by simp [hq])
      refine Calm.resume (Calm.record ?_ hresumed) hco
      refine ⟨h.idle, h.status, fun c _ hmem => ?_, h.wakeups, h.log⟩
      rw [hq]
      exact List.mem_cons_of_mem co hmem
    next => exact h
  next co rest hphase =>
    obtain ⟨hco, hwoken⟩ := hwakes co rest hphase
    have herased : Calm p C s { s with wakeupQueue := s.wakeupQueue.erase co } := by
      refine ⟨h.idle, h.status, h.forks, fun c hc hmem => ?_, h.log⟩
      have hne : c ≠ co := fun heq => hco (heq ▸ hc)
      exact (List.mem_erase_of_ne hne).2 hmem
    have htaken := herased.record (hp (.taken co) trivial)
    dsimp only
    split
    next session hsleep =>
      refine Calm.resume (Calm.record ?_ (hwoken session hsleep)) hco
      exact ⟨htaken.idle, htaken.status, htaken.forks, htaken.wakeups, htaken.log⟩
    next => exact ⟨htaken.idle, htaken.status, htaken.forks, htaken.wakeups, htaken.log⟩
  · exact ⟨h.idle, h.status, h.forks, h.wakeups, h.log⟩
  · exact h

/-- What a response or an error resumes is not in `C`. -/
theorem Calm.rawDispatchMessage (h : Calm p C s t) (hp : Spares p) {m : Message} {unpacks : Bool}
    (hco : t.Dispatches m → ¬ C co)
    (hresumed : m.type = PTYPE_RESPONSE ∨ m.type = PTYPE_ERROR → ∀ c,
      t.sessionIdCoroutine m.session = some (.thread c) → ¬ C c ∧ p (.resumed c m) = false) :
    Calm p C s (t.rawDispatchMessage m co unpacks) := by
  unfold State.rawDispatchMessage
  split_ifs with hresponse herror hbuffer
  · split
    next => exact (h.same rfl rfl rfl rfl : Calm p C s (t.setEntry m.session none)).back
    next => exact h.back
    next c hentry =>
      obtain ⟨hc, hevent⟩ := hresumed (.inl hresponse) c hentry
      exact ((h.setEntry).record hevent).resume hc
  · split
    next => exact (h.same rfl rfl rfl rfl : Calm p C s (t.setEntry m.session none)).abort
    next => exact h.back
    next c hentry =>
      obtain ⟨hc, hevent⟩ := hresumed (.inr herror) c hentry
      exact ((h.setEntry).record hevent).resume hc
  · refine Calm.back (Calm.routine ?_ hp (by trivial))
    exact h.same rfl rfl rfl rfl
  · exact h.accept hp fun hproto => hco ⟨hresponse, herror, hproto⟩

theorem Calm.step {l : Label} (h : Calm p C s s) (hp : Spares p) (hen : s.Enabled l)
    (hnew : ∀ co, s.CanCreate co → ¬ C co)
    (hallocated : ∀ co session, p (.allocated co session) = false)
    (hwakeup : ∀ co, l = .main (.wakeup co) ∨ l = .code (.wakeup co) →
      ∀ session, p (.wakeup co session) = false)
    (hresumed : ∀ m co u, l = .message m co u ∨ l = .replay co u ∧ m ∈ s.queue →
      m.type = PTYPE_RESPONSE ∨ m.type = PTYPE_ERROR → ∀ c,
      s.sessionIdCoroutine m.session = some (.thread c) → ¬ C c ∧ p (.resumed c m) = false)
    (hnext : l = .next → Calm p C s s.next) : Calm p C s (s.exec l) := by
  cases l with
  | main c =>
    refine h.performMain hp hen.2 hnew (fun _ => hallocated) ?_
    rintro co' session rfl
    exact hwakeup co' (.inl rfl) session
  | start co => exact (h.timeout (hnew co hen.2.2) hallocated).same rfl rfl rfl rfl
  | loaded | collect l => exact ⟨h.idle, h.status, h.forks, h.wakeups, h.log⟩
  | message m co unpacks =>
    refine Calm.rawDispatchMessage (Calm.routine ?_ hp (by trivial)) hp
      (fun hm => hnew co (hen.2 hm)) (hresumed m co unpacks (.inl rfl))
    exact ⟨h.idle, h.status, h.forks, h.wakeups, h.log⟩
  | replay co unpacks =>
    obtain ⟨m, rest, hq, hco, hexec⟩ := replay_of_enabled hen
    have hrest : Calm p C s { s with queue := rest } :=
      ⟨h.idle, h.status, h.forks, h.wakeups, h.log⟩
    rw [hexec]
    exact hrest.rawDispatchMessage hp (fun hm => hnew co (hco hm))
      (hresumed m co unpacks (.inr ⟨rfl, by simp [hq]⟩))
  | code c =>
    obtain ⟨self, l, hrun, hcan, hexec⟩ := code_of_enabled hen
    rw [hexec]
    refine h.perform hp (fun hC => h.idle self hC (by simp [hrun])) hcan hnew
      (fun _ => hallocated) ?_
    rintro co' session rfl
    exact hwakeup co' (.inr rfl) session
  | next => exact hnext rfl

/-- A step adds to the log. -/
theorem log_of_step {l : Label} (hs : State.step s l = some s') : ∃ es, s'.log = s.log ++ es := by
  obtain ⟨hen, rfl⟩ := step_eq_some.1 hs
  have hcalm : Calm (fun _ => false) (fun _ => False) s s := Calm.refl nofun
  obtain ⟨es, hlog, -⟩ := (hcalm.step (fun _ _ => rfl) hen (fun _ _ => id) (fun _ _ => rfl)
    (fun _ _ _ => rfl) (fun _ _ _ _ _ _ _ => ⟨id, rfl⟩) fun _ =>
      hcalm.next (fun _ _ => rfl) (fun _ _ => ⟨id, rfl⟩) fun _ _ _ => ⟨id, fun _ _ => rfl⟩).log
  exact ⟨es, hlog⟩

end State

end LuaService

end SkynetCpp
