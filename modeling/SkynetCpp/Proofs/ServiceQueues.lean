import SkynetCpp.ServiceRuns

/-!
# The queues of a service are drained

`fork_queue` and `wakeup_queue` are touched by `fork`, `wakeup` and the loops only (`queues` is the
view of them), each with the event that counts it (`Balanced`). The main thread comes back from
`dispatch_message` by the end of the loops, where both are empty, or by an error
(`idle_of_step`).
-/

namespace SkynetCpp

namespace LuaService

open Lib

namespace Phase

/-- Something runs, or may. -/
def Busy : Phase → Prop
  | .handler | .forked | .woken _ => True
  | _ => False

/-- What the wakeup loop has still to take out. -/
def rest : Phase → List Coroutine
  | .wakeups l | .woken l => l
  | _ => []

@[simp]
theorem rest_after (p : Phase) : p.after.rest = p.rest := by cases p <;> rfl

theorem after_ne_idle {p : Phase} (h : p ≠ .idle) : p.after ≠ .idle := by
  cases p <;> simp_all [after]

end Phase

namespace Threads

variable {t : Threads} {co : Coroutine}

theorem phase_back : t.back.phase = if t.running = [] then t.phase.after else t.phase := by
  unfold back
  rcases t.running with _ | ⟨co, l⟩ <;> rfl

theorem running_back : t.back.running = t.running := by
  unfold back
  rcases h : t.running with _ | ⟨co, l⟩ <;> simp [setStatus, h]

theorem phase_run : (t.run co).phase = t.phase := by
  unfold run
  rcases t.running with _ | ⟨c, l⟩ <;> rfl

theorem rest_back : t.back.phase.rest = t.phase.rest := by
  rw [phase_back]
  split_ifs <;> simp

theorem rest_abort : t.abort.phase.rest = [] := by
  unfold abort
  dsimp only
  split_ifs <;> rfl

/-- A resume leaves the wakeup loop where it was, or ends it. -/
theorem rest_resume : (t.resume co).phase.rest = t.phase.rest ∨ (t.resume co).phase.rest = [] := by
  unfold resume
  split
  · exact .inl (by rw [phase_run])
  · exact .inl (by rw [phase_run])
  · exact .inl rest_back
  · exact .inr rest_abort
  · exact .inr rest_abort

/-- The code of the service runs inside `dispatch_message`. -/
def Inside (t : Threads) : Prop := t.running ≠ [] → t.phase.Busy

/-- The operations of the threads keep `P`. -/
structure Keep (P : Threads → Prop) : Prop where
  queue : ∀ {t} {q : List Message}, P t → P { t with queue := q }
  setStatus : ∀ {t co st}, P t → P (t.setStatus co st)
  back : ∀ {t}, P t → P t.back
  abort : ∀ {t}, P t → P t.abort
  resume : ∀ {t co}, P t → t.phase.Busy → P (t.resume co)
  yield : ∀ {t co st}, P t → P (t.yield co st)

theorem inside_back (h : t.Inside) : t.back.Inside := by
  intro hne
  rw [running_back] at hne
  rw [phase_back, if_neg hne]
  exact h hne

theorem inside_abort : t.abort.Inside := fun h => absurd rfl h

theorem keep_inside : Keep Inside where
  queue h := h
  setStatus h := h
  back := inside_back
  abort _ := inside_abort
  resume {t co} _ hbusy := by
    unfold resume
    split
    · exact fun _ => by rw [phase_run]; exact hbusy
    · exact fun _ => by rw [phase_run]; exact hbusy
    · exact inside_back fun _ => hbusy
    · exact inside_abort
    · exact inside_abort
  yield {t co st} h := by
    refine inside_back fun hne => h fun hnil => hne ?_
    change t.running.tail = []
    rw [hnil]
    rfl

/-- The main chunk has ended. -/
def Loaded (t : Threads) : Prop := t.phase ≠ .loading

theorem loaded_back (h : t.Loaded) : t.back.Loaded := by
  unfold Loaded at h ⊢
  rw [phase_back]
  split_ifs
  · cases hp : t.phase <;> simp_all [Phase.after]
  · exact h

theorem loaded_abort : t.abort.Loaded := by
  change (if t.phase = .forked then Phase.forks else .idle) ≠ .loading
  split_ifs <;> simp

theorem keep_loaded : Keep Loaded where
  queue h := h
  setStatus h := h
  back := loaded_back
  abort _ := loaded_abort
  resume {t co} h _ := by
    unfold resume
    split
    · exact fun hp => h (phase_run.symm.trans hp)
    · exact fun hp => h (phase_run.symm.trans hp)
    · exact loaded_back h
    · exact loaded_abort
    · exact loaded_abort
  yield h := loaded_back h

theorem back_ne_idle (h : t.phase ≠ .idle) : t.back.phase ≠ .idle := by
  rw [phase_back]
  split_ifs
  · exact Phase.after_ne_idle h
  · exact h

theorem yield_ne_idle {st : CoStatus} (h : t.phase ≠ .idle) : (t.yield co st).phase ≠ .idle :=
  back_ne_idle h

/-- Only where `suspend` raises does a resume end `dispatch_message`. -/
theorem resume_ne_idle (h : t.phase ≠ .idle)
    (hco : t.status co = .ready ∨ (∃ why, t.status co = .suspended why) ∨ t.status co = .pooled
      ∨ t.phase = .forked) : (t.resume co).phase ≠ .idle := by
  have habort : t.phase = .forked → t.abort.phase ≠ .idle := by
    intro hp
    simp [abort, hp]
  unfold resume
  rcases hco with hco | ⟨why, hco⟩ | hco | hp
  · rw [hco]
    simpa [phase_run] using h
  · rw [hco]
    simpa [phase_run] using h
  · rw [hco]
    exact back_ne_idle h
  · split
    · simpa [phase_run] using h
    · simpa [phase_run] using h
    · exact back_ne_idle h
    · exact habort hp
    · exact habort hp

end Threads

/-- The event counts what goes into a queue, or out of it. -/
def Event.ofQueues : Event → Bool
  | .forked _ | .forkResumed _ | .queued _ | .taken _ => true
  | _ => false

namespace State

variable {s s' : State} {co : Coroutine}

/-- The two queues and the events that count what goes through them. -/
def queues (s : State) : List Coroutine × List Coroutine × List Event :=
  (s.forkQueue, s.wakeupQueue, s.log.filter Event.ofQueues)

/-- The queues are what they were, and the wakeup loop is where it was or has ended. -/
def Keeps (s s' : State) : Prop :=
  s'.queues = s.queues ∧ (s'.phase.rest = s.phase.rest ∨ s'.phase.rest = [])

namespace Keeps

variable {t : State}

theorem rfl' : Keeps s s := ⟨rfl, .inl rfl⟩

theorem trans {u : State} (h : Keeps s t) (h' : Keeps t u) : Keeps s u := by
  refine ⟨h'.1.trans h.1, ?_⟩
  rcases h'.2 with heq | hnil
  · rw [heq]
    exact h.2
  · exact .inr hnil

theorem record {e : Event} (he : e.ofQueues = false) (h : Keeps s t) : Keeps s (t.record e) := by
  refine h.trans ⟨?_, .inl rfl⟩
  simp [queues, State.record, he]

theorem back (h : Keeps s t) : Keeps s t.back := h.trans ⟨rfl, .inl Threads.rest_back⟩

theorem abort (h : Keeps s t) : Keeps s t.abort := h.trans ⟨rfl, .inr Threads.rest_abort⟩

theorem resume (h : Keeps s t) : Keeps s (t.resume co) := h.trans ⟨rfl, Threads.rest_resume⟩

theorem yield {st : CoStatus} (h : Keeps s t) : Keeps s (t.yield co st) :=
  h.trans ⟨rfl, .inl Threads.rest_back⟩

theorem setEntry {session : ℤ} {e : Option Entry} (h : Keeps s t) :
    Keeps s (t.setEntry session e) := h

theorem setSleep {session : Option ℤ} (h : Keeps s t) : Keeps s (t.setSleep co session) := h

theorem genid (h : Keeps s t) : Keeps s (t.genid co) :=
  record (t := { t with nextSession := _ }) rfl h

theorem send {n : ℕ} {address : Option Handle} {type session : ℤ} {sends : Bool}
    (h : Keeps s t) : Keeps s (t.send n address type session sends) := by
  unfold State.send
  split
  · exact h.record rfl
  · exact h.record rfl

theorem accept {m : Message} {unpacks : Bool} : Keeps s (s.accept m co unpacks) := by
  unfold State.accept
  have h : Keeps s { s with requests := s.requests ++ [m] } := rfl'
  dsimp only
  split
  · split_ifs
    · exact (h.record rfl).send.back
    · exact (h.record rfl).back
  · exact (h.record rfl).back
  · have h' : Keeps s (({ s with requests := s.requests ++ [m] }.coCreate co).setRequest co
        (some m.session) (some m.source) (some s.requests.length)) := rfl'
    split_ifs
    · exact (h'.record rfl).abort
    · exact (h'.record rfl).resume
    · exact (h'.record rfl).resume

theorem rawDispatchMessage {m : Message} {unpacks : Bool} :
    Keeps s (s.rawDispatchMessage m co unpacks) := by
  unfold State.rawDispatchMessage
  split_ifs
  · split
    · exact rfl'.back
    · exact rfl'.back
    · exact (record (t := s.setEntry m.session none) rfl rfl').resume
  · split
    · exact rfl'.abort
    · exact rfl'.back
    · exact (record (t := s.setEntry m.session none) rfl rfl').resume
  · exact (record (t := { s with pendingMessages := _ }) rfl rfl').back
  · exact accept

theorem call {sends : Bool} : Keeps s (s.call co sends) := by
  unfold State.call
  have h : Keeps s ((s.genid co).setEntry s.nextSession (some (.thread co))) := (genid rfl').setEntry
  dsimp only
  split_ifs
  · exact h.yield
  · exact h

theorem sleep {sets : Bool} : Keeps s (s.sleep co sets) := by
  unfold State.sleep
  have h : Keeps s (((s.genid co).setEntry s.nextSession (some (.thread co))).setSleep co
      (some s.nextSession)) := (genid rfl').setEntry.setSleep
  dsimp only
  split_ifs
  · exact h.yield
  · exact h

theorem ret {sends : Bool} : Keeps s (s.ret co sends) := by
  unfold State.ret
  split
  · dsimp only
    split_ifs
    · exact rfl'
    · exact send (t := s.ignoreret co) rfl'
  · exact rfl'

theorem response : Keeps s (s.response co) := by
  unfold State.response
  split
  · split_ifs <;> exact rfl'
  · exact rfl'

theorem respond {i : ℕ} {ok sends : Bool} : Keeps s (s.respond i ok sends) := by
  unfold State.respond
  split
  · split
    · exact rfl'
    · exact send (t := { s with responses := _ }) rfl'
  · exact rfl'

theorem raise : Keeps s (s.raise co) := by
  refine abort ⟨?_, .inl rfl⟩
  cases h : s.serving co <;> simp [queues, Event.ofQueues]

/-- What the code of the service calls, but `fork` and `wakeup`, leaves the queues alone. -/
theorem perform {self : Coroutine} {c : Call} (hf : ∀ co, c ≠ .fork co)
    (hw : ∀ co, c ≠ .wakeup co) : Keeps s (s.perform self c) := by
  cases c with
  | fork co => exact absurd rfl (hf co)
  | wakeup co => exact absurd rfl (hw co)
  | timeout co => exact (genid (t := s.coCreate co) rfl').setEntry
  | registerProtocol type dispatch => exact rfl'
  | dispatch type dispatch =>
    change Keeps s (if _ then _ else s)
    split_ifs <;> exact rfl'
  | call sends => exact call
  | sleep sets => exact sleep
  | wait token => exact (genid rfl').setEntry.setSleep.yield
  | ignoreret => exact rfl'
  | ret sends => exact ret
  | response => exact response
  | respond i ok sends => exact respond
  | startReturns => exact rfl'
  | finish => exact ⟨rfl, .inl Threads.rest_back⟩
  | raise => exact raise

end Keeps

/-- Each queue holds what was put in and not taken out, and the wakeup loop has still to take out
what the queue holds. -/
structure Balanced (s : State) : Prop where
  forks : ∀ co, s.log.count (.forked co) = s.log.count (.forkResumed co) + s.forkQueue.count co
  wakeups : ∀ co, s.log.count (.queued co) = s.log.count (.taken co) + s.wakeupQueue.count co
  nodup : s.wakeupQueue.Nodup
  restNodup : s.phase.rest.Nodup
  restMem : ∀ co ∈ s.phase.rest, co ∈ s.wakeupQueue

theorem balanced_init : Balanced {} where
  forks _ := rfl
  wakeups _ := rfl
  nodup := List.nodup_nil
  restNodup := List.nodup_nil
  restMem _ h := h

theorem count_of_queues {e : Event} (he : e.ofQueues = true) (h : s'.queues = s.queues) :
    s'.log.count e = s.log.count e := by
  have hlog : s'.log.filter Event.ofQueues = s.log.filter Event.ofQueues :=
    congrArg (fun q => q.2.2) h
  rw [← List.count_filter he, hlog, List.count_filter he]

theorem Balanced.keeps (hb : Balanced s) (h : Keeps s s') : Balanced s' := by
  have hf : s'.forkQueue = s.forkQueue := congrArg Prod.fst h.1
  have hw : s'.wakeupQueue = s.wakeupQueue := congrArg (fun q => q.2.1) h.1
  refine ⟨fun co => ?_, fun co => ?_, hw ▸ hb.nodup, ?_, fun co hco => hw ▸ ?_⟩
  · rw [count_of_queues rfl h.1, count_of_queues rfl h.1, hf]
    exact hb.forks co
  · rw [count_of_queues rfl h.1, count_of_queues rfl h.1, hw]
    exact hb.wakeups co
  · rcases h.2 with heq | hnil
    · exact heq ▸ hb.restNodup
    · exact hnil ▸ List.nodup_nil
  · rcases h.2 with heq | hnil
    · exact hb.restMem co (heq ▸ hco)
    · rw [hnil] at hco
      cases hco

theorem Balanced.fork (h : Balanced s) : Balanced (s.fork co) := by
  refine ⟨fun c => ?_, fun c => ?_, h.nodup, h.restNodup, h.restMem⟩
  · have := h.forks c
    simp only [State.fork, State.record, State.coCreate, List.count_append]
    by_cases hc : co = c
    · subst hc
      simp
      omega
    · simp [hc, this]
  · simpa [State.fork, State.record, State.coCreate] using h.wakeups c

theorem Balanced.wakeup (h : Balanced s) : Balanced (s.wakeup co) := by
  unfold State.wakeup
  split
  · rename_i session _
    dsimp only
    have h' : Balanced (s.record (.wakeup co session)) := h.keeps (Keeps.rfl'.record rfl)
    split_ifs with hmem
    · exact h'
    · refine ⟨fun c => ?_, fun c => ?_, ?_, h.restNodup, fun c hc => ?_⟩
      · simpa [State.record] using h'.forks c
      · have := h'.wakeups c
        simp only [State.record, List.count_append] at this ⊢
        by_cases hc : co = c
        · subst hc
          simp at this ⊢
          omega
        · simpa [hc] using this
      · change (s.wakeupQueue ++ [co]).Nodup
        refine List.nodup_append.2 ⟨h.nodup, by simp, fun c hc d hd heq => hmem ?_⟩
        rw [List.mem_singleton] at hd
        exact (heq.trans hd) ▸ hc
      · exact List.mem_append_left _ (h.restMem c hc)
  · exact h

theorem Balanced.next (h : Balanced s) : Balanced s.next := by
  unfold State.next
  split
  · split
    · rename_i co rest hq
      refine Balanced.keeps ?_ Keeps.rfl'.resume
      refine ⟨fun c => ?_, fun c => ?_, h.nodup, List.nodup_nil, fun c hc => by cases hc⟩
      · have := h.forks c
        rw [hq] at this
        simp only [State.record, List.count_append, List.count_cons] at this ⊢
        by_cases hc : co = c
        · subst hc
          simp at this ⊢
          omega
        · simpa [hc] using this
      · simpa [State.record] using h.wakeups c
    · exact h
  · rename_i co rest hp
    have hrest : (co :: rest).Nodup := by simpa [hp, Phase.rest] using h.restNodup
    have hmem : ∀ c ∈ co :: rest, c ∈ s.wakeupQueue := by
      simpa [hp, Phase.rest] using h.restMem
    -- what the loop has taken out, `phase` being anything that has still the others to take
    have htaken : ∀ p : Phase, p.rest = rest →
        Balanced ({ s with wakeupQueue := s.wakeupQueue.erase co, phase := p }.record (.taken co)) := by
      intro p hp
      refine ⟨fun c => ?_, fun c => ?_, h.nodup.erase co, ?_, fun c hc => ?_⟩
      · simpa [State.record] using h.forks c
      · have := h.wakeups c
        simp only [State.record, List.count_append] at this ⊢
        by_cases hc : co = c
        · subst hc
          have hpos : 0 < s.wakeupQueue.count co := List.count_pos_iff.2 (hmem co (by simp))
          simp at this ⊢
          omega
        · simpa [hc, List.count_erase_of_ne (Ne.symm hc)] using this
      · change p.rest.Nodup
        exact hp ▸ (List.nodup_cons.1 hrest).2
      · have hc : c ∈ rest := hp ▸ hc
        refine (List.mem_erase_of_ne ?_).2 (hmem c (List.mem_cons_of_mem _ hc))
        exact fun heq => (List.nodup_cons.1 hrest).1 (heq ▸ hc)
    dsimp only
    split
    · rename_i session _
      have hset : ∀ e, Balanced (({ s with
          wakeupQueue := s.wakeupQueue.erase co
          phase := .woken rest }.record (.taken co)).record (.woken co e)) :=
        fun e => (htaken (.woken rest) rfl).keeps (Keeps.rfl'.record rfl)
      exact Balanced.keeps (hset (s.status co)) ⟨rfl, Threads.rest_resume⟩
    · exact htaken (.wakeups rest) rfl
  · exact ⟨h.forks, h.wakeups, h.nodup, List.nodup_nil, fun c hc => by cases hc⟩
  · exact h

theorem step_eq_some {l : Label} : step s l = some s' ↔ s.Enabled l ∧ s.exec l = s' := by
  unfold step
  split_ifs with h <;> simp [h]

theorem Balanced.perform {self : Coroutine} {c : Call} (h : Balanced s) :
    Balanced (s.perform self c) := by
  by_cases hf : ∃ co, c = .fork co
  · obtain ⟨co, rfl⟩ := hf
    exact h.fork
  · by_cases hw : ∃ co, c = .wakeup co
    · obtain ⟨co, rfl⟩ := hw
      exact h.wakeup
    · exact h.keeps (Keeps.perform (fun co heq => hf ⟨co, heq⟩) fun co heq => hw ⟨co, heq⟩)

theorem Balanced.step {l : Label} (h : Balanced s) (hs : step s l = some s') : Balanced s' := by
  obtain ⟨hen, rfl⟩ := step_eq_some.1 hs
  cases l with
  | main c => exact h.perform
  | start co => exact h.keeps ⟨(Keeps.genid (t := s.coCreate co) Keeps.rfl').1, .inl rfl⟩
  | loaded => exact h.keeps ⟨rfl, .inr rfl⟩
  | message m co unpacks =>
    have h' : Keeps s ({ s with phase := .handler }.record (.called m s.serviceStarted)) :=
      Keeps.record (t := { s with phase := .handler }) rfl ⟨rfl, .inr rfl⟩
    exact h.keeps (h'.trans Keeps.rawDispatchMessage)
  | replay co unpacks =>
    simp only [exec]
    split
    · rename_i m rest _
      exact Balanced.keeps (s := { s with queue := rest }) ⟨h.forks, h.wakeups, h.nodup, h.restNodup,
        h.restMem⟩ Keeps.rawDispatchMessage
    · exact h
  | code c =>
    simp only [exec]
    split
    · exact h.perform
    · exact h
  | next => exact h.next
  | collect l =>
    obtain ⟨-, -, hperm⟩ := hen
    refine ⟨h.forks, h.wakeups, h.nodup, ?_, fun c hc => ?_⟩
    · change (if l = [] then Phase.idle else .wakeups l).rest.Nodup
      split_ifs
      · exact List.nodup_nil
      · exact hperm.nodup_iff.2 h.nodup
    · change c ∈ (if l = [] then Phase.idle else .wakeups l).rest at hc
      split_ifs at hc
      · cases hc
      · exact hperm.subset hc

section Idle

theorem send_phase {n : ℕ} {address : Option Handle} {type session : ℤ} {sends : Bool} :
    (s.send n address type session sends).phase = s.phase := by
  unfold send
  split <;> rfl

theorem accept_ne_idle {m : Message} {unpacks : Bool} (h : s.phase ≠ .idle)
    (hok : s.phase = .forked ∨ ¬ (s.proto m.type = some true ∧ (unpacks = false ∨
      ¬ (s.status co = .unborn ∨ s.status co = .pooled)))) :
    (s.accept m co unpacks).phase ≠ .idle := by
  unfold accept
  dsimp only
  split
  · split_ifs
    · exact Threads.back_ne_idle (by rw [send_phase]; exact h)
    · exact Threads.back_ne_idle h
  · exact Threads.back_ne_idle h
  · rename_i hproto
    split_ifs with hunpacks hready
    · rcases hok with hf | hok
      · change (if s.phase = .forked then Phase.forks else .idle) ≠ .idle
        simp [hf]
      · exact absurd ⟨hproto, .inl hunpacks⟩ hok
    · exact Threads.resume_ne_idle h (.inl hready)
    · refine Threads.resume_ne_idle h (hok.elim (fun hf => .inr (.inr (.inr hf))) fun hok => ?_)
      refine absurd ⟨hproto, .inr fun hco => hready ?_⟩ hok
      change Function.update s.status co (if _ then CoStatus.ready else .dead) co = .ready
      rw [Function.update_self, if_pos hco]

theorem resume_ne_idle (h : s.phase ≠ .idle) (hco : s.phase = .forked ∨ (s.status co).Resumable) :
    (s.resume co).phase ≠ .idle := by
  refine Threads.resume_ne_idle h ?_
  rcases hco with hf | hco
  · exact .inr (.inr (.inr hf))
  · unfold CoStatus.Resumable at hco
    split at hco
    · exact .inl ‹_›
    · exact .inr (.inl ⟨_, ‹_›⟩)
    · exact .inr (.inr (.inl ‹_›))
    · exact hco.elim

theorem rawDispatchMessage_ne_idle {m : Message} {unpacks : Bool} (h : s.phase ≠ .idle)
    (hok : s.phase = .forked ∨ ¬ s.DispatchFails m co unpacks) :
    (s.rawDispatchMessage m co unpacks).phase ≠ .idle := by
  unfold rawDispatchMessage
  unfold DispatchFails at hok
  split_ifs with h₁ h₂ h₃
  · rw [if_pos (.inl h₁)] at hok
    split
    · exact Threads.back_ne_idle h
    · exact Threads.back_ne_idle h
    · rename_i c hc
      rw [hc] at hok
      exact resume_ne_idle (s := (s.setEntry m.session none).record (.resumed c m)) h
        (hok.imp id Classical.not_not.1)
  · rw [if_pos (.inr h₂)] at hok
    split
    · rename_i hc
      rw [hc] at hok
      rcases hok with hf | hok
      · change (if s.phase = .forked then Phase.forks else .idle) ≠ .idle
        simp [hf]
      · exact absurd h₂ hok
    · exact Threads.back_ne_idle h
    · rename_i c hc
      rw [hc] at hok
      exact resume_ne_idle (s := (s.setEntry m.session none).record (.resumed c m)) h
        (hok.imp id Classical.not_not.1)
  · exact Threads.back_ne_idle h
  · rw [if_neg (not_or.2 ⟨h₁, h₂⟩)] at hok
    exact accept_ne_idle h (hok.imp id fun hok hfail => hok ⟨⟨h₁, h₂, hfail.1⟩, hfail.2⟩)

theorem perform_ne_idle {self : Coroutine} {c : Call} (h : s.phase ≠ .idle)
    (hc : c = .raise → s.phase = .forked) : (s.perform self c).phase ≠ .idle := by
  cases c with
  | fork co | timeout co | registerProtocol type dispatch | ignoreret | startReturns => exact h
  | wakeup co =>
    change (s.wakeup co).phase ≠ .idle
    unfold wakeup
    split
    · dsimp only
      split_ifs <;> exact h
    · exact h
  | dispatch type dispatch =>
    change (if _ then _ else s).phase ≠ .idle
    split_ifs <;> exact h
  | call sends =>
    change (s.call self sends).phase ≠ .idle
    unfold call
    dsimp only
    split_ifs
    · exact Threads.yield_ne_idle h
    · exact h
  | sleep sets =>
    change (s.sleep self sets).phase ≠ .idle
    unfold sleep
    dsimp only
    split_ifs
    · exact Threads.yield_ne_idle h
    · exact h
  | wait token => exact Threads.yield_ne_idle h
  | ret sends =>
    change (s.ret self sends).phase ≠ .idle
    unfold ret
    split
    · dsimp only
      split_ifs
      · exact h
      · rw [send_phase]
        exact h
    · exact h
  | response =>
    change (s.response self).phase ≠ .idle
    unfold response
    split
    · split_ifs <;> exact h
    · exact h
  | respond i ok sends =>
    change (s.respond i ok sends).phase ≠ .idle
    unfold respond
    split
    · split
      · exact h
      · rw [send_phase]
        exact h
    · exact h
  | finish => exact Threads.yield_ne_idle h
  | raise =>
    change (if s.phase = .forked then Phase.forks else .idle) ≠ .idle
    simp [hc rfl]

/-- `dispatch_message` returns when both queues are empty, or an error ends it. -/
theorem idle_of_step {l : Label} (hin : s.Inside) (hs : step s l = some s')
    (hidle : s'.phase = .idle) :
    l = .loaded ∨ (s.forkQueue = [] ∧ s.wakeupQueue = [] ∧ s' = { s with phase := .idle })
      ∨ s.Aborts l := by
  obtain ⟨hen, rfl⟩ := step_eq_some.1 hs
  have hbusy : s.running ≠ [] → s.phase ≠ .idle := by
    intro hne hp
    have := hin hne
    rw [hp] at this
    exact this
  cases l with
  | main c =>
    have hp : s.phase ≠ .idle := by
      rw [hen.1]
      simp
    refine absurd hidle (perform_ne_idle hp fun hc => ?_)
    subst hc
    exact hen.2.elim
  | start co =>
    have hp : s.phase = .idle := hidle
    rw [hen.1] at hp
    cases hp
  | loaded => exact .inl rfl
  | message m co unpacks =>
    by_contra hnot
    have hfail : ¬ s.DispatchFails m co unpacks := fun hfail => hnot (.inr (.inr hfail))
    change (State.rawDispatchMessage _ m co unpacks).phase = .idle at hidle
    refine absurd hidle (rawDispatchMessage_ne_idle ?_ (.inr ?_))
    · exact fun h => by cases h
    · exact hfail
  | replay co unpacks =>
    obtain ⟨hst, hrun, -, m, hm, -⟩ := hen
    obtain ⟨starter, hst⟩ := Option.ne_none_iff_exists'.1 hst
    have hne : s.running ≠ [] := by simp [hrun, hst]
    rcases hq : s.queue with _ | ⟨m', rest⟩
    · rw [hq] at hm
      cases hm
    · rw [hq] at hm
      cases hm
      have hexec : s.exec (.replay co unpacks)
          = { s with queue := rest }.rawDispatchMessage m co unpacks := by
        simp only [exec, hq]
      rw [hexec] at hidle
      by_contra hnot
      refine rawDispatchMessage_ne_idle (s := { s with queue := rest }) (hbusy hne) ?_ hidle
      by_cases hf : s.phase = .forked
      · exact .inl hf
      · refine .inr fun hfail => hnot (.inr (.inr ⟨hf, m, ?_, hfail⟩))
        rw [hq]
        rfl
  | code c =>
    obtain ⟨self, hself, -⟩ := hen
    rcases hr : s.running with _ | ⟨a, l⟩
    · rw [hr] at hself
      cases hself
    · have hexec : s.exec (.code c) = s.perform a c := by simp only [exec, hr]
      rw [hexec] at hidle
      by_contra hnot
      refine perform_ne_idle (hbusy (by simp [hr])) (fun hc => ?_) hidle
      by_contra hf
      exact hnot (.inr (.inr ⟨hf, hc⟩))
  | next =>
    have hp : s.phase ≠ .idle := by
      rintro h
      rcases hen with ⟨hp, -⟩ | hp
      · rw [h] at hp
        cases hp
      · rw [h] at hp
        exact hp
    by_contra hnot
    change s.next.phase = .idle at hidle
    unfold next at hidle
    split at hidle
    · split at hidle
      · refine resume_ne_idle (s := State.record _ _) (fun h => ?_) (.inl rfl) hidle
        cases h
      · exact hp hidle
    · rename_i co rest hphase
      dsimp only at hidle
      split at hidle
      · rename_i session hsleep
        refine resume_ne_idle (s := State.record _ _) (fun h => ?_) (.inr ?_) hidle
        · cases h
        · by_contra hco
          refine hnot (.inr (.inr ?_))
          simp only [Aborts, hphase, WakeupFails]
          refine ⟨?_, hco⟩
          rw [show s.sleepSession co = some session from hsleep]
          simp
      · cases hidle
    · cases hidle
    · exact hp hidle
  | collect l =>
    obtain ⟨-, hforks, hperm⟩ := hen
    have hl : l = [] := by
      by_contra hl
      change (if l = [] then Phase.idle else .wakeups l) = .idle at hidle
      simp [hl] at hidle
    subst hl
    exact .inr (.inl ⟨hforks, hperm.nil_eq.symm, rfl⟩)

end Idle

section Kept

variable {P : Threads → Prop}

theorem send_threads {n : ℕ} {address : Option Handle} {type session : ℤ} {sends : Bool} :
    (s.send n address type session sends).toThreads = s.toThreads := by
  unfold send
  split <;> rfl

theorem keep_accept (hP : Threads.Keep P) {m : Message} {unpacks : Bool} (h : P s.toThreads)
    (hbusy : s.phase.Busy) : P (s.accept m co unpacks).toThreads := by
  unfold accept
  dsimp only
  split
  · split_ifs
    · refine hP.back ?_
      rw [send_threads]
      exact h
    · exact hP.back h
  · exact hP.back h
  · split_ifs
    · exact hP.abort (hP.setStatus h)
    · exact hP.resume (hP.setStatus h) hbusy
    · exact hP.resume (hP.setStatus h) hbusy

theorem keep_rawDispatchMessage (hP : Threads.Keep P) {m : Message} {unpacks : Bool}
    (h : P s.toThreads) (hbusy : s.phase.Busy) :
    P (s.rawDispatchMessage m co unpacks).toThreads := by
  unfold rawDispatchMessage
  split_ifs
  · split
    · exact hP.back h
    · exact hP.back h
    · exact hP.resume h hbusy
  · split
    · exact hP.abort h
    · exact hP.back h
    · exact hP.resume h hbusy
  · exact hP.back h
  · exact keep_accept hP h hbusy

theorem keep_perform (hP : Threads.Keep P) {self : Coroutine} {c : Call} (h : P s.toThreads) :
    P (s.perform self c).toThreads := by
  cases c with
  | fork co | timeout co => exact hP.setStatus h
  | registerProtocol type dispatch | ignoreret => exact h
  | startReturns => exact hP.queue h
  | wakeup co =>
    change P (s.wakeup co).toThreads
    unfold wakeup
    split
    · dsimp only
      split_ifs <;> exact h
    · exact h
  | dispatch type dispatch =>
    change P (State.toThreads (if _ then _ else s))
    split_ifs <;> exact h
  | call sends =>
    change P (s.call self sends).toThreads
    unfold call
    dsimp only
    split_ifs
    · exact hP.yield h
    · exact h
  | sleep sets =>
    change P (s.sleep self sets).toThreads
    unfold sleep
    dsimp only
    split_ifs
    · exact hP.yield h
    · exact h
  | wait token => exact hP.yield h
  | ret sends =>
    change P (s.ret self sends).toThreads
    unfold ret
    split
    · dsimp only
      split_ifs
      · exact h
      · rw [send_threads]
        exact h
    · exact h
  | response =>
    change P (s.response self).toThreads
    unfold response
    split
    · split_ifs <;> exact h
    · exact h
  | respond i ok sends =>
    change P (s.respond i ok sends).toThreads
    unfold respond
    split
    · split
      · exact h
      · rw [send_threads]
        exact h
    · exact h
  | finish => exact hP.yield h
  | raise => exact hP.abort h

/-- Nothing runs but inside `dispatch_message`. -/
theorem running_of_not_busy (h : s.Inside) (hp : ¬ s.phase.Busy) : s.running = [] := by
  by_contra hne
  exact hp (h hne)

theorem inside_of_step {l : Label} (h : s.Inside) (hs : step s l = some s') : s'.Inside := by
  obtain ⟨hen, rfl⟩ := step_eq_some.1 hs
  have hkeep := Threads.keep_inside
  cases l with
  | main c => exact keep_perform hkeep h
  | start co => exact h
  | loaded => exact fun hne => absurd (running_of_not_busy h (by rw [hen.1]; exact id)) hne
  | message m co unpacks =>
    exact keep_rawDispatchMessage (s := State.record _ _) hkeep (fun _ => trivial) trivial
  | replay co unpacks =>
    obtain ⟨hst, hrun, -⟩ := hen
    obtain ⟨starter, hst⟩ := Option.ne_none_iff_exists'.1 hst
    have hbusy : s.phase.Busy := h (by simp [hrun, hst])
    simp only [exec]
    split
    · exact keep_rawDispatchMessage hkeep h hbusy
    · exact h
  | code c =>
    simp only [exec]
    split
    · exact keep_perform hkeep h
    · exact h
  | next =>
    change s.next.Inside
    unfold next
    split
    · split
      · exact hkeep.resume (fun _ => trivial) trivial
      · exact h
    · rename_i hp
      dsimp only
      split
      · exact hkeep.resume (fun _ => trivial) trivial
      · exact fun hne => absurd (running_of_not_busy h (by rw [hp]; exact id)) hne
    · rename_i hp
      exact fun hne => absurd (running_of_not_busy h (by rw [hp]; exact id)) hne
    · exact h
  | collect l => exact fun hne => absurd (running_of_not_busy h (by rw [hen.1]; exact id)) hne

end Kept

/-- Between callbacks nothing is left in the queues. -/
def Empty (s : State) : Prop :=
  s.phase = .idle → (∃ m started, .called m started ∈ s.log) → s.forkQueue = [] ∧ s.wakeupQueue = []

theorem drained_of_empty (hb : Balanced s) (h : Empty s) : Drained s := by
  intro hidle hcalled
  obtain ⟨hf, hw⟩ := h hidle hcalled
  refine ⟨hf, hw, fun co => ?_⟩
  have hforks := hb.forks co
  have hwakeups := hb.wakeups co
  rw [hf, List.count_nil] at hforks
  rw [hw, List.count_nil] at hwakeups
  omega

theorem called_of_step_main {l : Label} (hin : s.Inside) (hs : step s l = some s')
    (hp : s'.phase = .loading) : s.phase = .loading ∧
      ∀ m started, .called m started ∈ s'.log → .called m started ∈ s.log := by
  obtain ⟨hen, rfl⟩ := step_eq_some.1 hs
  have hloaded : s.running ≠ [] → s.phase ≠ .loading := by
    intro hne hload
    have := hin hne
    rw [hload] at this
    exact this
  have hkeep := Threads.keep_loaded
  cases l with
  | main c =>
    refine ⟨hen.1, fun m started hmem => ?_⟩
    obtain ⟨-, hc⟩ := hen
    cases c with
    | fork co =>
      simpa [exec, perform, fork, record, coCreate] using hmem
    | timeout co =>
      simpa [exec, perform, timeout, record, coCreate, genid, setEntry] using hmem
    | wakeup co =>
      simp only [exec, perform, wakeup] at hmem
      split at hmem
      · split_ifs at hmem
        · simpa [record] using hmem
        · simpa [record] using hmem
      · exact hmem
    | registerProtocol type dispatch => exact hmem
    | dispatch type dispatch =>
      simp only [exec, perform] at hmem
      split_ifs at hmem <;> exact hmem
    | _ => exact hc.elim
  | start co =>
    refine ⟨hen.1, fun m started hmem => ?_⟩
    simpa [exec, timeout, record, coCreate, genid, setEntry] using hmem
  | loaded => cases hp
  | message m co unpacks =>
    refine absurd hp (keep_rawDispatchMessage (s := State.record _ _) hkeep ?_ trivial)
    exact fun h => by cases h
  | replay co unpacks =>
    obtain ⟨hst, hrun, -⟩ := hen
    obtain ⟨starter, hst⟩ := Option.ne_none_iff_exists'.1 hst
    have hne : s.running ≠ [] := by simp [hrun, hst]
    simp only [exec] at hp
    split at hp
    · exact absurd hp (keep_rawDispatchMessage hkeep (hloaded hne) (hin hne))
    · exact absurd hp (hloaded hne)
  | code c =>
    obtain ⟨self, hself, -⟩ := hen
    simp only [exec] at hp
    rcases hr : s.running with _ | ⟨a, l⟩
    · rw [hr] at hself
      cases hself
    · have hne : s.running ≠ [] := by simp [hr]
      rw [hr] at hp
      exact absurd hp (keep_perform hkeep (hloaded hne))
  | next =>
    change s.next.phase = .loading at hp
    unfold next at hp
    split at hp
    · split at hp
      · refine absurd hp (hkeep.resume ?_ trivial)
        exact fun h => by cases h
      · rename_i hphase _ _
        rw [hphase] at hp
        cases hp
    · dsimp only at hp
      split at hp
      · refine absurd hp (hkeep.resume ?_ trivial)
        exact fun h => by cases h
      · cases hp
    · cases hp
    · rename_i hforks hwake hnil
      rcases hen with ⟨h, -⟩ | h
      · exact absurd h hforks
      · rw [hp] at h
        exact h.elim
  | collect l =>
    change (if l = [] then Phase.idle else .wakeups l) = .loading at hp
    split_ifs at hp

/-- Nothing is left in the queues where an error ends `dispatch_message`. -/
theorem empty_of_aborts {l : Label} (hq : s.Unhurt l) (ha : s.Aborts l) (hs : step s l = some s') :
    s'.forkQueue = [] ∧ s'.wakeupQueue = [] := by
  obtain ⟨hf, hw⟩ := hq ha
  obtain ⟨hen, rfl⟩ := step_eq_some.1 hs
  have hkeeps : ∀ s', Keeps s s' → s.wakeupQueue = [] → s'.forkQueue = [] ∧ s'.wakeupQueue = [] := by
    intro s' hk hw
    exact ⟨(congrArg Prod.fst hk.1).trans hf, (congrArg (fun q => q.2.1) hk.1).trans hw⟩
  cases l with
  | message m co unpacks =>
    have h' : Keeps s ({ s with phase := .handler }.record (.called m s.serviceStarted)) :=
      Keeps.record (t := { s with phase := .handler }) rfl ⟨rfl, .inr rfl⟩
    exact hkeeps _ (h'.trans Keeps.rawDispatchMessage) hw
  | replay co unpacks =>
    simp only [exec]
    split
    · exact hkeeps _ (Keeps.trans (t := { s with queue := _ }) Keeps.rfl'
        Keeps.rawDispatchMessage) hw
    · exact ⟨hf, hw⟩
  | code c =>
    obtain ⟨-, rfl⟩ := ha
    simp only [exec]
    split
    · exact ⟨hf, hw⟩
    · exact ⟨hf, hw⟩
  | next =>
    rcases hphase : s.phase with _ | _ | _ | _ | _ | (_ | ⟨co, rest⟩) | _
    case wakeups.cons =>
      simp only [leftover, hphase] at hw
      change s.next.forkQueue = [] ∧ s.next.wakeupQueue = []
      unfold next
      rw [hphase]
      dsimp only
      split
      · exact ⟨hf, hw⟩
      · exact ⟨hf, hw⟩
    all_goals
      simp only [Aborts, hphase, WakeupFails] at ha
  | main c => exact ha.elim
  | start co => exact ha.elim
  | loaded => exact ha.elim
  | collect l => exact ha.elim

/-- The callback is not called before the main chunk has ended. -/
def Uncalled (s : State) : Prop :=
  s.phase = .loading → ∀ m started, .called m started ∉ s.log

theorem uncalled_of_step {l : Label} (hin : s.Inside) (h : Uncalled s)
    (hs : step s l = some s') : Uncalled s' := by
  intro hp m started hmem
  obtain ⟨hload, hlog⟩ := called_of_step_main hin hs hp
  exact h hload m started (hlog m started hmem)

theorem empty_of_step {l : Label} (hin : s.Inside) (hun : Uncalled s) (hq : s.Unhurt l)
    (hs : step s l = some s') : Empty s' := by
  intro hidle hcalled
  rcases idle_of_step hin hs hidle with rfl | ⟨hf, hw, rfl⟩ | ha
  · obtain ⟨hen, rfl⟩ := step_eq_some.1 hs
    obtain ⟨m, started, hmem⟩ := hcalled
    exact absurd hmem (hun hen.1 m started)
  · exact ⟨hf, hw⟩
  · exact empty_of_aborts hq ha hs

structure Queued (s : State) : Prop where
  inside : s.Inside
  balanced : Balanced s
  uncalled : Uncalled s

theorem queued_reachable (h : Reachable step {} s) : Queued s := by
  refine Reaches.invariant (I := Queued) ?_ (fun s l s' _ hi _ hs => ?_) h
  · exact ⟨fun hne => absurd rfl hne, balanced_init, fun _ _ _ hmem => by cases hmem⟩
  · exact ⟨inside_of_step hi.inside hs, hi.balanced.step hs, uncalled_of_step hi.inside hi.uncalled hs⟩

/-- As long as no error ends `dispatch_message` while something is in its queues, both are drained
whenever it returns. -/
theorem drained_of_unhurt (h : Reaches step Unhurt {} s) : Drained s := by
  refine drained_of_empty (queued_reachable h.reachable).balanced ?_
  refine Reaches.invariant (I := Empty) (fun hp => by cases hp) (fun s l s' hr _ hq hs => ?_) h
  have hi := queued_reachable hr
  exact empty_of_step hi.inside hi.uncalled hq hs

section Runs

/-- A service whose requests fork a coroutine. -/
def forkRun : List Label :=
  [.start 0, .loaded, .message { type := PTYPE_RESPONSE, session := 1 } 0 true,
    .code (.dispatch PTYPE_LUA true), .code .startReturns, .code .finish, .collect [],
    .message { type := PTYPE_LUA, session := 7, source := 3 } 0 true, .code (.fork 1)]

/-- An error in the forked coroutine does no harm. -/
def forkedRaises : List Label :=
  forkRun ++ [.code .finish, .next, .code .raise, .collect []]

theorem drained_forkedRaises :
    Reachable step {} (after step {} forkedRaises) ∧ Drained (after step {} forkedRaises) := by
  have h : Reaches step Unhurt {} (after step {} forkedRaises) := reaches_after (by decide)
  exact ⟨h.reachable, drained_of_unhurt h⟩

/-- An error of the handler leaves what it has forked in the queue. -/
theorem fork_left : ∃ s, Reachable step {} s ∧ ¬ Drained s := by
  refine ⟨after step {} (forkRun ++ [.code .raise]), reachable_after (by decide), fun h => ?_⟩
  have hlog : Event.called { type := PTYPE_LUA, session := 7, source := 3 } true
      ∈ (after step {} (forkRun ++ [.code .raise])).log := by decide
  obtain ⟨hforks, -⟩ := h (by decide) ⟨_, _, hlog⟩
  exact absurd hforks (by decide)

end Runs

end State

end LuaService

end SkynetCpp
