import SkynetCpp.StartBuffer
import SkynetCpp.Proofs.Calm

/-!
# What is buffered is replayed in order

What of a type was handed on, and what of it still waits, are together what has arrived of it
(`Accounted`): a request is appended to the one list or the other, and the replay moves the first
that waits. Nothing else touches these lists but an error while something waits. -/

namespace SkynetCpp

namespace LuaService

open Lib

/-- The event is of a request that arrives, or what `raw_dispatch_message` does with it. -/
def Event.OfStart : Event → Bool
  | .called _ _ | .buffered _ | .handed _ => true
  | _ => false

namespace State

variable {s s' t : State} {co c : Coroutine} {m : Message}

/-- What the start is about, the coroutines apart. -/
def startView (s : State) : List Event × List Message × Bool × Option Coroutine :=
  (s.log.filter Event.OfStart, s.pendingMessages, s.serviceStarted, s.starter)

theorem startView_record {e : Event} (he : e.OfStart = false) :
    (s.record e).startView = s.startView := by
  simp [startView, record, he]

theorem startView_send {n : ℕ} {address : Option Handle} {type session : ℤ} {sends : Bool} :
    (s.send n address type session sends).startView = s.startView := by
  unfold State.send
  split
  · exact startView_record rfl
  · exact startView_record rfl

theorem startView_genid : (s.genid co).startView = s.startView := by
  refine (startView_record rfl).trans ?_
  rfl

/-- A call, but for those that complete the start or raise. -/
theorem startView_perform {call : Call} (hreturns : call ≠ .startReturns) (hfinish : call ≠ .finish)
    (hraise : call ≠ .raise) : (s.perform co call).startView = s.startView := by
  cases call with
  | startReturns => exact absurd rfl hreturns
  | finish => exact absurd rfl hfinish
  | raise => exact absurd rfl hraise
  | fork co' => exact startView_record rfl
  | timeout co' => exact startView_genid
  | registerProtocol | ignoreret => rfl
  | dispatch type dispatch =>
    change startView (if _ then _ else s) = _
    split_ifs <;> rfl
  | wakeup co' =>
    change (s.wakeup co').startView = _
    unfold State.wakeup
    split
    · dsimp only
      split_ifs
      · exact startView_record rfl
      · exact (startView_record rfl).trans (startView_record rfl)
    · rfl
  | call sends =>
    change (s.call co sends).startView = _
    unfold State.call
    dsimp only
    split_ifs
    · exact startView_genid
    · exact startView_genid
  | sleep sets =>
    change (s.sleep co sets).startView = _
    unfold State.sleep
    dsimp only
    split_ifs
    · exact startView_genid
    · exact startView_genid
  | wait token => exact startView_genid
  | ret sends =>
    change (s.ret co sends).startView = _
    unfold State.ret
    split
    · dsimp only
      split_ifs
      · rfl
      · exact startView_send
    · rfl
  | response =>
    change (s.response co).startView = _
    unfold State.response
    split
    · split_ifs <;> rfl
    · rfl
  | respond i ok sends =>
    change (s.respond i ok sends).startView = _
    unfold State.respond
    split
    · split
      · rfl
      · exact startView_send
    · rfl

/-- A request that is handed on is recorded, and one that is not leaves no trace here. -/
theorem startView_accept {unpacks : Bool} : (s.accept m co unpacks).startView = s.startView ∨
    (s.accept m co unpacks).startView = (s.record (.handed m)).startView := by
  unfold State.accept
  dsimp only
  split
  · split_ifs
    · exact .inl (startView_send.trans (startView_record rfl))
    · exact .inl (startView_record rfl)
  · exact .inl (startView_record rfl)
  · split_ifs
    · exact .inl (startView_record rfl)
    · exact .inr rfl
    · exact .inl (startView_record rfl)

/-- A request that is taken: its coroutine runs. -/
theorem accept_takes {unpacks : Bool} (hproto : s.proto m.type = some true)
    (htakes : s.Takes co unpacks) :
    (s.accept m co unpacks).startView = (s.record (.handed m)).startView ∧
      (s.accept m co unpacks).queue = s.queue ∧
      (s.accept m co unpacks).running = co :: s.running := by
  obtain ⟨rfl, hst⟩ := htakes
  have hready :
      (State.coCreate { s with requests := s.requests ++ [m] } co).status co = .ready := by
    change (s.toThreads.setStatus co _).status co = _
    rw [status_setStatus, if_pos rfl, if_pos hst]
  have hrun : ∀ t : State, t.status co = .ready → (t.resume co).toThreads = t.toThreads.run co := by
    intro t ht
    change t.toThreads.resume co = _
    unfold Threads.resume
    rw [ht]
  unfold State.accept
  dsimp only
  rw [hproto]
  dsimp only
  rw [if_neg Bool.noConfusion, if_pos]
  · refine ⟨rfl, ?_, ?_⟩
    · rw [hrun]
      · exact queue_run
      · exact hready
    · rw [hrun]
      · exact running_run
      · exact hready
  · exact hready

theorem pending_of_view (h : t.startView = s.startView) : t.pendingMessages = s.pendingMessages :=
  congrArg (fun v => v.2.1) h

theorem started_of_view (h : t.startView = s.startView) : t.serviceStarted = s.serviceStarted :=
  congrArg (fun v => v.2.2.1) h

theorem starter_of_view (h : t.startView = s.startView) : t.starter = s.starter :=
  congrArg (fun v => v.2.2.2) h

theorem startView_next : s.next.startView = s.startView := by
  unfold State.next
  split
  · split
    · exact startView_record rfl
    · rfl
  · dsimp only
    split
    · exact (startView_record rfl).trans (startView_record rfl)
    · exact startView_record rfl
  · rfl
  · rfl

/-- What a response or an error does is none of the start's. -/
theorem startView_answer {unpacks : Bool} (hm : m.type = PTYPE_RESPONSE ∨ m.type = PTYPE_ERROR) :
    (s.rawDispatchMessage m co unpacks).startView = s.startView := by
  unfold State.rawDispatchMessage
  split_ifs with hresponse herror hbuffer
  · split
    · rfl
    · rfl
    · exact startView_record rfl
  · split
    · rfl
    · rfl
    · exact startView_record rfl
  · exact (hm.elim hresponse herror).elim
  · exact (hm.elim hresponse herror).elim

section Stack

theorem queue_back (t : Threads) : t.back.queue = t.queue := by
  unfold Threads.back
  split <;> rfl

/-- What is to be dispatched stays, and what runs stays, with one more on top or without the first;
or an error ends it all. -/
def Stacked (s t : State) : Prop :=
  t.queue = [] ∧ t.running = [] ∨
    t.queue = s.queue ∧ (t.running = s.running ∨ ∃ c, t.running = c :: s.running)

theorem stacked_back (hqueue : t.queue = s.queue) (hrun : t.running = s.running) :
    Stacked s t.back :=
  .inr ⟨(queue_back _).trans hqueue, .inl (Threads.running_back.trans hrun)⟩

theorem stacked_abort : Stacked s t.abort := .inl ⟨rfl, rfl⟩

theorem stacked_resume (hqueue : t.queue = s.queue) (hrun : t.running = s.running) :
    Stacked s (t.resume co) := by
  have hrunning : Stacked s { t with toThreads := t.toThreads.run co } :=
    .inr ⟨queue_run.trans hqueue, .inr ⟨co, by rw [← hrun]; exact running_run⟩⟩
  have hspoiled : Stacked s { t with toThreads := (t.toThreads.setStatus co .spoiled).back } :=
    .inr ⟨(queue_back _).trans hqueue, .inl (Threads.running_back.trans hrun)⟩
  change Stacked s { t with toThreads := t.toThreads.resume co, sleepSession := t.sleepAfter co }
  unfold Threads.resume
  split
  · exact hrunning
  · exact hrunning
  · exact hspoiled
  · exact .inl ⟨rfl, rfl⟩
  · exact .inl ⟨rfl, rfl⟩

theorem stacked_accept {unpacks : Bool} : Stacked s (s.accept m co unpacks) := by
  unfold State.accept
  dsimp only
  split
  · split_ifs
    · exact stacked_back (congrArg Threads.queue send_threads)
        (congrArg Threads.running send_threads)
    · exact stacked_back rfl rfl
  · exact stacked_back rfl rfl
  · split_ifs
    · exact stacked_abort
    · exact stacked_resume rfl rfl
    · exact stacked_resume rfl rfl

theorem stacked_rawDispatchMessage {unpacks : Bool} :
    Stacked s (s.rawDispatchMessage m co unpacks) := by
  unfold State.rawDispatchMessage
  split_ifs
  · split
    · exact stacked_back rfl rfl
    · exact stacked_back rfl rfl
    · exact stacked_resume rfl rfl
  · split
    · exact stacked_abort
    · exact stacked_back rfl rfl
    · exact stacked_resume rfl rfl
  · exact stacked_back rfl rfl
  · exact stacked_accept

theorem stacked_next : Stacked s s.next := by
  unfold State.next
  split
  · split
    · exact stacked_resume rfl rfl
    · exact .inr ⟨rfl, .inl rfl⟩
  · dsimp only
    split
    · exact stacked_resume rfl rfl
    · exact .inr ⟨rfl, .inl rfl⟩
  · exact .inr ⟨rfl, .inl rfl⟩
  · exact .inr ⟨rfl, .inl rfl⟩

/-- What there was is still to be dispatched, and all that ran runs, or all but the first. -/
def Shrunk (s t : State) : Prop :=
  t.queue = s.queue ∧ (t.running = s.running ∨ t.running = s.running.tail)

theorem shrunk_same (heq : t.toThreads = s.toThreads) : Shrunk s t :=
  ⟨congrArg Threads.queue heq, .inl (congrArg Threads.running heq)⟩

theorem shrunk_yield {st : CoStatus} (heq : t.toThreads = s.toThreads) :
    Shrunk s (t.yield co st) := by
  refine ⟨?_, .inr ?_⟩
  · exact (queue_back _).trans (congrArg Threads.queue heq :)
  · exact Threads.running_back.trans (congrArg (fun u => u.running.tail) heq :)

theorem shrunk_perform (co : Coroutine) {call : Call} (hreturns : call ≠ .startReturns)
    (hraise : call ≠ .raise) : Shrunk s (s.perform co call) := by
  cases call with
  | startReturns => exact absurd rfl hreturns
  | raise => exact absurd rfl hraise
  | fork | timeout => exact ⟨rfl, .inl rfl⟩
  | registerProtocol | ignoreret => exact shrunk_same rfl
  | finish => exact shrunk_yield rfl
  | wait token => exact shrunk_yield rfl
  | dispatch type dispatch =>
    change Shrunk s (if _ then _ else s)
    split_ifs <;> exact shrunk_same rfl
  | call sends =>
    change Shrunk s (s.call co sends)
    unfold State.call
    dsimp only
    split_ifs
    · exact shrunk_yield rfl
    · exact shrunk_same rfl
  | sleep sets =>
    change Shrunk s (s.sleep co sets)
    unfold State.sleep
    dsimp only
    split_ifs
    · exact shrunk_yield rfl
    · exact shrunk_same rfl
  | wakeup co' => exact shrunk_same (congrArg Prod.fst tables_wakeup)
  | ret sends => exact shrunk_same (congrArg Prod.fst tables_ret)
  | response => exact shrunk_same (congrArg Prod.fst tables_response)
  | respond i ok sends => exact shrunk_same (congrArg Prod.fst tables_respond)

end Stack

section Starter

theorem pool_perform {call : Call} (hfinish : call ≠ .finish) :
    (s.perform co call).coroutinePool ⊆ s.coroutinePool := by
  have hsame : ∀ t : State, t.tables = s.tables → t.coroutinePool ⊆ s.coroutinePool := by
    intro t heq
    have hpool : t.coroutinePool = s.coroutinePool := congrArg (fun p => p.2.2.2.2.1) heq
    rw [hpool]
    exact List.Subset.refl _
  cases call with
  | finish => exact absurd rfl hfinish
  | fork | timeout => exact List.erase_subset
  | registerProtocol | ignoreret | wait | startReturns | raise => exact List.Subset.refl _
  | dispatch type dispatch =>
    change State.coroutinePool (if _ then _ else s) ⊆ _
    split_ifs <;> exact List.Subset.refl _
  | call sends =>
    change (s.call co sends).coroutinePool ⊆ _
    unfold State.call
    dsimp only
    split_ifs <;> exact List.Subset.refl _
  | sleep sets =>
    change (s.sleep co sets).coroutinePool ⊆ _
    unfold State.sleep
    dsimp only
    split_ifs <;> exact List.Subset.refl _
  | wakeup co' => exact hsame _ tables_wakeup
  | ret sends => exact hsame _ tables_ret
  | response => exact hsame _ tables_response
  | respond i ok sends => exact hsame _ tables_respond

theorem pool_rawDispatchMessage {unpacks : Bool} :
    (s.rawDispatchMessage m co unpacks).coroutinePool ⊆ s.coroutinePool := by
  unfold State.rawDispatchMessage
  split_ifs
  · split <;> exact List.Subset.refl _
  · split <;> exact List.Subset.refl _
  · exact List.Subset.refl _
  · unfold State.accept
    dsimp only
    split
    · split_ifs <;> exact List.Subset.refl _
    · exact List.Subset.refl _
    · split_ifs <;> exact List.erase_subset

/-- The coroutine is not in the pool, nor can be made anew, and if it is dead it does not run. -/
structure Begun (s : State) (co : Coroutine) : Prop where
  pool : co ∉ s.coroutinePool
  unborn : s.status co ≠ .unborn
  pooled : s.status co ≠ .pooled
  spoiled : s.status co ≠ .spoiled
  dead : s.status co = .dead → co ∉ s.running

theorem Begun.not_canCreate (h : s.Begun co) (hnew : s.CanCreate c) : c ≠ co := by
  rintro rfl
  exact hnew.elim h.unborn h.pool

/-- It is still begun, and dead if it was. -/
def Begun.Stays (s t : State) (co : Coroutine) : Prop :=
  t.Begun co ∧ (t.status co = .dead ↔ s.status co = .dead)

/-- It is resumed. -/
theorem Begun.resume (h : s.Begun co) (hidle : co ∉ s.running) :
    Begun.Stays s (s.resume co) co := by
  have hrun : s.status co ≠ .dead → (s.resume co).toThreads = s.toThreads.run co →
      Begun.Stays s (s.resume co) co := by
    intro hdead heq
    have hst : (s.resume co).status co = .running := by rw [heq, status_run, if_pos rfl]
    exact ⟨⟨h.pool, by simp [hst], by simp [hst], by simp [hst], by simp [hst]⟩,
      by simp [hst, hdead]⟩
  have habort : (s.resume co).toThreads = s.toThreads.abort →
      Begun.Stays s (s.resume co) co := by
    intro heq
    have hst : (s.resume co).status co = s.status co := by
      rw [heq]
      exact if_neg hidle
    refine ⟨⟨h.pool, hst ▸ h.unborn, hst ▸ h.pooled, hst ▸ h.spoiled, fun _ => ?_⟩, by rw [hst]⟩
    rw [heq]
    exact List.not_mem_nil
  have heq : (s.resume co).toThreads = s.toThreads.resume co := rfl
  unfold Threads.resume at heq
  rcases hst : s.status co with - | - | why | - | - | - | - | - <;> rw [hst] at heq
  case unborn => exact absurd hst h.unborn
  case pooled => exact absurd hst h.pooled
  case spoiled => exact absurd hst h.spoiled
  case ready | suspended => exact hrun (by simp [hst]) heq
  case running | normal | dead => exact habort heq

theorem pool_next : s.next.coroutinePool = s.coroutinePool := by
  unfold State.next
  split
  · split <;> rfl
  · dsimp only
    split <;> rfl
  · rfl
  · rfl

theorem Begun.pool_exec {l : Label} (h : s.Begun co) (hidle : co ∉ s.running)
    (hen : s.Enabled l) : co ∉ (s.exec l).coroutinePool := by
  cases l with
  | main call =>
    by_cases hfinish : call = .finish
    · subst hfinish
      exact hen.2.elim
    · exact fun hmem => h.pool (pool_perform hfinish hmem)
  | start c => exact fun hmem => h.pool (List.mem_of_mem_erase hmem)
  | loaded | collect => exact h.pool
  | message m c unpacks =>
    exact fun hmem =>
      h.pool (pool_rawDispatchMessage (s := { s with phase := .handler }.record _) hmem)
  | replay c unpacks =>
    obtain ⟨m, rest, -, -, hexec⟩ := replay_of_enabled hen
    rw [hexec]
    exact fun hmem => h.pool (pool_rawDispatchMessage (s := { s with queue := rest }) hmem)
  | code call =>
    obtain ⟨self, l, hrun, -, hexec⟩ := code_of_enabled hen
    rw [hexec]
    by_cases hfinish : call = .finish
    · subst hfinish
      intro hmem
      rcases List.mem_append.1 hmem with hmem | hmem
      · exact h.pool hmem
      · exact hidle (by simp [hrun, List.mem_singleton.1 hmem])
    · exact fun hmem => h.pool (pool_perform hfinish hmem)
  | next =>
    change co ∉ s.next.coroutinePool
    rw [pool_next]
    exact h.pool

theorem Begun.of_calm (h : s.Begun co) (hpool : co ∉ t.coroutinePool)
    (hcalm : Calm (fun _ => false) (· = co) s t) : Begun.Stays s t co := by
  have hst := hcalm.status co rfl
  exact ⟨⟨hpool, hst ▸ h.unborn, hst ▸ h.pooled, hst ▸ h.spoiled, fun _ => hcalm.idle co rfl⟩,
    by rw [hst]⟩

theorem Begun.calm (hidle : co ∉ s.running) : Calm (fun _ => false) (· = co) s s :=
  Calm.refl fun _ hc => hc ▸ hidle

/-- Some coroutine is resumed. -/
theorem Begun.resume_any (h : s.Begun co) (hidle : co ∉ s.running) (c : Coroutine) :
    Begun.Stays s (s.resume c) co := by
  by_cases hc : c = co
  · exact hc ▸ h.resume hidle
  · exact h.of_calm h.pool ((Begun.calm hidle).resume hc)

theorem Begun.answer {unpacks : Bool} (h : s.Begun co) (hidle : co ∉ s.running)
    (hm : m.type = PTYPE_RESPONSE ∨ m.type = PTYPE_ERROR) :
    Begun.Stays s (s.rawDispatchMessage m c unpacks) co := by
  have hcalm := Begun.calm hidle
  have hresumed : ∀ c', Begun.Stays s
      (((s.setEntry m.session none).record (.resumed c' m)).resume c') co := fun c' => by
    have ht : ((s.setEntry m.session none).record (.resumed c' m)).Begun co :=
      ⟨h.pool, h.unborn, h.pooled, h.spoiled, h.dead⟩
    exact ht.resume_any hidle c'
  unfold State.rawDispatchMessage
  split_ifs with hresponse herror hbuffer
  · split
    · exact h.of_calm h.pool hcalm.setEntry.back
    · exact h.of_calm h.pool hcalm.back
    · exact hresumed _
  · split
    · exact h.of_calm h.pool hcalm.setEntry.abort
    · exact h.of_calm h.pool hcalm.back
    · exact hresumed _
  · exact (hm.elim hresponse herror).elim
  · exact (hm.elim hresponse herror).elim

theorem Begun.next (h : s.Begun co) (hidle : co ∉ s.running) : Begun.Stays s s.next co := by
  have hsame : Begun.Stays s s co := ⟨h, Iff.rfl⟩
  unfold State.next
  split
  · split
    next c rest _ =>
      have ht : ({ s with forkQueue := rest, phase := .forked }.record (.forkResumed c)).Begun co :=
        ⟨h.pool, h.unborn, h.pooled, h.spoiled, h.dead⟩
      exact ht.resume_any hidle c
    next => exact hsame
  next c rest _ =>
    dsimp only
    split
    next session _ =>
      have ht : (({ s with
          wakeupQueue := s.wakeupQueue.erase c
          sleepSession := Function.update s.sleepSession c none
          phase := .woken rest }.record (.taken c)).setEntry session (some .broken) |>.record
            (.woken c (s.status c))).Begun co := ⟨h.pool, h.unborn, h.pooled, h.spoiled, h.dead⟩
      exact ht.resume_any hidle c
    next => exact ⟨⟨h.pool, h.unborn, h.pooled, h.spoiled, h.dead⟩, Iff.rfl⟩
  · exact ⟨⟨h.pool, h.unborn, h.pooled, h.spoiled, h.dead⟩, Iff.rfl⟩
  · exact hsame

/-- A step of others than a coroutine that has begun. -/
theorem Begun.step {l : Label} (h : s.Begun co) (hidle : co ∉ s.running) (hen : s.Enabled l)
    (hreplay : ∀ c u, l ≠ .replay c u) : Begun.Stays s (s.exec l) co := by
  have hcalm := Begun.calm hidle
  have hpool := h.pool_exec hidle hen
  have hquiet : (∀ m c u, l = .message m c u → m.type ≠ PTYPE_RESPONSE ∧ m.type ≠ PTYPE_ERROR) →
      l ≠ .next → Begun.Stays s (s.exec l) co := fun hmessage hnext => by
    refine h.of_calm hpool (hcalm.step (fun _ _ => rfl) hen
      (fun c hc heq => h.not_canCreate hc heq) (fun _ _ => rfl) (fun _ _ _ => rfl)
      (fun m c u hl htype => ?_) fun hl => absurd hl hnext)
    rcases hl with hl | ⟨hl, -⟩
    · exact (htype.elim (hmessage m c u hl).1 (hmessage m c u hl).2).elim
    · exact absurd hl (hreplay c u)
  cases l with
  | message m c unpacks =>
    by_cases hm : m.type = PTYPE_RESPONSE ∨ m.type = PTYPE_ERROR
    · have ht : ({ s with phase := .handler }.record (.called m s.serviceStarted)).Begun co :=
        ⟨h.pool, h.unborn, h.pooled, h.spoiled, h.dead⟩
      exact ht.answer hidle hm
    · refine hquiet (fun m' c' u' hl => ?_) nofun
      obtain ⟨rfl, -, -⟩ := Label.message.inj hl
      exact not_or.1 hm
  | next => exact h.next hidle
  | _ => exact hquiet (fun _ _ _ => nofun) nofun

theorem status_yield_last {st : CoStatus} (hrun : s.running = [co]) :
    (s.yield co st).status co = st := by
  have htail : s.running.tail = [] := by rw [hrun]; rfl
  change Threads.status
    (Threads.back { s.toThreads.setStatus co st with running := s.running.tail }) co = st
  rw [htail]
  exact Function.update_self ..

/-- A call of the coroutine itself, when it alone runs. -/
theorem Begun.perform {call : Call} (h : s.Begun co) (hrun : s.running = [co])
    (hcan : s.CanCall co call) (hfinish : call ≠ .finish) :
    (s.perform co call).Begun co ∧ ((s.perform co call).status co = .dead → call = .raise) := by
  have hmem : co ∈ s.running := by simp [hrun]
  have hpool : co ∉ (s.perform co call).coroutinePool :=
    fun hmem => h.pool (pool_perform hfinish hmem)
  have hsame : (s.perform co call).status co = s.status co →
      (s.perform co call).Begun co ∧ ((s.perform co call).status co = .dead → call = .raise) := by
    intro hst
    have hdead : (s.perform co call).status co ≠ .dead := fun hd => h.dead (hst ▸ hd) hmem
    exact ⟨⟨hpool, hst ▸ h.unborn, hst ▸ h.pooled, hst ▸ h.spoiled, fun hd => absurd hd hdead⟩,
      fun hd => absurd hd hdead⟩
  have hyields : ∀ why, (s.perform co call).status co = .suspended why →
      (s.perform co call).Begun co ∧ ((s.perform co call).status co = .dead → call = .raise) := by
    intro why hst
    exact ⟨⟨hpool, by simp [hst], by simp [hst], by simp [hst], by simp [hst]⟩, by simp [hst]⟩
  have hmade : ∀ co', s.CanCreate co' → (s.coCreate co').status co = s.status co := by
    intro co' hnew
    change (s.toThreads.setStatus co' _).status co = _
    rw [status_setStatus, if_neg (Ne.symm (h.not_canCreate hnew))]
  cases call with
  | finish => exact absurd rfl hfinish
  | fork co' => exact hsame (hmade co' hcan.2)
  | timeout co' => exact hsame (hmade co' hcan.2)
  | registerProtocol | ignoreret | startReturns => exact hsame rfl
  | dispatch type dispatch =>
    refine hsame ?_
    change Threads.status (State.toThreads (if _ then _ else s)) co = _
    split_ifs <;> rfl
  | wakeup co' => exact hsame (congrArg (fun p => p.1.status co) tables_wakeup)
  | call sends =>
    cases sends with
    | false => exact hsame rfl
    | true => exact hyields (.call s.nextSession) (status_yield_last hrun)
  | sleep sets =>
    cases sets with
    | false => exact hsame rfl
    | true => exact hyields (.sleep s.nextSession) (status_yield_last hrun)
  | wait token => exact hyields (.wait s.nextSession (token.getD co)) (status_yield_last hrun)
  | ret sends => exact hsame (congrArg (fun p => p.1.status co) tables_ret)
  | response => exact hsame (congrArg (fun p => p.1.status co) tables_response)
  | respond i ok sends => exact hsame (congrArg (fun p => p.1.status co) tables_respond)
  | raise =>
    have hst : (s.perform co .raise).status co = .dead := if_pos hmem
    exact ⟨⟨hpool, by simp [hst], by simp [hst], by simp [hst], fun _ => List.not_mem_nil⟩,
      fun _ => rfl⟩

end Starter

section Accounts

/-- Requests, of which the service has started or not. -/
def IsRequest (type : ℤ) : Prop := type ≠ PTYPE_RESPONSE ∧ type ≠ PTYPE_ERROR

theorem filterMap_ofStart {f : Event → Option Message} (hf : ∀ e, e.OfStart = false → f e = none)
    (log : List Event) : (log.filter Event.OfStart).filterMap f = log.filterMap f := by
  induction log with
  | nil => rfl
  | cons e log ih =>
    cases he : e.OfStart with
    | true => rw [List.filter_cons_of_pos he, List.filterMap_cons, List.filterMap_cons, ih]
    | false =>
      rw [List.filter_cons_of_neg (by simp [he]), ih, List.filterMap_cons_none (hf e he)]

theorem arrived_eq_filter (type : ℤ) (started : Bool) : s.arrived type started =
    (s.log.filter Event.OfStart).filterMap (Event.arrival type started) := by
  refine (filterMap_ofStart (fun e he => ?_) s.log).symm
  cases e <;> first | rfl | cases he

theorem handed_eq_filter (type : ℤ) :
    s.handed type = (s.log.filter Event.OfStart).filterMap (Event.handover type) := by
  refine (filterMap_ofStart (fun e he => ?_) s.log).symm
  cases e <;> first | rfl | cases he

theorem buffered_mem_filter : Event.buffered m ∈ s.log ↔ .buffered m ∈ s.log.filter Event.OfStart :=
  by simp [Event.OfStart]

/-- What has happened to the requests of the start, as far as the log says. -/
structure SameLog (s t : State) : Prop where
  arrived : ∀ type started, IsRequest type → t.arrived type started = s.arrived type started
  handed : ∀ type, t.handed type = s.handed type
  buffered : ∀ m, .buffered m ∈ t.log ↔ .buffered m ∈ s.log

theorem sameLog_of_log (es : List Event) (hlog : t.log = s.log ++ es)
    (hes : ∀ e ∈ es, e.OfStart = false) : SameLog s t := by
  have hnil : es.filter Event.OfStart = [] :=
    List.filter_eq_nil_iff.2 fun e he => by simp [hes e he]
  have hfilter : t.log.filter Event.OfStart = s.log.filter Event.OfStart := by
    rw [hlog, List.filter_append, hnil, List.append_nil]
  refine ⟨fun type started _ => ?_, fun type => ?_, fun m => ?_⟩
  · rw [arrived_eq_filter, arrived_eq_filter, hfilter]
  · rw [handed_eq_filter, handed_eq_filter, hfilter]
  · rw [buffered_mem_filter, buffered_mem_filter, hfilter]

theorem sameLog_of_view (h : t.startView = s.startView) : SameLog s t := by
  have hlog : t.log.filter Event.OfStart = s.log.filter Event.OfStart := congrArg Prod.fst h
  refine ⟨fun type started _ => ?_, fun type => ?_, fun m => ?_⟩
  · rw [arrived_eq_filter, arrived_eq_filter, hlog]
  · rw [handed_eq_filter, handed_eq_filter, hlog]
  · rw [buffered_mem_filter, buffered_mem_filter, hlog]

/-- Each request that has arrived before the start has completed was handed on, or waits. -/
structure Accounted (s : State) : Prop where
  fresh : s.phase = .loading → s.coroutinePool = []
  alone : s.serviceStarted = false → s.running.length ≤ 1
  replaying : s.queue ≠ [] → s.serviceStarted = true ∧
    ∃ st l, s.starter = some st ∧ s.running = l ++ [st]
  begun : s.serviceStarted = false → ∀ st ∈ s.starter, s.Begun st
  early : s.serviceStarted = false → ¬ s.Failed → ∀ type, IsRequest type →
    s.handed type ++ s.pendingMessages.filter (fun m => m.type = type) = s.arrived type false
  timely : s.serviceStarted = false → ∀ type, IsRequest type → s.arrived type true = []
  late : s.serviceStarted = true → ∀ type, IsRequest type → ∃ l, l.Sublist (s.arrived type true) ∧
    s.handed type ++ s.queue.filter (fun m => m.type = type) = s.arrived type false ++ l
  buffered : s.serviceStarted = false → ∀ m, .buffered m ∈ s.log →
    m ∈ s.pendingMessages ∨ m.session = 0
  failed : s.Failed → ∀ m, .buffered m ∈ s.log → m.session = 0
  waiting : ∀ m ∈ s.queue, IsRequest m.type
  pending : ∀ m ∈ s.pendingMessages, IsRequest m.type

theorem accounted_init : Accounted {} where
  fresh _ := rfl
  alone _ := Nat.zero_le 1
  replaying h := absurd rfl h
  begun _ _ h := by cases h
  early _ _ _ _ := rfl
  timely _ _ _ := rfl
  late h := by cases h
  buffered _ _ h := by cases h
  failed h := by
    obtain ⟨-, co, hco, -⟩ := h
    cases hco
  waiting _ h := by cases h
  pending _ h := by cases h

/-- What runs, and the coroutine of the start. -/
structure Kept (s t : State) : Prop where
  fresh : t.phase = .loading → t.coroutinePool = []
  alone : t.serviceStarted = false → t.running.length ≤ 1
  replaying : t.queue ≠ [] → t.serviceStarted = true ∧
    ∃ st l, t.starter = some st ∧ t.running = l ++ [st]
  begun : t.serviceStarted = false → ∀ st ∈ t.starter, t.Begun st
  failed : t.Failed ↔ s.Failed

/-- No request arrives, is buffered or is handed on. -/
theorem Accounted.quiet (h : Accounted s) (hlog : SameLog s t) (hkept : Kept s t)
    (hstarted : t.serviceStarted = s.serviceStarted)
    (hpending : t.pendingMessages = s.pendingMessages) (hqueue : t.queue = s.queue) :
    Accounted t where
  fresh := hkept.fresh
  alone := hkept.alone
  replaying := hkept.replaying
  begun := hkept.begun
  early hnot hfailed type htype := by
    rw [hlog.handed, hlog.arrived type false htype, hpending]
    exact h.early (hstarted ▸ hnot) (fun hf => hfailed (hkept.failed.2 hf)) type htype
  timely hnot type htype := by
    rw [hlog.arrived type true htype]
    exact h.timely (hstarted ▸ hnot) type htype
  late hyes type htype := by
    rw [hlog.handed, hlog.arrived type true htype, hlog.arrived type false htype, hqueue]
    exact h.late (hstarted ▸ hyes) type htype
  buffered hnot m hm := by
    rw [hpending]
    exact h.buffered (hstarted ▸ hnot) m ((hlog.buffered m).1 hm)
  failed hf m hm := h.failed (hkept.failed.1 hf) m ((hlog.buffered m).1 hm)
  waiting m hm := h.waiting m (hqueue ▸ hm)
  pending m hm := h.pending m (hpending ▸ hm)

theorem Accounted.queue_nil (h : Accounted s) (hrun : s.running = []) : s.queue = [] := by
  by_contra hne
  obtain ⟨-, st, l, -, heq⟩ := h.replaying hne
  rw [hrun] at heq
  simp at heq

theorem Accounted.fresh_exec {l : Label} (h : Accounted s) (hinside : s.Inside) (hen : s.Enabled l)
    (hphase : (s.exec l).phase = .loading) : (s.exec l).coroutinePool = [] := by
  obtain ⟨hload, -⟩ := called_of_step_main hinside (step_eq_some.2 ⟨hen, rfl⟩) hphase
  have hrun : s.running = [] := running_of_not_busy hinside fun hbusy => by
    rw [hload] at hbusy
    exact hbusy
  have hpool := h.fresh hload
  cases l with
  | main call =>
    have hfinish : call ≠ .finish := by
      rintro rfl
      exact hen.2
    exact List.subset_nil.1 (hpool ▸ pool_perform hfinish)
  | start co =>
    change s.coroutinePool.erase co = []
    rw [hpool]
    rfl
  | loaded => cases hphase
  | message => cases hload.symm.trans hen.1
  | replay =>
    obtain ⟨hst, hrun', -⟩ := hen
    rw [hrun] at hrun'
    obtain ⟨st, hst⟩ := Option.ne_none_iff_exists'.1 hst
    rw [hst] at hrun'
    cases hrun'
  | code =>
    obtain ⟨self, l, hrun', -, -⟩ := code_of_enabled hen
    cases hrun.symm.trans hrun'
  | next =>
    rcases hen with ⟨hp, -⟩ | hp
    · cases hload.symm.trans hp
    · rw [hload] at hp
      exact hp.elim
  | collect => cases hload.symm.trans hen.1

/-- The coroutine of the start is what it was. -/
theorem kept_of_stays (hstarted : t.serviceStarted = s.serviceStarted)
    (hstarter : t.starter = s.starter)
    (hstays : s.serviceStarted = false → ∀ st ∈ s.starter, Begun.Stays s t st)
    (hfresh : t.phase = .loading → t.coroutinePool = [])
    (halone : t.serviceStarted = false → t.running.length ≤ 1)
    (hreplaying : t.queue ≠ [] → t.serviceStarted = true ∧
      ∃ st l, t.starter = some st ∧ t.running = l ++ [st]) : Kept s t := by
  refine ⟨hfresh, halone, hreplaying, fun hnot st hst => ?_, ?_⟩
  · exact (hstays (hstarted ▸ hnot) st (hstarter ▸ hst)).1
  · unfold Failed
    rw [hstarted, hstarter]
    refine and_congr_right fun hnot => ?_
    refine exists_congr fun st => and_congr_right fun hst => ?_
    exact (hstays hnot st hst).2

/-- A step where nothing runs. -/
theorem Accounted.kept_idle {l : Label} (h : Accounted s) (hinside : s.Inside) (hen : s.Enabled l)
    (hrun : s.running = []) (hreplay : ∀ c u, l ≠ .replay c u)
    (hstarted : (s.exec l).serviceStarted = s.serviceStarted)
    (hstarter : (s.exec l).starter = s.starter) (hstack : Stacked s (s.exec l)) :
    Kept s (s.exec l) ∧ (s.exec l).queue = s.queue := by
  have hqueue : (s.exec l).queue = [] := by
    rcases hstack with ⟨hq, -⟩ | ⟨hq, -⟩
    · exact hq
    · exact hq.trans (h.queue_nil hrun)
  have hlength : (s.exec l).running.length ≤ 1 := by
    rcases hstack with ⟨-, hr⟩ | ⟨-, hr | ⟨c, hr⟩⟩
    · simp [hr]
    · simp [hr, hrun]
    · simp [hr, hrun]
  refine ⟨kept_of_stays hstarted hstarter (fun hnot st hst => ?_) (h.fresh_exec hinside hen)
    (fun _ => hlength) (fun hne => absurd hqueue hne), hqueue.trans (h.queue_nil hrun).symm⟩
  exact (h.begun hnot st hst).step (by simp [hrun]) hen hreplay

/-- A call, but for those that complete the start or raise, leaves the start as it is, until its
coroutine ends. -/
theorem starter_perform (co : Coroutine) {call : Call} (hreturns : call ≠ .startReturns)
    (hraise : call ≠ .raise) :
    SameLog s (s.perform co call) ∧ (s.perform co call).serviceStarted = s.serviceStarted ∧
      (s.perform co call).pendingMessages = s.pendingMessages ∧
      ((s.perform co call).starter = s.starter ∨ call = .finish ∧ s.starter = some co) := by
  by_cases hfinish : call = .finish
  · subst hfinish
    refine ⟨⟨fun _ _ _ => rfl, fun _ => rfl, fun _ => Iff.rfl⟩, rfl, rfl, ?_⟩
    change (if s.starter = some co then none else s.starter) = _ ∨ _
    split_ifs with hst
    · exact .inr ⟨rfl, hst⟩
    · exact .inl rfl
  · have hview : (s.perform co call).startView = s.startView :=
      startView_perform hreturns hfinish hraise
    exact ⟨sameLog_of_view hview, started_of_view hview,
      pending_of_view hview, .inl (starter_of_view hview)⟩

/-- The coroutine of the start does nothing more than end, when all is dispatched. -/
theorem queue_nil_of_canCall {call : Call} (hcan : s.CanCall co call) (hst : s.starter = some co)
    (hyes : s.serviceStarted = true) : s.queue = [] := by
  cases call with
  | startReturns => cases hcan.2.symm.trans hyes
  | finish => exact (hcan hst).2
  | fork co' => exact absurd ⟨hst, hyes⟩ hcan.1
  | timeout co' => exact absurd ⟨hst, hyes⟩ hcan.1
  | _ => exact absurd ⟨hst, hyes⟩ hcan

/-- A call of the code, but for those that complete the start or raise. -/
theorem Accounted.kept_code {call : Call} {self : Coroutine} {l : List Coroutine} (h : Accounted s)
    (hinside : s.Inside) (hen : s.Enabled (.code call)) (hrun : s.running = self :: l)
    (hcan : s.CanCall self call) (hexec : s.exec (.code call) = s.perform self call)
    (hreturns : call ≠ .startReturns) (hraise : call ≠ .raise) :
    Kept s (s.perform self call) := by
  have hfresh := h.fresh_exec hinside hen
  rw [hexec] at hfresh
  obtain ⟨-, hstarted, -, hstarter⟩ := starter_perform (s := s) self hreturns hraise
  obtain ⟨hqueue, hrunning⟩ := shrunk_perform (s := s) self hreturns hraise
  have halone : (s.perform self call).serviceStarted = false →
      (s.perform self call).running.length ≤ 1 := fun hnot => by
    have hle := h.alone (hstarted ▸ hnot)
    rcases hrunning with hr | hr
    · exact hr ▸ hle
    · rw [hr, List.length_tail]
      omega
  by_cases hlast : call = .finish ∧ s.starter = some self
  · obtain ⟨rfl, hst⟩ := hlast
    obtain ⟨hyes, hnil⟩ := hcan hst
    refine ⟨hfresh, halone, fun hne => absurd (hqueue.trans hnil) hne, fun hnot => ?_, ?_⟩
    · rw [hstarted, hyes] at hnot
      cases hnot
    · refine ⟨fun hf => ?_, fun hf => ?_⟩
      · have hnot := hf.1
        rw [hstarted, hyes] at hnot
        cases hnot
      · have hnot := hf.1
        rw [hyes] at hnot
        cases hnot
  · replace hstarter := hstarter.resolve_right hlast
    refine kept_of_stays hstarted hstarter (fun hnot st hst => ?_) hfresh halone fun hne => ?_
    · have hbegun := h.begun hnot st hst
      by_cases hmem : st ∈ s.running
      · obtain ⟨rfl, rfl⟩ : self = st ∧ l = [] := by
          have hle := h.alone hnot
          rw [hrun] at hle hmem
          have hnil : l = [] := List.length_eq_zero_iff.1 (by simpa using hle)
          rw [hnil] at hmem
          exact ⟨(List.mem_singleton.1 hmem).symm, hnil⟩
        have hfinish : call ≠ .finish := fun heq => hlast ⟨heq, hst⟩
        obtain ⟨hbegun', hdead⟩ := hbegun.perform hrun hcan hfinish
        exact ⟨hbegun', fun hd => absurd (hdead hd) hraise, fun hd => absurd hmem (hbegun.dead hd)⟩
      · exact hexec ▸ hbegun.step hmem hen fun _ _ => nofun
    · rw [hqueue] at hne
      obtain ⟨hyes, st, l', hst, heq⟩ := h.replaying hne
      refine ⟨hstarted.trans hyes, st, ?_⟩
      rw [hstarter]
      rcases hrunning with hr | hr
      · exact ⟨l', hst, hr.trans heq⟩
      · rcases l' with - | ⟨a, l'⟩
        · obtain ⟨rfl, -⟩ := List.cons.inj (hrun.symm.trans heq)
          exact absurd (queue_nil_of_canCall hcan hst hyes) hne
        · refine ⟨l', hst, ?_⟩
          rw [hr, heq]
          rfl

theorem arrived_record {e : Event} {type : ℤ} {started : Bool} : (s.record e).arrived type started =
    s.arrived type started ++ (Event.arrival type started e).toList := by
  cases h : Event.arrival type started e <;> simp [arrived, record, h]

theorem handed_record {e : Event} {type : ℤ} :
    (s.record e).handed type = s.handed type ++ (Event.handover type e).toList := by
  cases h : Event.handover type e <;> simp [handed, record, h]

theorem Accounted.main {call : Call} (h : Accounted s) (hinside : s.Inside)
    (hen : s.Enabled (.main call)) : Accounted (s.exec (.main call)) := by
  have hrun : s.running = [] := running_of_not_busy hinside fun hbusy => by
    rw [hen.1] at hbusy
    exact hbusy
  have hreturns : call ≠ .startReturns := by
    rintro rfl
    exact hen.2
  have hraise : call ≠ .raise := by
    rintro rfl
    exact hen.2
  have hfinish : call ≠ .finish := by
    rintro rfl
    exact hen.2
  obtain ⟨hlog, hstarted, hpending, hstarter⟩ := starter_perform (s := s) 0 hreturns hraise
  obtain ⟨hqueue, hrunning⟩ := shrunk_perform (s := s) 0 hreturns hraise
  have hstack : Stacked s (s.perform 0 call) := by
    refine .inr ⟨hqueue, .inl (hrunning.elim id fun hr => ?_)⟩
    rw [hr, hrun]
    rfl
  obtain ⟨hkept, -⟩ := h.kept_idle hinside hen hrun (fun _ _ => nofun) hstarted
    (hstarter.resolve_right fun hf => hfinish hf.1) hstack
  exact h.quiet hlog hkept hstarted hpending hqueue

theorem Accounted.start (h : Accounted s) (hinside : s.Inside) (hen : s.Enabled (.start co)) :
    Accounted (s.exec (.start co)) := by
  obtain ⟨hphase, hnone, hco⟩ := hen
  have hrun : s.running = [] := running_of_not_busy hinside fun hbusy => by
    rw [hphase] at hbusy
    exact hbusy
  have hpool := h.fresh hphase
  have hunborn : s.status co = .unborn := hco.resolve_right (by simp [hpool])
  have hst : (s.exec (.start co)).status co = .ready := by
    change (s.toThreads.setStatus co _).status co = _
    rw [status_setStatus, if_pos rfl, if_pos (.inl hunborn)]
  have hpool' : (s.exec (.start co)).coroutinePool = [] := by
    change s.coroutinePool.erase co = []
    rw [hpool]
    rfl
  have hlog : SameLog s (s.timeout co) := sameLog_of_view startView_genid
  refine h.quiet ?_ ⟨fun _ => hpool', fun _ => ?_, fun hne => ?_, fun _ st hst' => ?_, ?_⟩
    rfl rfl rfl
  · exact ⟨hlog.arrived, hlog.handed, hlog.buffered⟩
  · change s.running.length ≤ 1
    simp [hrun]
  · exact absurd (h.queue_nil hrun) hne
  · obtain rfl := Option.some.inj hst'
    exact ⟨by simp [hpool'], by simp [hst], by simp [hst], by simp [hst], by simp [hst]⟩
  · refine ⟨fun hf => ?_, fun hf => ?_⟩
    · obtain ⟨-, st, hst', hdead⟩ := hf
      obtain rfl := Option.some.inj hst'
      cases hst.symm.trans hdead
    · obtain ⟨-, st, hst', -⟩ := hf
      rw [hnone] at hst'
      cases hst'

/-- A response, or an error. -/
theorem Accounted.answer {unpacks : Bool} (h : Accounted s) (hinside : s.Inside)
    (hen : s.Enabled (.message m co unpacks))
    (hm : m.type = PTYPE_RESPONSE ∨ m.type = PTYPE_ERROR) :
    Accounted (s.exec (.message m co unpacks)) := by
  have hrun : s.running = [] := running_of_not_busy hinside fun hbusy => by
    rw [hen.1] at hbusy
    exact hbusy
  have hview : (s.exec (.message m co unpacks)).startView = _ := startView_answer hm
  have hstarted : (s.exec (.message m co unpacks)).serviceStarted = s.serviceStarted :=
    (started_of_view hview :)
  obtain ⟨hkept, hqueue⟩ := h.kept_idle hinside hen hrun (fun _ _ => nofun) hstarted
    (starter_of_view hview :) stacked_rawDispatchMessage
  refine h.quiet ?_ hkept hstarted (pending_of_view hview :) hqueue
  have hlog := sameLog_of_view hview
  refine ⟨fun type started htype => ?_, fun type => ?_, fun m' => ?_⟩
  · rw [hlog.arrived type started htype, arrived_record]
    have hne : m.type ≠ type := by
      rintro rfl
      exact hm.elim htype.1 htype.2
    simp [Event.arrival, hne]
    rfl
  · rw [hlog.handed, handed_record]
    exact List.append_nil _
  · rw [hlog.buffered]
    simp [record]

/-- The callback is called. -/
def enterCallback (s : State) (m : Message) : State :=
  { s with phase := .handler }.record (.called m s.serviceStarted)

theorem arrived_now {type : ℤ} {started : Bool} (h : s.serviceStarted = started) :
    (s.enterCallback m).arrived type started =
      s.arrived type started ++ if m.type = type then [m] else [] := by
  refine arrived_record.trans (congrArg (s.arrived type started ++ ·) ?_)
  by_cases hm : m.type = type <;> simp [Event.arrival, h, hm]

theorem arrived_other {type : ℤ} {started : Bool} (h : s.serviceStarted ≠ started) :
    (s.enterCallback m).arrived type started = s.arrived type started := by
  refine arrived_record.trans ?_
  simp [Event.arrival, h]
  rfl

theorem handed_enterCallback {type : ℤ} : (s.enterCallback m).handed type = s.handed type :=
  handed_record.trans (List.append_nil _)

theorem arrived_handed {type : ℤ} {started : Bool} :
    (s.record (.handed m)).arrived type started = s.arrived type started :=
  arrived_record.trans (List.append_nil _)

theorem handed_handed {type : ℤ} : (s.record (.handed m)).handed type =
    s.handed type ++ if m.type = type then [m] else [] := by
  rw [handed_record]
  by_cases h : m.type = type <;> simp [Event.handover, h]

/-- A request that arrives before the start has completed is buffered. -/
theorem Accounted.buffers {unpacks : Bool} (h : Accounted s) (hinside : s.Inside)
    (hsmooth : s.Smooth (.message m co unpacks)) (hen : s.Enabled (.message m co unpacks))
    (hm : IsRequest m.type) (hnot : s.serviceStarted = false)
    (hproto : s.proto m.type ≠ some true) :
    Accounted (s.exec (.message m co unpacks)) := by
  have hrun : s.running = [] := running_of_not_busy hinside fun hbusy => by
    rw [hen.1] at hbusy
    exact hbusy
  have hexec : s.exec (.message m co unpacks) = State.back ({ s.enterCallback m with
      pendingMessages := s.pendingMessages ++ [m] }.record (.buffered m)) := by
    change (s.enterCallback m).rawDispatchMessage m co unpacks = _
    unfold State.rawDispatchMessage
    rw [if_neg hm.1, if_neg hm.2, if_pos ⟨hnot, hproto⟩]
    rfl
  have hstack : Stacked s (s.exec (.message m co unpacks)) :=
    stacked_rawDispatchMessage (s := s.enterCallback m)
  obtain ⟨hkept, hqueue⟩ := h.kept_idle hinside hen hrun (fun _ _ => nofun) (by rw [hexec]; rfl)
    (by rw [hexec]; rfl) hstack
  have hsession := hsmooth hnot hm.1 hm.2
  rw [if_neg hproto] at hsession
  have hnot' : (s.exec (.message m co unpacks)).serviceStarted = false := by
    rw [hexec]
    exact hnot
  have hpending : (s.exec (.message m co unpacks)).pendingMessages = s.pendingMessages ++ [m] := by
    rw [hexec]
    rfl
  have hbuffered : ∀ m', .buffered m' ∈ (s.exec (.message m co unpacks)).log →
      .buffered m' ∈ s.log ∨ m' = m := fun m' hmem => by
    rw [hexec] at hmem
    have hmem : .buffered m' ∈ (s.log ++ [_]) ++ [_] := hmem
    simpa using hmem
  have harrived : ∀ type started, (s.exec (.message m co unpacks)).arrived type started =
      (s.enterCallback m).arrived type started := fun type started => by
    rw [hexec]
    exact arrived_record.trans (List.append_nil _)
  have hhanded : ∀ type, (s.exec (.message m co unpacks)).handed type = s.handed type :=
      fun type => by
    rw [hexec]
    exact (handed_record.trans (List.append_nil _)).trans handed_enterCallback
  refine ⟨hkept.fresh, hkept.alone, hkept.replaying, hkept.begun, fun _ hfailed type htype => ?_,
    fun _ type htype => ?_, fun hyes => absurd (hnot'.symm.trans hyes) Bool.noConfusion,
    fun _ m' hmem => ?_, fun hf m' hmem => ?_, fun m' hmem => h.waiting m' (hqueue ▸ hmem),
    fun m' hmem => ?_⟩
  · have hbefore := h.early hnot (fun hf => hfailed (hkept.failed.2 hf)) type htype
    rw [harrived, arrived_now hnot, hhanded, hpending, ← hbefore,
      List.filter_append, List.append_assoc]
    simp [List.filter_singleton]
  · rw [harrived, arrived_other (by simp [hnot])]
    exact h.timely hnot type htype
  · rw [hpending]
    rcases hbuffered m' hmem with hold | rfl
    · exact (h.buffered hnot m' hold).imp_left (List.mem_append_left _)
    · exact .inl (by simp)
  · rcases hbuffered m' hmem with hold | rfl
    · exact h.failed (hkept.failed.1 hf) m' hold
    · exact hsession (hkept.failed.1 hf)
  · rw [hpending] at hmem
    rcases List.mem_append.1 hmem with hmem | hmem
    · exact h.pending m' hmem
    · exact List.mem_singleton.1 hmem ▸ hm

theorem exec_accepts (co : Coroutine) (unpacks : Bool) (hm : IsRequest m.type)
    (haccepts : ¬ (s.serviceStarted = false ∧ s.proto m.type ≠ some true)) :
    s.exec (.message m co unpacks) = (s.enterCallback m).accept m co unpacks := by
  change (s.enterCallback m).rawDispatchMessage m co unpacks = _
  unfold State.rawDispatchMessage
  rw [if_neg hm.1, if_neg hm.2, if_neg]
  exact haccepts

/-- It is handed on at once, where none of its type is buffered. -/
theorem Accounted.hands {unpacks : Bool} (h : Accounted s) (hinside : s.Inside)
    (hsmooth : s.Smooth (.message m co unpacks)) (hen : s.Enabled (.message m co unpacks))
    (hm : IsRequest m.type) (hnot : s.serviceStarted = false)
    (hproto : s.proto m.type = some true) :
    Accounted (s.exec (.message m co unpacks)) := by
  have hrun : s.running = [] := running_of_not_busy hinside fun hbusy => by
    rw [hen.1] at hbusy
    exact hbusy
  have hcond := hsmooth hnot hm.1 hm.2
  rw [if_pos hproto] at hcond
  obtain ⟨hnone, htakes⟩ := hcond
  have htakes' : (s.enterCallback m).Takes co unpacks := htakes
  have hview : (s.exec (.message m co unpacks)).startView =
      ((s.enterCallback m).record (.handed m)).startView := by
    rw [exec_accepts co unpacks hm fun hc => hc.2 hproto]
    exact (accept_takes (s := s.enterCallback m) hproto htakes').1
  have hstack : Stacked s (s.exec (.message m co unpacks)) :=
    stacked_rawDispatchMessage (s := s.enterCallback m)
  have hstarted : (s.exec (.message m co unpacks)).serviceStarted = s.serviceStarted :=
    (started_of_view hview :)
  have hpending : (s.exec (.message m co unpacks)).pendingMessages = s.pendingMessages :=
    (pending_of_view hview :)
  obtain ⟨hkept, hqueue⟩ := h.kept_idle hinside hen hrun (fun _ _ => nofun) hstarted
    (starter_of_view hview :) hstack
  have hlog := sameLog_of_view hview
  have hbuffered : ∀ m', .buffered m' ∈ (s.exec (.message m co unpacks)).log ↔
      .buffered m' ∈ s.log := fun m' => by
    rw [hlog.buffered]
    simp [enterCallback, record]
  refine ⟨hkept.fresh, hkept.alone, hkept.replaying, hkept.begun, fun _ hfailed type htype => ?_,
    fun _ type htype => ?_, fun hyes => ?_, fun _ m' hmem => ?_, fun hf m' hmem => ?_,
    fun m' hmem => h.waiting m' (hqueue ▸ hmem), fun m' hmem => h.pending m' (hpending ▸ hmem)⟩
  · have hbefore := h.early hnot (fun hf => hfailed (hkept.failed.2 hf)) type htype
    rw [hlog.handed, hlog.arrived type false htype, hpending, handed_handed, arrived_handed,
      handed_enterCallback, arrived_now hnot]
    by_cases heq : m.type = type
    · have hfilter : s.pendingMessages.filter (fun m' => m'.type = type) = [] :=
        List.filter_eq_nil_iff.2 fun m' hm' => by simp [heq ▸ hnone m' hm']
      rw [hfilter, List.append_nil] at hbefore ⊢
      rw [hbefore]
    · simp only [if_neg heq, List.append_nil]
      exact hbefore
  · rw [hlog.arrived type true htype, arrived_handed, arrived_other (by simp [hnot])]
    exact h.timely hnot type htype
  · cases (hstarted.trans hnot).symm.trans hyes
  · rw [hpending]
    exact h.buffered hnot m' ((hbuffered m').1 hmem)
  · exact h.failed (hkept.failed.1 hf) m' ((hbuffered m').1 hmem)

/-- One that arrives after the start has completed comes after all that has arrived before. -/
theorem Accounted.handsLate {unpacks : Bool} (h : Accounted s) (hinside : s.Inside)
    (hen : s.Enabled (.message m co unpacks)) (hm : IsRequest m.type)
    (hyes : s.serviceStarted = true) : Accounted (s.exec (.message m co unpacks)) := by
  have hrun : s.running = [] := running_of_not_busy hinside fun hbusy => by
    rw [hen.1] at hbusy
    exact hbusy
  have hview : (s.exec (.message m co unpacks)).startView = (s.enterCallback m).startView ∨
      (s.exec (.message m co unpacks)).startView =
        ((s.enterCallback m).record (.handed m)).startView := by
    rw [exec_accepts co unpacks hm fun hc => Bool.noConfusion (hc.1.symm.trans hyes)]
    exact startView_accept
  have hstarted : (s.exec (.message m co unpacks)).serviceStarted = s.serviceStarted :=
    hview.elim (fun hv => (started_of_view hv :)) fun hv => (started_of_view hv :)
  have hstarter : (s.exec (.message m co unpacks)).starter = s.starter :=
    hview.elim (fun hv => (starter_of_view hv :)) fun hv => (starter_of_view hv :)
  have hpending : (s.exec (.message m co unpacks)).pendingMessages = s.pendingMessages :=
    hview.elim (fun hv => (pending_of_view hv :)) fun hv => (pending_of_view hv :)
  have hstack : Stacked s (s.exec (.message m co unpacks)) :=
    stacked_rawDispatchMessage (s := s.enterCallback m)
  obtain ⟨hkept, hqueue⟩ := h.kept_idle hinside hen hrun (fun _ _ => nofun) hstarted hstarter hstack
  have hnot : (s.exec (.message m co unpacks)).serviceStarted ≠ false := by
    rw [hstarted, hyes]
    exact Bool.noConfusion
  refine ⟨hkept.fresh, hkept.alone, hkept.replaying, hkept.begun, fun hn => absurd hn hnot,
    fun hn => absurd hn hnot, fun _ type htype => ?_, fun hn => absurd hn hnot,
    fun hf => absurd hf.1 hnot, fun m' hmem => h.waiting m' (hqueue ▸ hmem),
    fun m' hmem => h.pending m' (hpending ▸ hmem)⟩
  obtain ⟨l, hl, hbefore⟩ := h.late hyes type htype
  rw [hqueue, h.queue_nil hrun, List.filter_nil, List.append_nil]
  rw [h.queue_nil hrun, List.filter_nil, List.append_nil] at hbefore
  rcases hview with hview | hview
  · have hlog := sameLog_of_view hview
    refine ⟨l, ?_, ?_⟩
    · rw [hlog.arrived type true htype, arrived_now hyes]
      exact hl.trans (List.sublist_append_left _ _)
    · rw [hlog.handed, hlog.arrived type false htype, handed_enterCallback,
        arrived_other (by simp [hyes])]
      exact hbefore
  · have hlog := sameLog_of_view hview
    refine ⟨l ++ if m.type = type then [m] else [], ?_, ?_⟩
    · rw [hlog.arrived type true htype, arrived_handed, arrived_now hyes]
      exact hl.append (List.Sublist.refl _)
    · rw [hlog.handed, hlog.arrived type false htype, handed_handed, handed_enterCallback,
        arrived_handed, arrived_other (by simp [hyes]), hbefore, List.append_assoc]

/-- The first that waits is handed on. -/
theorem Accounted.replays {unpacks : Bool} (h : Accounted s) (hinside : s.Inside)
    (hsmooth : s.Smooth (.replay co unpacks)) (hen : s.Enabled (.replay co unpacks)) :
    Accounted (s.exec (.replay co unpacks)) := by
  have hfresh := h.fresh_exec hinside hen
  obtain ⟨hst, hrun, hyes, -⟩ := id hen
  obtain ⟨st, hst⟩ := Option.ne_none_iff_exists'.1 hst
  obtain ⟨m, rest, hq, -, hexec⟩ := replay_of_enabled hen
  obtain ⟨hproto, htakes⟩ := hsmooth m (by simp [hq])
  have hm := h.waiting m (by simp [hq])
  have htakes' : State.Takes { s with queue := rest } co unpacks := htakes
  obtain ⟨hview, hqueue, hrunning⟩ :=
    accept_takes (s := { s with queue := rest }) hproto htakes'
  have haccept : s.exec (.replay co unpacks) = { s with queue := rest }.accept m co unpacks := by
    rw [hexec]
    unfold State.rawDispatchMessage
    rw [if_neg hm.1, if_neg hm.2, if_neg fun hc => Bool.noConfusion (hc.1.symm.trans hyes)]
  rw [haccept] at hfresh ⊢
  have hstarted := started_of_view hview
  have hstarter := starter_of_view hview
  have hpending := pending_of_view hview
  have hlog := sameLog_of_view hview
  have hnot : ({ s with queue := rest }.accept m co unpacks).serviceStarted ≠ false := by
    rw [hstarted]
    exact fun hn => Bool.noConfusion (hn.symm.trans hyes)
  refine ⟨hfresh, fun hn => absurd hn hnot, fun _ => ⟨hstarted.trans hyes, st, [co], ?_, ?_⟩,
    fun hn => absurd hn hnot, fun hn => absurd hn hnot, fun hn => absurd hn hnot,
    fun _ type htype => ?_, fun hn => absurd hn hnot, fun hf => absurd hf.1 hnot, fun m' hmem => ?_,
    fun m' hmem => h.pending m' (hpending ▸ hmem)⟩
  · exact hstarter.trans hst
  · rw [hrunning]
    change co :: s.running = _
    rw [hrun, hst]
    rfl
  · obtain ⟨l, hl, hbefore⟩ := h.late hyes type htype
    refine ⟨l, ?_, ?_⟩
    · rw [hlog.arrived type true htype, arrived_handed]
      exact hl
    · rw [hlog.handed, hlog.arrived type false htype, handed_handed, arrived_handed, hqueue]
      rw [hq] at hbefore
      refine Eq.trans ?_ hbefore
      change (s.handed type ++ _) ++ rest.filter _ = _
      by_cases heq : m.type = type <;> simp [heq]
  · rw [hqueue] at hmem
    exact h.waiting m' (hq ▸ List.mem_cons_of_mem _ hmem)

theorem Accounted.eq_of_mem {l : List Coroutine} {self st : Coroutine} (h : Accounted s)
    (hnot : s.serviceStarted = false) (hrun : s.running = self :: l) (hmem : st ∈ s.running) :
    self = st ∧ s.running = [st] := by
  have hle := h.alone hnot
  rw [hrun] at hle hmem ⊢
  have hnil : l = [] := List.length_eq_zero_iff.1 (by simpa using hle)
  rw [hnil] at hmem ⊢
  obtain rfl := List.mem_singleton.1 hmem
  exact ⟨rfl, rfl⟩

/-- The function of `skynet.start` has returned: what is buffered is to be dispatched. -/
theorem Accounted.startReturns {self : Coroutine} {l : List Coroutine} (h : Accounted s)
    (hinside : s.Inside) (hen : s.Enabled (.code .startReturns)) (hrun : s.running = self :: l)
    (hcan : s.CanCall self .startReturns)
    (hexec : s.exec (.code .startReturns) = s.startReturns) : Accounted s.startReturns := by
  have hfresh := h.fresh_exec hinside hen
  rw [hexec] at hfresh
  obtain ⟨hst, hnot⟩ := hcan
  have hself : self ∈ s.running := by simp [hrun]
  obtain ⟨-, hlast⟩ := h.eq_of_mem hnot hrun hself
  have hbegun := h.begun hnot self hst
  have hfailed : ¬ s.Failed := by
    rintro ⟨-, st, hst', hdead⟩
    obtain rfl := Option.some.inj (hst.symm.trans hst')
    exact hbegun.dead hdead hself
  refine ⟨hfresh, nofun, fun _ => ⟨rfl, self, [], hst, hlast⟩, nofun, nofun, nofun,
    fun _ type htype => ⟨[], List.nil_sublist _, ?_⟩, nofun, fun hf => (nomatch hf.1), h.pending,
    fun m hm => (nomatch hm)⟩
  rw [List.append_nil]
  exact h.early hnot hfailed type htype

/-- The code raises, while nothing waits to be dispatched. -/
theorem Accounted.raise {self : Coroutine} {l : List Coroutine} (h : Accounted s)
    (hinside : s.Inside) (hsmooth : s.Smooth (.code .raise)) (hen : s.Enabled (.code .raise))
    (hrun : s.running = self :: l) (hcan : s.CanCall self .raise)
    (hexec : s.exec (.code .raise) = s.raise self) : Accounted (s.raise self) := by
  have hfresh := h.fresh_exec hinside hen
  rw [hexec] at hfresh
  obtain ⟨hqueue, hsessions⟩ := hsmooth
  replace hsessions := hsessions self (by simp [hrun])
  have hlog : SameLog s (s.raise self) := by
    refine sameLog_of_log ((s.serving self).toList.map Event.failed) rfl fun e he => ?_
    obtain ⟨n, -, rfl⟩ := List.mem_map.1 he
    rfl
  have hstarts : ¬ (s.starter = some self ∧ s.serviceStarted = false) →
      Kept s (s.raise self) ∧ (s.raise self).pendingMessages = s.pendingMessages := by
    intro hother
    refine ⟨kept_of_stays rfl rfl (fun hnot st hst => ?_) hfresh (fun _ => Nat.zero_le 1)
      (fun hne => absurd rfl hne), if_neg hother⟩
    have hmem : st ∉ s.running := fun hmem => by
      obtain ⟨rfl, -⟩ := h.eq_of_mem hnot hrun hmem
      exact hother ⟨hst, hnot⟩
    exact hexec ▸ (h.begun hnot st hst).step hmem hen fun _ _ => nofun
  by_cases hstart : s.starter = some self ∧ s.serviceStarted = false
  · obtain ⟨hst, hnot⟩ := hstart
    have hbegun := (h.begun hnot self hst).perform
      (h.eq_of_mem hnot hrun (by simp [hrun])).2 hcan nofun
    have hfailed : (s.raise self).Failed := ⟨hnot, self, hst, if_pos (by simp [hrun])⟩
    have hzero : ∀ m, .buffered m ∈ (s.raise self).log → m.session = 0 := fun m hm =>
      (h.buffered hnot m ((hlog.buffered m).1 hm)).elim (hsessions hst hnot m) id
    refine ⟨hfresh, fun _ => Nat.zero_le 1, fun hne => absurd rfl hne, fun _ st hst' => ?_,
      fun _ hf => absurd hfailed hf, fun _ type htype => ?_,
      fun hyes => Bool.noConfusion (hnot.symm.trans hyes), fun _ m hm => .inr (hzero m hm),
      fun _ => hzero, fun m hm => (nomatch hm), fun m hm => ?_⟩
    · obtain rfl := Option.some.inj (hst.symm.trans hst')
      exact hbegun.1
    · rw [hlog.arrived type true htype]
      exact h.timely hnot type htype
    · have hm : m ∈ if s.starter = some self ∧ s.serviceStarted = false then [] else _ := hm
      rw [if_pos ⟨hst, hnot⟩] at hm
      cases hm
  · obtain ⟨hkept, hpending⟩ := hstarts hstart
    exact h.quiet hlog hkept rfl hpending hqueue.symm

/-- A call of the code. -/
theorem Accounted.code {call : Call} (h : Accounted s) (hinside : s.Inside)
    (hsmooth : s.Smooth (.code call)) (hen : s.Enabled (.code call)) :
    Accounted (s.exec (.code call)) := by
  obtain ⟨self, l, hrun, hcan, hexec⟩ := code_of_enabled hen
  by_cases hreturns : call = .startReturns
  · subst hreturns
    rw [hexec]
    exact h.startReturns hinside hen hrun hcan hexec
  by_cases hraise : call = .raise
  · subst hraise
    rw [hexec]
    exact h.raise hinside hsmooth hen hrun hcan hexec
  obtain ⟨hlog, hstarted, hpending, -⟩ := starter_perform (s := s) self hreturns hraise
  obtain ⟨hqueue, -⟩ := shrunk_perform (s := s) self hreturns hraise
  rw [hexec]
  exact h.quiet hlog (h.kept_code hinside hen hrun hcan hexec hreturns hraise) hstarted hpending
    hqueue

/-- The main thread goes on, where no request is concerned. -/
theorem Accounted.idle {l : Label} (h : Accounted s) (hinside : s.Inside) (hen : s.Enabled l)
    (hrun : s.running = []) (hreplay : ∀ c u, l ≠ .replay c u)
    (hview : (s.exec l).startView = s.startView) (hstack : Stacked s (s.exec l)) :
    Accounted (s.exec l) := by
  obtain ⟨hkept, hqueue⟩ := h.kept_idle hinside hen hrun hreplay (started_of_view hview)
    (starter_of_view hview) hstack
  exact h.quiet (sameLog_of_view hview) hkept (started_of_view hview) (pending_of_view hview) hqueue

theorem Accounted.step {l : Label} (h : Accounted s) (hinside : s.Inside) (hsmooth : s.Smooth l)
    (hs : State.step s l = some t) : Accounted t := by
  obtain ⟨hen, rfl⟩ := step_eq_some.1 hs
  have hidle : ¬ s.phase.Busy → s.running = [] := running_of_not_busy hinside
  cases l with
  | main call => exact h.main hinside hen
  | start co => exact h.start hinside hen
  | loaded =>
    refine h.idle hinside hen (hidle fun hbusy => ?_) (fun _ _ => nofun) rfl (.inr ⟨rfl, .inl rfl⟩)
    rw [hen.1] at hbusy
    exact hbusy
  | message m co unpacks =>
    by_cases hm : m.type = PTYPE_RESPONSE ∨ m.type = PTYPE_ERROR
    · exact h.answer hinside hen hm
    · have hm : IsRequest m.type := not_or.1 hm
      by_cases hyes : s.serviceStarted = true
      · exact h.handsLate hinside hen hm hyes
      · have hnot : s.serviceStarted = false := by simpa using hyes
        by_cases hproto : s.proto m.type = some true
        · exact h.hands hinside hsmooth hen hm hnot hproto
        · exact h.buffers hinside hsmooth hen hm hnot hproto
  | replay co unpacks => exact h.replays hinside hsmooth hen
  | code call => exact h.code hinside hsmooth hen
  | next =>
    refine h.idle hinside hen (hidle fun hbusy => ?_) (fun _ _ => nofun) startView_next stacked_next
    rcases hen with ⟨hp, -⟩ | hp
    · rw [hp] at hbusy
      exact hbusy
    · cases hphase : s.phase <;> rw [hphase] at hbusy hp <;> first | exact hp | exact hbusy
  | collect l =>
    refine h.idle hinside hen (hidle fun hbusy => ?_) (fun _ _ => nofun) rfl (.inr ⟨rfl, .inl rfl⟩)
    rw [hen.1] at hbusy
    exact hbusy

end Accounts

/-- In a run whose steps are all smooth, what arrives before the service has started is replayed in
order, and answered where the start fails. -/
theorem replayed_of_smooth (h : Reaches State.step Smooth {} s) : Replayed s := by
  have haccounted : Accounted s := h.invariant accounted_init fun _ _ _ hr ha hsmooth hs =>
    ha.step (queued_reachable hr).inside hsmooth hs
  have hinside := (queued_reachable h.reachable).inside
  refine ⟨fun hphase hyes type hresponse herror => ?_, fun hfailed m hm hsession => ?_⟩
  · obtain ⟨l, hl, heq⟩ := haccounted.late hyes type ⟨hresponse, herror⟩
    have hrun : s.running = [] := running_of_not_busy hinside fun hbusy => by
      rw [hphase] at hbusy
      exact hbusy
    rw [haccounted.queue_nil hrun, List.filter_nil, List.append_nil] at heq
    exact ⟨l, hl, heq⟩
  · exact absurd (haccounted.failed hfailed m hm) hsession

section Runs

/-- Two requests arrive before the coroutine of the start is resumed. -/
def startRun : List Label :=
  [.start 1, .loaded,
    .message { type := PTYPE_LUA, session := 5, source := 7 } 0 true, .collect [],
    .message { type := PTYPE_LUA, session := 6, source := 7 } 0 true, .collect [],
    .message { type := PTYPE_RESPONSE, session := 1, source := 0 } 0 true,
    .code (.dispatch PTYPE_LUA true), .code .startReturns, .replay 2 true]

/-- Both are handed on, and the first replies. -/
def replayRun : List Label :=
  startRun ++ [.code (.ret true), .code .finish, .replay 2 true, .code .finish, .code .finish,
    .collect []]

theorem replayed_replayRun : (after step {} replayRun).Replayed :=
  replayed_of_smooth (reaches_after (by decide))

/-- The handler of the first raises, and the second is lost. -/
theorem second_lost : ∃ s, Reachable step {} s ∧ ¬ s.Replayed := by
  refine ⟨after step {} (startRun ++ [.code .raise]), reachable_after (by decide), fun h => ?_⟩
  obtain ⟨l, -, heq⟩ := h.ordered (by decide) (by decide) PTYPE_LUA (by decide) (by decide)
  have hlength := congrArg List.length heq
  rw [List.length_append] at hlength
  have hhanded : ((after step {} (startRun ++ [.code .raise])).handed PTYPE_LUA).length = 1 := by
    decide
  have harrived :
      ((after step {} (startRun ++ [.code .raise])).arrived PTYPE_LUA false).length = 2 := by
    decide
  omega

end Runs

end State

end LuaService

end SkynetCpp
