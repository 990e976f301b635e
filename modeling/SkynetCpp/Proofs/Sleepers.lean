import SkynetCpp.Proofs.Calm

/-!
# The suspensions that a wakeup ends

A coroutine that sleeps, and is to be woken, is left alone by all that happens until the wakeup loop
comes to it, but for a response or an error of its session. So each wakeup ends the suspension that
was pending, and the wakeup loop ends no other (`Paired`). -/

namespace SkynetCpp

namespace LuaService

open Lib

/-- The event is a wakeup. -/
def Event.IsWakeup : Event → Bool
  | .wakeup _ _ => true
  | _ => false

/-- The wakeup loop resumes a coroutine. -/
def Event.IsWoken : Event → Bool
  | .woken _ _ => true
  | _ => false

theorem spares_resumes {co : Coroutine} : State.Spares (Event.resumes co) := by
  intro e he
  cases e <;> first | rfl | exact he.elim

theorem spares_isWakeup : State.Spares Event.IsWakeup := by
  intro e he
  cases e <;> first | rfl | exact he.elim

theorem spares_isWoken : State.Spares Event.IsWoken := by
  intro e he
  cases e <;> first | rfl | exact he.elim

namespace State

variable {s s' : State} {co : Coroutine} {session : ℤ} {l : Label}

/-- The coroutine is to be woken, from the suspension that has this session. -/
def Pending (s : State) (co : Coroutine) (session : ℤ) : Prop :=
  co ∈ s.wakeupQueue ∧ (s.status co).sleeps = some session

/-- A coroutine that sleeps does not run, is not in `fork_queue`, and can not be made anew. -/
theorem Fit.asleep (h : Fit s) (hsleeps : (s.status co).sleeps = some session) :
    co ∉ s.running ∧ co ∉ s.forkQueue ∧ ¬ s.CanCreate co := by
  obtain ⟨why, hst, -⟩ := CoStatus.suspended_of_sleeps hsleeps
  refine ⟨fun hmem => ?_, fun hmem => ?_, fun hnew => ?_⟩
  · rcases (h.fits co).of_mem_running hmem with h | h <;> cases hst.symm.trans h
  · cases hst.symm.trans ((h.fits co).of_mem_forks hmem).1
  · rcases h.canCreate hnew with h | h <;> cases hst.symm.trans h

/-- It waits for itself. -/
theorem Fit.waits (h : Fit s) (hsleeps : (s.status co).sleeps = some session) :
    (s.status co).waits co = some (co, session) := by
  obtain ⟨why, hst, -⟩ := CoStatus.suspended_of_sleeps hsleeps
  rw [hst] at hsleeps ⊢
  cases why with
  | call => cases hsleeps
  | sleep => rw [Option.some.inj hsleeps, CoStatus.waits]
  | wait session' token =>
    obtain rfl := (h.fits co).token session' token hst
    rw [← Option.some.inj hsleeps, CoStatus.waits]

theorem next_wakes {rest : List Coroutine} (hphase : s.phase = .wakeups (co :: rest))
    (hsleep : s.sleepSession co = some session) :
    s.next.log = s.log ++ [.taken co, .woken co (s.status co)] ∧
      s.next.wakeupQueue = s.wakeupQueue.erase co := by
  have hsleep' : ({ s with wakeupQueue := s.wakeupQueue.erase co }.record
      (.taken co)).sleepSession co = some session := hsleep
  unfold State.next
  rw [hphase]
  dsimp only
  rw [hsleep']
  exact ⟨List.append_assoc s.log [_] [_], rfl⟩

/-- Until the wakeup loop resumes it, a coroutine stays to be woken. -/
theorem Fit.stays (h : Fit s) (htimely : s.Timely l) (hs : State.step s l = some s')
    (hpending : s.Pending co session) : ∃ es, s'.log = s.log ++ es ∧
      ((s'.Pending co session ∧ es.find? (Event.resumes co) = none) ∨
        (es.find? (Event.resumes co) = some (.woken co (s.status co)) ∧
          s'.wakeupQueue = s.wakeupQueue.erase co)) := by
  obtain ⟨hen, rfl⟩ := step_eq_some.1 hs
  obtain ⟨hrun, hforks, hnew⟩ := h.asleep hpending.2
  have hcalm : Calm (Event.resumes co) (· = co) s s := Calm.refl fun c hc => hc ▸ hrun
  by_cases hturn : l = .next ∧ ∃ rest, s.phase = .wakeups (co :: rest)
  · obtain ⟨rfl, rest, hphase⟩ := hturn
    have hsleep : s.sleepSession co = some session := (h.fits co).sleep.trans hpending.2
    obtain ⟨hlog, hqueue⟩ := next_wakes hphase hsleep
    exact ⟨[.taken co, .woken co (s.status co)], hlog, .inr ⟨by simp [Event.resumes], hqueue⟩⟩
  · have hafter : Calm (Event.resumes co) (· = co) s (s.exec l) := by
      refine hcalm.step spares_resumes hen (fun c hc heq => hnew (heq ▸ hc)) (fun _ _ => rfl)
        (fun _ _ _ => rfl) ?_ ?_
      · rintro m c u (rfl | ⟨rfl, hmem⟩) htype c' hentry
        · have hundue := htimely.2 htype
          rw [hentry] at hundue
          have hne : c' ≠ co := fun heq => hundue (heq ▸ hpending.1)
          exact ⟨hne, by simp [Event.resumes, hne]⟩
        · have hrequest := h.queue m hmem
          exact (htype.elim hrequest.1 hrequest.2).elim
      · rintro rfl
        refine hcalm.next spares_resumes (fun c hc => ?_) fun c rest hphase => ?_
        · have hne : c ≠ co := fun heq => hforks (heq ▸ hc)
          exact ⟨hne, by simp [Event.resumes, hne]⟩
        · have hne : c ≠ co := fun heq => hturn ⟨rfl, rest, heq ▸ hphase⟩
          exact ⟨hne, fun _ _ => by simp [Event.resumes, hne]⟩
    obtain ⟨es, hlog, hes⟩ := hafter.log
    refine ⟨es, hlog, .inl ⟨⟨hafter.wakeups co rfl hpending.1, ?_⟩, ?_⟩⟩
    · rw [hafter.status co rfl]
      exact hpending.2
    · rw [List.find?_eq_none]
      exact fun e he => by simp [hes e he]

theorem log_wakeup (s : State) (co : Coroutine) : s.wakeup co = s ∨ ∃ session es,
    s.sleepSession co = some session ∧
      (s.wakeup co).log = s.log ++ .wakeup co session :: es ∧ es ⊆ [.queued co] ∧
      (s.wakeup co).wakeupQueue ⊆ co :: s.wakeupQueue ∧ co ∈ (s.wakeup co).wakeupQueue := by
  unfold State.wakeup
  split
  next session hsleep =>
    dsimp only
    refine .inr ⟨session, ?_⟩
    split_ifs with hmem
    · exact ⟨[], hsleep, rfl, by simp, List.subset_cons_self .., hmem⟩
    · refine ⟨[.queued co], hsleep, List.append_assoc s.log [_] [_], by simp, fun c hc => ?_,
        List.mem_append_right _ (by simp)⟩
      rcases List.mem_append.1 hc with hc | hc
      · exact List.mem_cons_of_mem _ hc
      · exact List.mem_singleton.1 hc ▸ List.mem_cons_self
  next => exact .inl rfl

theorem Keeps.wakeupQueue (h : Keeps s s') : s'.wakeupQueue ⊆ s.wakeupQueue := by
  have heq : s'.wakeupQueue = s.wakeupQueue := congrArg (fun q => q.2.1) h.1
  rw [heq]
  exact List.Subset.refl _

theorem wakeupQueue_perform {self : Coroutine} {c : Call} (hc : ∀ co, c ≠ .wakeup co) :
    (s.perform self c).wakeupQueue ⊆ s.wakeupQueue := by
  by_cases hfork : ∃ co, c = .fork co
  · obtain ⟨co, rfl⟩ := hfork
    exact List.Subset.refl _
  · exact (Keeps.perform (fun co heq => hfork ⟨co, heq⟩) hc).wakeupQueue

theorem wakeupQueue_next : s.next.wakeupQueue ⊆ s.wakeupQueue := by
  unfold State.next
  split
  · split
    · exact List.Subset.refl _
    · exact List.Subset.refl _
  · dsimp only
    split
    · exact List.erase_subset
    · exact List.erase_subset
  · exact List.Subset.refl _
  · exact List.Subset.refl _

/-- But for a `skynet.wakeup`, nothing is put into `wakeup_queue`. -/
theorem wakeupQueue_exec (hen : s.Enabled l) (hcall : ∀ co, s.exec l ≠ s.wakeup co) :
    (s.exec l).wakeupQueue ⊆ s.wakeupQueue := by
  cases l with
  | main c =>
    refine wakeupQueue_perform ?_
    rintro co rfl
    exact hcall co rfl
  | start co | loaded | collect l => exact List.Subset.refl _
  | message m co unpacks =>
    have hkeeps : Keeps s ({ s with phase := .handler }.record (.called m s.serviceStarted)) :=
      Keeps.record (t := { s with phase := .handler }) rfl ⟨rfl, .inr rfl⟩
    exact (hkeeps.trans Keeps.rawDispatchMessage).wakeupQueue
  | replay co unpacks =>
    obtain ⟨m, rest, -, -, hexec⟩ := replay_of_enabled hen
    rw [hexec]
    exact Keeps.wakeupQueue (s := { s with queue := rest }) Keeps.rawDispatchMessage
  | code c =>
    obtain ⟨self, l, -, -, hexec⟩ := code_of_enabled hen
    rw [hexec] at hcall ⊢
    refine wakeupQueue_perform ?_
    rintro co rfl
    exact hcall co rfl
  | next => exact wakeupQueue_next

/-- The step is a `skynet.wakeup`, or there is none, and nothing is put into `wakeup_queue`. -/
theorem wakeup_of_step (hs : State.step s l = some s') : (∃ co, s' = s.wakeup co) ∨
    s'.wakeupQueue ⊆ s.wakeupQueue ∧ ∃ es, s'.log = s.log ++ es ∧ ∀ e ∈ es, e.IsWakeup = false := by
  obtain ⟨hen, rfl⟩ := step_eq_some.1 hs
  by_cases hcall : ∃ co, s.exec l = s.wakeup co
  · exact .inl hcall
  · have hcalm : Calm Event.IsWakeup (fun _ => False) s s := Calm.refl nofun
    have hother : ∀ co, l = .main (.wakeup co) ∨ l = .code (.wakeup co) → False := by
      rintro co (rfl | rfl)
      · exact hcall ⟨co, rfl⟩
      · obtain ⟨self, l, -, -, hexec⟩ := code_of_enabled hen
        exact hcall ⟨co, hexec⟩
    refine .inr ⟨wakeupQueue_exec hen fun co heq => hcall ⟨co, heq⟩, ?_⟩
    exact (hcalm.step spares_isWakeup hen (fun _ _ => id) (fun _ _ => rfl)
      (fun co hl => (hother co hl).elim) (fun _ _ _ _ _ _ _ => ⟨id, rfl⟩) fun _ =>
        hcalm.next spares_isWakeup (fun _ _ => ⟨id, rfl⟩) fun _ _ _ => ⟨id, fun _ _ => rfl⟩).log

/-- The step is one of the wakeup loop, with its events, or the loop resumes nothing. -/
theorem woken_of_step (hs : State.step s l = some s') : ∃ es, s'.log = s.log ++ es ∧
    ((∃ co rest session, s.phase = .wakeups (co :: rest) ∧ s.sleepSession co = some session ∧
      es = [.taken co, .woken co (s.status co)]) ∨ ∀ e ∈ es, e.IsWoken = false) := by
  obtain ⟨hen, rfl⟩ := step_eq_some.1 hs
  by_cases hwakes : l = .next ∧ ∃ co rest session, s.phase = .wakeups (co :: rest) ∧
      s.sleepSession co = some session
  · obtain ⟨rfl, co, rest, session, hphase, hsleep⟩ := hwakes
    exact ⟨_, (next_wakes hphase hsleep).1, .inl ⟨co, rest, session, hphase, hsleep, rfl⟩⟩
  · have hcalm : Calm Event.IsWoken (fun _ => False) s s := Calm.refl nofun
    have hafter : Calm Event.IsWoken (fun _ => False) s (s.exec l) := by
      refine hcalm.step spares_isWoken hen (fun _ _ => id) (fun _ _ => rfl) (fun _ _ _ => rfl)
        (fun _ _ _ _ _ _ _ => ⟨id, rfl⟩) ?_
      rintro rfl
      refine hcalm.next spares_isWoken (fun _ _ => ⟨id, rfl⟩) fun co rest hphase => ⟨id, ?_⟩
      exact fun session hsleep => absurd ⟨rfl, co, rest, session, hphase, hsleep⟩ hwakes
    obtain ⟨es, hlog, hes⟩ := hafter.log
    exact ⟨es, hlog, .inr hes⟩

/-- When a wakeup returns true, the coroutine is to be woken. -/
theorem Fit.pending_wakeup (h : Fit s) (hsleep : s.sleepSession co = some session)
    (hmem : co ∈ (s.wakeup co).wakeupQueue) : (s.wakeup co).Pending co session := by
  have hst : (s.wakeup co).status co = s.status co :=
    congrArg (fun p => p.1.status co) tables_wakeup
  refine ⟨hmem, ?_⟩
  rw [hst, ← (h.fits co).sleep]
  exact hsleep

/-- What is in `wakeup_queue` is to be woken, and has not been resumed since the wakeup. -/
def Due (s : State) : Prop :=
  ∀ co ∈ s.wakeupQueue, ∃ session a b, s.Pending co session ∧
    s.log = a ++ .wakeup co session :: b ∧ b.find? (Event.resumes co) = none

theorem Due.step (hfit : Fit s) (hbalanced : Balanced s) (h : Due s) (htimely : s.Timely l)
    (hs : State.step s l = some s') : Due s' := by
  intro co hmem
  by_cases hbefore : co ∈ s.wakeupQueue
  · obtain ⟨session, a, b, hpending, hlog, hnone⟩ := h co hbefore
    obtain ⟨es, hlog', hstays⟩ := hfit.stays htimely hs hpending
    rcases hstays with ⟨hpending', hnone'⟩ | ⟨-, hqueue⟩
    · refine ⟨session, a, b ++ es, hpending', ?_, ?_⟩
      · rw [hlog', hlog, List.append_assoc, List.cons_append]
      · rw [List.find?_append, hnone, hnone']
        rfl
    · rw [hqueue] at hmem
      exact absurd hmem (hbalanced.nodup.not_mem_erase)
  · rcases wakeup_of_step hs with ⟨c, rfl⟩ | ⟨hsubset, -⟩
    · rcases log_wakeup s c with heq | ⟨session, es, hsleep, hlog, hes, hqueue, hmem'⟩
      · rw [heq] at hmem
        exact absurd hmem hbefore
      · obtain rfl : co = c := (List.mem_cons.1 (hqueue hmem)).resolve_right hbefore
        refine ⟨session, s.log, es, hfit.pending_wakeup hsleep hmem', hlog, ?_⟩
        refine List.find?_eq_none.2 fun e he => ?_
        rw [List.mem_singleton.1 (hes he)]
        simp [Event.resumes]
    · exact absurd (hsubset hmem) hbefore

theorem paired_init : Paired {} := ⟨nofun, by simp, by simp⟩

theorem Fit.of_waits {token : Coroutine} (h : Fit s)
    (hwaits : (s.status co).waits co = some (token, session)) :
    token = co ∧ (s.status co).sleeps = some session := by
  rcases hst : s.status co with - | - | why | - | - | - | - | - <;> rw [hst] at hwaits
  case suspended =>
    cases why with
    | call => cases hwaits
    | sleep session' =>
      obtain ⟨rfl, rfl⟩ := Prod.mk.inj (Option.some.inj hwaits)
      exact ⟨rfl, rfl⟩
    | wait session' token' =>
      obtain ⟨rfl, rfl⟩ := Prod.mk.inj (Option.some.inj hwaits)
      exact ⟨(h.fits co).token _ _ hst, rfl⟩
  all_goals cases hwaits

/-- Where an event of a log that has grown is. -/
theorem split_append {log es l₁ l₂ : List Event} {e : Event} (h : log ++ es = l₁ ++ e :: l₂) :
    (∃ a, log = l₁ ++ e :: a ∧ l₂ = a ++ es) ∨ ∃ b, l₁ = log ++ b ∧ es = b ++ e :: l₂ := by
  rcases List.append_eq_append_iff.1 h with ⟨b, hl₁, hes⟩ | ⟨a, hlog, hes⟩
  · exact .inr ⟨b, hl₁, hes⟩
  · rcases a with - | ⟨e', a⟩
    · refine .inr ⟨[], ?_, hes.symm⟩
      rw [List.append_nil, hlog, List.append_nil]
    · obtain ⟨rfl, hl₂⟩ := List.cons.inj hes
      exact .inl ⟨a, hlog, hl₂⟩

theorem Paired.ended_step (hfit : Fit s) (h : Paired s) (htimely : s.Timely l)
    (hs : State.step s l = some s') {l₁ l₂ : List Event} {token : Coroutine}
    (hsplit : s'.log = l₁ ++ .wakeup token session :: l₂) :
    ∃ co, s'.Ended token session co (l₂.find? (Event.resumes co)) := by
  have hfit' := hfit.step htimely.1 hs
  obtain ⟨es, hlog, -⟩ := woken_of_step hs
  rw [hlog] at hsplit
  rcases split_append hsplit with ⟨a, hold, rfl⟩ | ⟨b, -, hnew⟩
  · obtain ⟨co, hended⟩ := h.ended l₁ a token session hold
    refine ⟨co, ?_⟩
    rw [List.find?_append]
    rcases hfind : a.find? (Event.resumes co) with - | e
    · rw [hfind] at hended
      obtain ⟨rfl, hsleeps⟩ := hfit.of_waits hended.2
      obtain ⟨es', hlog', hstays⟩ := hfit.stays htimely hs ⟨hended.1, hsleeps⟩
      obtain rfl := List.append_cancel_left (hlog.symm.trans hlog')
      rcases hstays with ⟨hpending, hnone⟩ | ⟨hwoken, -⟩
      · rw [hnone]
        exact ⟨hpending.1, hfit'.waits hpending.2⟩
      · rw [hwoken]
        exact ⟨_, rfl, hended.2⟩
    · rw [hfind] at hended
      exact hended
  · rcases wakeup_of_step hs with ⟨c, rfl⟩ | ⟨-, es', hlog', hnone⟩
    · rcases log_wakeup s c with heq | ⟨session', es', hsleep, hlog', hes, -, hmem⟩
      · rw [heq] at hlog
        rw [List.self_eq_append_right.1 hlog] at hnew
        simp at hnew
      · obtain rfl := List.append_cancel_left (hlog.symm.trans hlog')
        rcases b with - | ⟨e, b⟩
        · obtain ⟨hevent, rfl⟩ := List.cons.inj hnew
          obtain ⟨rfl, rfl⟩ := Event.wakeup.inj hevent
          have hpending := hfit.pending_wakeup hsleep hmem
          have hnone : es'.find? (Event.resumes c) = none := by
            refine List.find?_eq_none.2 fun e he => ?_
            rw [List.mem_singleton.1 (hes he)]
            simp [Event.resumes]
          refine ⟨c, ?_⟩
          rw [hnone]
          exact ⟨hpending.1, hfit'.waits hpending.2⟩
        · have hmem' : Event.wakeup token session ∈ es' := by
            rw [(List.cons.inj hnew).2]
            simp
          cases List.mem_singleton.1 (hes hmem')
    · obtain rfl := List.append_cancel_left (hlog.symm.trans hlog')
      have hwakeup := hnone (.wakeup token session) (by simp [hnew])
      cases hwakeup

theorem Paired.woken_step (hfit : Fit s) (hbalanced : Balanced s) (hdue : Due s) (h : Paired s)
    (hs : State.step s l = some s') {l₁ l₂ : List Event} {st : CoStatus}
    (hsplit : s'.log = l₁ ++ .woken co st :: l₂) :
    ∃ token session a b, st.waits co = some (token, session) ∧
      l₁ = a ++ .wakeup token session :: b ∧ b.find? (Event.resumes co) = none := by
  obtain ⟨es, hlog, hes⟩ := woken_of_step hs
  rw [hlog] at hsplit
  rcases split_append hsplit with ⟨a, hold, -⟩ | ⟨b, rfl, hnew⟩
  · exact h.woken l₁ a co st hold
  · rcases hes with ⟨c, rest, session, hphase, hsleep, rfl⟩ | hnone
    · obtain ⟨rfl, rfl, rfl⟩ : b = [.taken c] ∧ c = co ∧ s.status c = st := by
        rcases b with - | ⟨e, - | ⟨e', b⟩⟩
        · cases (List.cons.inj hnew).1
        · obtain ⟨rfl, hrest⟩ := List.cons.inj hnew
          obtain ⟨rfl, rfl⟩ := Event.woken.inj (List.cons.inj hrest).1
          exact ⟨rfl, rfl, rfl⟩
        · have hrest := (List.cons.inj (List.cons.inj hnew).2).2
          simp at hrest
      have hmem : c ∈ s.wakeupQueue := hbalanced.restMem c (by simp [hphase, Phase.rest])
      obtain ⟨session', a, b, hpending, hlog, hnone⟩ := hdue c hmem
      refine ⟨c, session', a, b ++ [.taken c], hfit.waits hpending.2, ?_, ?_⟩
      · rw [hlog, List.append_assoc, List.cons_append]
      · rw [List.find?_append, hnone]
        rfl
    · have hwoken := hnone (.woken co st) (by simp [hnew])
      cases hwoken

theorem Paired.step (hfit : Fit s) (hbalanced : Balanced s) (hdue : Due s) (h : Paired s)
    (htimely : s.Timely l) (hs : State.step s l = some s') : Paired s' where
  pending token session hsleep := by
    have hfit' := hfit.step htimely.1 hs
    rw [(hfit'.fits token).sleep] at hsleep
    exact ⟨token, hfit'.waits hsleep⟩
  ended _ _ _ _ hsplit := h.ended_step hfit htimely hs hsplit
  woken _ _ _ _ hsplit := h.woken_step hfit hbalanced hdue hs hsplit

/-- What holds in every run of timely steps. -/
structure Wakes (s : State) : Prop where
  fit : Fit s
  balanced : Balanced s
  due : Due s
  paired : Paired s

theorem wakes_of_timely (h : Reaches step Timely {} s) : Wakes s := by
  refine h.invariant (I := Wakes) ⟨fit_init, balanced_init, nofun, paired_init⟩ ?_
  intro s s' l _ ⟨hfit, hbalanced, hdue, hpaired⟩ htimely hs
  exact ⟨hfit.step htimely.1 hs, hbalanced.step hs, hdue.step hfit hbalanced htimely hs,
    hpaired.step hfit hbalanced hdue htimely hs⟩

/-- Where sessions are not in use when they are allocated, and a response or an error resumes a
coroutine only from the suspension it is for, and none that is to be woken, each wakeup ends the
suspension that was pending, and the wakeup loop ends no other. -/
theorem paired_of_timely (h : Reaches step Timely {} s) : Paired s := (wakes_of_timely h).paired

section Runs

/-- A service that forks three coroutines when it starts. -/
def forkThree : List Label :=
  [.start 0, .loaded, .message { type := PTYPE_RESPONSE, session := 1 } 0 true, .code (.fork 1),
    .code (.fork 2), .code (.fork 3), .code .startReturns, .code .finish]

/-- One sleeps, and is woken by the next, as it waits for itself when it has slept. -/
def sleepRun : List Label :=
  forkThree ++ [.next, .code (.sleep true), .next, .code (.wakeup 1), .code .finish, .next,
    .code .finish, .collect [1], .next, .code (.wait none), .next, .collect []]

/-- One calls, the second waits for it, and the third wakes the first, from its call. -/
def waitRun : List Label :=
  forkThree ++ [.next, .code (.call true), .next, .code (.wait (some 1)), .next, .code (.wakeup 1),
    .code .finish, .collect [1], .next]

theorem paired_sleepRun :
    Reachable step {} (after step {} sleepRun) ∧ Paired (after step {} sleepRun) := by
  have h : Reaches step Timely {} (after step {} sleepRun) := reaches_after (by decide)
  exact ⟨h.reachable, paired_of_timely h⟩

theorem call_woken : ∃ s, Reachable step {} s ∧ ¬ Paired s := by
  refine ⟨after step {} waitRun, reachable_after (by decide), fun h => ?_⟩
  have hmem : Event.woken 1 (.suspended (.call 2)) ∈ (after step {} waitRun).log := by decide
  obtain ⟨l₁, l₂, hlog⟩ := List.append_of_mem hmem
  obtain ⟨token, session, a, b, hwaits, -⟩ := h.woken l₁ l₂ 1 _ hlog
  cases hwaits

end Runs

end State

end LuaService

end SkynetCpp
