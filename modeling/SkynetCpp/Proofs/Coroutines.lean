import SkynetCpp.SessionRouting
import SkynetCpp.Proofs.ServiceQueues

/-!
# What the tables hold of a coroutine

The status of a coroutine says where `skynet.lua` has it: whether it is in `fork_queue`, in the pool
or among those that run, and what `sleep_session` and `session_id_coroutine` hold for it (`Fits`). A
step moves one coroutine, and leaves the tables of the others alone. -/

namespace SkynetCpp

namespace LuaService

open Lib

namespace CoStatus

/-- How often a coroutine of this status can be in `fork_queue`. -/
def forks : CoStatus → ℕ
  | .ready => 1
  | _ => 0

/-- How often it can be in `coroutine_pool`. -/
def pools : CoStatus → ℕ
  | .pooled => 1
  | _ => 0

/-- How often it is among those that run. -/
def runs : CoStatus → ℕ
  | .running | .normal => 1
  | _ => 0

/-- It can be resumed, from outside the pool. -/
def Loose : CoStatus → Prop
  | .ready | .suspended _ => True
  | _ => False

theorem suspended_of_sleeps {st : CoStatus} {session : ℤ} (h : st.sleeps = some session) :
    ∃ why, st = .suspended why ∧ why.session = session := by
  cases st with
  | suspended why =>
    refine ⟨why, rfl, ?_⟩
    cases why with
    | call => cases h
    | sleep | wait => exact Option.some.inj h
  | _ => cases h

end CoStatus

namespace State

variable {s s' : State} {co c : Coroutine} {st : CoStatus} {session : ℤ}

theorem code_of_enabled {call : Call} (h : s.Enabled (.code call)) : ∃ self l,
    s.running = self :: l ∧ s.CanCall self call ∧ s.exec (.code call) = s.perform self call := by
  obtain ⟨self, hself, hcan⟩ := h
  rcases hr : s.running with - | ⟨a, l⟩ <;> rw [hr] at hself
  · cases hself
  · obtain rfl := Option.some.inj hself
    exact ⟨a, l, rfl, hcan, by simp only [exec, hr]⟩

theorem replay_of_enabled {unpacks : Bool} (h : s.Enabled (.replay co unpacks)) : ∃ m rest,
    s.queue = m :: rest ∧ (s.Dispatches m → s.CanCreate co) ∧
      s.exec (.replay co unpacks) = { s with queue := rest }.rawDispatchMessage m co unpacks := by
  obtain ⟨-, -, -, m, hm, hco⟩ := h
  rcases hq : s.queue with - | ⟨m', rest⟩ <;> rw [hq] at hm
  · cases hm
  · obtain rfl := Option.some.inj hm
    exact ⟨m', rest, rfl, hco, by simp only [exec, hq]⟩

/-- The tables hold of the coroutine what its status says. -/
structure Fits (s : State) (co : Coroutine) : Prop where
  sound : s.status co ≠ .spoiled
  sleep : s.sleepSession co = (s.status co).sleeps
  token : ∀ session token, s.status co = .suspended (.wait session token) → token = co
  entry : ∀ why, s.status co = .suspended why →
    s.sessionIdCoroutine why.session = some (.thread co)
  forks : s.forkQueue.count co ≤ (s.status co).forks
  pools : s.coroutinePool.count co ≤ (s.status co).pools
  runs : s.running.count co = (s.status co).runs

/-- Nothing has changed for the coroutine. -/
structure Same (s s' : State) (co : Coroutine) : Prop where
  status : s'.status co = s.status co
  sleep : s'.sleepSession co = s.sleepSession co
  entry : ∀ session, s.sessionIdCoroutine session = some (.thread co) →
    s'.sessionIdCoroutine session = some (.thread co)
  forks : s'.forkQueue.count co = s.forkQueue.count co
  pools : s'.coroutinePool.count co = s.coroutinePool.count co
  runs : s'.running.count co = s.running.count co

theorem Same.refl : Same s s co := ⟨rfl, rfl, fun _ h => h, rfl, rfl, rfl⟩

theorem Fits.same (h : s.Fits co) (hs : Same s s' co) : s'.Fits co where
  sound := hs.status ▸ h.sound
  sleep := by rw [hs.sleep, hs.status, h.sleep]
  token session token hst := h.token session token (hs.status ▸ hst)
  entry why hst := hs.entry _ (h.entry why (hs.status ▸ hst))
  forks := by rw [hs.forks, hs.status]; exact h.forks
  pools := by rw [hs.pools, hs.status]; exact h.pools
  runs := by rw [hs.runs, hs.status, h.runs]

/-- A coroutine that is not suspended fits where the counts do. -/
theorem fits_of_counts (hst : s.status co = st) (hwhy : ∀ why, st ≠ .suspended why)
    (hsound : st ≠ .spoiled) (hsleep : s.sleepSession co = none)
    (hforks : s.forkQueue.count co ≤ st.forks) (hpools : s.coroutinePool.count co ≤ st.pools)
    (hruns : s.running.count co = st.runs) : s.Fits co where
  sound := hst ▸ hsound
  sleep := by
    rw [hsleep, hst]
    cases st with
    | suspended why => exact absurd rfl (hwhy why)
    | unborn | ready | running | normal | pooled | spoiled | dead => rfl
  token session token h := absurd (hst.symm.trans h) (hwhy _)
  entry why h := absurd (hst.symm.trans h) (hwhy why)
  forks := hst ▸ hforks
  pools := hst ▸ hpools
  runs := hst ▸ hruns

/-- One that is nowhere, or runs. -/
theorem fits_of_zero (hst : s.status co = st) (hwhy : ∀ why, st ≠ .suspended why)
    (hsound : st ≠ .spoiled) (hsleep : s.sleepSession co = none) (hforks : s.forkQueue.count co = 0)
    (hpools : s.coroutinePool.count co = 0) (hruns : s.running.count co = st.runs) : s.Fits co :=
  fits_of_counts hst hwhy hsound hsleep (hforks ▸ Nat.zero_le _) (hpools ▸ Nat.zero_le _) hruns

theorem Fits.sleep_none (h : s.Fits co) (hst : ∀ why, s.status co ≠ .suspended why) :
    s.sleepSession co = none := by
  rw [h.sleep]
  rcases hco : s.status co with - | - | why | - | - | - | - | -
  case suspended => exact absurd hco (hst why)
  all_goals rfl

/-- All coroutines fit, and what is buffered are requests. -/
structure Fit (s : State) : Prop where
  fits : ∀ co, s.Fits co
  queue : ∀ m ∈ s.queue, m.type ≠ PTYPE_RESPONSE ∧ m.type ≠ PTYPE_ERROR
  pending : ∀ m ∈ s.pendingMessages, m.type ≠ PTYPE_RESPONSE ∧ m.type ≠ PTYPE_ERROR

theorem fit_init : Fit {} where
  fits co := by
    have hst : ({} : State).status co = .unborn := rfl
    exact fits_of_zero hst nofun nofun rfl rfl rfl rfl
  queue m hm := by cases hm
  pending m hm := by cases hm

theorem status_setStatus : (s.toThreads.setStatus co st).status c =
    if c = co then st else s.status c := by
  simp [Threads.setStatus, Function.update_apply]

theorem Fits.of_mem_running (h : s.Fits co) (hmem : co ∈ s.running) :
    s.status co = .running ∨ s.status co = .normal := by
  have hpos : 0 < s.running.count co := List.count_pos_iff.2 hmem
  rw [h.runs] at hpos
  rcases hco : s.status co with - | - | why | - | - | - | - | - <;>
    simp [hco, CoStatus.runs] at hpos ⊢

theorem Fits.of_mem_pool (h : s.Fits co) (hmem : co ∈ s.coroutinePool) :
    s.status co = .pooled ∧ s.coroutinePool.count co = 1 := by
  have hpos : 0 < s.coroutinePool.count co := List.count_pos_iff.2 hmem
  have hle := h.pools
  rcases hco : s.status co with - | - | why | - | - | - | - | - <;>
    simp only [hco, CoStatus.pools] at hle
  case pooled => exact ⟨rfl, by omega⟩
  all_goals omega

theorem Fits.of_mem_forks (h : s.Fits co) (hmem : co ∈ s.forkQueue) :
    s.status co = .ready ∧ s.forkQueue.count co = 1 := by
  have hpos : 0 < s.forkQueue.count co := List.count_pos_iff.2 hmem
  have hle := h.forks
  rcases hco : s.status co with - | - | why | - | - | - | - | - <;>
    simp only [hco, CoStatus.forks] at hle
  case ready => exact ⟨rfl, by omega⟩
  all_goals omega

theorem Fits.count_running_le (h : s.Fits co) : s.running.count co ≤ 1 := by
  rw [h.runs]
  cases s.status co <;> simp [CoStatus.runs]

/-- Among those that run, a coroutine is in neither queue. -/
theorem Fits.run_counts (h : s.Fits co) (hst : s.status co = .running ∨ s.status co = .normal) :
    s.sleepSession co = none ∧ s.forkQueue.count co = 0 ∧ s.coroutinePool.count co = 0 ∧
      s.running.count co = 1 := by
  have hforks := h.forks
  have hpools := h.pools
  have hruns := h.runs
  refine ⟨h.sleep_none fun why hwhy => ?_, ?_⟩
  · rcases hst with hst | hst <;> rw [hst] at hwhy <;> cases hwhy
  · rcases hst with hst | hst <;> rw [hst] at hforks hpools hruns <;>
      exact ⟨Nat.le_zero.1 hforks, Nat.le_zero.1 hpools, hruns⟩

theorem Fit.back (h : Fit s) : Fit s.back := by
  rcases hr : s.running with - | ⟨co, l⟩
  · have heq : s.back = { s with phase := s.phase.after } := by
      simp only [State.back, Threads.back, hr]
    rw [heq]
    exact ⟨fun c => (h.fits c).same ⟨rfl, rfl, fun _ h => h, rfl, rfl, rfl⟩, h.queue, h.pending⟩
  · have heq : s.back = { s with toThreads := s.toThreads.setStatus co .running } := by
      simp only [State.back, Threads.back, hr]
    rw [heq]
    refine ⟨fun c => ?_, h.queue, h.pending⟩
    by_cases hc : c = co
    · subst hc
      obtain ⟨hsleep, hforks, hpools, hruns⟩ :=
        (h.fits c).run_counts ((h.fits c).of_mem_running (by simp [hr]))
      have hst : (s.toThreads.setStatus c .running).status c = .running := by
        rw [status_setStatus, if_pos rfl]
      exact fits_of_zero hst nofun nofun hsleep hforks hpools hruns
    · refine (h.fits c).same ⟨?_, rfl, fun _ h => h, rfl, rfl, rfl⟩
      change (s.toThreads.setStatus co .running).status c = _
      rw [status_setStatus, if_neg hc]

/-- Those that ran are dead. -/
theorem Fit.abort (h : Fit s) : Fit s.abort := by
  refine Fit.mk (fun c => ?_) (fun m hm => by cases hm) h.pending
  have hst : s.abort.status c = if c ∈ s.running then .dead else s.status c := rfl
  by_cases hmem : c ∈ s.running
  · rw [if_pos hmem] at hst
    obtain ⟨hsleep, hforks, hpools, -⟩ := (h.fits c).run_counts ((h.fits c).of_mem_running hmem)
    exact fits_of_zero hst nofun nofun hsleep hforks hpools rfl
  · rw [if_neg hmem] at hst
    refine (h.fits c).same ⟨hst, rfl, fun _ h => h, rfl, rfl, ?_⟩
    rw [List.count_eq_zero_of_not_mem hmem]
    rfl

/-- A coroutine that is about to be resumed. -/
structure Free (s : State) (co : Coroutine) : Prop where
  others : ∀ c, c ≠ co → s.Fits c
  loose : (s.status co).Loose
  token : ∀ session token, s.status co = .suspended (.wait session token) → token = co
  sleep : s.sleepSession co = none ∨ s.sleepSession co = (s.status co).sleeps
  forks : co ∉ s.forkQueue
  pools : co ∉ s.coroutinePool
  runs : co ∉ s.running
  queue : ∀ m ∈ s.queue, m.type ≠ PTYPE_RESPONSE ∧ m.type ≠ PTYPE_ERROR
  pending : ∀ m ∈ s.pendingMessages, m.type ≠ PTYPE_RESPONSE ∧ m.type ≠ PTYPE_ERROR

theorem Free.resume_eq (h : Free s co) : s.toThreads.resume co = s.toThreads.run co := by
  have hloose := h.loose
  unfold Threads.resume
  rcases hst : s.status co with - | - | why | - | - | - | - | - <;>
    simp only [hst, CoStatus.Loose] at hloose ⊢

/-- What the function that has suspended the coroutine clears is the coroutine's. -/
theorem Free.sleepAfter (h : Free s co) :
    s.sleepAfter co co = none ∧ ∀ c, c ≠ co → s.sleepAfter co c = s.sleepSession c := by
  have hsleep := h.sleep
  unfold State.sleepAfter
  rcases hst : s.status co with - | - | why | - | - | - | - | -
  case suspended =>
    cases why with
    | call session =>
      rw [hst] at hsleep
      exact ⟨hsleep.elim id id, fun _ _ => rfl⟩
    | sleep session =>
      refine ⟨Function.update_self .., fun c hc => Function.update_of_ne hc ..⟩
    | wait session token =>
      obtain rfl := h.token session token hst
      refine ⟨Function.update_self .., fun c hc => Function.update_of_ne hc ..⟩
  all_goals
    rw [hst] at hsleep
    exact ⟨hsleep.elim id id, fun _ _ => rfl⟩

theorem status_run : (s.toThreads.run co).status c =
    if c = co then .running else if s.running.head? = some c then .normal else s.status c := by
  unfold Threads.run
  rcases hr : s.running with - | ⟨a, l⟩
  · simp [Threads.setStatus, Function.update_apply]
  · by_cases hc : c = co
    · simp [Threads.setStatus, hc]
    · by_cases ha : c = a
      · subst ha
        simp [Threads.setStatus, hc]
      · simp [Threads.setStatus, hc, ha, Ne.symm ha]

theorem running_run : (s.toThreads.run co).running = co :: s.running := by
  unfold Threads.run
  rcases hr : s.running with - | ⟨a, l⟩ <;> simp [Threads.setStatus, hr]

theorem queue_run : (s.toThreads.run co).queue = s.queue := by
  unfold Threads.run
  rcases hr : s.running with - | ⟨a, l⟩ <;> simp [Threads.setStatus]

theorem Free.resume (h : Free s co) : Fit (s.resume co) := by
  have hthreads : (s.resume co).toThreads = s.toThreads.run co := h.resume_eq
  obtain ⟨hself, hothers⟩ := h.sleepAfter
  have hstatus : ∀ c, (s.resume co).status c = if c = co then .running
      else if s.running.head? = some c then .normal else s.status c := fun c => by
    rw [hthreads, status_run]
  have hrunning : (s.resume co).running = co :: s.running := by rw [hthreads, running_run]
  refine Fit.mk (fun c => ?_) (fun m hm => h.queue m ?_) h.pending
  · by_cases hc : c = co
    · subst hc
      have hst := hstatus c
      rw [if_pos rfl] at hst
      refine fits_of_zero hst nofun nofun hself (List.count_eq_zero_of_not_mem h.forks)
        (List.count_eq_zero_of_not_mem h.pools) ?_
      rw [hrunning, List.count_cons_self, List.count_eq_zero_of_not_mem h.runs]
      rfl
    · have hst := hstatus c
      rw [if_neg hc] at hst
      have hcount : (s.resume co).running.count c = s.running.count c := by
        rw [hrunning, List.count_cons_of_ne (Ne.symm hc)]
      by_cases hhead : s.running.head? = some c
      · rw [if_pos hhead] at hst
        have hfits := h.others c hc
        obtain ⟨hsleep, hforks, hpools, hruns⟩ :=
          hfits.run_counts (hfits.of_mem_running (List.mem_of_head? hhead))
        exact fits_of_zero hst nofun nofun ((hothers c hc).trans hsleep) hforks hpools
          (hcount.trans hruns)
      · rw [if_neg hhead] at hst
        exact (h.others c hc).same ⟨hst, hothers c hc, fun _ h => h, rfl, rfl, hcount⟩
  · rwa [hthreads, queue_run] at hm

theorem Fit.same (h : Fit s) (hs : ∀ c, Same s s' c) (hqueue : s'.queue = s.queue)
    (hpending : s'.pendingMessages = s.pendingMessages) : Fit s' where
  fits c := (h.fits c).same (hs c)
  queue m hm := h.queue m (hqueue ▸ hm)
  pending m hm := h.pending m (hpending ▸ hm)

/-- What `Fit` is about. -/
def tables (s : State) : Threads × (ℤ → Option Entry) × (Coroutine → Option ℤ) × List Coroutine ×
    List Coroutine × List Message :=
  (s.toThreads, s.sessionIdCoroutine, s.sleepSession, s.forkQueue, s.coroutinePool,
    s.pendingMessages)

theorem Same.of_tables (heq : s'.tables = s.tables) : Same s s' c := by
  simp only [tables, Prod.mk.injEq] at heq
  obtain ⟨hthreads, hentry, hsleep, hforks, hpools, -⟩ := heq
  exact ⟨by rw [hthreads], by rw [hsleep], fun _ h => by rw [hentry]; exact h, by rw [hforks],
    by rw [hpools], by rw [hthreads]⟩

theorem Fit.congr (h : Fit s) (heq : s'.tables = s.tables) : Fit s' := by
  refine h.same (fun _ => .of_tables heq) ?_ ?_
  · exact congrArg (fun p => p.1.queue) heq
  · exact congrArg (fun p => p.2.2.2.2.2) heq

/-- The coroutine that runs first is put elsewhere. -/
def leave (s : State) (co : Coroutine) (st : CoStatus) : State :=
  { s with toThreads := { s.toThreads.setStatus co st with running := s.running.tail } }

theorem yield_eq : s.yield co st = (s.leave co st).back := rfl

theorem status_leave : (s.leave co st).status c = if c = co then st else s.status c :=
  status_setStatus

theorem Fit.leave {t : State} {l : List Coroutine} (h : Fit s) (hrun : s.running = co :: l)
    (hs : ∀ c, c ≠ co → Same s t c) (hthreads : t.toThreads = s.toThreads)
    (hpending : t.pendingMessages = s.pendingMessages) (hco : (t.leave co st).Fits co) :
    Fit (t.leave co st) := by
  refine ⟨fun c => ?_, fun m hm => h.queue m ?_, fun m hm => h.pending m (hpending ▸ hm)⟩
  · by_cases hc : c = co
    · exact hc ▸ hco
    · have hsame := hs c hc
      refine (h.fits c).same ⟨?_, hsame.sleep, hsame.entry, hsame.forks, hsame.pools, ?_⟩
      · rw [status_leave, if_neg hc]
        exact hsame.status
      · change t.running.tail.count c = _
        rw [hthreads, hrun, List.tail_cons, List.count_cons_of_ne (Ne.symm hc)]
  · have hm : m ∈ t.queue := hm
    rwa [hthreads] at hm

theorem Fit.count_tail {l : List Coroutine} (h : Fit s) (hrun : s.running = co :: l) :
    l.count co = 0 := by
  have hle := (h.fits co).count_running_le
  rw [hrun, List.count_cons_self] at hle
  omega

/-- The coroutine that runs suspends, with a session that was not in use. -/
theorem Fit.suspend {t : State} {l : List Coroutine} {why : Suspension} (h : Fit s)
    (hrun : s.running = co :: l) (hfresh : s.sessionIdCoroutine why.session = none)
    (htoken : ∀ session token, why = .wait session token → token = co)
    (hthreads : t.toThreads = s.toThreads)
    (hentry : t.sessionIdCoroutine =
      Function.update s.sessionIdCoroutine why.session (some (.thread co)))
    (hsleep : t.sleepSession co = (CoStatus.suspended why).sleeps)
    (hothers : ∀ c, c ≠ co → t.sleepSession c = s.sleepSession c)
    (hforks : t.forkQueue = s.forkQueue) (hpools : t.coroutinePool = s.coroutinePool)
    (hpending : t.pendingMessages = s.pendingMessages) : Fit (t.yield co (.suspended why)) := by
  rw [yield_eq]
  obtain ⟨-, hforks0, hpools0, -⟩ :=
    (h.fits co).run_counts ((h.fits co).of_mem_running (by simp [hrun]))
  have hst : (t.leave co (.suspended why)).status co = .suspended why := by
    rw [status_leave, if_pos rfl]
  refine Fit.back (h.leave hrun (fun c hc => ?_) hthreads hpending ?_)
  · refine ⟨by rw [hthreads], hothers c hc, fun session hs => ?_, by rw [hforks], by rw [hpools],
      by rw [hthreads]⟩
    rw [hentry, Function.update_of_ne]
    · exact hs
    · rintro rfl
      rw [hfresh] at hs
      cases hs
  · refine ⟨fun hsp => CoStatus.noConfusion (hst.symm.trans hsp), by rw [hst]; exact hsleep,
      fun session token hw => ?_, fun why' hw => ?_, ?_, ?_, ?_⟩
    · exact htoken session token (CoStatus.suspended.inj (hst.symm.trans hw))
    · obtain rfl := CoStatus.suspended.inj (hst.symm.trans hw)
      change t.sessionIdCoroutine why.session = _
      rw [hentry, Function.update_self]
    · change t.forkQueue.count co ≤ _
      rw [hforks, hforks0]
      exact Nat.zero_le _
    · change t.coroutinePool.count co ≤ _
      rw [hpools, hpools0]
      exact Nat.zero_le _
    · rw [hst]
      change t.running.tail.count co = 0
      rw [hthreads, hrun]
      exact h.count_tail hrun

theorem Fit.canCreate (h : Fit s) (hco : s.CanCreate co) :
    s.status co = .unborn ∨ s.status co = .pooled := by
  rcases hco with hco | hco
  · exact .inl hco
  · exact .inr ((h.fits co).of_mem_pool hco).1

/-- `co_create` returns a coroutine that nothing else knows of. -/
theorem Fit.coCreate (h : Fit s) (hco : s.CanCreate co) :
    Free (s.coCreate co) co ∧ (s.coCreate co).status co = .ready := by
  have hstatus := h.canCreate hco
  have hfits := h.fits co
  have hready : (s.coCreate co).status co = .ready := by
    change (s.toThreads.setStatus co _).status co = _
    rw [status_setStatus, if_pos rfl, if_pos hstatus]
  refine ⟨⟨fun c hc => ?_, ?_, fun session token hw => ?_, .inl ?_, ?_, ?_, ?_, h.queue, h.pending⟩,
    hready⟩
  · refine (h.fits c).same ⟨?_, rfl, fun _ h => h, rfl, ?_, rfl⟩
    · change (s.toThreads.setStatus co _).status c = _
      rw [status_setStatus, if_neg hc]
    · exact List.count_erase_of_ne hc
  · rw [hready]
    trivial
  · exact CoStatus.noConfusion (hready.symm.trans hw)
  · refine hfits.sleep_none fun why hw => ?_
    rcases hstatus with hst | hst <;> cases hst.symm.trans hw
  · intro hmem
    have hst := (hfits.of_mem_forks hmem).1
    rcases hstatus with h | h <;> cases h.symm.trans hst
  · intro hmem
    have hcount := (hfits.of_mem_pool (List.mem_of_mem_erase hmem)).2
    have hpos : 0 < (s.coroutinePool.erase co).count co := List.count_pos_iff.2 hmem
    rw [List.count_erase_self, hcount] at hpos
    exact Nat.lt_irrefl _ hpos
  · intro hmem
    rcases hfits.of_mem_running hmem with hst | hst <;> rcases hstatus with h | h <;>
      cases h.symm.trans hst

theorem Free.fits (h : Free s co) (hst : s.status co = .ready) : s.Fits co := by
  have hsleep : s.sleepSession co = none := h.sleep.elim id fun hs => by rw [hs, hst]; rfl
  exact fits_of_zero hst nofun nofun hsleep (List.count_eq_zero_of_not_mem h.forks)
    (List.count_eq_zero_of_not_mem h.pools) (List.count_eq_zero_of_not_mem h.runs)

theorem Free.fit (h : Free s co) (hst : s.status co = .ready) : Fit s := by
  refine ⟨fun c => ?_, h.queue, h.pending⟩
  by_cases hc : c = co
  · exact hc ▸ h.fits hst
  · exact h.others c hc

theorem Free.same (h : Free s co) (hs : ∀ c, Same s s' c) (hqueue : s'.queue = s.queue)
    (hpending : s'.pendingMessages = s.pendingMessages) : Free s' co := by
  have hself := hs co
  refine ⟨fun c hc => (h.others c hc).same (hs c), hself.status ▸ h.loose, hself.status ▸ h.token,
    ?_, ?_, ?_, ?_, fun m hm => h.queue m (hqueue ▸ hm), fun m hm => h.pending m (hpending ▸ hm)⟩
  · rw [hself.sleep, hself.status]
    exact h.sleep
  · exact List.count_eq_zero.1 (hself.forks.trans (List.count_eq_zero_of_not_mem h.forks))
  · exact List.count_eq_zero.1 (hself.pools.trans (List.count_eq_zero_of_not_mem h.pools))
  · exact List.count_eq_zero.1 (hself.runs.trans (List.count_eq_zero_of_not_mem h.runs))

theorem Fit.fork (h : Fit s) (hco : s.CanCreate co) : Fit (s.fork co) := by
  obtain ⟨hfree, hready⟩ := h.coCreate hco
  refine ⟨fun c => ?_, h.queue, h.pending⟩
  by_cases hc : c = co
  · subst hc
    have hsleep : (s.coCreate c).sleepSession c = none :=
      hfree.sleep.elim id fun hs => by rw [hs, hready]; rfl
    refine fits_of_counts hready nofun nofun hsleep ?_ ?_ ?_
    · change (s.forkQueue ++ [c]).count c ≤ 1
      have hzero : s.forkQueue.count c = 0 := List.count_eq_zero_of_not_mem hfree.forks
      simp [hzero]
    · exact Nat.le_of_eq (List.count_eq_zero_of_not_mem hfree.pools)
    · exact List.count_eq_zero_of_not_mem hfree.runs
  · refine (hfree.others c hc).same ⟨rfl, rfl, fun _ h => h, ?_, rfl, rfl⟩
    change (s.forkQueue ++ [co]).count c = s.forkQueue.count c
    simp [Ne.symm hc]

/-- A session that was not in use is entered. -/
theorem same_enter (hfresh : s.sessionIdCoroutine s.nextSession = none) :
    Same s ((s.genid co).setEntry s.nextSession (some (.thread co))) c := by
  refine ⟨rfl, rfl, fun session hs => ?_, rfl, rfl, rfl⟩
  change Function.update s.sessionIdCoroutine s.nextSession _ session = _
  rw [Function.update_of_ne]
  · exact hs
  · rintro rfl
    rw [hfresh] at hs
    cases hs

theorem Fit.enter (h : Fit s) (hfresh : s.sessionIdCoroutine s.nextSession = none) :
    Fit ((s.genid co).setEntry s.nextSession (some (.thread co))) :=
  h.same (fun _ => same_enter hfresh) rfl rfl

theorem Fit.timeout (h : Fit s) (hco : s.CanCreate co)
    (hfresh : s.sessionIdCoroutine s.nextSession = none) : Fit (s.timeout co) := by
  obtain ⟨hfree, hready⟩ := h.coCreate hco
  exact (hfree.fit hready).enter (s := s.coCreate co) hfresh

theorem tables_send {n : ℕ} {address : Option Handle} {type session : ℤ} {sends : Bool} :
    (s.send n address type session sends).tables = s.tables := by
  unfold State.send
  split <;> rfl

theorem Free.congr (h : Free s co) (heq : s'.tables = s.tables) : Free s' co :=
  h.same (fun _ => .of_tables heq) (congrArg (fun p => p.1.queue) heq)
    (congrArg (fun p => p.2.2.2.2.2) heq)

theorem Fit.accept (h : Fit s) {m : Message} {unpacks : Bool}
    (hco : s.proto m.type = some true → s.CanCreate co) : Fit (s.accept m co unpacks) := by
  have hrequests : Fit { s with requests := s.requests ++ [m] } := h.congr rfl
  unfold State.accept
  dsimp only
  split
  · split_ifs
    · exact Fit.back ((hrequests.congr rfl).congr tables_send)
    · exact Fit.back (hrequests.congr rfl)
  · exact Fit.back (hrequests.congr rfl)
  next hproto =>
    obtain ⟨hfree, hready⟩ := hrequests.coCreate (hco hproto)
    split_ifs
    · exact Fit.abort ((hfree.fit hready).congr rfl)
    · exact Free.resume (hfree.congr rfl)
    · exact Free.resume (hfree.congr rfl)

/-- The coroutine of an entry that is current can be resumed. -/
theorem Fit.free_of_current (h : Fit s) (hentry : s.sessionIdCoroutine session = some (.thread co))
    (hcurrent : s.Current session (s.sessionIdCoroutine session)) {e : Event} :
    Free ((s.setEntry session none).record e) co := by
  rw [hentry] at hcurrent
  have hfits := h.fits co
  have hloose : (s.status co).Loose ∧ co ∉ s.forkQueue := by
    simp only [Current] at hcurrent
    have hforks := hfits.forks
    rcases hst : s.status co with - | - | why | - | - | - | - | - <;>
      simp only [hst] at hcurrent hforks
    · exact ⟨trivial, hcurrent⟩
    · exact ⟨trivial, List.count_eq_zero.1 (Nat.le_zero.1 hforks)⟩
  have hpools : co ∉ s.coroutinePool := fun hmem => by
    have hst := (hfits.of_mem_pool hmem).1
    rw [hst] at hloose
    exact hloose.1
  have hruns : co ∉ s.running := fun hmem => by
    rcases hfits.of_mem_running hmem with hst | hst <;> rw [hst] at hloose <;> exact hloose.1
  refine ⟨fun c hc => (h.fits c).same ⟨rfl, rfl, fun session' hs => ?_, rfl, rfl, rfl⟩, hloose.1,
    hfits.token, .inr hfits.sleep, hloose.2, hpools, hruns, h.queue, h.pending⟩
  change Function.update s.sessionIdCoroutine session none session' = _
  rw [Function.update_of_ne]
  · exact hs
  · rintro rfl
    exact hc (Entry.thread.inj (Option.some.inj (hs.symm.trans hentry)))

/-- An entry that is of no coroutine is cleared. -/
theorem Fit.clear (h : Fit s) (hentry : ∀ c, s.sessionIdCoroutine session ≠ some (.thread c)) :
    Fit (s.setEntry session none) := by
  refine h.same (fun c => ⟨rfl, rfl, fun session' hs => ?_, rfl, rfl, rfl⟩) rfl rfl
  change Function.update s.sessionIdCoroutine session none session' = _
  rw [Function.update_of_ne]
  · exact hs
  · rintro rfl
    exact hentry c hs

theorem Fit.rawDispatchMessage (h : Fit s) {m : Message} {unpacks : Bool}
    (hco : s.Dispatches m → s.CanCreate co)
    (hcurrent : m.type = PTYPE_RESPONSE ∨ m.type = PTYPE_ERROR →
      s.Current m.session (s.sessionIdCoroutine m.session)) :
    Fit (s.rawDispatchMessage m co unpacks) := by
  unfold State.rawDispatchMessage
  split_ifs with hresponse herror hbuffer
  · split
    next hentry => exact (h.clear fun c hc => by rw [hentry] at hc; cases hc).back
    next => exact h.back
    next c hentry => exact (h.free_of_current hentry (hcurrent (.inl hresponse))).resume
  · split
    next hentry => exact (h.clear fun c hc => by rw [hentry] at hc; cases hc).abort
    next => exact h.back
    next c hentry => exact (h.free_of_current hentry (hcurrent (.inr herror))).resume
  · refine Fit.back ⟨fun c => (h.fits c).same ⟨rfl, rfl, fun _ h => h, rfl, rfl, rfl⟩, h.queue,
      fun m' hm => ?_⟩
    rcases List.mem_append.1 hm with hm | hm
    · exact h.pending m' hm
    · exact List.mem_singleton.1 hm ▸ ⟨hresponse, herror⟩
  · exact h.accept fun hproto => hco ⟨hresponse, herror, hproto⟩

theorem tables_wakeup : (s.wakeup co).tables = s.tables := by
  unfold State.wakeup
  split
  · dsimp only
    split_ifs <;> rfl
  · rfl

theorem tables_ret {sends : Bool} : (s.ret co sends).tables = s.tables := by
  unfold State.ret
  split
  · dsimp only
    split_ifs
    · rfl
    · exact tables_send
  · rfl

theorem tables_response : (s.response co).tables = s.tables := by
  unfold State.response
  split
  · split_ifs <;> rfl
  · rfl

theorem tables_respond {i : ℕ} {ok sends : Bool} : (s.respond i ok sends).tables = s.tables := by
  unfold State.respond
  split
  · split
    · rfl
    · exact tables_send
  · rfl

section Perform

variable {l : List Coroutine}

theorem Fit.call (h : Fit s) (hrun : s.running = co :: l)
    (hfresh : s.sessionIdCoroutine s.nextSession = none) {sends : Bool} :
    Fit (s.call co sends) := by
  have hsleep := ((h.fits co).run_counts ((h.fits co).of_mem_running (by simp [hrun]))).1
  unfold State.call
  dsimp only
  split_ifs
  · exact h.suspend hrun hfresh (fun _ _ => Suspension.noConfusion) rfl rfl hsleep
      (fun _ _ => rfl) rfl rfl rfl
  · exact h.enter hfresh

theorem Fit.sleep (h : Fit s) (hrun : s.running = co :: l)
    (hfresh : s.sessionIdCoroutine s.nextSession = none) : Fit (s.sleep co true) :=
  h.suspend hrun hfresh (fun _ _ => Suspension.noConfusion) rfl rfl (Function.update_self ..)
    (fun _ hc => Function.update_of_ne hc ..) rfl rfl rfl

theorem Fit.wait (h : Fit s) (hrun : s.running = co :: l)
    (hfresh : s.sessionIdCoroutine s.nextSession = none) {token : Option Coroutine}
    (htoken : token = none ∨ token = some co) : Fit (s.wait co token) := by
  have htoken : token.getD co = co := by
    rcases htoken with rfl | rfl <;> rfl
  unfold State.wait
  dsimp only
  rw [htoken]
  refine h.suspend hrun hfresh (fun session token' hw => ?_) rfl rfl (Function.update_self ..)
    (fun _ hc => Function.update_of_ne hc ..) rfl rfl rfl
  exact (Suspension.wait.inj hw).2.symm

/-- The coroutine that has ended goes into the pool. -/
theorem Fit.finish (h : Fit s) (hrun : s.running = co :: l) : Fit (s.finish co) := by
  unfold State.finish
  rw [yield_eq]
  obtain ⟨hsleep, hforks, hpools, -⟩ :=
    (h.fits co).run_counts ((h.fits co).of_mem_running (by simp [hrun]))
  refine Fit.back (h.leave hrun (fun c hc => ⟨rfl, rfl, fun _ h => h, rfl, ?_, rfl⟩) rfl rfl
    (fits_of_counts (status_leave.trans (if_pos rfl)) nofun nofun hsleep ?_ ?_ ?_))
  · change (s.coroutinePool ++ [co]).count c = _
    simp [Ne.symm hc]
  · exact Nat.le_of_eq hforks
  · change (s.coroutinePool ++ [co]).count co ≤ 1
    simp [hpools]
  · change s.running.tail.count co = 0
    rw [hrun]
    exact h.count_tail hrun

theorem Fit.raise (h : Fit s) : Fit (s.raise co) := by
  refine Fit.abort ⟨fun c => (h.fits c).same ⟨rfl, rfl, fun _ h => h, rfl, rfl, rfl⟩, h.queue,
    fun m hm => ?_⟩
  change m ∈ if s.starter = some co ∧ s.serviceStarted = false then [] else s.pendingMessages at hm
  split_ifs at hm
  · cases hm
  · exact h.pending m hm

theorem Fit.perform (h : Fit s) (hrun : s.running = co :: l) {c : Call} (hcan : s.CanCall co c)
    (hsafe : s.Safe co c) : Fit (s.perform co c) := by
  cases c with
  | fork co' => exact h.fork hcan.2
  | timeout co' => exact h.timeout hcan.2 hsafe
  | wakeup co' => exact h.congr tables_wakeup
  | registerProtocol type dispatch | ignoreret => exact h.congr rfl
  | dispatch type dispatch =>
    change Fit (if _ then _ else s)
    split_ifs
    · exact h.congr rfl
    · exact h
  | call sends => exact h.call hrun hsafe
  | sleep sets =>
    obtain ⟨hfresh, rfl⟩ := hsafe
    exact h.sleep hrun hfresh
  | wait token => exact h.wait hrun hsafe.1 hsafe.2
  | ret sends => exact h.congr tables_ret
  | response => exact h.congr tables_response
  | respond i ok sends => exact h.congr tables_respond
  | startReturns =>
    exact ⟨fun c => (h.fits c).same ⟨rfl, rfl, fun _ h => h, rfl, rfl, rfl⟩, h.pending,
      fun m hm => by cases hm⟩
  | finish => exact h.finish hrun
  | raise => exact h.raise

theorem Fit.performMain (h : Fit s) {c : Call} (hcan : s.CanCallMain c) (hsafe : s.Safe 0 c) :
    Fit (s.perform 0 c) := by
  cases c with
  | fork co' => exact h.fork hcan
  | timeout co' => exact h.timeout hcan hsafe
  | wakeup co' => exact h.congr tables_wakeup
  | registerProtocol type dispatch => exact h.congr rfl
  | dispatch type dispatch =>
    change Fit (if _ then _ else s)
    split_ifs
    · exact h.congr rfl
    · exact h
  | _ => exact hcan.elim

end Perform

/-- A coroutine that sleeps can be resumed by the wakeup loop. -/
theorem Fit.free_of_sleeps (h : Fit s) (hsleep : s.sleepSession co = some session) {phase : Phase}
    {e : Event} :
    Free ({ (s.setSleep co none).setEntry session (some .broken) with phase }.record e) co := by
  have hfits := h.fits co
  rw [hfits.sleep] at hsleep
  obtain ⟨why, hst, hsession⟩ := CoStatus.suspended_of_sleeps hsleep
  have hentry := hfits.entry why hst
  rw [hsession] at hentry
  refine ⟨fun c hc => (h.fits c).same ⟨rfl, ?_, fun session' hs => ?_, rfl, rfl, rfl⟩, ?_,
    hfits.token, .inl (Function.update_self ..), fun hmem => ?_, fun hmem => ?_, fun hmem => ?_,
    h.queue, h.pending⟩
  · exact Function.update_of_ne hc ..
  · change Function.update s.sessionIdCoroutine session _ session' = _
    rw [Function.update_of_ne]
    · exact hs
    · rintro rfl
      exact hc (Entry.thread.inj (Option.some.inj (hs.symm.trans hentry)))
  · change (s.status co).Loose
    rw [hst]
    trivial
  · cases hst.symm.trans (hfits.of_mem_forks hmem).1
  · cases hst.symm.trans (hfits.of_mem_pool hmem).1
  · rcases hfits.of_mem_running hmem with h | h <;> cases hst.symm.trans h

theorem Fit.next (h : Fit s) : Fit s.next := by
  unfold State.next
  split
  · split
    next co rest hq =>
      obtain ⟨hst, hcount⟩ := (h.fits co).of_mem_forks (by simp [hq])
      have hfits := h.fits co
      refine Free.resume ⟨fun c hc => (h.fits c).same ⟨rfl, rfl, fun _ h => h, ?_, rfl, rfl⟩, ?_,
        hfits.token, .inr hfits.sleep, ?_, fun hmem => ?_, fun hmem => ?_, h.queue, h.pending⟩
      · rw [hq, List.count_cons_of_ne (Ne.symm hc)]
        rfl
      · change (s.status co).Loose
        rw [hst]
        trivial
      · rw [hq, List.count_cons_self] at hcount
        exact List.count_eq_zero.1 (Nat.succ.inj hcount)
      · cases hst.symm.trans (hfits.of_mem_pool hmem).1
      · rcases hfits.of_mem_running hmem with h | h <;> cases hst.symm.trans h
    next => exact h
  · dsimp only
    split
    next session hsleep =>
      have htaken : ∀ co, Fit ({ s with wakeupQueue := s.wakeupQueue.erase co }.record
          (.taken co)) := fun co => h.congr rfl
      exact Free.resume (Fit.free_of_sleeps (htaken _) hsleep)
    next => exact h.same (fun c => ⟨rfl, rfl, fun _ h => h, rfl, rfl, rfl⟩) rfl rfl
  · exact h.same (fun c => ⟨rfl, rfl, fun _ h => h, rfl, rfl, rfl⟩) rfl rfl
  · exact h

theorem Fit.step {l : Label} (h : Fit s) (hregular : s.Regular l) (hs : step s l = some s') :
    Fit s' := by
  obtain ⟨hen, rfl⟩ := step_eq_some.1 hs
  cases l with
  | main c => exact h.performMain hen.2 hregular
  | start co =>
    exact (h.timeout hen.2.2 hregular).congr rfl
  | loaded => exact h.same (fun c => ⟨rfl, rfl, fun _ h => h, rfl, rfl, rfl⟩) rfl rfl
  | message m co unpacks =>
    refine Fit.rawDispatchMessage ?_ hen.2 hregular
    exact h.same (fun c => ⟨rfl, rfl, fun _ h => h, rfl, rfl, rfl⟩) rfl rfl
  | replay co unpacks =>
    obtain ⟨m, rest, hq, hco, hexec⟩ := replay_of_enabled hen
    have hrequest := h.queue m (by simp [hq])
    have hrest : Fit { s with queue := rest } :=
      ⟨fun c => (h.fits c).same ⟨rfl, rfl, fun _ h => h, rfl, rfl, rfl⟩,
        fun m hm => h.queue m (hq ▸ List.mem_cons_of_mem _ hm), h.pending⟩
    rw [hexec]
    exact hrest.rawDispatchMessage hco fun hm =>
      hm.elim (fun h => absurd h hrequest.1) fun h => absurd h hrequest.2
  | code c =>
    obtain ⟨self, l, hrun, hcan, hexec⟩ := code_of_enabled hen
    rw [hexec]
    exact h.perform hrun hcan (hregular self (by simp [hrun]))
  | next => exact h.next
  | collect l => exact h.same (fun c => ⟨rfl, rfl, fun _ h => h, rfl, rfl, rfl⟩) rfl rfl

end State

end LuaService

end SkynetCpp
