import SkynetCpp.Lib.Totals
import SkynetCpp.WorkerPool

/-!
# Sleeping and waking

No token stays in the global queue of a pool that sleeps (`not_allAsleep`): the counters lag behind
the queue and the sleepers, but while every worker is at its wait, the first thread to count a
token reads that all of them sleep, and notifies. And `shutdown` releases every worker, unless one
takes a null in its idle spin, where it is forgotten (`released_of_spinKeepsNulls`).
-/

namespace SkynetCpp

namespace WorkerPool

open Lib

section Steps

variable {s s' : Pool} {l : Pool.Label}

/-- A step is one access of a thread, and the end of the waits it notifies. -/
theorem step_cases (h : s.step l = some s') :
    ∃ t u, s.threads[l.1]? = some t ∧ s.shared.exec t l.2 = some (s'.shared, u)
      ∧ Pool.wakeUp (s.threads.set l.1 u) t.point l.2 = some s'.threads := by
  unfold Pool.step at h
  split at h
  · next t ht =>
    obtain ⟨r, hr, hw⟩ := Option.bind_eq_some_iff.1 h
    obtain ⟨threads, hth, rfl⟩ := Option.map_eq_some_iff.1 hw
    exact ⟨t, r.2, ht, hr, hth⟩
  · cases h

/-- The threads after a notification: all as they were, but for the waits it ends. -/
theorem wakeUp_cases {ts ts' : List Thread} {p : Point} {c : Choice}
    (h : Pool.wakeUp ts p c = some ts') :
    ts' = ts
      ∨ (∃ bumped i t, p = .notifyOne bumped ∧ ts[i]? = some t ∧ t.eligible bumped = true
        ∧ ts' = ts.set i (t.wake bumped))
      ∨ ∃ bumped, p = .notifyAll bumped ∧ ts' = ts.map (Thread.wake bumped) := by
  cases p <;> simp only [Pool.wakeUp, Option.some.injEq] at h
  case notifyOne bumped =>
    cases c <;> simp only at h
    case wake i =>
      split at h
      · next t ht =>
        split_ifs at h with he
        cases h
        exact .inr (.inl ⟨bumped, i, t, rfl, ht, he, rfl⟩)
      · cases h
    all_goals
      split_ifs at h
      cases h
      exact .inl rfl
  case notifyAll bumped => exact .inr (.inr ⟨bumped, rfl, h.symm⟩)
  all_goals exact .inl h.symm

theorem eligible_cases {t : Thread} {bumped : ℕ} (h : t.eligible bumped = true) :
    ∃ epoch, t = .worker (.blocked epoch) ∧ epoch < bumped
      ∧ t.wake bumped = .worker (.wait epoch) := by
  rcases t with w | p
  · cases w <;> simp only [Thread.eligible, Bool.false_eq_true, decide_eq_true_eq] at h
    exact ⟨_, rfl, h, if_pos h⟩
  · cases h

/-- What is the same for a worker that waits and one that is blocked. -/
theorem wake_eq {β : Type} {f : Thread → β}
    (hf : ∀ epoch, f (.worker (.wait epoch)) = f (.worker (.blocked epoch))) (bumped : ℕ)
    (t : Thread) : f (t.wake bumped) = f t := by
  rcases t with w | p
  · cases w <;> simp only [Thread.wake]
    split_ifs
    · exact hf _
    · rfl
  · rfl

theorem total_wakeUp {f : Thread → ℤ}
    (hf : ∀ epoch, f (.worker (.wait epoch)) = f (.worker (.blocked epoch)))
    {ts ts' : List Thread} {p : Point} {c : Choice} (h : Pool.wakeUp ts p c = some ts') :
    total f ts' = total f ts := by
  rcases wakeUp_cases h with rfl | ⟨bumped, i, t, -, ht, -, rfl⟩ | ⟨bumped, -, rfl⟩
  · rfl
  · have := total_set f ht (t.wake bumped)
    rw [wake_eq hf] at this
    omega
  · exact total_map (wake_eq hf bumped) ts

/-- A step changes a total by what its thread counts for. -/
theorem total_step {f : Thread → ℤ}
    (hf : ∀ epoch, f (.worker (.wait epoch)) = f (.worker (.blocked epoch))) {t u : Thread}
    (ht : s.threads[l.1]? = some t)
    (hw : Pool.wakeUp (s.threads.set l.1 u) t.point l.2 = some s'.threads) :
    total f s'.threads + f t = total f s.threads + f u := by
  rw [total_wakeUp hf hw]
  exact total_set f ht u

/-- What an access of `enqueue_global` or `shutdown` can do. -/
inductive PointStep (s : Shared) : Point → Shared → Point → Prop
  | callEnqueue (q : ℕ) : PointStep s .outside s (.enqueue q)
  | callShutdown : PointStep s .outside s .exchange
  | enqueue (q : ℕ) : PointStep s (.enqueue q)
      { s with globalQueue := s.globalQueue ++ [.queue q] } .enqueueCount
  | enqueueCount : PointStep s .enqueueCount
      { s with globalQueueCount := s.globalQueueCount + 1 }
      (.readSleeping (s.globalQueueCount + 1))
  | alarm {queued : ℤ} : 0 < s.sleepingWorkers → queued ≤ s.sleepingWorkers →
      PointStep s (.readSleeping queued) s .bump
  | noAlarm {queued : ℤ} : ¬ (0 < s.sleepingWorkers ∧ queued ≤ s.sleepingWorkers) →
      PointStep s (.readSleeping queued) s .outside
  | bump : PointStep s .bump { s with globalQueueEpoch := s.globalQueueEpoch + 1 }
      (.notifyOne (s.globalQueueEpoch + 1))
  | notifyOne (bumped : ℕ) : PointStep s (.notifyOne bumped) s .outside
  | exchange : s.running = true →
      PointStep s .exchange { s with running := false } (nextNull s.workerCount)
  | exchangeAgain : s.running = false → PointStep s .exchange s .outside
  | enqueueNull (left : ℕ) : PointStep s (.enqueueNull (left + 1))
      { s with globalQueue := s.globalQueue ++ [.null] } (.countNull left)
  | countNull (left : ℕ) : PointStep s (.countNull left)
      { s with globalQueueCount := s.globalQueueCount + 1 } (nextNull left)
  | bumpAll : PointStep s .bumpAll { s with globalQueueEpoch := s.globalQueueEpoch + 1 }
      (.notifyAll (s.globalQueueEpoch + 1))
  | notifyAll (bumped : ℕ) : PointStep s (.notifyAll bumped) { s with returned := true } .outside

theorem execPoint_step {s : Shared} {p : Point} {c : Choice} {r : Shared × Point}
    (h : s.execPoint p c = some r) : PointStep s p r.1 r.2 := by
  cases p <;> cases c <;> simp only [Shared.execPoint, reduceCtorEq] at h
  case readSleeping.go queued =>
    split_ifs at h with hs
    · cases h
      exact .alarm hs.1 hs.2
    · cases h
      exact .noAlarm hs
  case exchange.go =>
    split_ifs at h with hr
    · cases h
      exact .exchange hr
    · cases h
      exact .exchangeAgain (by simpa using hr)
  case enqueueNull.go left =>
    cases left <;> cases h
    exact .enqueueNull _
  all_goals
    cases h
    constructor

/-- What an access of `worker_loop` can do. A token is taken, and the worker may have done so in
its idle spin; or there was none; or something else is read or written. -/
inductive WorkerStep (s : Shared) : Worker → Shared → Worker → Prop
  | checkQueue (q : ℕ) : s.running = true → WorkerStep s (.check (some q)) s (.dispatch .outside)
  | checkNone : s.running = true → WorkerStep s (.check none) s .dequeue
  | stop (queue : Option ℕ) : s.running = false → WorkerStep s (.check queue) s .finished
  | dequeue {i : ℕ} {t : Token} : s.globalQueue[i]? = some t → WorkerStep s .dequeue
      { s with globalQueue := s.globalQueue.eraseIdx i } (.dequeueCount t)
  | dequeueEmpty : s.globalQueue = [] → WorkerStep s .dequeue s (.spinCheck 0)
  | dequeueCount (q : ℕ) :
      WorkerStep s (.dequeueCount (.queue q)) s.uncount (.dispatch .outside)
  | dequeueNull : WorkerStep s (.dequeueCount .null) s.uncount (.check none)
  | spin (spin : ℕ) : WorkerStep s (.spinCheck spin) s (.spinDequeue spin)
  | spinEnd (spin : ℕ) : WorkerStep s (.spinCheck spin) s .loadEpoch
  | spinDequeue {spin i : ℕ} {t : Token} : s.globalQueue[i]? = some t →
      WorkerStep s (.spinDequeue spin)
        { s with globalQueue := s.globalQueue.eraseIdx i } (.spinCount t)
  | spinEmpty (spin : ℕ) : s.globalQueue = [] →
      WorkerStep s (.spinDequeue spin) s (.spinCheck (spin + 1))
  | spinCount (q : ℕ) : WorkerStep s (.spinCount (.queue q)) s.uncount (.dispatch .outside)
  | spinNull : WorkerStep s (.spinCount .null) s.uncount .loadEpoch
  | loadEpoch : WorkerStep s .loadEpoch s (.sleep s.globalQueueEpoch)
  | sleep (epoch : ℕ) : WorkerStep s (.sleep epoch)
      { s with sleepingWorkers := s.sleepingWorkers + 1 } (.sleepDequeue epoch)
  | sleepDequeue {epoch i : ℕ} {t : Token} : s.globalQueue[i]? = some t →
      WorkerStep s (.sleepDequeue epoch)
        { s with globalQueue := s.globalQueue.eraseIdx i } (.sleepCount t)
  | sleepEmpty (epoch : ℕ) : s.globalQueue = [] →
      WorkerStep s (.sleepDequeue epoch) s (.wait epoch)
  | sleepCount (t : Token) : WorkerStep s (.sleepCount t) s.uncount (.awake t.queue?)
  | block : WorkerStep s (.wait s.globalQueueEpoch) s (.blocked s.globalQueueEpoch)
  | noBlock {epoch : ℕ} : s.globalQueueEpoch ≠ epoch →
      WorkerStep s (.wait epoch) s (.awake none)
  | spurious (epoch : ℕ) : WorkerStep s (.blocked epoch) s (.wait epoch)
  | awake (queue : Option ℕ) : WorkerStep s (.awake queue)
      { s with sleepingWorkers := s.sleepingWorkers - 1 } (.check queue)
  | ret : WorkerStep s (.dispatch .outside) s (.check none)
  | dispatch {p p' : Point} {s' : Shared} : PointStep s p s' p' →
      WorkerStep s (.dispatch p) s' (.dispatch p')

theorem tryDequeue_cases {s : Shared} {found : Token → Worker} {empty : Worker} {c : Choice}
    {r : Shared × Worker} (h : s.tryDequeue found empty c = some r) :
    (∃ i t, c = .pick i ∧ s.globalQueue[i]? = some t
        ∧ r = ({ s with globalQueue := s.globalQueue.eraseIdx i }, found t))
      ∨ s.globalQueue = [] ∧ r = (s, empty) := by
  cases c <;> simp only [Shared.tryDequeue, reduceCtorEq] at h
  · split_ifs at h with he
    cases h
    exact .inr ⟨he, rfl⟩
  · obtain ⟨t, ht, rfl⟩ := Option.map_eq_some_iff.1 h
    exact .inl ⟨_, t, rfl, ht, rfl⟩

theorem execWorker_step {s : Shared} {w : Worker} {c : Choice} {r : Shared × Worker}
    (h : s.execWorker w c = some r) : WorkerStep s w r.1 r.2 := by
  cases w with
  | dequeue =>
    rcases tryDequeue_cases h with ⟨i, t, -, ht, rfl⟩ | ⟨he, rfl⟩
    · exact .dequeue ht
    · exact .dequeueEmpty he
  | spinDequeue spin =>
    rcases tryDequeue_cases h with ⟨i, t, -, ht, rfl⟩ | ⟨he, rfl⟩
    · exact .spinDequeue ht
    · exact .spinEmpty spin he
  | sleepDequeue epoch =>
    rcases tryDequeue_cases h with ⟨i, t, -, ht, rfl⟩ | ⟨he, rfl⟩
    · exact .sleepDequeue ht
    · exact .sleepEmpty epoch he
  | dispatch p =>
    cases p <;> cases c <;> simp only [Shared.execWorker] at h
    case outside.ret =>
      cases h
      exact .ret
    all_goals
      obtain ⟨x, hx, rfl⟩ := Option.map_eq_some_iff.1 h
      exact .dispatch (execPoint_step hx)
  | check queue =>
    cases c <;> simp only [Shared.execWorker, reduceCtorEq] at h
    cases h
    cases hr : s.running
    · exact .stop queue hr
    · cases queue
      · exact .checkNone hr
      · exact .checkQueue _ hr
  | spinCheck spin =>
    cases c <;> simp only [Shared.execWorker, reduceCtorEq] at h
    split_ifs at h with h1 h2
    · cases h
      exact .spin spin
    · cases h
      exact .spinEnd spin
    · cases h
      exact .spinEnd spin
  | wait epoch =>
    cases c <;> simp only [Shared.execWorker, reduceCtorEq] at h
    split_ifs at h with he
    · cases h
      subst he
      exact .block
    · cases h
      exact .noBlock he
  | dequeueCount t | spinCount t =>
    cases c <;> simp only [Shared.execWorker, reduceCtorEq] at h
    cases h
    cases t <;> constructor
  | loadEpoch | sleep epoch | sleepCount t | blocked epoch | awake queue =>
    cases c <;> simp only [Shared.execWorker, reduceCtorEq] at h
    cases h
    constructor
  | finished => cases c <;> simp only [Shared.execWorker, reduceCtorEq] at h

/-- What the access of a thread can do. -/
theorem exec_cases {s s' : Shared} {t t' : Thread} {c : Choice} (h : s.exec t c = some (s', t')) :
    (∃ w w', t = .worker w ∧ t' = .worker w' ∧ WorkerStep s w s' w')
      ∨ ∃ p p', t = .other p ∧ t' = .other p' ∧ PointStep s p s' p' := by
  cases t with
  | worker w =>
    obtain ⟨x, hx, heq⟩ := Option.map_eq_some_iff.1 h
    cases heq
    exact .inl ⟨w, x.2, rfl, rfl, execWorker_step hx⟩
  | other p =>
    obtain ⟨x, hx, heq⟩ := Option.map_eq_some_iff.1 h
    cases heq
    exact .inr ⟨p, x.2, rfl, rfl, execPoint_step hx⟩

end Steps

section Counts

/-- A worker between the increment of `sleeping_workers_` and its decrement. -/
def asleep : Thread → ℤ
  | .worker (.sleepDequeue _) | .worker (.sleepCount _) | .worker (.wait _) | .worker (.blocked _)
  | .worker (.awake _) => 1
  | _ => 0

/-- How `global_queue_count_` lags behind the queue: a token dequeued and still counted, or
enqueued and not counted yet. -/
def Point.lag : Point → ℤ
  | .enqueueCount | .countNull _ => -1
  | _ => 0

def lag : Thread → ℤ
  | .worker (.dequeueCount _) | .worker (.spinCount _) | .worker (.sleepCount _) => 1
  | t => t.point.lag

def isWorker : Thread → ℤ
  | .worker _ => 1
  | .other _ => 0

/-- The body of `shutdown`. -/
def Point.inShutdown : Point → ℤ
  | .enqueueNull _ | .countNull _ | .bumpAll | .notifyAll _ => 1
  | _ => 0

/-- What `shutdown` has still to enqueue. -/
def Point.nullsLeft : Point → ℤ
  | .enqueueNull left | .countNull left => left
  | _ => 0

/-- A worker that may come to its wait without another look at `running_`. -/
def needsNull : Thread → ℤ
  | .worker .dequeue | .worker (.spinCheck _) | .worker (.spinDequeue _) | .worker .loadEpoch
  | .worker (.sleep _) | .worker (.sleepDequeue _) => 1
  | .worker (.spinCount t) => if t = .null then 1 else 0
  | _ => 0

/-- The value of the epoch that a thread knows. -/
def knownEpoch : Thread → ℕ
  | .worker (.sleep epoch) | .worker (.sleepDequeue epoch) | .worker (.wait epoch)
  | .worker (.blocked epoch) => epoch
  | t =>
    match t.point with
    | .notifyOne bumped | .notifyAll bumped => bumped
    | _ => 0

/-- The counters, and what is behind them. -/
structure Counted (s : Pool) : Prop where
  workers : total isWorker s.threads = s.shared.workerCount
  sleeping : s.shared.sleepingWorkers = total asleep s.threads
  count : s.shared.globalQueueCount = s.shared.globalQueue.length + total lag s.threads
  epoch : ∀ t ∈ s.threads, knownEpoch t ≤ s.shared.globalQueueEpoch
  shutdown : total (fun t => t.point.inShutdown) s.threads + s.shared.returned.toNat
    = (!s.shared.running).toNat

theorem inShutdown_nextNull (left : ℕ) : (nextNull left).inShutdown = 1 := by
  cases left <;> rfl

theorem lag_nextNull (left : ℕ) : (nextNull left).lag = 0 := by
  cases left <;> rfl

theorem nullsLeft_nextNull (left : ℕ) : (nextNull left).nullsLeft = left := by
  cases left <;> rfl

section Local

variable {s s' : Shared} {t t' : Thread} {c : Choice} {p p' : Point}

theorem point_sleeping (h : PointStep s p s' p') :
    s'.sleepingWorkers = s.sleepingWorkers ∧ s'.workerCount = s.workerCount := by
  cases h <;> exact ⟨rfl, rfl⟩

theorem point_count (h : PointStep s p s' p') :
    s'.globalQueueCount + s.globalQueue.length + p.lag
      = s.globalQueueCount + s'.globalQueue.length + p'.lag := by
  cases h
  case exchange hr => rw [lag_nextNull]; rfl
  case countNull left =>
    rw [lag_nextNull]
    simp only [Point.lag]
    omega
  all_goals simp only [Point.lag, List.length_append, List.length_singleton] <;> omega

theorem point_shutdown (h : PointStep s p s' p')
    (hp : 0 < p.inShutdown → s.returned = false) :
    p'.inShutdown + s'.returned.toNat + (!s.running).toNat
      = p.inShutdown + s.returned.toNat + (!s'.running).toNat := by
  cases h
  case exchange hr =>
    rw [inShutdown_nextNull, hr]
    simp [Point.inShutdown]
    omega
  case notifyAll bumped =>
    rw [hp Int.one_pos]
    simp [Point.inShutdown]
  case countNull left => rw [inShutdown_nextNull]; rfl
  all_goals simp [Point.inShutdown]

theorem exec_asleep (h : s.exec t c = some (s', t')) :
    s'.sleepingWorkers + asleep t = s.sleepingWorkers + asleep t'
      ∧ isWorker t' = isWorker t ∧ s'.workerCount = s.workerCount := by
  rcases exec_cases h with ⟨w, w', rfl, rfl, hw⟩ | ⟨p, p', rfl, rfl, hp⟩
  · refine ⟨?_, rfl, ?_⟩
    · cases hw
      case dispatch hp =>
        rw [(point_sleeping hp).1]
        rfl
      all_goals simp only [asleep, Shared.uncount] <;> omega
    · cases hw
      case dispatch hp => exact (point_sleeping hp).2
      all_goals rfl
  · rw [(point_sleeping hp).1]
    exact ⟨rfl, rfl, (point_sleeping hp).2⟩

theorem exec_count (h : s.exec t c = some (s', t')) :
    s'.globalQueueCount + s.globalQueue.length + lag t
      = s.globalQueueCount + s'.globalQueue.length + lag t' := by
  rcases exec_cases h with ⟨w, w', rfl, rfl, hw⟩ | ⟨p, p', rfl, rfl, hp⟩
  · cases hw
    case dispatch hp => exact point_count hp
    case dequeue i token hi | spinDequeue spin i token hi | sleepDequeue epoch i token hi =>
      have hlen : i < s.globalQueue.length := (List.getElem?_eq_some_iff.1 hi).1
      have herase := List.length_eraseIdx_of_lt hlen
      simp only [lag, Thread.point, Point.lag]
      omega
    all_goals simp only [lag, Thread.point, Point.lag, Shared.uncount] <;> omega
  · exact point_count hp

theorem exec_shutdown (h : s.exec t c = some (s', t'))
    (ht : 0 < t.point.inShutdown → s.returned = false) :
    t'.point.inShutdown + s'.returned.toNat + (!s.running).toNat
      = t.point.inShutdown + s.returned.toNat + (!s'.running).toNat := by
  rcases exec_cases h with ⟨w, w', rfl, rfl, hw⟩ | ⟨p, p', rfl, rfl, hp⟩
  · cases hw
    case dispatch hp => exact point_shutdown hp ht
    all_goals rfl
  · exact point_shutdown hp ht

theorem exec_epoch (h : s.exec t c = some (s', t')) :
    s.globalQueueEpoch ≤ s'.globalQueueEpoch
      ∧ (knownEpoch t' ≤ knownEpoch t ∨ knownEpoch t' ≤ s'.globalQueueEpoch) := by
  have hpoint : ∀ {p p' s'}, PointStep s p s' p' → s.globalQueueEpoch ≤ s'.globalQueueEpoch
      ∧ (knownEpoch (.other p') ≤ knownEpoch (.other p)
        ∨ knownEpoch (.other p') ≤ s'.globalQueueEpoch) := by
    intro p p' s' hp
    cases hp
    case bump | bumpAll => exact ⟨Nat.le_succ _, .inr (Nat.le_refl _)⟩
    case exchange hr =>
      refine ⟨Nat.le_refl _, .inl ?_⟩
      cases s.workerCount <;> exact Nat.le_refl _
    case countNull left =>
      refine ⟨Nat.le_refl _, .inl ?_⟩
      cases left <;> exact Nat.le_refl _
    all_goals exact ⟨Nat.le_refl _, .inl (by simp [knownEpoch, Thread.point])⟩
  rcases exec_cases h with ⟨w, w', rfl, rfl, hw⟩ | ⟨p, p', rfl, rfl, hp⟩
  · cases hw
    case dispatch hp => exact hpoint hp
    case loadEpoch => exact ⟨Nat.le_refl _, .inr (Nat.le_refl _)⟩
    all_goals exact ⟨Nat.le_refl _, .inl (by simp [knownEpoch, Thread.point])⟩
  · exact hpoint hp

end Local

/-- The threads after a step: those before it, the one that stepped, and workers whose wait ended. -/
theorem mem_step {s s' : Pool} {l : Pool.Label} {t t' u : Thread}
    (hw : Pool.wakeUp (s.threads.set l.1 u) t.point l.2 = some s'.threads)
    (h : t' ∈ s'.threads) :
    ∃ v bumped, (v ∈ s.threads ∨ v = u) ∧ (t' = v ∨ t' = v.wake bumped) := by
  have hset : ∀ {v}, v ∈ s.threads.set l.1 u → v ∈ s.threads ∨ v = u :=
    fun hv => List.mem_or_eq_of_mem_set hv
  rcases wakeUp_cases hw with heq | ⟨bumped, i, v, -, hv, -, heq⟩ | ⟨bumped, -, heq⟩
  · rw [heq] at h
    exact ⟨t', 0, hset h, .inl rfl⟩
  · rw [heq] at h
    rcases List.mem_or_eq_of_mem_set h with h | rfl
    · exact ⟨t', 0, hset h, .inl rfl⟩
    · exact ⟨v, bumped, hset (List.mem_of_getElem? hv), .inr rfl⟩
  · rw [heq] at h
    obtain ⟨v, hv, rfl⟩ := List.mem_map.1 h
    exact ⟨v, bumped, hset hv, .inr rfl⟩

theorem Counted.step {s s' : Pool} {l : Pool.Label} (h : Counted s) (hs : s.step l = some s') :
    Counted s' := by
  obtain ⟨t, u, ht, hr, hw⟩ := step_cases hs
  have htm := List.mem_of_getElem? ht
  have hret : 0 < t.point.inShutdown → s.shared.returned = false := by
    intro hpos
    have hle := le_total (f := fun t => t.point.inShutdown)
      (fun t => by cases t.point <;> simp [Point.inShutdown]) htm
    have := h.shutdown
    cases hreturned : s.shared.returned
    · rfl
    · rw [hreturned] at this
      cases hrun : s.shared.running <;> rw [hrun] at this <;> simp at this <;> omega
  obtain ⟨hsleep, hwk, hwc⟩ := exec_asleep hr
  have hcount := exec_count hr
  have hshut := exec_shutdown hr hret
  obtain ⟨hepoch, hknown⟩ := exec_epoch hr
  refine ⟨?_, ?_, ?_, fun t' ht' => ?_, ?_⟩
  · have := total_step (f := isWorker) (fun _ => rfl) ht hw
    rw [hwc, ← h.workers]
    omega
  · have := total_step (f := asleep) (fun _ => rfl) ht hw
    have := h.sleeping
    omega
  · have := total_step (f := lag) (fun _ => rfl) ht hw
    have := h.count
    omega
  · obtain ⟨v, bumped, hv, hvt⟩ := mem_step hw ht'
    have hk : knownEpoch t' = knownEpoch v := by
      rcases hvt with rfl | rfl
      · rfl
      · exact wake_eq (fun _ => rfl) bumped v
    rw [hk]
    rcases hv with hv | rfl
    · exact Nat.le_trans (h.epoch v hv) hepoch
    · rcases hknown with hle | hle
      · exact Nat.le_trans hle (Nat.le_trans (h.epoch t htm) hepoch)
      · exact hle
  · have := total_step (f := fun t => t.point.inShutdown) (fun _ => rfl) ht hw
    have := h.shutdown
    omega

theorem counted_init (n m : ℕ) : Counted (Pool.init n m) := by
  have hz : ∀ {f : Thread → ℤ}, f (.worker (.check none)) = 0 → f (.other .outside) = 0 →
      total f (Pool.init n m).threads = 0 := by
    intro f h1 h2
    rw [Pool.init, total_append]
    simp [total, h1, h2]
  refine ⟨?_, (hz rfl rfl).symm, (by rw [hz rfl rfl]; rfl), fun t ht => ?_, by rw [hz rfl rfl]; rfl⟩
  · rw [Pool.init, total_append]
    simp [total, isWorker]
  · rcases List.mem_append.1 ht with ht | ht <;> rw [List.eq_of_mem_replicate ht] <;>
      exact Nat.zero_le _

end Counts

section Alarms

/-- Every worker is at its wait. -/
def AllWait (s : Pool) : Prop :=
  ∀ w, .worker w ∈ s.threads → ∃ epoch, w = .wait epoch ∨ w = .blocked epoch

/-- A worker is at its wait or blocked in it, with this value of the epoch. -/
def Waits (s : Pool) (epoch : ℕ) : Prop :=
  .worker (.wait epoch) ∈ s.threads ∨ .worker (.blocked epoch) ∈ s.threads

/-- A worker will be woken: nobody has counted the tokens yet; or a thread that has is about to
find that there are no more than sleeping workers, or has found it, or is about to notify after an
increment that no worker has seen; or a worker is about to find such an increment. -/
inductive Alarm (s : Pool) : Prop
  | uncounted : s.shared.globalQueueCount ≤ 0 → Alarm s
  | counted {t : Thread} {queued : ℤ} : t ∈ s.threads → t.point = .readSleeping queued →
      queued ≤ s.shared.workerCount → Alarm s
  | bump {t : Thread} : t ∈ s.threads → t.point = .bump → Alarm s
  | notify {t : Thread} {bumped : ℕ} : t ∈ s.threads → t.point = .notifyOne bumped →
      (∀ epoch, Waits s epoch → epoch < bumped) → Alarm s
  | changed {epoch : ℕ} : .worker (.wait epoch) ∈ s.threads →
      epoch < s.shared.globalQueueEpoch → Alarm s

variable {s s' : Pool} {l : Pool.Label}

theorem mem_set_of_ne {ts : List Thread} {i : ℕ} {t t' u : Thread} (h : t' ∈ ts)
    (ht : ts[i]? = some t) (hne : t' ≠ t) : t' ∈ ts.set i u := by
  obtain ⟨j, hj, rfl⟩ := List.mem_iff_getElem.1 h
  have hij : i ≠ j := by
    rintro rfl
    rw [List.getElem?_eq_getElem hj, Option.some.injEq] at ht
    exact hne ht
  exact List.mem_iff_getElem.2 ⟨j, by rwa [List.length_set], List.getElem_set_ne hij _⟩

/-- Where every worker waits, all of them count as sleeping, and no token is counted twice. -/
theorem AllWait.counts (h : AllWait s) (hc : Counted s) :
    s.shared.sleepingWorkers = s.shared.workerCount
      ∧ s.shared.globalQueueCount ≤ s.shared.globalQueue.length := by
  have hone : ∀ t ∈ s.threads, asleep t = isWorker t ∧ lag t ≤ 0 := by
    intro t ht
    rcases t with w | p
    · obtain ⟨epoch, rfl | rfl⟩ := h w ht <;> exact ⟨rfl, Int.le_refl 0⟩
    · refine ⟨rfl, ?_⟩
      cases p <;> simp [lag, Thread.point, Point.lag]
  have hle := total_le fun t ht => (hone t ht).1.le
  have hge := total_le fun t ht => (hone t ht).1.ge
  have hlag := total_le (g := fun _ => 0) fun t ht => (hone t ht).2
  have hzero : total (fun _ => 0) s.threads = 0 := by simp [total]
  have := hc.sleeping
  have := hc.workers
  have := hc.count
  exact ⟨by omega, by omega⟩

/-- A thread that is no worker steps: it wakes workers at most. -/
theorem allWait_of_other {p p' : Point} (h : AllWait s') (ht : s.threads[l.1]? = some (.other p))
    (hw : Pool.wakeUp (s.threads.set l.1 (.other p')) p l.2 = some s'.threads) : AllWait s := by
  intro w hmem
  have hset : Thread.worker w ∈ s.threads.set l.1 (.other p') :=
    mem_set_of_ne hmem ht (by simp)
  rcases wakeUp_cases hw with heq | ⟨bumped, i, v, -, hv, he, heq⟩ | ⟨bumped, -, heq⟩
  · exact h w (heq ▸ hset)
  · obtain ⟨epoch, rfl, -, hwake⟩ := eligible_cases he
    by_cases hwv : Thread.worker w = .worker (.blocked epoch)
    · cases hwv
      exact ⟨epoch, .inr rfl⟩
    · refine h w ?_
      rw [heq]
      exact mem_set_of_ne hset hv hwv
  · have hmem' : (Thread.worker w).wake bumped ∈ s'.threads := by
      rw [heq]
      exact List.mem_map_of_mem hset
    cases w <;> simp only [Thread.wake] at hmem'
    case blocked epoch => exact ⟨epoch, .inr rfl⟩
    all_goals exact h _ hmem'

/-- As long as the pool runs: if every worker waits while a token is queued, one will be woken. -/
def Watched (s : Pool) : Prop :=
  s.shared.running = true → AllWait s → s.shared.globalQueue ≠ [] → Alarm s

theorem Alarm.other {p p' : Point} (h : Alarm s) (ht : s.threads[l.1]? = some (.other p))
    (hth : s'.threads = s.threads.set l.1 (.other p'))
    (hcount : s.shared.globalQueueCount ≤ 0 → Alarm s')
    (hwc : s'.shared.workerCount = s.shared.workerCount)
    (hepoch : s.shared.globalQueueEpoch ≤ s'.shared.globalQueueEpoch)
    (hread : ∀ queued : ℤ, p = .readSleeping queued → queued ≤ s.shared.workerCount → Alarm s')
    (hbump : p = .bump → Alarm s')
    (hnotify : ∀ bumped, p = .notifyOne bumped →
      (∀ epoch, Waits s epoch → epoch < bumped) → Alarm s') : Alarm s' := by
  have hkeep : ∀ {t}, t ∈ s.threads → t ≠ .other p → t ∈ s'.threads := by
    intro t ht' hne
    rw [hth]
    exact mem_set_of_ne ht' ht hne
  have hback : ∀ {w}, .worker w ∈ s'.threads → .worker w ∈ s.threads := by
    intro w hw
    rw [hth] at hw
    rcases List.mem_or_eq_of_mem_set hw with hw | hw
    · exact hw
    · cases hw
  cases h with
  | uncounted hc => exact hcount hc
  | @counted t queued hmem hp hq =>
    by_cases ht' : t = .other p
    · subst ht'
      exact hread queued hp hq
    · exact .counted (hkeep hmem ht') hp (by rwa [hwc])
  | @bump t hmem hp =>
    by_cases ht' : t = .other p
    · subst ht'
      exact hbump hp
    · exact .bump (hkeep hmem ht') hp
  | @notify t bumped hmem hp hall =>
    by_cases ht' : t = .other p
    · subst ht'
      exact hnotify bumped hp hall
    · exact .notify (hkeep hmem ht') hp fun epoch he => hall epoch (he.imp hback hback)
  | @changed epoch hmem hlt => exact .changed (hkeep hmem (by simp)) (Nat.lt_of_lt_of_le hlt hepoch)

theorem wakeUp_outside {ts ts' : List Thread} {p : Point} {c : Choice}
    (h : Pool.wakeUp ts p c = some ts') (h1 : ∀ bumped, p ≠ .notifyOne bumped)
    (h2 : ∀ bumped, p ≠ .notifyAll bumped) : ts' = ts := by
  rcases wakeUp_cases h with heq | ⟨bumped, -, -, hp, -⟩ | ⟨bumped, hp, -⟩
  · exact heq
  · exact absurd hp (h1 bumped)
  · exact absurd hp (h2 bumped)

/-- The thread that stepped is there, perhaps woken. -/
theorem mem_stepped {ts ts' : List Thread} {i : ℕ} {t u : Thread} {p : Point} {c : Choice}
    (ht : ts[i]? = some t) (hw : Pool.wakeUp (ts.set i u) p c = some ts') :
    ∃ bumped, u ∈ ts' ∨ u.wake bumped ∈ ts' := by
  have hself : (ts.set i u)[i]? = some u :=
    List.getElem?_set_self (List.getElem?_eq_some_iff.1 ht).1
  rcases wakeUp_cases hw with heq | ⟨bumped, j, v, -, hv, -, heq⟩ | ⟨bumped, -, heq⟩
  · exact ⟨0, .inl (heq ▸ List.mem_of_getElem? hself)⟩
  · refine ⟨bumped, ?_⟩
    rw [heq]
    by_cases hij : j = i
    · subst hij
      rw [hself, Option.some.injEq] at hv
      subst hv
      exact .inr (List.mem_of_getElem? (List.getElem?_set_self
        (List.getElem?_eq_some_iff.1 hself).1))
    · refine .inl (List.mem_of_getElem? (i := i) ?_)
      rw [List.getElem?_set_ne hij, hself]
  · exact ⟨bumped, .inr (heq ▸ List.mem_map_of_mem (List.mem_of_getElem? hself))⟩

/-- Where every worker waits after the step of one, that one does. -/
theorem waits_of_allWait {t : Thread} {w : Worker} {p : Point} (h : AllWait s')
    (ht : s.threads[l.1]? = some t)
    (hw : Pool.wakeUp (s.threads.set l.1 (.worker w)) p l.2 = some s'.threads) :
    ∃ epoch, w = .wait epoch ∨ w = .blocked epoch := by
  obtain ⟨bumped, hmem | hmem⟩ := mem_stepped ht hw
  · exact h w hmem
  · cases w <;> simp only [Thread.wake] at hmem
    case blocked epoch => exact ⟨epoch, .inr rfl⟩
    all_goals exact h _ hmem

/-- A worker that waits takes a step that leaves it waiting. -/
theorem Alarm.worker {w w' : Worker} {epoch : ℕ} (h : Alarm s)
    (ht : s.threads[l.1]? = some (.worker w))
    (hth : s'.threads = s.threads.set l.1 (.worker w')) (hsh : s'.shared = s.shared)
    (hw : w = .wait epoch ∧ w' = .blocked epoch ∧ s.shared.globalQueueEpoch = epoch
      ∨ w = .blocked epoch ∧ w' = .wait epoch) : Alarm s' := by
  have hkeep : ∀ {t}, t ∈ s.threads → t ≠ .worker w → t ∈ s'.threads := by
    intro t ht' hne
    rw [hth]
    exact mem_set_of_ne ht' ht hne
  have hpoint : (Thread.worker w).point = .outside := by
    rcases hw with ⟨rfl, -⟩ | ⟨rfl, -⟩ <;> rfl
  have hne : ∀ {t : Thread}, t.point ≠ .outside → t ≠ .worker w := by
    rintro t hp rfl
    exact hp hpoint
  cases h with
  | uncounted hc => exact .uncounted (by rwa [hsh])
  | @counted t queued hmem hp hq =>
    exact .counted (hkeep hmem (hne (by simp [hp]))) hp (by rwa [hsh])
  | @bump t hmem hp => exact .bump (hkeep hmem (hne (by simp [hp]))) hp
  | @notify t bumped hmem hp hall =>
    refine .notify (hkeep hmem (hne (by simp [hp]))) hp fun e he => ?_
    have hmemw := List.mem_of_getElem? ht
    have hback : ∀ {w₁}, .worker w₁ ∈ s'.threads → .worker w₁ ∈ s.threads ∨ w₁ = w' := by
      intro w₁ hw₁
      rw [hth] at hw₁
      rcases List.mem_or_eq_of_mem_set hw₁ with hw₁ | hw₁
      · exact .inl hw₁
      · exact .inr (Thread.worker.inj hw₁)
    have hself : ∀ {e}, w' = .wait e ∨ w' = .blocked e → e < bumped := by
      intro e he
      rcases hw with ⟨rfl, rfl, -⟩ | ⟨rfl, rfl⟩ <;> rcases he with he | he <;> cases he
      · exact hall _ (.inl hmemw)
      · exact hall _ (.inr hmemw)
    rcases he with he | he
    · rcases hback he with he | he
      · exact hall e (.inl he)
      · exact hself (.inl he.symm)
    · rcases hback he with he | he
      · exact hall e (.inr he)
      · exact hself (.inr he.symm)
  | @changed e hmem hlt =>
    refine .changed (hkeep hmem ?_) (by rwa [hsh])
    rintro heq
    cases heq
    rcases hw with ⟨hw, -, he⟩ | ⟨hw, -⟩ <;> cases hw
    omega

/-- `notify_one` ends the wait of an eligible worker, if there is one. -/
theorem notifyOne_wakes {ts ts' : List Thread} {bumped : ℕ} {c : Choice}
    (h : Pool.wakeUp ts (.notifyOne bumped) c = some ts') :
    (ts' = ts ∧ ∀ epoch, .worker (.blocked epoch) ∈ ts → ¬ epoch < bumped)
      ∨ ∃ epoch, .worker (.wait epoch) ∈ ts' ∧ epoch < bumped := by
  cases c <;> simp only [Pool.wakeUp] at h
  case wake i =>
    split at h
    · next t ht =>
      split_ifs at h with he
      cases h
      obtain ⟨epoch, rfl, hlt, hwake⟩ := eligible_cases he
      refine .inr ⟨epoch, ?_, hlt⟩
      rw [hwake]
      exact List.mem_of_getElem? (List.getElem?_set_self (List.getElem?_eq_some_iff.1 ht).1)
    · cases h
  all_goals
    split_ifs at h with he
    cases h
    refine .inl ⟨rfl, fun epoch hmem hlt => he (List.any_eq_true.2 ⟨_, hmem, ?_⟩)⟩
    simpa [Thread.eligible] using hlt

theorem exists_worker (hc : Counted s) (h1 : 1 ≤ s.shared.workerCount) :
    ∃ w, Thread.worker w ∈ s.threads := by
  by_contra hnone
  have hz := total_le (f := isWorker) (g := fun _ => 0) (l := s.threads) fun t ht => by
    rcases t with w | p
    · exact absurd ⟨w, ht⟩ hnone
    · exact Int.le_refl 0
  have hzero : total (fun _ => 0) s.threads = 0 := by simp [total]
  have := hc.workers
  omega

/-- The increment before `notify_one` is news to all: a worker is about to see it. -/
theorem Alarm.notified {bumped : ℕ} (hc : Counted s) (h1 : 1 ≤ s.shared.workerCount)
    (hall : AllWait s) (hsh : s'.shared = s.shared)
    (ht : s.threads[l.1]? = some (.other (.notifyOne bumped)))
    (hw : Pool.wakeUp (s.threads.set l.1 (.other .outside)) (.notifyOne bumped) l.2
      = some s'.threads)
    (hnews : ∀ epoch, Waits s epoch → epoch < bumped) : Alarm s' := by
  have hle : bumped ≤ s'.shared.globalQueueEpoch := by
    rw [hsh]
    exact hc.epoch _ (List.mem_of_getElem? ht)
  rcases notifyOne_wakes hw with ⟨heq, hnobody⟩ | ⟨epoch, hmem, hlt⟩
  · obtain ⟨w, hmem⟩ := exists_worker hc h1
    have hmem' : Thread.worker w ∈ s.threads.set l.1 (.other .outside) :=
      mem_set_of_ne hmem ht (by simp)
    obtain ⟨epoch, rfl | rfl⟩ := hall w hmem
    · exact .changed (heq ▸ hmem') (Nat.lt_of_lt_of_le (hnews epoch (.inl hmem)) hle)
    · exact absurd (hnews epoch (.inr hmem)) (hnobody epoch hmem')
  · exact .changed hmem (Nat.lt_of_lt_of_le hlt hle)

theorem inShutdown_nonneg (p : Point) : 0 ≤ p.inShutdown := by
  cases p <;> simp [Point.inShutdown]

theorem Counted.not_inShutdown {t : Thread} (hc : Counted s) (hrun : s.shared.running = true)
    (ht : t ∈ s.threads) : t.point.inShutdown ≤ 0 := by
  have hle := le_total (f := fun t => t.point.inShutdown) (fun t => inShutdown_nonneg t.point) ht
  have := hc.shutdown
  rw [hrun] at this
  simp only [Bool.not_true, Bool.toNat_false] at this
  omega

theorem Watched.step (h : Watched s) (hc : Counted s) (h1 : 1 ≤ s.shared.workerCount)
    (hs : s.step l = some s') : Watched s' := by
  intro hrun hall htok
  obtain ⟨t, u, ht, hr, hw⟩ := step_cases hs
  rcases exec_cases hr with ⟨w, w', rfl, rfl, hstep⟩ | ⟨p, p', rfl, rfl, hstep⟩
  · obtain ⟨epoch, hwait⟩ := waits_of_allWait hall ht hw
    have hother : ∀ {w₁}, (∃ e, w = .wait e ∨ w = .blocked e) → .worker w₁ ∈ s.threads →
        s'.threads = s.threads.set l.1 (.worker w') → ∃ e, w₁ = .wait e ∨ w₁ = .blocked e := by
      intro w₁ hww hmem hth
      by_cases hne : Thread.worker w₁ = .worker w
      · cases hne
        exact hww
      · exact hall w₁ (hth ▸ mem_set_of_ne hmem ht hne)
    generalize hsh : s'.shared = sh at hstep
    cases hstep <;> rcases hwait with hwait | hwait <;> cases hwait
    case inl.sleepEmpty.inl.refl he => exact absurd (hsh ▸ he) htok
    case inl.block.inr.refl =>
      have hth := wakeUp_outside hw (by simp [Thread.point]) (by simp [Thread.point])
      refine (h (hsh ▸ hrun) (fun w₁ hw₁ => hother ⟨_, .inl rfl⟩ hw₁ hth) (hsh ▸ htok)).worker ht
        hth hsh (.inl ⟨rfl, rfl, rfl⟩)
    case inl.spurious.inl.refl =>
      have hth := wakeUp_outside hw (by simp [Thread.point]) (by simp [Thread.point])
      exact (h (hsh ▸ hrun) (fun w₁ hw₁ => hother ⟨_, .inr rfl⟩ hw₁ hth) (hsh ▸ htok)).worker ht
        hth hsh (.inr ⟨rfl, rfl⟩)
  · have hall₀ : AllWait s := allWait_of_other hall ht hw
    obtain ⟨hsleep, hcount⟩ := hall₀.counts hc
    have hmem := List.mem_of_getElem? ht
    have hself : ∀ {p'}, s'.threads = s.threads.set l.1 (.other p') → .other p' ∈ s'.threads := by
      intro p' hth
      rw [hth]
      exact List.mem_of_getElem? (List.getElem?_set_self (List.getElem?_eq_some_iff.1 ht).1)
    generalize hsh : s'.shared = sh at hstep
    cases hstep
    case notifyOne bumped =>
      have hA := h (hsh ▸ hrun) hall₀ (hsh ▸ htok)
      have hnews : _ → Alarm s' := Alarm.notified hc h1 hall₀ hsh ht hw
      rcases notifyOne_wakes hw with ⟨hth, -⟩ | ⟨epoch, hmem', hlt⟩
      · refine hA.other ht hth (fun hc => .uncounted (hsh ▸ hc)) (by rw [hsh]) (by rw [hsh])
          (fun queued hp => by cases hp) (fun hp => by cases hp) fun b hp hall => ?_
        cases hp
        exact hnews hall
      · refine .changed hmem' (Nat.lt_of_lt_of_le hlt ?_)
        rw [hsh]
        exact hc.epoch _ hmem
    case exchange hr =>
      rw [hsh] at hrun
      cases hrun
    case enqueueNull left | countNull left | bumpAll | notifyAll bumped =>
      rw [hsh] at hrun
      exact absurd (hc.not_inShutdown hrun hmem) (by simp [Thread.point, Point.inShutdown])
    all_goals have hth := wakeUp_outside hw (by simp [Thread.point]) (by simp [Thread.point])
    case callEnqueue q | callShutdown =>
      exact (h (hsh ▸ hrun) hall₀ (hsh ▸ htok)).other ht hth (fun hc => .uncounted (hsh ▸ hc))
        (by rw [hsh]) (by rw [hsh]) (fun queued hp => by cases hp) (fun hp => by cases hp)
        fun b hp => by cases hp
    case exchangeAgain hoff =>
      rw [hsh, hoff] at hrun
      cases hrun
    case enqueue q =>
      by_cases hnil : s.shared.globalQueue = []
      · -- all that was counted is gone
        refine .uncounted ?_
        rw [hsh]
        rw [hnil] at hcount
        exact hcount
      · rw [hsh] at hrun
        exact (h hrun hall₀ hnil).other ht hth (fun hc => .uncounted (by rw [hsh]; exact hc))
          (by rw [hsh]) (by rw [hsh]) (fun queued hp => by cases hp) (fun hp => by cases hp)
          fun b hp => by cases hp
    case enqueueCount =>
      rw [hsh] at hrun htok
      refine (h hrun hall₀ htok).other ht hth (fun hc => ?_) (by rw [hsh]) (by rw [hsh])
        (fun queued hp => by cases hp) (fun hp => by cases hp) fun b hp => by cases hp
      refine .counted (hself hth) rfl ?_
      rw [hsh]
      show s.shared.globalQueueCount + 1 ≤ (s.shared.workerCount : ℤ)
      omega
    case alarm queued hpos hle => exact .bump (hself hth) rfl
    case noAlarm queued hno =>
      rw [hsh] at hrun htok
      refine (h hrun hall₀ htok).other ht hth (fun hc => .uncounted (by rw [hsh]; exact hc))
        (by rw [hsh]) (by rw [hsh]) (fun queued' hp hq => ?_) (fun hp => by cases hp)
        fun b hp => by cases hp
      cases hp
      exact absurd ⟨by omega, by omega⟩ hno
    case bump =>
      refine .notify (hself hth) rfl fun epoch he => ?_
      have hback : ∀ {w}, .worker w ∈ s'.threads → .worker w ∈ s.threads := by
        intro w hw₁
        rw [hth] at hw₁
        rcases List.mem_or_eq_of_mem_set hw₁ with hw₁ | hw₁
        · exact hw₁
        · cases hw₁
      rcases he with he | he
      · exact Nat.lt_succ_of_le (hc.epoch _ (hback he))
      · exact Nat.lt_succ_of_le (hc.epoch _ (hback he))

end Alarms

section Pool

variable {n m : ℕ} {s : Pool}

theorem workerCount_step {s s' : Pool} {l : Pool.Label} (h : s.step l = some s') :
    s'.shared.workerCount = s.shared.workerCount := by
  obtain ⟨t, u, -, hr, -⟩ := step_cases h
  exact (exec_asleep hr).2.2

theorem counted_reachable (h : Reachable Pool.step (Pool.init n m) s) :
    Counted s ∧ s.shared.workerCount = n := by
  refine h.invariant (I := fun s => Counted s ∧ s.shared.workerCount = n)
    ⟨counted_init n m, rfl⟩ ?_
  rintro s l s' - ⟨hc, hn⟩ - hs
  exact ⟨hc.step hs, (workerCount_step hs).trans hn⟩

theorem watched_reachable (hn : 1 ≤ n) (h : Reachable Pool.step (Pool.init n m) s) :
    Watched s := by
  refine h.invariant (I := Watched) (fun _ _ htok => absurd rfl htok) ?_
  intro s l s' hr hw _ hs
  obtain ⟨hc, hcount⟩ := counted_reachable hr
  exact hw.step hc (by omega) hs

/-- Before `shutdown`, the pool does not sleep on a token. -/
theorem not_allAsleep (hn : 1 ≤ n) (h : Reachable Pool.step (Pool.init n m) s)
    (hrun : s.shared.running = true) : ¬ s.AllAsleep := by
  rintro ⟨htok, hno, hblocked⟩
  obtain ⟨hc, -⟩ := counted_reachable h
  have hall : AllWait s := fun w hw => by
    obtain ⟨epoch, rfl⟩ := hblocked w hw
    exact ⟨epoch, .inr rfl⟩
  cases watched_reachable hn h hrun hall htok with
  | uncounted hle =>
    -- nobody is between a change of the queue and its count
    have hlag : ∀ t ∈ s.threads, lag t = 0 := by
      intro t ht
      have hp := hno t ht
      rcases t with w | p
      · obtain ⟨epoch, rfl⟩ := hblocked w ht
        rfl
      · have hdown := hc.not_inShutdown hrun ht
        cases p
        case enqueueCount => cases hp
        case countNull left => exact absurd hdown (by simp [Thread.point, Point.inShutdown])
        all_goals rfl
    have hz : total lag s.threads ≤ total (fun _ => 0) s.threads :=
      total_le fun t ht => (hlag t ht).le
    have hz' : total (fun _ => 0) s.threads ≤ total lag s.threads :=
      total_le fun t ht => (hlag t ht).ge
    have hzero : total (fun _ => 0) s.threads = 0 := by simp [total]
    have hlen := List.length_pos_of_ne_nil htok
    have := hc.count
    omega
  | @counted t queued ht hp _ =>
    have := hno t ht
    rw [hp] at this
    cases this
  | @bump t ht hp =>
    have := hno t ht
    rw [hp] at this
    cases this
  | @notify t bumped ht hp _ =>
    have := hno t ht
    rw [hp] at this
    cases this
  | @changed epoch hmem _ =>
    obtain ⟨e, he⟩ := hblocked _ hmem
    cases he

/-- Thread `i` makes `k` accesses. -/
def gos (i k : ℕ) : List Pool.Label := List.replicate k (i, .go)

/-- The first of 17 workers has gone to sleep, and a token is enqueued and counted. -/
def alarmRun : List Pool.Label := gos 0 7 ++ (17, .callEnqueue 0) :: gos 17 3

theorem not_allAsleep_alarm : ∃ s, Reachable Pool.step (Pool.init 17 1) s ∧
    s.threads[0]? = some (.worker (.blocked 0)) ∧ s.shared.globalQueue = [.queue 0] ∧
    ¬ s.AllAsleep := by
  have hrun : (run Pool.step (Pool.init 17 1) alarmRun).isSome = true := by decide
  exact ⟨_, reachable_after hrun, by decide, by decide,
    not_allAsleep (by decide) (reachable_after hrun) (by decide)⟩

end Pool

section Shutdown

variable {n m : ℕ} {s s' : Pool} {l : Pool.Label}

/-- The nulls still owed by `shutdown`, less those a worker needs. -/
def nullBalance (t : Thread) : ℤ := t.point.nullsLeft - needsNull t

/-- Once `shutdown` has begun, there are as many nulls, counting those to come, as workers that
may come to their wait. Those that are there before the last notification have read the epoch
before the increment, and after it none is blocked. -/
structure Released (s : Pool) : Prop where
  enough : s.shared.running = false →
    0 ≤ s.shared.globalQueue.count .null + total nullBalance s.threads
  notified : ∀ t ∈ s.threads, ∀ bumped, t.point = .notifyAll bumped →
    ∀ epoch, Waits s epoch → epoch < bumped
  returned : s.shared.returned = true → (∀ epoch, .worker (.blocked epoch) ∉ s.threads)
    ∧ ∀ epoch, .worker (.wait epoch) ∈ s.threads → epoch < s.shared.globalQueueEpoch

theorem point_balance {s s' : Shared} {p p' : Point} (h : PointStep s p s' p')
    (hrun : s.running = false) :
    s.globalQueue.count .null + p.nullsLeft ≤ s'.globalQueue.count .null + p'.nullsLeft := by
  cases h
  case exchange hr =>
    rw [hr] at hrun
    cases hrun
  case countNull left =>
    rw [nullsLeft_nextNull]
    exact Int.le_refl _
  case enqueueNull left =>
    simp only [List.count_append, List.count_singleton_self, Point.nullsLeft]
    omega
  case enqueue q => simp [Point.nullsLeft, List.count_append]
  all_goals exact Int.le_refl _

/-- No step uses up a null that a worker needs, unless it is one of the idle spin. -/
theorem exec_balance {s s' : Shared} {t t' : Thread} {c : Choice} (h : s.exec t c = some (s', t'))
    (hrun : s.running = false)
    (hspin : ∀ spin i, t = .worker (.spinDequeue spin) → c = .pick i →
      s.globalQueue[i]? ≠ some .null) :
    s.globalQueue.count .null + nullBalance t ≤ s'.globalQueue.count .null + nullBalance t' := by
  have htake : ∀ {i token}, s.globalQueue[i]? = some token →
      ((s.globalQueue.eraseIdx i).count Token.null + (if token = .null then 1 else 0) : ℤ)
        = s.globalQueue.count Token.null := by
    intro i token hi
    have := count_eraseIdx hi Token.null
    split_ifs at this ⊢ <;> omega
  by_cases hsd : ∃ spin, t = .worker (.spinDequeue spin)
  · obtain ⟨spin, rfl⟩ := hsd
    obtain ⟨x, hx, heq⟩ := Option.map_eq_some_iff.1 h
    cases heq
    rcases tryDequeue_cases hx with ⟨i, token, hc, hi, rfl⟩ | ⟨-, rfl⟩
    · have := htake hi
      cases token with
      | null => exact absurd hi (hspin spin i rfl hc)
      | queue q =>
        rw [if_neg (by simp)] at this
        simp only [nullBalance, needsNull, Thread.point, Point.nullsLeft]
        rw [if_neg (by simp)]
        omega
    · exact Int.le_refl _
  rcases exec_cases h with ⟨w, w', rfl, rfl, hstep⟩ | ⟨p, p', rfl, rfl, hstep⟩
  · cases hstep
    case spinDequeue spin i token hi => exact absurd ⟨_, rfl⟩ hsd
    case dispatch hp =>
      have := point_balance hp hrun
      simpa [nullBalance, needsNull, Thread.point] using this
    case dequeue i token hi | sleepDequeue epoch i token hi =>
      have := htake hi
      simp only [nullBalance, needsNull, Thread.point, Point.nullsLeft]
      split_ifs at this <;> omega
    case checkQueue hr | checkNone hr =>
      rw [hr] at hrun
      cases hrun
    all_goals simp [nullBalance, needsNull, Thread.point, Point.nullsLeft, Shared.uncount]
  · have := point_balance hstep hrun
    simpa [nullBalance, needsNull, Thread.point] using this

theorem needsNull_nonneg (t : Thread) : 0 ≤ needsNull t := by
  rcases t with w | p
  · cases w <;> simp only [needsNull] <;> omega
  · exact Int.le_refl 0

theorem nullsLeft_of_outside {p : Point} (h : p.inShutdown ≤ 0) : p.nullsLeft = 0 := by
  cases p <;> simp only [Point.inShutdown] at h <;> first | rfl | omega

/-- The nulls are all there: no worker that may come to its wait finds none. -/
theorem Released.no_sleeper (h : Released s) (hrun : s.shared.running = false)
    (hleft : ∀ t ∈ s.threads, t.point.nullsLeft = 0) (hempty : s.shared.globalQueue = [])
    {t : Thread} (ht : t ∈ s.threads) : needsNull t = 0 := by
  have henough := h.enough hrun
  rw [hempty, List.count_nil] at henough
  have hle : total nullBalance s.threads ≤ total (fun t => -needsNull t) s.threads :=
    total_le fun t ht => by
      rw [nullBalance, hleft t ht]
      omega
  rw [total_neg] at hle
  have := le_total needsNull_nonneg ht
  have := needsNull_nonneg t
  omega

/-- Once one thread is past the loop of nulls, there are none to come. -/
theorem Counted.nullsLeft {t : Thread} (h : Counted s) (ht : t ∈ s.threads)
    (hp : t.point.inShutdown = 1) (hleft : t.point.nullsLeft = 0) :
    s.shared.running = false ∧ ∀ t' ∈ s.threads, t'.point.nullsLeft = 0 := by
  have hnonneg : ∀ t : Thread, 0 ≤ t.point.inShutdown := fun t => inShutdown_nonneg t.point
  have hshut := h.shutdown
  have hone := le_total (f := fun t => t.point.inShutdown) hnonneg ht
  refine ⟨?_, fun t' ht' => ?_⟩
  · cases hrun : s.shared.running
    · rfl
    · rw [hrun] at hshut
      simp only [Bool.not_true, Bool.toNat_false] at hshut
      omega
  · by_cases heq : t = t'
    · rwa [← heq]
    · have htwo := add_le_total (f := fun t => t.point.inShutdown) hnonneg ht ht' heq
      have hbound := Bool.toNat_le (!s.shared.running)
      exact nullsLeft_of_outside (by omega)

theorem Counted.nullsLeft_of_returned (h : Counted s) (hret : s.shared.returned = true) :
    s.shared.running = false ∧ ∀ t ∈ s.threads, t.point.nullsLeft = 0 := by
  have hnonneg : ∀ t : Thread, 0 ≤ t.point.inShutdown := fun t => inShutdown_nonneg t.point
  have hshut := h.shutdown
  rw [hret, Bool.toNat_true] at hshut
  have hbound := Bool.toNat_le (!s.shared.running)
  have htotal := total_nonneg (f := fun t => t.point.inShutdown) (l := s.threads)
    fun t _ => hnonneg t
  refine ⟨?_, fun t ht => nullsLeft_of_outside ?_⟩
  · cases hrun : s.shared.running
    · rfl
    · rw [hrun] at hshut
      simp only [Bool.not_true, Bool.toNat_false] at hshut
      omega
  · have := le_total (f := fun t => t.point.inShutdown) hnonneg ht
    omega

theorem waits_of_wake {t : Thread} {bumped epoch : ℕ}
    (h : t.wake bumped = .worker (.wait epoch) ∨ t.wake bumped = .worker (.blocked epoch)) :
    t = .worker (.wait epoch) ∨ t = .worker (.blocked epoch) := by
  rcases t with w | p
  · cases w <;> simp only [Thread.wake] at h
    case blocked e =>
      split_ifs at h
      · rcases h with h | h <;> cases h
        exact .inr rfl
      · exact h
    all_goals exact h
  · exact h

/-- A worker at its wait was there before, or has just found the queue empty. -/
theorem waits_step {t u : Thread} {epoch : ℕ} (h : Waits s' epoch)
    (ht : s.threads[l.1]? = some t) (hr : s.shared.exec t l.2 = some (s'.shared, u))
    (hw : Pool.wakeUp (s.threads.set l.1 u) t.point l.2 = some s'.threads) :
    Waits s epoch ∨ t = .worker (.sleepDequeue epoch) ∧ s.shared.globalQueue = [] := by
  have hold : ∀ {v}, v = .worker (.wait epoch) ∨ v = .worker (.blocked epoch) →
      v ∈ s.threads → Waits s epoch := by
    rintro v (rfl | rfl) hv
    · exact .inl hv
    · exact .inr hv
  have hmem := List.mem_of_getElem? ht
  have hnew : u = .worker (.wait epoch) ∨ u = .worker (.blocked epoch) →
      Waits s epoch ∨ t = .worker (.sleepDequeue epoch) ∧ s.shared.globalQueue = [] := by
    intro hu
    rcases exec_cases hr with ⟨w, w', rfl, rfl, hstep⟩ | ⟨p, p', rfl, rfl, hstep⟩
    · generalize s'.shared = sh at hstep
      rcases hu with hu | hu <;> cases hu <;> cases hstep
      · next hempty => exact .inr ⟨rfl, hempty⟩
      · exact .inl (hold (.inr rfl) hmem)
      · exact .inl (hold (.inl rfl) hmem)
    · rcases hu with hu | hu <;> cases hu
  have hwaits : ∀ {t'}, t' ∈ s'.threads → t' = .worker (.wait epoch) ∨ t' = .worker (.blocked epoch)
      → Waits s epoch ∨ t = .worker (.sleepDequeue epoch) ∧ s.shared.globalQueue = [] := by
    intro t' ht' heq
    obtain ⟨v, bumped, hv, hvt⟩ := mem_step hw ht'
    have hvw : v = .worker (.wait epoch) ∨ v = .worker (.blocked epoch) := by
      rcases hvt with rfl | rfl
      · exact heq
      · exact waits_of_wake heq
    rcases hv with hv | rfl
    · exact .inl (hold hvw hv)
    · exact hnew hvw
  rcases h with h | h
  · exact hwaits h (.inl rfl)
  · exact hwaits h (.inr rfl)

section Local

variable {s s' : Shared} {t t' : Thread} {c : Choice}

theorem exec_stops (h : s.exec t c = some (s', t')) (hrun : s.running = true)
    (hrun' : s'.running = false) : nullBalance t = 0 ∧ nullBalance t' = s.workerCount := by
  have hpoint : ∀ {p p'}, PointStep s p s' p' → p = .exchange ∧ p' = nextNull s.workerCount := by
    intro p p' hp
    cases hp
    case exchange => exact ⟨rfl, rfl⟩
    all_goals
      rw [hrun] at hrun'
      cases hrun'
  rcases exec_cases h with ⟨w, w', rfl, rfl, hw⟩ | ⟨p, p', rfl, rfl, hp⟩
  · cases hw
    case dispatch hp =>
      obtain ⟨rfl, rfl⟩ := hpoint hp
      refine ⟨rfl, ?_⟩
      simp [nullBalance, Thread.point, nullsLeft_nextNull, needsNull]
    all_goals
      simp only [Shared.uncount, hrun] at hrun'
      cases hrun'
  · obtain ⟨rfl, rfl⟩ := hpoint hp
    refine ⟨rfl, ?_⟩
    simp [nullBalance, Thread.point, nullsLeft_nextNull, needsNull]

theorem exec_notifyAll {bumped : ℕ} (h : s.exec t c = some (s', t'))
    (hp : t'.point = .notifyAll bumped) :
    t.point = .bumpAll ∧ bumped = s.globalQueueEpoch + 1 := by
  have hpoint : ∀ {p p'}, PointStep s p s' p' → p' = .notifyAll bumped →
      p = .bumpAll ∧ bumped = s.globalQueueEpoch + 1 := by
    intro p p' hp heq
    cases hp
    case bumpAll =>
      cases heq
      exact ⟨rfl, rfl⟩
    case exchange hr => cases hn : s.workerCount <;> rw [hn] at heq <;> cases heq
    case countNull left => cases left <;> cases heq
    all_goals cases heq
  rcases exec_cases h with ⟨w, w', rfl, rfl, hw⟩ | ⟨p, p', rfl, rfl, hstep⟩
  · cases hw
    case dispatch hstep => exact hpoint hstep hp
    all_goals cases hp
  · exact hpoint hstep hp

theorem exec_returned (h : s.exec t c = some (s', t')) (hret : s'.returned = true) :
    s.returned = true ∨ ∃ bumped, t.point = .notifyAll bumped := by
  have hpoint : ∀ {p p'}, PointStep s p s' p' →
      s.returned = true ∨ ∃ bumped, p = .notifyAll bumped := by
    intro p p' hp
    cases hp
    case notifyAll bumped => exact .inr ⟨bumped, rfl⟩
    all_goals exact .inl hret
  rcases exec_cases h with ⟨w, w', rfl, rfl, hw⟩ | ⟨p, p', rfl, rfl, hp⟩
  · cases hw
    case dispatch hp => exact hpoint hp
    all_goals exact .inl hret
  · exact hpoint hp

theorem exec_blocked {epoch : ℕ} (h : s.exec t c = some (s', t'))
    (hu : t' = .worker (.blocked epoch)) :
    t = .worker (.wait epoch) ∧ epoch = s.globalQueueEpoch := by
  subst hu
  rcases exec_cases h with ⟨w, w', rfl, hw', hw⟩ | ⟨p, p', -, hp', -⟩
  · cases hw'
    cases hw
    exact ⟨rfl, rfl⟩
  · cases hp'

end Local

theorem blocked_of_wake {t : Thread} {bumped epoch : ℕ}
    (h : t.wake bumped = .worker (.blocked epoch)) :
    t = .worker (.blocked epoch) ∧ ¬ epoch < bumped := by
  rcases t with w | p
  · cases w <;> simp only [Thread.wake] at h
    case blocked e =>
      by_cases hlt : e < bumped
      · rw [if_pos hlt] at h
        cases h
      · rw [if_neg hlt] at h
        cases h
        exact ⟨rfl, hlt⟩
    all_goals cases h
  · cases h

/-- At the exchange there are as many nulls to come as there are workers. -/
theorem Released.enough_exchange (hc : Counted s) {t u : Thread}
    (hw : total nullBalance s'.threads + nullBalance t
      = total nullBalance s.threads + nullBalance u)
    (hrun : s.shared.running = true) (htb : nullBalance t = 0)
    (hub : nullBalance u = s.shared.workerCount) : 0 ≤ total nullBalance s'.threads := by
  have hge : total (fun t => -isWorker t) s.threads ≤ total nullBalance s.threads :=
    total_le fun t ht => by
      have hleft := nullsLeft_of_outside (hc.not_inShutdown hrun ht)
      have hneed : needsNull t ≤ isWorker t := by
        rcases t with w | p
        · cases w <;> simp only [needsNull, isWorker] <;> omega
        · exact Int.le_refl 0
      rw [nullBalance, hleft]
      omega
  rw [total_neg, hc.workers] at hge
  omega

theorem Counted.epoch_of_waits {epoch : ℕ} (hc : Counted s) (h : Waits s epoch) :
    epoch ≤ s.shared.globalQueueEpoch := by
  rcases h with h | h <;> exact hc.epoch _ h

theorem Released.step (h : Released s) (hc : Counted s) (hs : s.step l = some s')
    (hspin : s.SpinKeepsNulls l) : Released s' := by
  obtain ⟨t, u, ht, hr, hw⟩ := step_cases hs
  have htm := List.mem_of_getElem? ht
  have hepoch := (exec_epoch hr).1
  have hbal := total_step (f := nullBalance) (fun _ => rfl) ht hw
  refine ⟨fun hrun' => ?_, fun v hv bumped hp epoch hwait => ?_, fun hret' => ?_⟩
  · cases hrun : s.shared.running
    · have hexec := exec_balance hr hrun fun spin i hspin' hpick => hspin spin i (hspin' ▸ ht) hpick
      have := h.enough hrun
      omega
    · obtain ⟨htb, hub⟩ := exec_stops hr hrun hrun'
      have := Released.enough_exchange hc hbal hrun htb hub
      omega
  · obtain ⟨v₀, b, hv₀, hvv⟩ := mem_step hw hv
    have hp₀ : v₀.point = .notifyAll bumped := by
      rcases hvv with rfl | rfl
      · exact hp
      · exact (wake_eq (f := Thread.point) (fun _ => rfl) b v₀).symm.trans hp
    rcases hv₀ with hv₀ | rfl
    · obtain ⟨hrun, hleft⟩ := hc.nullsLeft hv₀ (by rw [hp₀]; rfl) (by rw [hp₀]; rfl)
      rcases waits_step hwait ht hr hw with hwait | ⟨rfl, hempty⟩
      · exact h.notified v₀ hv₀ bumped hp₀ epoch hwait
      · have := h.no_sleeper hrun hleft hempty htm
        cases this
    · obtain ⟨hbump, rfl⟩ := exec_notifyAll hr hp₀
      rcases waits_step hwait ht hr hw with hwait | ⟨rfl, -⟩
      · exact Nat.lt_succ_of_le (hc.epoch_of_waits hwait)
      · cases hbump
  · rcases exec_returned hr hret' with hret | ⟨bumped, hp⟩
    · obtain ⟨hrun, hleft⟩ := hc.nullsLeft_of_returned hret
      obtain ⟨hblocked, hwaits⟩ := h.returned hret
      refine ⟨fun epoch hmem => ?_, fun epoch hmem => ?_⟩
      · obtain ⟨v, b, hv, hvv⟩ := mem_step hw hmem
        have hvb : v = .worker (.blocked epoch) := by
          rcases hvv with heq | heq
          · exact heq.symm
          · exact (blocked_of_wake heq.symm).1
        rcases hv with hv | rfl
        · exact hblocked epoch (hvb ▸ hv)
        · obtain ⟨rfl, heq⟩ := exec_blocked hr hvb
          have := hwaits epoch htm
          omega
      · rcases waits_step (.inl hmem) ht hr hw with (hwait | hwait) | ⟨rfl, hempty⟩
        · exact Nat.lt_of_lt_of_le (hwaits epoch hwait) hepoch
        · exact absurd hwait (hblocked epoch)
        · have := h.no_sleeper hrun hleft hempty htm
          cases this
    · have hlt : ∀ {epoch}, Waits s' epoch → epoch < bumped := by
        intro epoch hwait
        rcases waits_step hwait ht hr hw with hwait | ⟨rfl, -⟩
        · exact h.notified t htm bumped hp epoch hwait
        · cases hp
      rw [hp] at hw
      refine ⟨fun epoch hmem => ?_, fun epoch hmem => ?_⟩
      · have := hlt (.inr hmem)
        rw [← Option.some.inj hw] at hmem
        obtain ⟨v, -, hv⟩ := List.mem_map.1 hmem
        exact (blocked_of_wake hv).2 this
      · refine Nat.lt_of_lt_of_le (hlt (.inl hmem)) (Nat.le_trans ?_ hepoch)
        have := hc.epoch t htm
        rcases t with w | p
        · cases w <;> simp only [Thread.point, reduceCtorEq] at hp
          subst hp
          exact this
        · cases hp
          exact this

theorem released_init (n m : ℕ) : Released (Pool.init n m) := by
  refine ⟨fun hrun => ?_, fun t ht bumped hp => ?_, fun hret => ?_⟩
  · cases hrun
  · rcases List.mem_append.1 ht with ht | ht <;> rw [List.eq_of_mem_replicate ht] at hp <;> cases hp
  · cases hret

/-- After `shutdown` no worker is blocked, if none has taken a null in its idle spin. -/
theorem released_of_spinKeepsNulls
    (h : Reaches Pool.step Pool.SpinKeepsNulls (Pool.init n m) s)
    (hret : s.shared.returned = true) (epoch : ℕ) :
    .worker (.blocked epoch) ∉ s.threads ∧ ¬ s.Stuck epoch := by
  have hrel : Released s := by
    refine h.invariant (I := Released) (released_init n m) ?_
    intro s l s' hr hrel hP hs
    exact hrel.step (counted_reachable hr).1 hs hP
  have hblocked := (hrel.returned hret).1 epoch
  exact ⟨hblocked, fun hstuck => hblocked hstuck.blocked⟩

def Pool.spinTakesNull (s : Pool) (l : Pool.Label) : Bool :=
  match s.threads[l.1]?, l.2 with
  | some (.worker (.spinDequeue _)), .pick i => s.shared.globalQueue[i]? == some .null
  | _, _ => false

theorem spinKeepsNulls_iff : s.SpinKeepsNulls l ↔ s.spinTakesNull l = false := by
  unfold Pool.SpinKeepsNulls Pool.spinTakesNull
  split
  · next spin i ht hl => simp [ht, hl]
  · next hno => exact iff_of_true (fun spin i ht hl => (hno spin i ht hl).elim) rfl

instance (s : Pool) (l : Pool.Label) : Decidable (s.SpinKeepsNulls l) :=
  decidable_of_iff _ spinKeepsNulls_iff.symm

/-- The first of 17 workers is asleep when another thread shuts the pool down. -/
def releaseRun : List Pool.Label := gos 0 7 ++ (17, .callShutdown) :: gos 17 37

theorem released_asleep : ∃ s, Reaches Pool.step Pool.SpinKeepsNulls (Pool.init 17 1) s ∧
    s.shared.returned = true ∧ s.threads[0]? = some (.worker (.wait 0)) ∧ ¬ s.Stuck 1 := by
  have hrun : (runIf Pool.step Pool.SpinKeepsNulls (Pool.init 17 1) releaseRun).isSome = true := by
    decide
  exact ⟨_, reaches_after hrun, by decide, by decide,
    (released_of_spinKeepsNulls (reaches_after hrun) (by decide) 1).2⟩

/-- The only worker is at its first look of the idle spin when `shutdown` runs. It takes the null
there, has no queue from it, and goes on to its wait. -/
def spinRun : List Pool.Label :=
  gos 0 3 ++ (1, .callShutdown) :: gos 1 5 ++ (0, .pick 0) :: gos 0 5

theorem null_lost_in_spin : ¬ ∀ n m s, 1 ≤ n → Reachable Pool.step (Pool.init n m) s →
    s.shared.returned = true → ∀ epoch, ¬ s.Stuck epoch := by
  intro h
  have hrun : (run Pool.step (Pool.init 1 1) spinRun).isSome = true := by decide
  have hs : after Pool.step (Pool.init 1 1) spinRun
      = ⟨{ workerCount := 1, globalQueueEpoch := 1, sleepingWorkers := 1, running := false,
           returned := true }, [.worker (.blocked 1), .other .outside]⟩ := by decide
  have hr := reachable_after hrun
  rw [hs] at hr
  refine h 1 1 _ (Nat.le_refl 1) hr rfl 1 ⟨by decide, rfl, ?_⟩
  intro t ht bumped
  simp only [List.mem_cons, List.not_mem_nil, or_false] at ht
  rcases ht with rfl | rfl <;> exact ⟨nofun, nofun⟩

end Shutdown

end WorkerPool

end SkynetCpp
