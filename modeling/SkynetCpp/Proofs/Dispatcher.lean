import SkynetCpp.Proofs.Wakeup

/-!
# The dispatcher of a live actor

As long as no `kill` has taken a queue from the registry: at most one worker dispatches it
(`single_dispatcher`), and a message in its mailbox always has somebody to see to it
(`no_stranded_mailbox`), in every interleaving of any number of workers and other threads.
-/

namespace SkynetCpp

open Lib Op

theorem countP_dispatching (os : List Op) :
    os.countP dispatching = os.countP hot + os.countP cool + os.countP dispatchRest := by
  induction os with
  | nil => rfl
  | cons o os ih =>
    have ho : (dispatching o).toNat = o.hot.toNat + o.cool.toNat + o.dispatchRest.toNat := by
      cases o <;> (try cases ‹DrainSite›) <;> rfl
    rw [← List.singleton_append, List.countP_append, List.countP_append, List.countP_append,
      List.countP_append, countP_singleton, countP_singleton, countP_singleton, countP_singleton]
    omega

section Dispatcher

variable {n m : ℕ} {s : State}

/-- One token, whether in the global queue or in a thread's hands, or one worker. -/
theorem single_dispatcher (h : Reachable State.step (State.init n m) s) (q : QId)
    (hlive : (s.queues q).killed = false) :
    s.globalQueue.count q + (s.opsOn q).countP holdsToken + (s.opsOn q).countP dispatching ≤ 1
      ∧ (s.opsOn q).countP inOnMessage ≤ 1 := by
  have hone : s.globalQueue.count q + (s.opsOn q).countP holdsToken
      + (s.opsOn q).countP dispatching ≤ 1 := by
    by_cases hq : q < s.spawned
    · have hs := sound_of_reachable h hq
      have hdir : (s.queues q).direct = false := by
        by_contra hd
        have := (hs.released.direct (by simpa using hd)).2
        exact Bool.false_ne_true (hlive.symm.trans this)
      have := hs.exclusive.one hdir
      simp only [Counts.of_apply] at this
      rw [countP_dispatching]
      omega
    · obtain ⟨ho, hg⟩ := (reachable_views h).1.unused (not_lt.1 hq)
      rw [ho, List.count_eq_zero_of_not_mem hg]
      exact Nat.zero_le 1
  refine ⟨hone, ?_⟩
  have hsub : (s.opsOn q).countP inOnMessage ≤ (s.opsOn q).countP dispatching :=
    List.countP_mono_left fun o _ ho => by
      cases o <;> first | rfl | cases ho
  omega

/-- One worker and one other thread: `spawn` and a `send`, up to the call of `on_message`. -/
def helloRun : List State.Label :=
  [(1, .call .spawn), (1, .go), (1, .go), (1, .ret), (1, .go), (1, .go), (1, .go),
    (1, .call (.send 1 { session := 1, type := PTYPE_LUA })), (1, .go), (1, .go), (1, .go),
    (1, .go), (1, .go), (1, .go), (1, .go), (1, .go), (1, .go),
    (0, .pick 0), (0, .go), (0, .go), (0, .go), (0, .go), (0, .go), (0, .go), (0, .go), (0, .go),
    (0, .go), (0, .pick 0), (0, .go), (0, .go)]

theorem single_dispatcher_hello : ∃ s, Reachable State.step (State.init 1 1) s ∧
    (s.opsOn 0).countP inOnMessage = 1 ∧
    s.globalQueue.count 0 + (s.opsOn 0).countP holdsToken + (s.opsOn 0).countP dispatching ≤ 1 := by
  have hrun : (run State.step (State.init 1 1) helloRun).isSome = true := by decide
  exact ⟨_, reachable_after hrun, by decide,
    (single_dispatcher (reachable_after hrun) 0 (by decide)).1⟩

/-- A message in the mailbox of a live initialised actor: the state is 1 or 2, and there is the
token, whoever is about to enqueue or exchange it, or the worker; or a worker has reset the state
and will read `mailbox_count` again; or a thread is on its way to `schedule_queue`. -/
theorem no_stranded_mailbox (h : Reachable State.step (State.init n m) s) (q : QId)
    (hq : q < s.spawned) (hlive : (s.queues q).killed = false)
    (hinit : (s.queues q).initialized = true) :
    ((s.queues q).mailbox ≠ [] →
      (s.queues q).scheduleState ≠ .idle ∧
        (0 < s.globalQueue.count q ∨ 0 < (s.opsOn q).countP holdsToken
          ∨ 0 < (s.opsOn q).countP dispatching)
      ∨ 0 < (s.opsOn q).countP rechecks
      ∨ 0 < (s.opsOn q).countP toSchedule ∨ 0 < (s.opsOn q).countP atCount)
    ∧ (s.opsOn q = [] → q ∉ s.globalQueue → (s.queues q).mailbox = []) := by
  obtain ⟨hs, hl⟩ := live_inductive.of_reachable h hq
  have hlive' : Live (s.queues q) := ⟨hlive, hs.stages.succeeds (.inl hinit)⟩
  have hcov := (hl hlive').covered
  have hpoints := hs.released.points
  have hspawn := hs.stages.before
  rw [hlive'.releasing hs] at hpoints
  rw [hinit, Bool.toNat_true] at hspawn
  have hdrain : (s.opsOn q).countP willIdle ≤ (s.opsOn q).countP released :=
    List.countP_mono_left fun o _ ho => by
      cases o <;> first | rfl | cases ho
  have hstate : (s.queues q).scheduleState ≠ .idle →
      0 < s.globalQueue.count q ∨ 0 < (s.opsOn q).countP holdsToken
        ∨ 0 < (s.opsOn q).countP dispatching := by
    intro hne
    have hqueued := hs.scheduled.queued
    have hbusy := hs.scheduled.busy
    rw [countP_dispatching]
    simp only [Counts.of_apply] at hqueued hbusy
    rcases (s.queues q).scheduleState.cases with h' | h' | h'
    · exact absurd h' hne
    · have := hqueued h'
      omega
    · have := hbusy h'
      omega
  simp only [Covered, Counts.of_apply] at hcov hpoints hspawn
  have hmain : (s.queues q).mailbox ≠ [] → (s.queues q).scheduleState ≠ .idle
      ∨ 0 < (s.opsOn q).countP rechecks
      ∨ 0 < (s.opsOn q).countP toSchedule ∨ 0 < (s.opsOn q).countP atCount := by
    intro hm
    rcases hcov hm with h' | h' | h' | h' | ⟨h', -⟩
    · exact .inl h'
    · exact .inr (.inr (.inl h'))
    · exact absurd (hpoints (by omega)) Bool.false_ne_true
    · omega
    · exact .inr (h'.imp id .inr)
  refine ⟨fun hm => (hmain hm).imp_left fun hne => ⟨hne, hstate hne⟩, fun ho hg => ?_⟩
  by_contra hm
  have := hmain hm
  rw [ho] at this
  rcases this with hne | h' | h' | h'
  · have := hstate hne
    rw [ho, List.count_eq_zero_of_not_mem hg] at this
    simp at this
  all_goals exact absurd h' (Nat.lt_irrefl 0)

/-- The message is in the mailbox, and its sender has not scheduled the queue yet. -/
theorem no_stranded_mailbox_hello : ∃ s, Reachable State.step (State.init 1 1) s ∧
    (s.queues 0).mailbox ≠ [] ∧ (s.queues 0).scheduleState = .idle ∧
    ((s.queues 0).scheduleState ≠ .idle ∧
        (0 < s.globalQueue.count 0 ∨ 0 < (s.opsOn 0).countP holdsToken
          ∨ 0 < (s.opsOn 0).countP dispatching)
      ∨ 0 < (s.opsOn 0).countP rechecks
      ∨ 0 < (s.opsOn 0).countP toSchedule ∨ 0 < (s.opsOn 0).countP atCount) := by
  have hrun : (run State.step (State.init 1 1) (helloRun.take 12)).isSome = true := by decide
  exact ⟨_, reachable_after hrun, by decide, by decide,
    (no_stranded_mailbox (reachable_after hrun) 0 (by decide) (by decide) (by decide)).1 (by decide)⟩

end Dispatcher

end SkynetCpp
