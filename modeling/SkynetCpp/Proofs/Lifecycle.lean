import SkynetCpp.Proofs.Dispatcher

/-!
# on_init, on_message, on_destroy

`on_message` is never entered before `on_init` has returned, and `on_destroy` at most once. That
`on_destroy` runs alone, and `on_message` never starts after it, rests on `dispatch_depth_` being 0
where a thread decides to destroy the actor. `kill` reads it, but it is 0 also in `on_init`
(`destroyed_in_on_init`); and the end of `dispatch_queue` decides by the depth it left behind, when
another worker may have entered since. With these two excluded (`DestroySafe`), the rest holds of
every run (`lifecycle_of_destroySafe`).
-/

namespace SkynetCpp

open Lib Op

/-- What a step must not do: `kill` must not read a depth of 0 before `on_init` has returned, and
the last worker to leave must not find the flags set when another has entered. -/
def DestroySafe (q : ActorQueue) (_ : Counts) : Op → Prop
  | .killDepth => q.dispatchDepth = 0 → q.initReturned = true
  | .leaveRequested => q.destroyRequested = true → q.dispatchDepth = 0
  | .leaveReleasing => q.releasing = true → q.dispatchDepth = 0
  | _ => True

instance (q : ActorQueue) (n : Counts) (o : Op) : Decidable (DestroySafe q n o) := by
  unfold DestroySafe
  split <;> infer_instance

/-- The order of an actor's callbacks. -/
structure Lifecycle (q : ActorQueue) (n : Counts) : Prop where
  initFirst : 0 < n inOnMessage ∨ 0 < n entersOnMessage → q.initReturned = true
  once : q.destroyRuns ≤ 1
  alone : 0 < n inOnDestroy → n inOnInit = 0 ∧ n inOnMessage = 0
  last : 0 < q.destroyRuns → n entersOnMessage = 0

/-- Once destruction is decided, no message is handed out, nor will be. -/
def Doomed (q : ActorQueue) (n : Counts) : Prop :=
  0 < n decided ∨ q.destroyed = true → q.releasing = true ∧ n hot = 0 ∧ q.initReturned = true

section Doomed

variable {q q' : ActorQueue} {n : Counts} {t tok : ℕ} {o : Op} {next : List Op}

theorem Doomed.access (h : Doomed q (n.add [o])) (hs : Sound q (n.add [o]) t)
    (hP : DestroySafe q (n.add [o]) o) (ha : o.Access q q' next tok) : Doomed q' (n.add next) := by
  have hi := hs.stages.init
  have hsp := hs.stages.spawn
  have hb := hs.stages.before
  have hr := hs.released.points
  have hr' := hs.released.requested
  have hd := hs.scheduled.depth
  have he := hs.scheduled.early
  have hb0 := Bool.eq_false_or_eq_true q.initReturned
  have hb1 := Bool.eq_false_or_eq_true q.initialized
  clear hs
  cases ha <;> (try cases ‹SchedNext›) <;> (try cases ‹DrainSite›) <;>
    simp only [Doomed, DestroySafe, Counts.add_apply, countP_singleton, decided, hot, cool,
      dispatchRest, insideRest, holdsToken, seenInit, spawnInit, spawnDecide, spawnSucceed, spawnFail,
      site, atCount, released, killMid, Bool.toNat_true, Bool.toNat_false, Nat.add_zero,
      reduceCtorEq, decide_true, decide_false] at hP hi hsp hb hr hr' hd he h <;>
    simp only [Doomed, Counts.add_apply, countP_singleton, List.countP_nil, SchedNext.ops,
      DrainSite.afterDrain, DrainSite.afterStore, DrainSite.afterClear, decided, hot,
      Bool.toNat_true, Bool.toNat_false, Nat.add_zero] <;>
    first | assumption | grind -ring -linarith

theorem doomed_inductive : View.Inductive DestroySafe fun q n t => Sound q n t ∧ Doomed q n where
  fresh h := ⟨sound_inductive.fresh h, by simp [Doomed, decided]⟩
  access hn ha hP h := ⟨sound_inductive.access hn ha trivial h.1, h.2.access h.1 hP ha⟩
  push m h := ⟨sound_inductive.push m h.1, by simpa [Doomed, decided, hot] using h.2⟩
  kill hk h := ⟨sound_inductive.kill hk h.1, by simpa [Doomed, decided, hot] using h.2⟩
  take h := ⟨sound_inductive.take h.1, by simpa [Doomed, decided, hot] using h.2⟩

/-- Whatever the steps, a message is handed out by a worker in `dispatch_queue`, where `on_init`
has returned. -/
theorem Sound.initReturned (hs : Sound q n t) (h : 0 < n hot) : q.initReturned = true := by
  have hinit : q.initialized = true := by
    by_contra hi
    have := (hs.scheduled.early (by simpa using hi)).2.2.2
    omega
  have hi := hs.stages.init
  have hb := hs.stages.before
  rw [hinit, Bool.toNat_true] at hb
  by_contra hr
  rw [Bool.not_eq_true] at hr
  rw [hr, Bool.toNat_false] at hi
  omega

theorem Doomed.lifecycle {os : List Op} (h : Doomed q (.of os)) (hs : Sound q (.of os) t) :
    Lifecycle q (.of os) := by
  have hsub : ∀ p : Op → Bool, (∀ o, p o = true → o.hot = true) → os.countP p ≤ os.countP hot :=
    fun p hp => List.countP_mono_left fun o _ => hp o
  have hin := hsub inOnMessage fun o ho => by cases o <;> first | rfl | cases ho
  have hto := hsub entersOnMessage fun o ho => by cases o <;> first | rfl | cases ho
  have hruns := hs.released.runs
  refine ⟨fun hm => hs.initReturned ?_, ?_, fun hd => ?_, fun hd => ?_⟩
  · simp only [Counts.of_apply] at hm ⊢
    omega
  · have := Bool.toNat_le q.destroyed
    omega
  · have hdec : os.countP inOnDestroy ≤ os.countP decided :=
      List.countP_mono_left fun o _ ho => by cases o <;> first | rfl | cases ho
    have hini : os.countP inOnInit ≤ os.countP spawnInit :=
      List.countP_mono_left fun o _ ho => by cases o <;> first | rfl | cases ho
    simp only [Counts.of_apply] at hd ⊢
    obtain ⟨-, hhot, hret⟩ := h (.inl (lt_of_lt_of_le hd hdec))
    have hi := hs.stages.init
    rw [hret, Bool.toNat_true] at hi
    simp only [Counts.of_apply] at hhot hi
    omega
  · have hdes : q.destroyed = true := by
      by_contra hn
      rw [Bool.not_eq_true] at hn
      rw [hn, Bool.toNat_false] at hruns
      omega
    have hhot := (h (.inr hdes)).2.1
    simp only [Counts.of_apply] at hhot ⊢
    omega

end Doomed

section Runs

variable {n m : ℕ} {s : State} {q : QId}

theorem lifecycle_of_destroySafe
    (h : Reaches State.step (StepsOn q DestroySafe) (State.init n m) s) (hq : q < s.spawned) :
    Lifecycle (s.queues q) (.of (s.opsOn q)) := by
  obtain ⟨hs, hd⟩ := doomed_inductive.of_reaches h hq
  exact hd.lifecycle hs

/-- A message is handled, and the actor is killed from its own `on_message`. -/
def exitRun : List State.Label :=
  helloRun ++
  ([(0, .call (.kill 1)), (0, .go), (0, .go), (0, .go), (0, .go), (0, .go), (0, .go), (0, .go),
    (0, .go), (0, .go), (0, .ret), (0, .go), (0, .go), (0, .go), (0, .go), (0, .go), (0, .go),
    (0, .go)] : List State.Label)

theorem lifecycle_on_exit : ∃ s, Reaches State.step (StepsOn 0 DestroySafe) (State.init 1 1) s ∧
    (s.opsOn 0).countP inOnDestroy = 1 ∧ Lifecycle (s.queues 0) (.of (s.opsOn 0)) := by
  have hrun : (runIf State.step (StepsOn 0 DestroySafe) (State.init 1 1) exitRun).isSome = true :=
    rfl
  exact ⟨_, reaches_after hrun, rfl,
    lifecycle_of_destroySafe (reaches_after hrun) (by decide)⟩

/-- `on_init` kills its own actor. -/
def killInInit : List State.Label :=
  [(0, .call .spawn), (0, .go), (0, .go), (0, .call (.kill 1)), (0, .go), (0, .go), (0, .go),
    (0, .go), (0, .go), (0, .go), (0, .go), (0, .go), (0, .go), (0, .go)]

theorem destroyed_in_on_init : ¬ ∀ n m s q, Reachable State.step (State.init n m) s →
    q < s.spawned → Lifecycle (s.queues q) (.of (s.opsOn q)) := by
  intro h
  have hrun : (run State.step (State.init 0 1) killInInit).isSome = true := rfl
  have halone := (h 0 1 _ 0 (reachable_after hrun) (by decide)).alone (by decide)
  exact absurd halone.1 (by decide)

end Runs

end SkynetCpp
