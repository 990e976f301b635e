import SkynetCpp.WorkerMonitor
import Mathlib.Order.Nat

/-!
# The monitor tells long dispatches

What the counters say of the worker (`Timeline`): `busy` is set from the return of one store to the
other, and no two dispatches overlap. And of the monitor (`Compared`): `check_version` is what the
check before loaded, so where it is equal to `version` no dispatch added to it in between, as fewer
than `2 ^ 32` did.
-/

namespace SkynetCpp

open Lib

namespace WorkerMonitor

namespace State

variable {s s' : State}

/-- How far the dispatches are, by where the worker is. -/
structure Timeline (s : State) : Prop where
  version : s.version = s.added % 2 ^ 32
  begun : s.begun = s.ended + if s.worker = .outside then 0 else 1
  added : s.added = s.ended + match s.worker with
    | .outside | .storeSource _ _ | .storeDestination _ | .addVersion => 0
    | .storeBusy | .returnBegin | .dispatching | .storeIdle => 1
  opened : s.opened = s.ended + match s.worker with
    | .dispatching | .storeIdle => 1
    | _ => 0
  endCalled : s.endCalled = s.ended + if s.worker = .storeIdle then 1 else 0
  busy : s.busy = match s.worker with
    | .returnBegin | .dispatching | .storeIdle => true
    | _ => false

theorem Timeline.step {l : Label} (h : Timeline s) (hs : s.step l = some s') :
    Timeline s' := by
  obtain ⟨hversion, hbegun, hadded, hopened, hendCalled, hbusy⟩ := h
  cases l with
  | begin src dst =>
    simp only [State.step] at hs
    split_ifs at hs with hw
    obtain rfl := Option.some.inj hs
    constructor <;> simp_all
  | «end» =>
    simp only [State.step] at hs
    split_ifs at hs with hw
    obtain rfl := Option.some.inj hs
    constructor <;> simp_all
  | check =>
    simp only [State.step] at hs
    split_ifs at hs
    obtain rfl := Option.some.inj hs
    constructor <;> assumption
  | worker =>
    simp only [State.step, workerStep] at hs
    cases hw : s.worker <;> simp only [hw, Option.some.injEq, reduceCtorEq] at hs <;> subst hs
      <;> constructor <;> simp_all
  | monitor =>
    simp only [State.step, monitorStep] at hs
    cases hm : s.monitor <;> simp only [hm, Option.some.injEq, reduceCtorEq] at hs <;> subst hs
      <;> constructor <;> assumption

theorem Timeline.opened_le (h : Timeline s) : s.opened ≤ s.added := by
  rw [h.opened, h.added]
  cases s.worker <;> simp

theorem Timeline.added_le (h : Timeline s) : s.added ≤ s.begun := by
  rw [h.added, h.begun]
  cases s.worker <;> simp

theorem Timeline.added_le_endCalled (h : Timeline s) : s.added ≤ s.endCalled + 1 := by
  rw [h.added, h.endCalled]
  cases s.worker <;> simp

/-- While a dispatch is on, it has added to `version`. -/
theorem Timeline.of_busy (h : Timeline s) (hbusy : s.busy = true) : s.ended < s.added := by
  rw [h.busy] at hbusy
  rw [h.added]
  cases hw : s.worker <;> simp_all

/-- While none is on, each that was on has called `end`. -/
theorem Timeline.of_idle (h : Timeline s) (hbusy : s.busy = false) : s.opened ≤ s.endCalled := by
  rw [h.busy] at hbusy
  rw [h.opened, h.endCalled]
  cases hw : s.worker <;> simp_all

/-- The check before loaded `version` when `r` dispatches had added to it. -/
def LoadedAt (s : State) (r : ℕ) : Prop :=
  (∀ p ∈ s.previous, p.openedAtStart ≤ r ∧ r ≤ p.begunAtReturn) ∧ (s.previous = none → r = 0)

/-- Each dispatch that was on when the check before started has called `end`. -/
def Passed (s : State) : Prop := ∀ p ∈ s.previous, p.openedAtStart ≤ s.endCalled

/-- `check_version` is what the check before loaded, until this one stores what it loaded. -/
def Phase (s : State) : Prop :=
  match s.monitor with
  | .outside | .loadBusy | .loadSource | .loadDestination _ =>
    s.checkVersion = s.lastRead % 2 ^ 32 ∧ s.LoadedAt s.lastRead
  | .loadVersion busy =>
    s.checkVersion = s.lastRead % 2 ^ 32 ∧ s.LoadedAt s.lastRead
      ∧ if busy then s.endedAtBusy < s.added else s.Passed
  | .loadCheckVersion v =>
    s.checkVersion = s.prevRead % 2 ^ 32 ∧ s.LoadedAt s.prevRead ∧ s.openedAtStart ≤ s.lastRead
      ∧ v = s.lastRead % 2 ^ 32 ∧ s.prevRead ≤ s.lastRead ∧ s.lastRead - s.prevRead < 2 ^ 32
      ∧ s.endedAtBusy < s.lastRead
  | .storeVersion v =>
    s.LoadedAt s.prevRead ∧ s.openedAtStart ≤ s.lastRead ∧ v = s.lastRead % 2 ^ 32 ∧ s.Passed
  | .returnCheck stuck =>
    s.checkVersion = s.lastRead % 2 ^ 32 ∧ s.LoadedAt s.prevRead ∧ s.openedAtStart ≤ s.lastRead
      ∧ if stuck then s.endedAtBusy < s.prevRead else s.Passed

structure Compared (s : State) : Prop where
  lastRead : s.lastRead ≤ s.added
  current : s.openedAtStart ≤ s.opened
  previous : ∀ p ∈ s.previous, p.openedAtStart ≤ s.opened
  phase : s.Phase

/-- The worker's side only counts on. -/
theorem Compared.worker_side (h : Compared s) (hadded : s.added ≤ s'.added)
    (hopened : s.opened ≤ s'.opened) (hend : s.endCalled ≤ s'.endCalled)
    (hmonitor : (s'.monitor, s'.checkVersion, s'.lastRead, s'.prevRead, s'.openedAtStart,
      s'.endedAtBusy, s'.previous)
        = (s.monitor, s.checkVersion, s.lastRead, s.prevRead, s.openedAtStart, s.endedAtBusy,
          s.previous)) : Compared s' := by
  simp only [Prod.mk.injEq] at hmonitor
  obtain ⟨hm, hcv, hlast, hprev, hstart, hbusy, hp⟩ := hmonitor
  have hpassed : s.Passed → s'.Passed := fun hs p hmem => (hs p (hp ▸ hmem)).trans hend
  refine ⟨by rw [hlast]; exact h.lastRead.trans hadded,
    by rw [hstart]; exact h.current.trans hopened,
    fun p hmem => (h.previous p (hp ▸ hmem)).trans hopened, ?_⟩
  have hphase := h.phase
  simp only [Phase, LoadedAt, hm, hcv, hlast, hprev, hstart, hbusy, hp] at hphase ⊢
  cases hm' : s.monitor with
  | loadVersion busy =>
    simp only [hm'] at hphase ⊢
    refine ⟨hphase.1, hphase.2.1, ?_⟩
    cases busy
    · exact hpassed hphase.2.2
    · exact lt_of_lt_of_le hphase.2.2 hadded
  | storeVersion v =>
    simp only [hm'] at hphase ⊢
    exact ⟨hphase.1, hphase.2.1, hphase.2.2.1, hpassed hphase.2.2.2⟩
  | returnCheck stuck =>
    simp only [hm'] at hphase ⊢
    refine ⟨hphase.1, hphase.2.1, hphase.2.2.1, ?_⟩
    cases stuck
    · exact hpassed hphase.2.2.2
    · exact hphase.2.2.2
  | _ =>
    simp only [hm'] at hphase ⊢
    exact hphase

theorem Compared.begin (h : Compared s) {src dst : ℕ} (hs : s.step (.begin src dst) = some s') :
    Compared s' := by
  simp only [State.step] at hs
  split_ifs at hs
  obtain rfl := Option.some.inj hs
  exact h.worker_side le_rfl le_rfl le_rfl rfl

theorem Compared.end (h : Compared s) (hs : s.step .end = some s') : Compared s' := by
  simp only [State.step] at hs
  split_ifs at hs
  obtain rfl := Option.some.inj hs
  exact h.worker_side le_rfl le_rfl (Nat.le_succ _) rfl

theorem Compared.worker (h : Compared s) (hs : s.step .worker = some s') : Compared s' := by
  simp only [State.step, workerStep] at hs
  cases hw : s.worker <;> simp only [hw, Option.some.injEq, reduceCtorEq] at hs <;> subst hs
  case addVersion => exact h.worker_side (Nat.le_succ _) le_rfl le_rfl rfl
  case returnBegin => exact h.worker_side le_rfl (Nat.le_succ _) le_rfl rfl
  all_goals exact h.worker_side le_rfl le_rfl le_rfl rfl

theorem Compared.check (h : Compared s) (hs : s.step .check = some s') : Compared s' := by
  simp only [State.step] at hs
  split_ifs at hs with hm
  obtain rfl := Option.some.inj hs
  have hphase := h.phase
  rw [Phase, hm] at hphase
  exact ⟨h.lastRead, le_rfl, h.previous, hphase⟩

/-- The next operation of `check`, while the dispatches are as `Timeline` says. -/
theorem Compared.monitor (h : Compared s) (ht : Timeline s) (hfewer : s.Fewer .monitor)
    (hs : s.step .monitor = some s') : Compared s' := by
  have hphase := h.phase
  simp only [State.step, monitorStep] at hs
  cases hm : s.monitor <;> simp only [hm, Option.some.injEq, reduceCtorEq] at hs <;> subst hs
    <;> simp only [Phase, hm] at hphase
  case loadBusy =>
    refine ⟨h.lastRead, h.current, h.previous, hphase.1, hphase.2, ?_⟩
    cases hbusy : s.busy
    · exact fun p hp => (h.previous p hp).trans (ht.of_idle hbusy)
    · exact ht.of_busy hbusy
  case loadVersion busy =>
    refine ⟨le_rfl, h.current, h.previous, ?_⟩
    have hstart := h.current.trans ht.opened_le
    cases busy
    · exact ⟨hphase.2.1, hstart, ht.version, hphase.2.2⟩
    · exact ⟨hphase.1, hphase.2.1, hstart, ht.version, h.lastRead, hfewer rfl _ hm, hphase.2.2⟩
  case loadCheckVersion v =>
    obtain ⟨hcv, hload, hstart, rfl, hle, hlt, hbusy⟩ := hphase
    refine ⟨h.lastRead, h.current, h.previous, ?_⟩
    -- fewer than `2 ^ 32` dispatches came between the two loads
    have hsame : s.lastRead % 2 ^ 32 = s.checkVersion ↔ s.lastRead = s.prevRead := by omega
    by_cases heq : s.lastRead = s.prevRead
    · rw [Phase, if_pos (hsame.2 heq)]
      exact ⟨by rw [hcv, heq], hload, hstart, heq ▸ hbusy⟩
    · rw [Phase, if_neg (hsame.not.2 heq)]
      refine ⟨hload, hstart, rfl, fun p hp => ?_⟩
      -- a dispatch that came after the load is not the one that was on before it
      have hload := (hload.1 p hp).1
      have hadded := ht.added_le_endCalled
      have hlast := h.lastRead
      have hcalled : p.openedAtStart ≤ s.endCalled := by omega
      exact hcalled
  case storeVersion v =>
    obtain ⟨hload, hstart, rfl, hpassed⟩ := hphase
    exact ⟨h.lastRead, h.current, h.previous, rfl, hload, hstart, hpassed⟩
  case returnCheck stuck =>
    obtain ⟨hcv, -, hstart, -⟩ := hphase
    refine ⟨h.lastRead, h.current, ?_, ?_⟩
    · intro p hp
      obtain rfl := Option.some.inj hp
      exact h.current
    · have hload : ∀ p ∈ some (Check.mk s.openedAtStart s.begun),
          p.openedAtStart ≤ s.lastRead ∧ s.lastRead ≤ p.begunAtReturn := by
        intro p hp
        obtain rfl := Option.some.inj hp
        exact ⟨hstart, h.lastRead.trans ht.added_le⟩
      cases stuck <;> exact ⟨hcv, hload, nofun⟩
  case loadSource => exact ⟨h.lastRead, h.current, h.previous, hphase⟩
  case loadDestination src => exact ⟨h.lastRead, h.current, h.previous, hphase⟩

theorem compared_step {l : Label} (h : Timeline s ∧ Compared s) (hfewer : s.Fewer l)
    (hs : s.step l = some s') : Timeline s' ∧ Compared s' := by
  refine ⟨h.1.step hs, ?_⟩
  cases l with
  | begin src dst => exact h.2.begin hs
  | «end» => exact h.2.end hs
  | check => exact h.2.check hs
  | worker => exact h.2.worker hs
  | monitor => exact h.2.monitor h.1 hfewer hs

theorem compared_init : Timeline {} ∧ Compared {} :=
  ⟨⟨rfl, rfl, rfl, rfl, rfl, rfl⟩, le_rfl, le_rfl, nofun, rfl, nofun, fun _ => rfl⟩

/-- A check that returns true: some dispatch had entered `begin` before the previous check returned
and had not ended when this check loaded `busy`. And where `begin` of some dispatch had returned
before the previous check started, and its `end` is not called yet, the check returns true. -/
theorem detects (h : Reaches step Fewer {} s) {stuck : Bool} (hs : s.monitor = .returnCheck stuck) :
    s.Detects stuck := by
  have hinv := h.invariant (I := fun s => Timeline s ∧ Compared s) compared_init
    fun s l s' _ hI hfewer hs => compared_step hI hfewer hs
  have hphase := hinv.2.phase
  rw [Phase, hs] at hphase
  obtain ⟨-, hload, -, hend⟩ := hphase
  refine ⟨?_, ?_, ?_⟩
  · rintro rfl p hp
    exact ⟨s.prevRead, (hload.1 p hp).2, hend⟩
  · intro p hp k hk hcalled
    cases stuck
    · have := hend p hp
      omega
    · rfl
  · intro hnone
    cases stuck
    · rfl
    · have h0 := hload.2 hnone
      rw [h0] at hend
      exact absurd hend (Nat.not_lt_zero _)

/-- A dispatch begins, and goes on during two checks. -/
def stuckRun : List Label :=
  .begin 1 2 :: List.replicate 5 .worker ++ .check :: List.replicate 5 .monitor
    ++ .check :: List.replicate 3 .monitor

theorem detects_stuck : (after step {} stuckRun).Detects true :=
  detects (reaches_after (by decide)) (by decide)

end State

end WorkerMonitor

end SkynetCpp
