import SkynetCpp.Profile
import Mathlib.Algebra.Order.Ring.Rat
import Mathlib.Data.List.Nodup
import Mathlib.Tactic.Linarith

/-!
# What profile.stop returns

For a profiled coroutine on the stack the total so far and the time since its start time are for how
long it was running, and for one that is suspended the total alone is (`Exact`). A `stop` adds the
time since the start time in both cases, so it is right where the coroutine is on the stack, or
where no time has passed.
-/

namespace SkynetCpp

open Lib

namespace Profile

theorem diffTime_of_le {now start : ℚ} (h : start ≤ now) : diffTime now start = now - start :=
  if_neg (not_lt.2 h)

namespace State

variable {s s' : State} {co : Thread} {since : ℚ}

section AfterResume

@[simp] theorem afterResume_clock : (s.afterResume co).clock = s.clock := by
  unfold afterResume
  split <;> rfl

@[simp] theorem afterResume_stack : (s.afterResume co).stack = s.stack := by
  unfold afterResume
  split <;> rfl

@[simp] theorem afterResume_startTime : (s.afterResume co).startTime = s.startTime := by
  unfold afterResume
  split <;> rfl

@[simp] theorem afterResume_ran : (s.afterResume co).ran = s.ran := by
  unfold afterResume
  split <;> rfl

theorem afterResume_total (h : s.startTime co = some since) :
    (s.afterResume co).timingTotal co = s.timingTotal co + diffTime s.clock since := by
  simp [afterResume, h, timingTotal]

theorem afterResume_total_ne {c : Thread} (hc : c ≠ co) :
    (s.afterResume co).timingTotal c = s.timingTotal c := by
  unfold afterResume
  split <;> simp [timingTotal, hc]

end AfterResume

/-- What the tables say of the running time of a coroutine that is profiled. -/
structure Exact (s : State) : Prop where
  nodup : s.stack.Nodup
  past : ∀ co start, s.startTime co = some start → start ≤ s.clock
  ran : ∀ co start, s.startTime co = some start →
    s.ran co = s.timingTotal co + if co ∈ s.stack then s.clock - start else 0

theorem exact_init : Exact {} := ⟨List.nodup_singleton _, nofun, nofun⟩

theorem Exact.tick (h : Exact s) {d : ℚ} (hs : s.step (.tick d) = some s') : Exact s' := by
  simp only [State.step] at hs
  split_ifs at hs with hd
  obtain rfl := Option.some.inj hs
  refine ⟨h.nodup, fun co start hco => ?_, fun co start hco => ?_⟩
  · have := h.past co start hco
    linarith
  · have hran := h.ran co start hco
    simp only [timingTotal] at hran ⊢
    split_ifs at hran ⊢ with hmem
    · linarith
    · exact hran

/-- The start time is set to the present of a coroutine for which nothing is lost by it. -/
theorem Exact.beforeResume (h : Exact s)
    (hcalm : ∀ start, s.startTime co = some start → co ∈ s.stack → s.clock = start) :
    Exact (s.beforeResume co) ∧ (s.beforeResume co).stack = s.stack ∧
      ∀ start, (s.beforeResume co).startTime co = some start →
        (s.beforeResume co).clock = start := by
  cases hstart : s.startTime co with
  | none =>
    simp only [State.beforeResume, hstart]
    exact ⟨h, trivial, fun start hs => by cases hs⟩
  | some start =>
    simp only [State.beforeResume, hstart]
    refine ⟨⟨h.nodup, fun c t hc => ?_, fun c t hc => ?_⟩, trivial, fun t ht => ?_⟩
    · rcases eq_or_ne c co with rfl | hne
      · simp only [Function.update_self, Option.some.injEq] at hc
        exact hc.ge
      · replace hc : s.startTime c = some t := by simpa [hne] using hc
        exact h.past c t hc
    · rcases eq_or_ne c co with rfl | hne
      · simp only [Function.update_self, Option.some.injEq] at hc
        subst hc
        have hran := h.ran c start hstart
        simp only [timingTotal] at hran ⊢
        split_ifs at hran ⊢ with hmem
        · rw [hran, hcalm start hstart hmem]
        · exact hran
      · replace hc : s.startTime c = some t := by simpa [hne] using hc
        exact h.ran c t hc
    · simpa using ht

/-- A coroutine leaves the stack, and its total takes in the time since its start time. -/
theorem Exact.leave (h : Exact s) {r : Thread × State} (hs : s.leave = some r) : Exact r.2 := by
  unfold State.leave at hs
  split at hs
  case h_1 co resumer rest hstack =>
    obtain rfl := Option.some.inj hs
    have hnodup := h.nodup
    rw [hstack] at hnodup
    obtain ⟨hco, hrest⟩ := List.nodup_cons.1 hnodup
    refine ⟨by simpa using hrest, fun c t hc => ?_, fun c t hc => ?_⟩
    · simp only [afterResume_startTime, afterResume_clock] at hc ⊢
      exact h.past c t hc
    · simp only [afterResume_startTime, afterResume_clock, afterResume_stack,
        afterResume_ran] at hc ⊢
      have hran := h.ran c t hc
      rw [hstack] at hran
      rcases eq_or_ne c co with rfl | hne
      · rw [afterResume_total (s := { s with stack := resumer :: rest }) hc,
          diffTime_of_le (h.past c t hc), if_neg hco]
        rw [if_pos List.mem_cons_self] at hran
        simp only [timingTotal] at hran ⊢
        linarith
      · rw [afterResume_total_ne hne, hran]
        simp [hne, timingTotal]
  case h_2 => cases hs

/-- A resume that `lua_resume` refuses leaves no trace in the total. -/
theorem Exact.afterResume (h : Exact s)
    (hstart : ∀ start, s.startTime co = some start → s.clock = start) :
    Exact (s.afterResume co) := by
  refine ⟨by simpa using h.nodup, fun c t hc => ?_, fun c t hc => ?_⟩
  · simp only [afterResume_startTime, afterResume_clock] at hc ⊢
    exact h.past c t hc
  · simp only [afterResume_startTime, afterResume_clock, afterResume_stack, afterResume_ran] at hc ⊢
    rcases eq_or_ne c co with rfl | hne
    · rw [afterResume_total hc, diffTime_of_le (h.past c t hc), h.ran c t hc, hstart t hc]
      simp
    · rw [afterResume_total_ne hne, h.ran c t hc]

theorem Exact.resume (h : Exact s) (hcalm : s.Calm (.resume co))
    (hs : s.step (.resume co) = some s') : Exact s' := by
  obtain ⟨hexact, hstack, hstart⟩ := h.beforeResume hcalm
  simp only [State.step] at hs
  split_ifs at hs with hrefused <;> obtain rfl := Option.some.inj hs
  · exact hexact.afterResume hstart
  · rw [not_or] at hrefused
    refine ⟨List.nodup_cons.2 ⟨hrefused.1, hexact.nodup⟩, hexact.past, fun c t hc => ?_⟩
    have hran := hexact.ran c t hc
    rcases eq_or_ne c co with rfl | hne
    · rw [if_neg hrefused.1] at hran
      rw [if_pos List.mem_cons_self, hran, hstart t hc, sub_self]
      rfl
    · simpa [hne, timingTotal] using hran

theorem Exact.start (h : Exact s) (hs : s.step (.start co) = some s') : Exact s' := by
  simp only [State.step, lstart] at hs
  cases hstart : s.startTime co with
  | some start =>
    simp only [hstart] at hs
    exact Option.some.inj hs ▸ h
  | none =>
    simp only [hstart] at hs
    obtain rfl := Option.some.inj hs
    refine ⟨h.nodup, fun c t hc => ?_, fun c t hc => ?_⟩
    · rcases eq_or_ne c co with rfl | hne
      · simp only [Function.update_self, Option.some.injEq] at hc
        exact hc.ge
      · replace hc : s.startTime c = some t := by simpa [hne] using hc
        exact h.past c t hc
    · rcases eq_or_ne c co with rfl | hne
      · simp only [Function.update_self, Option.some.injEq] at hc
        subst hc
        simp [timingTotal]
      · replace hc : s.startTime c = some t := by simpa [hne] using hc
        simpa [hne, timingTotal] using h.ran c t hc

theorem Exact.stop (h : Exact s) (hs : s.step (.stop co) = some s') : Exact s' := by
  simp only [State.step, lstop] at hs
  cases hstart : s.startTime co with
  | none =>
    simp only [hstart] at hs
    exact Option.some.inj hs ▸ h
  | some start =>
    simp only [hstart] at hs
    obtain rfl := Option.some.inj hs
    refine ⟨h.nodup, fun c t hc => ?_, fun c t hc => ?_⟩ <;> rcases eq_or_ne c co with rfl | hne
    · simp at hc
    · replace hc : s.startTime c = some t := by simpa [hne] using hc
      exact h.past c t hc
    · simp at hc
    · replace hc : s.startTime c = some t := by simpa [hne] using hc
      simpa [hne, timingTotal] using h.ran c t hc

theorem exact_step {l : Label} (h : Exact s) (hcalm : s.Calm l) (hs : s.step l = some s') :
    Exact s' := by
  cases l with
  | tick d => exact h.tick hs
  | resume co => exact h.resume hcalm hs
  | yield =>
    obtain ⟨r, hr, rfl⟩ := Option.map_eq_some_iff.1 hs
    exact h.leave hr
  | finish =>
    obtain ⟨r, hr, rfl⟩ := Option.map_eq_some_iff.1 hs
    have hleave := h.leave hr
    exact ⟨hleave.nodup, hleave.past, hleave.ran⟩
  | start co => exact h.start hs
  | stop co => exact h.stop hs

/-- In every state of a calm run `profile.stop(co)` returns for how long `co` was running exactly
where `co` is on the stack, or no time has passed since its last start or resume. -/
theorem stops_right_iff (h : Reaches step Calm {} s) (hstart : s.startTime co = some since) :
    s.StopsRight co ↔ co ∈ s.stack ∨ s.clock = since := by
  have hexact := h.invariant (I := Exact) exact_init
    fun s l s' _ hI hcalm hs => exact_step hI hcalm hs
  have hran := hexact.ran co since hstart
  have hpast := hexact.past co since hstart
  have hstop : s.StopsRight co ↔ s.timingTotal co + (s.clock - since) = s.ran co := by
    simp [StopsRight, lstop, hstart, diffTime_of_le hpast]
  rw [hstop, hran]
  split_ifs with hmem
  · simp [hmem]
  · simp [hmem, sub_eq_zero]

/-- Coroutine 1 is profiled while it runs, yields, and runs again. -/
def resumedRun : List Label :=
  [.resume 1, .start 1, .tick 1, .yield, .tick 5, .resume 1, .tick 2]

theorem stops_right_resumed :
    (after step {} resumedRun).StopsRight 1 ∧ (after step {} resumedRun).ran 1 = 3 := by
  refine ⟨(@stops_right_iff _ 1 _ (reaches_after (by decide)) rfl).2 (.inl (by decide)), ?_⟩
  have hran : (after step {} resumedRun).ran 1 = 0 + 1 + 2 := rfl
  norm_num [hran]

/-- It yields after a second, and the main thread stops the profile five seconds later. -/
def suspendedRun : List Label := [.resume 1, .start 1, .tick 1, .yield, .tick 5]

/-- `profile.stop` then returns seven seconds for one. -/
theorem not_stops_right_suspended :
    ¬ (∀ s, Reachable step {} s → ∀ co, (s.startTime co).isSome → s.StopsRight co) := by
  intro h
  obtain ⟨s', hs⟩ := h (after step {} suspendedRun) (reachable_after (by decide)) 1 (by decide)
  have hret : ((after step {} suspendedRun).lstop 1).toOption.map (·.1)
      = some (0 + diffTime (0 + 1) 0 + diffTime (0 + 1 + 5) 0) := rfl
  have hran : (after step {} suspendedRun).ran 1 = 0 + 1 := rfl
  rw [hs, hran] at hret
  norm_num [Except.toOption, diffTime] at hret

end State

end Profile

end SkynetCpp
