import SkynetCpp.Timers
import Mathlib.Tactic.NormNum

/-!
# Timers do not fire early

A delay whose conversions fit 64 bits is converted exactly (`right_iff`), and only such a one. So in
a run of such requests a timer that waits has the expiry that was asked for (`Waits`), and it fires
no earlier.
-/

namespace SkynetCpp

open Lib

namespace Timers

theorem toSigned_eq_iff {v : ℤ} : toSigned 64 v = v ↔ minTime ≤ v ∧ v ≤ maxTime := by
  unfold minTime maxTime
  constructor
  · intro h
    have hrange := toSigned_range 64 v
    rw [h] at hrange
    omega
  · intro h
    exact toSigned_of_range (by omega) (by omega)

/-- Of a positive duration, `add` saturates at the latest point in time. -/
theorem add_eq_iff {t d : ℤ} (ht : minTime ≤ t) (hd : 0 < d) :
    add t d = t + d ↔ t + d ≤ maxTime := by
  have hsum : toSigned 64 (t + d) = t + d ↔ t + d ≤ maxTime :=
    toSigned_eq_iff.trans ⟨fun h => h.2, fun h => ⟨by omega, h⟩⟩
  unfold add
  split_ifs with h0 hmax hmin
  · omega
  · exact hsum
  · omega
  · exact hsum

theorem right_iff {now : ℤ} (hnow : minTime ≤ now) (ti : Int64) : Right now ti ↔ Fits now ti := by
  have hconv : milliseconds ti = ti.toInt * 10 ↔ minTime ≤ ti.toInt * 10 ∧ ti.toInt * 10 ≤ maxTime :=
    toSigned_eq_iff
  have hspan : ti.toInt * 10 * 1000000 = span ti := by
    unfold span
    omega
  have hnano : nanoseconds (ti.toInt * 10) = span ti ↔ minTime ≤ span ti ∧ span ti ≤ maxTime := by
    unfold nanoseconds
    rw [hspan]
    exact toSigned_eq_iff
  have hmin : minTime < 0 := by decide
  have hmax : 0 < maxTime := by decide
  constructor
  · rintro ⟨hms, hexp, -⟩
    refine ⟨(hconv.1 hms).1, fun hpos => ?_⟩
    obtain ⟨hns, hadd⟩ := hexp hpos
    rw [hms] at hns hadd
    rw [expiresAfter, hns, add_eq_iff hnow (by unfold span; omega)] at hadd
    exact ⟨(hnano.1 hns).2, hadd⟩
  · rintro ⟨hlow, hfit⟩
    have hms : milliseconds ti = ti.toInt * 10 := by
      refine hconv.2 ⟨hlow, ?_⟩
      rcases lt_or_ge 0 ti.toInt with hpos | hneg
      · have := (hfit hpos).1
        unfold span at this
        omega
      · omega
    refine ⟨hms, fun hpos => ?_, ?_⟩
    · have hns : nanoseconds (ti.toInt * 10) = span ti :=
        hnano.2 ⟨by unfold span; omega, (hfit hpos).1⟩
      rw [hms, expiresAfter, hns, add_eq_iff hnow (by unfold span; omega)]
      exact ⟨rfl, (hfit hpos).2⟩
    · rw [hms, timeout]
      split_ifs with h
      · exact ⟨fun _ => by omega, fun _ => rfl⟩
      · exact ⟨nofun, fun hneg => absurd hneg (by omega)⟩

/-- What `timeout` does with a delay that fits. -/
theorem timeout_of_right {now : ℤ} {ti : Int64} (h : Right now ti) :
    timeout now (milliseconds ti) = if ti.toInt ≤ 0 then none else some (now + span ti) := by
  split_ifs with hti
  · exact h.immediate.2 hti
  · have hne : ¬ milliseconds ti ≤ 0 := by
      rw [h.converts]
      omega
    rw [timeout, if_neg hne, (h.expires (by omega)).2]

namespace State

variable {s s' : State}

/-- The clock is in 64 bits, all is on time, and each timer that waits is for the end of its
span. -/
structure Waits (s : State) : Prop where
  clock : minTime ≤ s.clock
  requests : ∀ r ∈ s.requests, Right r.time r.ti
  sent : ∀ p ∈ s.sent, p.1 ∈ s.requests
    ∧ if p.1.ti.toInt ≤ 0 then p.2 = p.1.time else p.1.time + span p.1.ti ≤ p.2
  immediate : ∀ r ∈ s.requests, r.ti.toInt ≤ 0 → (r, r.time) ∈ s.sent
  timers : ∀ p ∈ s.timers, p.1 ∈ s.requests ∧ ¬ p.1.ti.toInt ≤ 0 ∧ p.2 = p.1.time + span p.1.ti

theorem waits_init (now : Int64) : (init now).Waits := by
  refine ⟨?_, nofun, nofun, nofun, nofun⟩
  have := now.le_toInt
  unfold minTime
  exact this

theorem Waits.request (h : Waits s) (dest : ℕ) (session : ℤ) {ti : Int64}
    (hfits : Fits s.clock ti) : Waits (s.request dest session ti) := by
  have hright := (right_iff h.clock ti).2 hfits
  have hrequests : ∀ r ∈ s.requests ++ [⟨dest, session, ti, s.clock⟩], Right r.time r.ti := by
    intro r hr
    rcases List.mem_append.1 hr with hr | hr
    · exact h.requests r hr
    · rw [List.mem_singleton.1 hr]
      exact hright
  unfold State.request
  simp only [timeout_of_right hright]
  split_ifs with hti
  · refine ⟨h.clock, hrequests, fun p hp => ?_, fun r hr hneg => ?_, fun p hp => ?_⟩
    · rcases List.mem_append.1 hp with hp | hp
      · exact ⟨List.mem_append_left _ (h.sent p hp).1, (h.sent p hp).2⟩
      · rw [List.mem_singleton.1 hp]
        exact ⟨by simp, by rw [if_pos hti]⟩
    · rcases List.mem_append.1 hr with hr | hr
      · exact List.mem_append_left _ (h.immediate r hr hneg)
      · rw [List.mem_singleton.1 hr]
        simp
    · exact ⟨List.mem_append_left _ (h.timers p hp).1, (h.timers p hp).2⟩
  · refine ⟨h.clock, hrequests, fun p hp => ?_, fun r hr hneg => ?_, fun p hp => ?_⟩
    · exact ⟨List.mem_append_left _ (h.sent p hp).1, (h.sent p hp).2⟩
    · rcases List.mem_append.1 hr with hr | hr
      · exact h.immediate r hr hneg
      · rw [List.mem_singleton.1 hr] at hneg
        exact absurd hneg hti
    · rcases List.mem_append.1 hp with hp | hp
      · exact ⟨List.mem_append_left _ (h.timers p hp).1, (h.timers p hp).2⟩
      · rw [List.mem_singleton.1 hp]
        exact ⟨by simp, hti, rfl⟩

theorem Waits.ltimeout (h : Waits s) (dest : ℕ) (session : Option Int64) {ti : Int64}
    (hfits : Fits s.clock ti) : Waits (s.ltimeout dest ti session) := by
  cases session with
  | none =>
    have halloc : Waits s.allocSession.2 :=
      ⟨h.clock, h.requests, h.sent, h.immediate, h.timers⟩
    exact halloc.request dest _ hfits
  | some session => exact h.request dest _ hfits

theorem waits_step {l : Label} (h : Waits s) (hfits : s.StepFits l) (hs : s.step l = some s') :
    Waits s' := by
  cases l with
  | tick d =>
    simp only [State.step] at hs
    split_ifs at hs
    obtain rfl := Option.some.inj hs
    have hclock : minTime ≤ s.clock + d := by
      have := h.clock
      omega
    exact ⟨hclock, h.requests, h.sent, h.immediate, h.timers⟩
  | timeout dest ti session => exact Option.some.inj hs ▸ h.ltimeout dest session hfits
  | skynetTimeout dest ti =>
    have halloc : Waits s.allocSession.2 :=
      ⟨h.clock, h.requests, h.sent, h.immediate, h.timers⟩
    exact Option.some.inj hs ▸ halloc.ltimeout dest _ hfits
  | fire i =>
    simp only [State.step] at hs
    split at hs
    case h_1 r expiry hi =>
      split_ifs at hs with hexp
      obtain rfl := Option.some.inj hs
      obtain ⟨hmem, hti, heq⟩ := h.timers _ (List.mem_of_getElem? hi)
      simp only at hmem hti heq
      refine ⟨h.clock, h.requests, fun p hp => ?_, fun r hr hneg => ?_,
        fun p hp => h.timers p (List.mem_of_mem_eraseIdx hp)⟩
      · rcases List.mem_append.1 hp with hp | hp
        · exact h.sent p hp
        · rw [List.mem_singleton.1 hp]
          refine ⟨hmem, ?_⟩
          rw [if_neg hti, ← heq]
          exact hexp
      · exact List.mem_append_left _ (h.immediate r hr hneg)
    case h_2 => cases hs
  | abort i =>
    simp only [State.step] at hs
    split_ifs at hs
    obtain rfl := Option.some.inj hs
    exact ⟨h.clock, h.requests, h.sent, h.immediate,
      fun p hp => h.timers p (List.mem_of_mem_eraseIdx hp)⟩

/-- For less, a request is due no later. -/
theorem due_le_due {r r' : Request} (h : Right r.time r.ti) (h' : Right r'.time r'.ti)
    (htime : r.time = r'.time) (hle : r.ti ≤ r'.ti) : r.due ≤ r'.due := by
  have hle := Int64.le_iff_toInt_le.1 hle
  unfold Request.due
  rw [timeout_of_right h, timeout_of_right h', htime]
  unfold span
  split_ifs <;> simp only [Option.getD_none, Option.getD_some] <;> omega

theorem Waits.onTime (h : Waits s) : s.OnTime :=
  ⟨h.requests, h.sent, h.immediate,
    fun r hr r' hr' => due_le_due (h.requests r hr) (h.requests r' hr')⟩

/-- A call does what it is for just where the delay fits, and in every run of such calls all
responses are on time. -/
theorem on_time (now : Int64) :
    (∀ ti, Right now.toInt ti ↔ Fits now.toInt ti)
      ∧ ∀ s, Reaches step StepFits (init now) s → s.OnTime := by
  refine ⟨right_iff (waits_init now).clock, fun s h => ?_⟩
  exact (h.invariant (waits_init now) fun s l s' _ hI hfits hs => waits_step hI hfits hs).onTime

/-- A service sleeps for half a second. -/
def sleepRun : List Label := [.skynetTimeout 7 50, .tick 500000000, .fire 0]

theorem on_time_sleep :
    (after step (init 0) sleepRun).OnTime
      ∧ (after step (init 0) sleepRun).sent = [(⟨7, 1, 50, 0⟩, 500000000)] :=
  ⟨(on_time 0).2 _ (reaches_after (by decide)), by decide⟩

/-- For `math.maxinteger` centiseconds the response is sent at once. -/
theorem not_right_maxinteger :
    ¬ (∀ now ti : Int64, Right now.toInt ti) ∧
      timeout 0 (milliseconds Int64.maxValue) = none := by
  refine ⟨fun h => ?_, by decide⟩
  have himm := (h 0 Int64.maxValue).immediate.1 (by decide)
  exact absurd himm (by decide)

end State

end Timers

end SkynetCpp
