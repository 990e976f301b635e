import Mathlib.Data.List.Basic
import Mathlib.Tactic.SplitIfs
import SkynetCpp.Lib.Runs
import SkynetCpp.SerialQueue

/-!
# The serialization queue is a critical section

The queue is free, or held by the coroutine that is in a body, or handed over to one that has its
wakeup and has not run yet (`Phase`). In each phase the coroutines that wait are those in the
queue, behind the one the queue is handed over to, and they are the calls that have not entered
(`Serial`).
-/

namespace SkynetCpp

namespace SerialQueue

open Lib SerialQueue.State

variable {V : Type*}

/-- Who is inside, and who waits for the queue, first come first. -/
inductive Phase (s : State V) : Option ℕ → List ℕ → Prop
  | free : s.currentThread = none → s.threadQueue = [] → (∀ co, s.wakeupQueue co = false) →
      Phase s none []
  | held {co : ℕ} {waiting : List ℕ} : s.currentThread = some co → s.threadQueue = waiting →
      (∀ co, s.wakeupQueue co = false) → Phase s (some co) waiting
  | handed {next : ℕ} {rest : List ℕ} : s.currentThread = some next → s.threadQueue = rest →
      (∀ co, s.wakeupQueue co = true ↔ co = next) → Phase s none (next :: rest)

structure Serial (s : State V) (inside : Option ℕ) (waiting : List ℕ) : Prop where
  bodies : ∀ co, 0 < s.bodies co ↔ inside = some co
  ref : s.ref = (inside.elim 0 s.bodies : ℕ)
  sleeping : ∀ co, s.sleepSession co = true ↔ co ∈ waiting
  nodup : waiting.Nodup
  apart : ∀ co ∈ waiting, inside ≠ some co
  called : s.called = s.entered ++ waiting
  released : s.entered = s.released ++ inside.toList
  phase : Phase s inside waiting
  noAssert : s.asserted = false

section Steps

variable {s s' : State V} {co : ℕ} {inside : Option ℕ} {waiting : List ℕ}

theorem Serial.held (h : Serial s (some co) waiting) :
    s.currentThread = some co ∧ s.threadQueue = waiting ∧ ∀ co, s.wakeupQueue co = false := by
  cases h.phase with
  | held hcur hq hw => exact ⟨hcur, hq, hw⟩

theorem serial_init : Serial ({} : State V) none [] where
  bodies co := by simp
  ref := rfl
  sleeping co := by simp
  nodup := List.nodup_nil
  apart co hco := by cases hco
  called := rfl
  released := rfl
  phase := .free rfl rfl fun _ => rfl
  noAssert := rfl

theorem Serial.bodies_eq_zero (h : Serial s inside waiting) (hco : inside ≠ some co) :
    s.bodies co = 0 := by
  have := mt (h.bodies co).1 hco
  omega

theorem Serial.not_mem_waiting (h : Serial s inside waiting) (hco : s.sleepSession co = false) :
    co ∉ waiting := by
  intro hmem
  rw [(h.sleeping co).2 hmem] at hco
  cases hco

/-- The holder enters again. -/
theorem Serial.enter_again (h : Serial s (some co) waiting) :
    Serial (s.enter co) (some co) waiting := by
  have hpos := (h.bodies co).2 rfl
  have hentered : (s.enter co).entered = s.entered := if_neg (by omega)
  obtain ⟨-, hq, hw⟩ := h.held
  refine ⟨fun co' => ?_, ?_, h.sleeping, h.nodup, h.apart, ?_, ?_, .held rfl hq hw, h.noAssert⟩
  · by_cases heq : co' = co
    · subst heq
      simp [enter]
    · rw [← h.bodies co']
      simp [enter, heq]
  · have := h.ref
    simp only [enter, Option.elim_some, Function.update_self] at this ⊢
    omega
  · rw [hentered]
    exact h.called
  · rw [hentered]
    exact h.released

/-- Nobody is inside, and of those that wait or have just called `co` is the first. -/
structure Entering (s : State V) (co : ℕ) (waiting : List ℕ) : Prop where
  bodies : ∀ co, s.bodies co = 0
  ref : s.ref = 0
  sleeping : ∀ co, s.sleepSession co = true ↔ co ∈ waiting
  nodup : (co :: waiting).Nodup
  called : s.called = s.entered ++ co :: waiting
  released : s.entered = s.released
  threadQueue : s.threadQueue = waiting
  wakeupQueue : ∀ co, s.wakeupQueue co = false
  noAssert : s.asserted = false

theorem Entering.enter (h : Entering s co waiting) : Serial (s.enter co) (some co) waiting := by
  have hentered : (s.enter co).entered = s.entered ++ [co] := if_pos (h.bodies co)
  obtain ⟨hco, hnodup⟩ := List.nodup_cons.1 h.nodup
  refine ⟨fun co' => ?_, ?_, h.sleeping, hnodup, fun co' hmem heq => ?_, ?_, ?_,
    .held rfl h.threadQueue h.wakeupQueue, h.noAssert⟩
  · by_cases heq : co' = co
    · subst heq
      simp [State.enter]
    · have := h.bodies co'
      simp [State.enter, heq, this, Ne.symm heq]
  · simp [State.enter, h.ref, h.bodies co]
  · cases heq
    exact hco hmem
  · rw [hentered, List.append_assoc]
    exact h.called
  · rw [hentered, h.released]
    rfl

theorem Serial.call (h : Serial s inside waiting) (hco : s.sleepSession co = false) :
    ∃ inside' waiting', Serial (s.call co) inside' waiting' := by
  have hnot := h.not_mem_waiting hco
  by_cases hin : inside = some co
  · subst hin
    have hpos := (h.bodies co).2 rfl
    obtain ⟨hcur, -, -⟩ := h.held
    have heq : s.call co = s.enter co := by
      simp [State.call, Nat.pos_iff_ne_zero.1 hpos, hcur]
    exact ⟨some co, waiting, heq ▸ h.enter_again⟩
  have hzero := h.bodies_eq_zero hin
  by_cases hfree : s.currentThread = none
  · cases h.phase with
    | free hcur hq hw =>
      have heq : s.call co = { s with called := s.called ++ [co] }.enter co := by
        simp [State.call, hzero, hcur]
      refine ⟨some co, [], heq ▸ Entering.enter ?_⟩
      refine ⟨fun co' => h.bodies_eq_zero (by simp), by simpa using h.ref, h.sleeping,
        List.nodup_cons.2 ⟨List.not_mem_nil, List.nodup_nil⟩, ?_, by simpa using h.released,
        hq, hw, h.noAssert⟩
      show s.called ++ [co] = _
      rw [h.called, List.append_nil]
    | held hcur | handed hcur =>
      rw [hcur] at hfree
      cases hfree
  · have hbusy : s.currentThread.isSome ∧ s.currentThread ≠ some co := by
      refine ⟨Option.isSome_iff_ne_none.2 hfree, fun heq => ?_⟩
      cases h.phase with
      | free hcur => exact hfree hcur
      | held hcur =>
        rw [hcur] at heq
        exact hin heq
      | handed hcur =>
        rw [hcur] at heq
        cases heq
        exact hnot List.mem_cons_self
    have heq : s.call co = { s with
        called := s.called ++ [co]
        threadQueue := s.threadQueue ++ [co]
        sleepSession := Function.update s.sleepSession co true } := by
      simp [State.call, hzero, hbusy]
    rw [heq]
    refine ⟨inside, waiting ++ [co], h.bodies, h.ref, fun co' => ?_, ?_, fun co' hmem => ?_, ?_,
      h.released, ?_, h.noAssert⟩
    · by_cases hc : co' = co
      · subst hc
        simp
      · simpa [hc] using h.sleeping co'
    · exact (List.perm_append_singleton co waiting).nodup_iff.2
        (List.nodup_cons.2 ⟨hnot, h.nodup⟩)
    · rcases List.mem_append.1 hmem with hmem | hmem
      · exact h.apart co' hmem
      · rwa [List.mem_singleton.1 hmem]
    · show s.called ++ [co] = _
      rw [h.called, List.append_assoc]
    · cases h.phase with
      | free hcur => exact absurd hcur hfree
      | held hcur hq hw => exact .held hcur (congrArg (· ++ [co]) hq) hw
      | handed hcur hq hw => exact .handed hcur (congrArg (· ++ [co]) hq) hw

theorem Serial.waitReturns (h : Serial s inside waiting) (hco : s.wakeupQueue co = true) :
    ∃ inside' waiting', Serial (s.waitReturns co) inside' waiting' := by
  cases h.phase with
  | free _ _ hw | held _ _ hw =>
    rw [hw co] at hco
    cases hco
  | @handed next rest hcur hq hw =>
    obtain rfl := (hw co).1 hco
    rw [State.waitReturns, if_pos (by simpa using h.ref)]
    refine ⟨some co, rest, Entering.enter ⟨fun co' => h.bodies_eq_zero (by simp),
      by simpa using h.ref, fun co' => ?_, h.nodup, h.called, by simpa using h.released, hq,
      fun co' => ?_, h.noAssert⟩⟩
    · by_cases hc : co' = co
      · subst hc
        simpa using (List.nodup_cons.1 h.nodup).1
      · simpa [hc] using h.sleeping co'
    · by_cases hc : co' = co
      · subst hc
        simp
      · have := mt (hw co').1 hc
        simpa [hc] using this

/-- The end of an inner body, and of the outermost. -/
theorem xpcallRet_inner (r : Except V (List V)) (href : s.ref ≠ 1) : s.xpcallRet co r = { s with
    ref := s.ref - 1
    bodies := Function.update s.bodies co (s.bodies co - 1)
    outcomes := s.outcomes ++ [(co, r)] } := by
  have hne : s.ref - 1 ≠ 0 := by omega
  simp [xpcallRet, hne]

theorem xpcallRet_outer (r : Except V (List V)) (href : s.ref = 1) : s.xpcallRet co r =
    let s' := { s with
      ref := 0
      bodies := Function.update s.bodies co (s.bodies co - 1)
      released := s.released ++ [co] }.handOver
    { s' with outcomes := s'.outcomes ++ [(co, r)] } := by
  have hz : s.ref - 1 = 0 := by omega
  simp [xpcallRet, hz]

theorem Serial.bodyEnds (h : Serial s inside waiting) (hpos : 0 < s.bodies co)
    (r : Except V (List V)) :
    ∃ inside' waiting', Serial (s.xpcallRet co r) inside' waiting' := by
  obtain rfl := (h.bodies co).1 hpos
  have href : s.ref = s.bodies co := h.ref
  obtain ⟨hcur, hq, hw⟩ := h.held
  have hothers : ∀ {co'}, co' ≠ co → s.bodies co' = 0 :=
    fun hne => h.bodies_eq_zero (by simpa using hne.symm)
  by_cases hone : s.bodies co = 1
  · have hzero : ∀ co', Function.update s.bodies co (s.bodies co - 1) co' = 0 := by
      intro co'
      by_cases hc : co' = co
      · subst hc
        simp [hone]
      · rw [Function.update_of_ne hc, hothers hc]
    have hreleased : s.entered = s.released ++ [co] := h.released
    rw [xpcallRet_outer r (by omega)]
    cases waiting with
    | nil =>
      simp only [handOver, hq]
      refine ⟨none, [], fun co' => ?_, rfl, h.sleeping, h.nodup, nofun, h.called, ?_,
        .free rfl rfl hw, h.noAssert⟩
      · simp [hzero co']
      · simpa using hreleased
    | cons next rest =>
      have hsleep : s.sleepSession next = true := (h.sleeping next).2 List.mem_cons_self
      simp only [handOver, hq, State.wakeup, hsleep, if_true]
      refine ⟨none, next :: rest, fun co' => ?_, rfl, h.sleeping, h.nodup, nofun, h.called, ?_,
        .handed rfl rfl fun co' => ?_, h.noAssert⟩
      · simp [hzero co']
      · simpa using hreleased
      · by_cases hc : co' = next
        · subst hc
          simp
        · simp [hc, hw co']
  · rw [xpcallRet_inner r (by omega)]
    refine ⟨some co, waiting, fun co' => ?_, ?_, h.sleeping, h.nodup, h.apart, h.called,
      h.released, .held hcur hq hw, h.noAssert⟩
    · by_cases hc : co' = co
      · subst hc
        simp
        omega
      · simp [hc, Ne.symm hc, hothers hc]
    · simp only [Option.elim_some, Function.update_self]
      omega

variable {traceback : V → V} {l : Label V}

theorem step_eq_some : s.step traceback l = some s' ↔
    s.Enabled l.1 l.2 ∧ s' = s.exec l.1 traceback l.2 := by
  unfold State.step
  split_ifs with he
  · simp [he, eq_comm]
  · simp [he]

theorem Serial.step (h : Serial s inside waiting) (hs : s.step traceback l = some s') :
    ∃ inside' waiting', Serial s' inside' waiting' := by
  obtain ⟨he, rfl⟩ := step_eq_some.1 hs
  obtain ⟨co, _ | _ | r⟩ := l
  · exact h.call he
  · exact h.waitReturns he.2
  · exact h.bodyEnds he.2 _

theorem Serial.reentrant (h : Serial s inside waiting) (hpos : 0 < s.bodies co) :
    ∃ s', s.step traceback (co, .call) = some s' ∧ s'.bodies co = s.bodies co + 1 := by
  obtain rfl := (h.bodies co).1 hpos
  obtain ⟨hcur, -, -⟩ := h.held
  have hsleep : s.sleepSession co = false := by
    by_contra hne
    exact h.apart co ((h.sleeping co).1 (by simpa using hne)) rfl
  refine ⟨s.call co, step_eq_some.2 ⟨hsleep, rfl⟩, ?_⟩
  simp [State.call, State.enter, Nat.pos_iff_ne_zero.1 hpos, hcur]

theorem handOver_bodies : s.handOver.bodies = s.bodies ∧ s.handOver.released = s.released
    ∧ s.handOver.outcomes = s.outcomes := by
  unfold handOver
  split
  · exact ⟨rfl, rfl, rfl⟩
  · unfold State.wakeup
    split_ifs <;> exact ⟨rfl, rfl, rfl⟩

theorem Serial.reported (h : Serial s inside waiting) {r : Except V (List V)}
    (hs : s.step traceback (co, .bodyEnds r) = some s') :
    s'.outcomes = s.outcomes ++ [(co, r.mapError traceback)] ∧ s'.bodies co + 1 = s.bodies co
      ∧ s'.released = s.released ++ (if s.bodies co = 1 then [co] else []) := by
  obtain ⟨⟨-, hpos⟩, rfl⟩ := step_eq_some.1 hs
  obtain rfl := (h.bodies co).1 hpos
  have href : s.ref = s.bodies co := h.ref
  have hbodies : s.bodies co - 1 + 1 = s.bodies co := Nat.sub_add_cancel hpos
  by_cases hone : s.bodies co = 1
  · simp only [State.exec]
    rw [xpcallRet_outer _ (by omega), if_pos hone]
    simp only [handOver_bodies, Function.update_self]
    exact ⟨trivial, hbodies, trivial⟩
  · simp only [State.exec]
    rw [xpcallRet_inner _ (by omega), if_neg hone, List.append_nil]
    simp only [Function.update_self]
    exact ⟨trivial, hbodies, trivial⟩

/-- What a state of the three phases is like. -/
theorem Serial.fair (h : Serial s inside waiting) : Fair traceback s where
  exclusive co co' hco hco' :=
    Option.some.inj (((h.bodies co).1 hco).symm.trans ((h.bodies co').1 hco'))
  inOrder := ⟨waiting, h.called.symm⟩
  reentrant co := h.reentrant
  releasedOnce co hpos := by
    obtain rfl := (h.bodies co).1 hpos
    exact h.released
  allReleased hzero := by
    cases inside with
    | none => simpa using h.released
    | some co =>
      have := (h.bodies co).2 rfl
      rw [hzero co] at this
      cases this
  reported co r s' := h.reported
  woken co hcur hzero := by
    cases h.phase with
    | free hnone =>
      rw [hcur] at hnone
      cases hnone
    | held hco =>
      rw [hcur] at hco
      cases hco
      have := (h.bodies co).2 rfl
      rw [hzero] at this
      cases this
    | handed hco hq hw =>
      rw [hcur] at hco
      cases hco
      exact ⟨(h.sleeping co).2 List.mem_cons_self, (hw co).2 rfl⟩
  refZero co hco := by
    cases h.phase with
    | free _ _ hw | held _ _ hw =>
      rw [hw co] at hco
      cases hco
    | handed => exact h.ref
  noAssert := h.noAssert
  noneLeft hfree := by
    cases h.phase with
    | free _ hq =>
      refine ⟨hq, fun co => ?_⟩
      have := mt (h.sleeping co).1 List.not_mem_nil
      simpa using this
    | held hcur | handed hcur =>
      rw [hcur] at hfree
      cases hfree

end Steps

section Runs

variable {traceback : V → V} {s : State V}

theorem serial_reachable (h : Reachable (State.step traceback) {} s) :
    ∃ inside waiting, Serial s inside waiting := by
  refine h.invariant (I := fun s => ∃ inside waiting, Serial s inside waiting)
    ⟨none, [], serial_init⟩ ?_
  rintro s l s' - ⟨inside, waiting, hI⟩ - hs
  exact hI.step hs

/-- `skynet.queue` is a fair re-entrant critical section. -/
theorem fair_reachable (h : Reachable (State.step traceback) {} s) : s.Fair traceback := by
  obtain ⟨inside, waiting, hI⟩ := serial_reachable h
  exact hI.fair

/-- Coroutine 0 is in two bodies while 1 and 2 wait. The inner one raises, the outer returns, and
the queue has been handed over to 1 when 0 calls again. -/
def handOverRun : List (Label ℕ) :=
  [(0, .call), (1, .call), (0, .call), (2, .call), (0, .bodyEnds (.error 7)),
    (0, .bodyEnds (.ok [])), (0, .call), (1, .waitReturns)]

theorem fair_handOver : ∃ s, Reachable (State.step (fun e : ℕ => e + 1)) {} s ∧
    s.entered = [0, 1] ∧ s.called = [0, 1, 2, 0] ∧ s.threadQueue = [2, 0] ∧
    s.outcomes.map Prod.fst = [0, 0] ∧ s.Fair (fun e => e + 1) := by
  have hrun : (run (State.step (fun e : ℕ => e + 1)) {} handOverRun).isSome = true := by decide
  exact ⟨_, reachable_after hrun, by decide, by decide, by decide, by decide,
    fair_reachable (reachable_after hrun)⟩

end Runs

end SerialQueue

end SkynetCpp
