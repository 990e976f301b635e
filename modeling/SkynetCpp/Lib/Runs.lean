import Mathlib.Tactic.SplitIfs

/-!
# Runs of a partial step function

A system is a step function `σ → ι → Option σ`: what label `l` does in state `s`, or `none` if it
cannot happen there. `Reaches step P s₀ s` says that some run from `s₀` ends in `s`, every step of
it meeting `P`. A property of every run is an invariant (`Reaches.invariant`), and a property of
the runs of one system is carried to another along a map that takes each step to a step or to
nothing (`Reaches.map`).
-/

namespace Lib

variable {σ ι τ κ : Type*}

/-- Some run from `s₀` whose steps all meet `P` ends here. -/
inductive Reaches (step : σ → ι → Option σ) (P : σ → ι → Prop) (s₀ : σ) : σ → Prop
  | refl : Reaches step P s₀ s₀
  | tail {s s' : σ} {l : ι} : Reaches step P s₀ s → P s l → step s l = some s' →
      Reaches step P s₀ s'

/-- Some run from `s₀` ends here. -/
abbrev Reachable (step : σ → ι → Option σ) (s₀ : σ) : σ → Prop :=
  Reaches step (fun _ _ => True) s₀

/-- The state after the labels `ls`, if each can happen in its turn. -/
def run (step : σ → ι → Option σ) : σ → List ι → Option σ
  | s, [] => some s
  | s, l :: ls => (step s l).bind fun s' => run step s' ls

variable {step : σ → ι → Option σ} {P Q : σ → ι → Prop} {s₀ s s' : σ}

theorem Reaches.mono (hPQ : ∀ s l, P s l → Q s l) (h : Reaches step P s₀ s) :
    Reaches step Q s₀ s := by
  induction h with
  | refl => exact .refl
  | tail _ hP hs ih => exact ih.tail (hPQ _ _ hP) hs

theorem Reaches.reachable (h : Reaches step P s₀ s) : Reachable step s₀ s :=
  h.mono fun _ _ _ => trivial

/-- What holds at the start and is kept by every step that meets `P` holds wherever such steps
lead. -/
theorem Reaches.invariant {I : σ → Prop} (h0 : I s₀)
    (hI : ∀ s l s', Reachable step s₀ s → I s → P s l → step s l = some s' → I s')
    (h : Reaches step P s₀ s) : I s := by
  induction h with
  | refl => exact h0
  | tail hr hP hs ih => exact hI _ _ _ hr.reachable ih hP hs

/-- Along a map that takes each step to a step, or to no change, runs go to runs. -/
theorem Reaches.map {stepτ : τ → κ → Option τ} {Pτ : τ → κ → Prop} (f : σ → τ)
    (hf : ∀ s l s', Reachable step s₀ s → P s l → step s l = some s' →
      f s' = f s ∨ ∃ k, Pτ (f s) k ∧ stepτ (f s) k = some (f s'))
    (h : Reaches step P s₀ s) : Reaches stepτ Pτ (f s₀) (f s) := by
  induction h with
  | refl => exact .refl
  | tail hr hP hs ih =>
    rcases hf _ _ _ hr.reachable hP hs with heq | ⟨k, hk, hs'⟩
    · rw [heq]; exact ih
    · exact ih.tail hk hs'

theorem Reaches.trans {s₁ : σ} (h₁ : Reaches step P s₀ s₁) (h₂ : Reaches step P s₁ s) :
    Reaches step P s₀ s := by
  induction h₂ with
  | refl => exact h₁
  | tail _ hP hs ih => exact ih.tail hP hs

theorem reachable_of_run : ∀ {ls : List ι} {s₀ : σ}, run step s₀ ls = some s →
    Reachable step s₀ s
  | [], s₀, h => by
    simp only [run, Option.some.injEq] at h
    exact h ▸ .refl
  | l :: ls, s₀, h => by
    simp only [run, Option.bind_eq_some_iff] at h
    obtain ⟨s₁, h₁, h₂⟩ := h
    exact (Reaches.refl.tail trivial h₁).trans (reachable_of_run h₂)

/-- Where the labels `ls` lead. -/
def after (step : σ → ι → Option σ) (s₀ : σ) (ls : List ι) : σ := (run step s₀ ls).getD s₀

theorem reachable_after {ls : List ι} {s₀ : σ} (h : (run step s₀ ls).isSome = true) :
    Reachable step s₀ (after step s₀ ls) := by
  obtain ⟨s, hs⟩ := Option.isSome_iff_exists.1 h
  rw [after, hs]
  exact reachable_of_run hs

/-- `run`, each step of which is to meet `P`. -/
def runIf (step : σ → ι → Option σ) (P : σ → ι → Prop) [∀ s l, Decidable (P s l)] :
    σ → List ι → Option σ
  | s, [] => some s
  | s, l :: ls => if P s l then (step s l).bind fun s' => runIf step P s' ls else none

section RunIf

variable [∀ s l, Decidable (P s l)]

theorem reaches_of_runIf : ∀ {ls : List ι} {s₀ : σ}, runIf step P s₀ ls = some s →
    Reaches step P s₀ s ∧ run step s₀ ls = some s
  | [], s₀, h => by
    simp only [runIf, Option.some.injEq] at h
    exact h ▸ ⟨.refl, rfl⟩
  | l :: ls, s₀, h => by
    simp only [runIf] at h
    split_ifs at h with hP
    obtain ⟨s₁, h₁, h₂⟩ := Option.bind_eq_some_iff.1 h
    obtain ⟨hr, hs⟩ := reaches_of_runIf h₂
    refine ⟨(Reaches.refl.tail hP h₁).trans hr, ?_⟩
    rw [run, h₁]
    exact hs

theorem reaches_after {ls : List ι} {s₀ : σ} (h : (runIf step P s₀ ls).isSome = true) :
    Reaches step P s₀ (after step s₀ ls) := by
  obtain ⟨s, hs⟩ := Option.isSome_iff_exists.1 h
  obtain ⟨hr, hrun⟩ := reaches_of_runIf hs
  rw [after, hrun]
  exact hr

end RunIf

end Lib
