import Mathlib.Data.List.Basic

/-!
# Histories

A history is the list of the events so far, the latest first. `Since P Q` says that some event had
`P`, by what was before it, and all that came since have `Q`.
-/

namespace Lib

variable {ε : Type*}

def Since (P : ε → List ε → Prop) (Q : ε → Prop) (past : List ε) : Prop :=
  ∃ later e before, past = later ++ e :: before ∧ P e before ∧ ∀ x ∈ later, Q x

variable {P P' : ε → List ε → Prop} {Q Q' : ε → Prop} {past : List ε} {e : ε}

theorem not_since_nil : ¬ Since P Q [] := by
  rintro ⟨later, e, before, hpast, -⟩
  exact absurd hpast (by simp)

theorem since_cons : Since P Q (e :: past) ↔ P e past ∨ Q e ∧ Since P Q past := by
  constructor
  · rintro ⟨later, x, before, hpast, hx, hlater⟩
    cases later with
    | nil =>
      obtain ⟨rfl, rfl⟩ := List.cons.inj hpast
      exact .inl hx
    | cons y later =>
      obtain ⟨rfl, rfl⟩ := List.cons.inj hpast
      obtain ⟨hy, hlater⟩ := List.forall_mem_cons.1 hlater
      exact .inr ⟨hy, later, x, before, rfl, hx, hlater⟩
  · rintro (he | ⟨he, later, x, before, rfl, hx, hlater⟩)
    · exact ⟨[], e, past, rfl, he, fun _ h => absurd h List.not_mem_nil⟩
    · exact ⟨e :: later, x, before, rfl, hx, List.forall_mem_cons.2 ⟨he, hlater⟩⟩

/-- What began and did not end is so of a condition that began no later and ends no sooner. -/
theorem Since.trans (h : Since P Q past) (hQ : ∀ x, Q x → Q' x)
    (hP : ∀ x before, P x before → Q' x ∧ Since P' Q' before) : Since P' Q' past := by
  obtain ⟨later, x, before, rfl, hx, hlater⟩ := h
  induction later with
  | nil => exact since_cons.2 (.inr (hP x before hx))
  | cons y later ih =>
    obtain ⟨hy, hlater⟩ := List.forall_mem_cons.1 hlater
    exact since_cons.2 (.inr ⟨hQ y hy, ih hlater⟩)

end Lib
