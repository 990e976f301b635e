import Mathlib.Data.List.Basic

/-!
# Threads as stacks of frames

The state of a multi-threaded program is a list of call stacks, innermost frame first. A thread
steps by replacing its top frame with the frames that remain to be executed. Seen from the list
of all frames, one frame is replaced in place (`frames_set`), so how many frames have a property
changes by what that one step removes and adds.
-/

namespace Lib

variable {φ : Type*}

/-- The frames of all threads. -/
abbrev frames (ts : List (List φ)) : List φ := ts.flatten

/-- Replacing the top frame of one stack replaces one frame among all of them. -/
theorem frames_set : ∀ {ts : List (List φ)} {i : ℕ} {f : φ} {rest : List φ},
    ts[i]? = some (f :: rest) → ∃ pre post, frames ts = pre ++ f :: post ∧
      ∀ fs, frames (ts.set i (fs ++ rest)) = pre ++ fs ++ post
  | [], i, f, rest, h => by simp at h
  | st :: ts, 0, f, rest, h => by
    simp only [List.getElem?_cons_zero, Option.some.injEq] at h
    subst h
    exact ⟨[], rest ++ ts.flatten, by simp [frames], fun fs => by simp [frames]⟩
  | st :: ts, i + 1, f, rest, h => by
    simp only [List.getElem?_cons_succ] at h
    obtain ⟨pre, post, h1, h2⟩ := frames_set h
    refine ⟨st ++ pre, post, ?_, fun fs => ?_⟩
    · simp only [frames, List.flatten_cons] at h1 ⊢
      rw [h1, List.append_assoc]
    · have := h2 fs
      simp only [frames, List.set_cons_succ, List.flatten_cons] at this ⊢
      rw [this]
      simp

end Lib
