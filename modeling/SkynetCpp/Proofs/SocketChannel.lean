import SkynetCpp.SocketChannel
import Mathlib.Tactic.SplitIfs
import Mathlib.Logic.Function.Basic

/-!
# The tables of a channel

Who waits for which session, and what lies in the result tables, after each function of the
channel.
-/

namespace SkynetCpp

namespace SocketChannel

variable {α ε : Type}

namespace Channel

theorem find_drop (l : List (ℕ × Coroutine)) (session session' : ℕ) :
    (l.filter fun p => p.1 ≠ session).find? (fun p => p.1 = session')
      = if session' = session then none else l.find? fun p => p.1 = session' := by
  induction l with
  | nil => simp
  | cons p l ih =>
    rw [List.filter_cons, List.find?_cons]
    by_cases hp : p.1 = session
    · rw [if_neg (by simpa using hp), ih]
      by_cases hs : session' = session
      · rw [if_pos hs, if_pos hs]
      · have hps : decide (p.1 = session') = false := by
          rw [decide_eq_false_iff_not, hp]
          exact fun h => hs h.symm
        rw [if_neg hs, if_neg hs, hps]
    · rw [if_pos (by simpa using hp), List.find?_cons, ih]
      by_cases hs : session' = session
      · have hps : decide (p.1 = session') = false := by rwa [decide_eq_false_iff_not, hs]
        rw [if_pos hs, if_pos hs, hps]
      · rw [if_neg hs, if_neg hs]

theorem waiter_pushResponse (ch : Channel α ε) (session session' : ℕ) (co : Coroutine) :
    (ch.pushResponse session co).waiter session'
      = if session' = session then some co else ch.waiter session' := by
  unfold waiter pushResponse
  rw [List.find?_append, find_drop]
  by_cases hs : session' = session
  · rw [if_pos hs, if_pos hs, hs]
    simp
  · have hne : ¬ session = session' := fun h => hs h.symm
    rw [if_neg hs, if_neg hs]
    simp [hne]

theorem waiter_respond (ch : Channel α ε) (r : Decoded α) (session : ℕ) :
    (ch.respond r).1.waiter session
      = if r.padding = false ∧ session = r.session then none else ch.waiter session := by
  unfold respond
  rcases hw : ch.waiter r.session with _ | co
  · by_cases h : r.padding = false ∧ session = r.session
    · rw [if_pos h, h.2]
      exact hw
    · rw [if_neg h]
  · rcases hpad : r.padding with _ | _
    · show Option.map Prod.snd (List.find? _ (ch.thread.filter fun p => p.1 ≠ r.session)) = _
      rw [find_drop]
      by_cases hs : session = r.session
      · rw [if_pos hs, if_pos ⟨rfl, hs⟩]
        rfl
      · rw [if_neg hs, if_neg fun h => hs h.2]
        rfl
    · rw [if_neg (by simp)]
      rfl

/-- A response leaves the results of all but the coroutine of its session. -/
theorem respond_of_ne {ch : Channel α ε} {r : Decoded α} {co : Coroutine}
    (h : ch.waiter r.session ≠ some co) :
    (ch.respond r).1.resultData co = ch.resultData co
      ∧ (ch.respond r).1.result co = ch.result co ∧ (ch.respond r).2 ≠ some co := by
  unfold respond
  rcases hw : ch.waiter r.session with _ | co'
  · exact ⟨rfl, rfl, by simp⟩
  · have hne : co ≠ co' := fun he => h (by rw [hw, he])
    rcases hpad : r.padding with _ | _
    · exact ⟨Function.update_of_ne hne _ _, Function.update_of_ne hne _ _, by simp [hne.symm]⟩
    · exact ⟨Function.update_of_ne hne _ _, rfl, by simp⟩

/-- The parts of a session that have come. -/
def partsOf (data : Option (ResultData α ε)) : Option (List α) :=
  match data with
  | some (.parts l) => some l
  | _ => none

/-- A part of a padded response is appended. -/
theorem respond_padding {ch : Channel α ε} {r : Decoded α} {co : Coroutine}
    (h : ch.waiter r.session = some co) (hp : r.padding = true) :
    (ch.respond r).1.resultData co
        = some (.parts ((partsOf (ch.resultData co)).getD [] ++ [r.data]))
      ∧ (ch.respond r).1.result co = ch.result co ∧ (ch.respond r).2 = none := by
  unfold respond
  rw [h]
  simp only [hp]
  exact ⟨Function.update_self _ _ _, rfl, rfl⟩

/-- The last part is appended to those before it, if there are any, and the coroutine is woken. -/
theorem respond_last {ch : Channel α ε} {r : Decoded α} {co : Coroutine}
    (h : ch.waiter r.session = some co) (hp : r.padding = false) :
    (ch.respond r).1.resultData co
        = some (match partsOf (ch.resultData co) with
          | some l => .parts (l ++ [r.data])
          | none => .data r.data)
      ∧ (ch.respond r).1.result co = some r.ok ∧ (ch.respond r).2 = some co := by
  unfold respond
  rw [h]
  simp only [hp]
  exact ⟨Function.update_self _ _ _, Function.update_self _ _ _, rfl⟩

end Channel

end SocketChannel

end SkynetCpp
