import Mathlib.Algebra.BigOperators.Group.List.Basic
import Mathlib.Algebra.Order.BigOperators.Group.List
import Mathlib.Algebra.Order.Group.Int
import Mathlib.Algebra.Ring.Int.Defs

/-!
# Totals over a list

What each element of a list counts for, added up. Replacing one element changes the total by the
difference of what the two count for.
-/

namespace Lib

variable {α : Type*}

/-- The sum of `f` over the list. -/
def total (f : α → ℤ) (l : List α) : ℤ := (l.map f).sum

@[simp] theorem total_nil (f : α → ℤ) : total f [] = 0 := rfl

@[simp] theorem total_cons (f : α → ℤ) (a : α) (l : List α) :
    total f (a :: l) = f a + total f l := by
  rw [total, List.map_cons, List.sum_cons, total]

theorem total_append (f : α → ℤ) (l l' : List α) :
    total f (l ++ l') = total f l + total f l' := by
  rw [total, List.map_append, List.sum_append, total, total]

/-- One element is replaced. -/
theorem total_set (f : α → ℤ) : ∀ {l : List α} {i : ℕ} {a : α}, l[i]? = some a → ∀ b,
    total f (l.set i b) + f a = total f l + f b
  | [], i, a, h, b => by simp at h
  | x :: l, 0, a, h, b => by
    simp only [List.getElem?_cons_zero, Option.some.injEq] at h
    subst h
    simp only [List.set_cons_zero, total_cons]
    omega
  | x :: l, i + 1, a, h, b => by
    simp only [List.getElem?_cons_succ] at h
    have := total_set f h b
    simp only [List.set_cons_succ, total_cons]
    omega

/-- Elements are replaced by others that count for as much. -/
theorem total_map {f : α → ℤ} {g : α → α} (h : ∀ a, f (g a) = f a) (l : List α) :
    total f (l.map g) = total f l := by
  rw [total, total, List.map_map]
  exact congrArg List.sum (List.map_congr_left fun a _ => h a)

theorem total_le {f g : α → ℤ} {l : List α} (h : ∀ a ∈ l, f a ≤ g a) : total f l ≤ total g l := by
  induction l with
  | nil => exact Int.le_refl 0
  | cons a l ih =>
    have ha := h a List.mem_cons_self
    have hl := ih fun b hb => h b (List.mem_cons_of_mem _ hb)
    rw [total_cons, total_cons]
    omega

theorem total_nonneg {f : α → ℤ} {l : List α} (h : ∀ a ∈ l, 0 ≤ f a) : 0 ≤ total f l := by
  induction l with
  | nil => exact Int.le_refl 0
  | cons a l ih =>
    have ha := h a List.mem_cons_self
    have hl := ih fun b hb => h b (List.mem_cons_of_mem _ hb)
    rw [total_cons]
    omega

/-- Where nothing counts for less than 0, the total is at least what one element counts for. -/
theorem le_total {f : α → ℤ} {l : List α} (h : ∀ a, 0 ≤ f a) {a : α} (ha : a ∈ l) :
    f a ≤ total f l := by
  induction l with
  | nil => cases ha
  | cons b l ih =>
    have hb := h b
    have hl := total_nonneg (l := l) fun c _ => h c
    rw [total_cons]
    rcases List.mem_cons.1 ha with rfl | ha
    · omega
    · have := ih ha
      omega

theorem add_le_total {f : α → ℤ} {l : List α} (h : ∀ a, 0 ≤ f a) {a b : α} (ha : a ∈ l)
    (hb : b ∈ l) (hne : a ≠ b) : f a + f b ≤ total f l := by
  induction l with
  | nil => cases ha
  | cons c l ih =>
    have hc := h c
    rw [total_cons]
    rcases List.mem_cons.1 ha with hac | ha <;> rcases List.mem_cons.1 hb with hbc | hb
    · exact absurd (hac.trans hbc.symm) hne
    · have := le_total h hb
      rw [hac]
      omega
    · have := le_total h ha
      rw [hbc]
      omega
    · have := ih ha hb
      omega

theorem total_neg (f : α → ℤ) (l : List α) : total (fun a => -f a) l = -total f l := by
  induction l with
  | nil => rfl
  | cons a l ih =>
    rw [total_cons, total_cons, ih]
    omega

/-- An element is taken out at its place. -/
theorem count_eraseIdx [DecidableEq α] {xs : List α} {i : ℕ} {x : α} (h : xs[i]? = some x) (y : α) :
    (xs.eraseIdx i).count y + (if x = y then 1 else 0) = xs.count y := by
  induction xs generalizing i with
  | nil => simp at h
  | cons z xs ih =>
    cases i with
    | zero =>
      simp only [List.getElem?_cons_zero, Option.some.injEq] at h
      simp [h, List.count_cons]
    | succ i =>
      simp only [List.getElem?_cons_succ] at h
      have := ih h
      simp only [List.eraseIdx_cons_succ, List.count_cons]
      omega

end Lib
