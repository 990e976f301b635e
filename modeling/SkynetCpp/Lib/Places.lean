import Mathlib.Data.List.Basic
import Mathlib.Tactic.SplitIfs

/-!
# Pieces between separators, and places

`pieces p s` are the runs of `s` without separators. A place is where steps lead from here, or from a
root: so many levels up, and then down along names (`Place.walk`). No step leads above a root.
-/

namespace Lib

section Pieces

variable {α : Type*} {p : α → Bool} {c : α} {s t w : List α}

/-- The runs between separators. -/
def pieces (p : α → Bool) (s : List α) : List (List α) :=
  (s.splitOnP p).filter fun w => !w.isEmpty

@[simp] theorem pieces_nil : pieces p [] = [] := by simp [pieces]

theorem not_of_mem_splitOnP (h : w ∈ s.splitOnP p) : ∀ c ∈ w, p c = false := by
  induction s generalizing w with
  | nil =>
    obtain rfl : w = [] := by simpa using h
    exact fun c hc => absurd hc List.not_mem_nil
  | cons x s ih =>
    rw [List.splitOnP_cons_eq_if_modifyHead] at h
    split_ifs at h with hx
    · rcases List.mem_cons.1 h with rfl | h
      · exact fun c hc => absurd hc List.not_mem_nil
      · exact ih h
    · obtain ⟨v, vs, hv⟩ := List.exists_cons_of_ne_nil (List.splitOnP_ne_nil p s)
      rw [hv, List.modifyHead_cons] at h
      rcases List.mem_cons.1 h with rfl | h
      · have hhead := ih (hv ▸ List.mem_cons_self)
        exact List.forall_mem_cons.2 ⟨by simpa using hx, hhead⟩
      · exact ih (hv ▸ List.mem_cons_of_mem v h)

/-- A piece is not empty and has no separators. -/
theorem mem_pieces (h : w ∈ pieces p s) : w ≠ [] ∧ ∀ c ∈ w, p c = false := by
  obtain ⟨hmem, hne⟩ := List.mem_filter.1 h
  exact ⟨by simpa using hne, not_of_mem_splitOnP hmem⟩

theorem pieces_append_cons (s t : List α) (hc : p c = true) :
    pieces p (s ++ c :: t) = pieces p s ++ pieces p t := by
  rw [pieces, List.splitOnP_append_cons s t hc, List.filter_append]
  rfl

theorem pieces_cons_sep (hc : p c = true) : pieces p (c :: s) = pieces p s :=
  pieces_append_cons [] s hc

theorem pieces_piece (hne : w ≠ []) (hw : ∀ c ∈ w, p c = false) : pieces p w = [w] := by
  simp [pieces, List.splitOnP_eq_singleton hw, hne]

/-- A piece goes on to the next separator. -/
theorem pieces_cons_cons {d : α} (hc : p c = false) (hd : p d = false) :
    ∃ w ws, pieces p (d :: s) = w :: ws ∧ pieces p (c :: d :: s) = (c :: w) :: ws := by
  obtain ⟨v, vs, hv⟩ := List.exists_cons_of_ne_nil (List.splitOnP_ne_nil p s)
  refine ⟨d :: v, vs.filter fun w => !w.isEmpty, ?_, ?_⟩ <;>
    simp [pieces, List.splitOnP_cons_eq_if_modifyHead, hc, hd, hv]

theorem splitOnP_intercalate {ws : List (List α)} (hc : p c = true) (hne : ws ≠ [])
    (hws : ∀ w ∈ ws, ∀ c ∈ w, p c = false) : ([c].intercalate ws).splitOnP p = ws := by
  induction ws with
  | nil => exact absurd rfl hne
  | cons w ws ih =>
    obtain ⟨hw, hws⟩ := List.forall_mem_cons.1 hws
    cases ws with
    | nil => simpa using List.splitOnP_eq_singleton hw
    | cons v ws =>
      rw [List.intercalate_cons_cons, List.append_assoc, List.singleton_append,
        List.splitOnP_append_cons _ _ hc, List.splitOnP_eq_singleton hw,
        ih (List.cons_ne_nil v ws) hws, List.singleton_append]

/-- Pieces that are joined are these pieces. -/
theorem pieces_intercalate {ws : List (List α)} (hc : p c = true)
    (hws : ∀ w ∈ ws, w ≠ [] ∧ ∀ c ∈ w, p c = false) : pieces p ([c].intercalate ws) = ws := by
  by_cases hne : ws = []
  · subst hne
    exact pieces_nil
  · rw [pieces, splitOnP_intercalate hc hne fun w hw => (hws w hw).2, List.filter_eq_self]
    exact fun w hw => by simpa using (hws w hw).1

end Pieces

section Places

variable {α : Type*}

/-- To the parent, or to what is called so. -/
inductive Move (α : Type*)
  | up
  | name (a : α)

/-- So many levels up, and then down. -/
structure Place (α : Type*) where
  ups : ℕ
  names : List α

namespace Place

def here : Place α := ⟨0, []⟩

/-- A root is its own parent. -/
def move (rooted : Bool) (p : Place α) : Move α → Place α
  | .name a => { p with names := p.names ++ [a] }
  | .up =>
    if p.names.isEmpty then (if rooted then p else { p with ups := p.ups + 1 })
    else { p with names := p.names.dropLast }

def walk (rooted : Bool) (p : Place α) (moves : List (Move α)) : Place α :=
  moves.foldl (move rooted) p

/-- The moves that lead to a place. -/
def moves (p : Place α) : List (Move α) := List.replicate p.ups .up ++ p.names.map .name

variable {rooted : Bool} {p : Place α}

theorem walk_append (rooted : Bool) (p : Place α) (ms ns : List (Move α)) :
    walk rooted p (ms ++ ns) = walk rooted (walk rooted p ms) ns := List.foldl_append ..

theorem walk_names (p : Place α) (names : List α) :
    walk rooted p (names.map .name) = ⟨p.ups, p.names ++ names⟩ := by
  induction names generalizing p with
  | nil => simp [walk]
  | cons a names ih => exact (ih _).trans (by simp [move])

theorem walk_ups (n k : ℕ) :
    walk false ⟨k, []⟩ (List.replicate n (.up : Move α)) = ⟨k + n, []⟩ := by
  induction n generalizing k with
  | zero => rfl
  | succ n ih => exact (ih (k + 1)).trans (by rw [Nat.add_right_comm, Nat.add_assoc])

/-- The moves to a place lead there. -/
theorem walk_moves (h : rooted = true → p.ups = 0) : walk rooted here p.moves = p := by
  rw [moves, walk_append]
  cases rooted with
  | true => rw [h rfl, List.replicate_zero, show walk true here [] = (here : Place α) by rfl,
      walk_names, here, List.nil_append, ← h rfl]
  | false => rw [here, walk_ups, walk_names, List.nil_append, Nat.zero_add]

theorem ups_move_rooted (p : Place α) (m : Move α) : (move true p m).ups = p.ups := by
  cases m with
  | name a => rfl
  | up =>
    by_cases h : p.names.isEmpty <;> simp [move, h]

/-- Nothing leads above a root. -/
theorem ups_walk_rooted (p : Place α) (ms : List (Move α)) : (walk true p ms).ups = p.ups := by
  induction ms generalizing p with
  | nil => rfl
  | cons m ms ih => exact (ih _).trans (ups_move_rooted p m)

/-- A name is not lost unless it was left again. -/
theorem mem_names_walk {ms : List (Move α)} {a : α} (h : a ∈ (walk rooted p ms).names) :
    a ∈ p.names ∨ .name a ∈ ms := by
  induction ms generalizing p with
  | nil => exact .inl h
  | cons m ms ih =>
    rcases ih h with hmem | hmem
    · cases m with
      | name b =>
        rcases List.mem_append.1 hmem with hmem | hmem
        · exact .inl hmem
        · obtain rfl := List.mem_singleton.1 hmem
          exact .inr List.mem_cons_self
      | up =>
        left
        unfold move at hmem
        split_ifs at hmem
        · exact hmem
        · exact hmem
        · exact List.dropLast_subset _ hmem
    · exact .inr (List.mem_cons_of_mem m hmem)

end Place

end Places

end Lib
