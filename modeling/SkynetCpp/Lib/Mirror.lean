import Mathlib.Data.Finset.Basic
import Mathlib.Data.Finset.Lattice.Lemmas

/-!
# Mirrors

An owner has a set, and a mirror of it is kept elsewhere. Requests to add or to remove go to the
owner in order, what the owner has done is confirmed in order, and the mirror follows. When the two
are connected anew the owner has nothing, and is first asked for all that the mirror has.
-/

namespace Lib

namespace Mirror

variable {κ : Type*} [DecidableEq κ]

inductive Op (κ : Type*)
  | add (k : κ)
  | remove (k : κ)

def Op.apply (s : Finset κ) : Op κ → Finset κ
  | .add k => insert k s
  | .remove k => s.erase k

def applyAll (s : Finset κ) (ops : List (Op κ)) : Finset κ := ops.foldl Op.apply s

/-- With what is confirmed the mirror has what the owner has, and what the owner was first asked for
and has not added yet. -/
def Inv (mirror owner : Finset κ) (asked confirmed : List (Op κ)) : Prop :=
  ∃ (first : List κ) (rest : List (Op κ)), asked = first.map Op.add ++ rest
    ∧ applyAll mirror confirmed = owner ∪ first.toFinset

variable {mirror owner : Finset κ} {asked confirmed : List (Op κ)}

theorem applyAll_append (ops : List (Op κ)) :
    applyAll owner (asked ++ ops) = applyAll (applyAll owner asked) ops := List.foldl_append

theorem applyAll_add (first : List κ) :
    applyAll owner (first.map Op.add) = owner ∪ first.toFinset := by
  induction first generalizing owner with
  | nil => exact (Finset.union_empty owner).symm
  | cons k first ih =>
    have hcons : applyAll owner ((k :: first).map Op.add)
        = applyAll (insert k owner) (first.map Op.add) := rfl
    rw [hcons, ih, List.toFinset_cons, Finset.insert_union, Finset.union_insert]

theorem Inv.anew {first : List κ} (h : first.toFinset = mirror) :
    Inv mirror ∅ (first.map Op.add) [] := by
  refine ⟨first, [], (List.append_nil _).symm, ?_⟩
  rw [h, Finset.empty_union]
  rfl

theorem Inv.ask (h : Inv mirror owner asked confirmed) (ops : List (Op κ)) :
    Inv mirror owner (asked ++ ops) confirmed := by
  obtain ⟨first, rest, rfl, heq⟩ := h
  exact ⟨first, rest ++ ops, List.append_assoc .., heq⟩

/-- The owner does what it is asked for, and confirms it. -/
theorem Inv.serve {op : Op κ} (h : Inv mirror owner (op :: asked) confirmed) :
    Inv mirror (op.apply owner) asked (confirmed ++ [op]) := by
  obtain ⟨first, rest, hasked, heq⟩ := h
  have hlast : applyAll mirror (confirmed ++ [op]) = op.apply (owner ∪ first.toFinset) := by
    rw [applyAll_append, heq]
    rfl
  cases first with
  | nil =>
    refine ⟨[], asked, rfl, ?_⟩
    rw [hlast, List.toFinset_nil, Finset.union_empty, Finset.union_empty]
  | cons k first =>
    obtain ⟨rfl, rfl⟩ := List.cons.inj hasked
    refine ⟨first, rest, rfl, ?_⟩
    rw [hlast, Op.apply, Op.apply, List.toFinset_cons, Finset.insert_union, Finset.union_insert,
      Finset.insert_idem]

theorem Inv.serveAll {ops : List (Op κ)} (h : Inv mirror owner (ops ++ asked) confirmed) :
    Inv mirror (applyAll owner ops) asked (confirmed ++ ops) := by
  induction ops generalizing owner confirmed with
  | nil =>
    rw [List.append_nil]
    exact h
  | cons op ops ih =>
    have hserved := ih h.serve
    rwa [List.append_assoc, List.singleton_append] at hserved

theorem Inv.follow {op : Op κ} (h : Inv mirror owner asked (op :: confirmed)) :
    Inv (op.apply mirror) owner asked confirmed := h

/-- What the two come to when all has arrived is the same. -/
theorem Inv.converges (h : Inv mirror owner asked confirmed) :
    applyAll mirror (confirmed ++ asked) = applyAll owner asked := by
  obtain ⟨first, rest, rfl, heq⟩ := h
  rw [applyAll_append, heq, applyAll_append, applyAll_append, applyAll_add, applyAll_add,
    Finset.union_assoc, Finset.union_self]

theorem Inv.settled (h : Inv mirror owner [] []) : mirror = owner := h.converges

end Mirror

end Lib
