import Mathlib.Data.Multiset.Filter
import SkynetCpp.ActorSystem
import SkynetCpp.Roles

/-!
# One queue of the system

What the rest of the system can do to one queue: push a message, kill it, and take one of its
tokens. Its own code runs as in `ActorQueue`, all of it at once: a view is the queue, the points
at which some thread runs on it, and its tokens in the global queue. Which thread is where, and
what waits for what, is forgotten, so the view can do more than the queue.
-/

namespace SkynetCpp

structure View where
  queue : ActorQueue
  ops : Multiset Op
  tokens : ℕ

def Shared.tokens : Shared → ℕ
  | .token => 1
  | _ => 0

inductive ViewLabel
  | op (o : Op) (tid : ℕ) (weight : ℤ) (c : Choice)
  | push (m : Message)
  | kill
  | take

/-- How many of the points `os` are in each class. -/
def countsOf (os : Multiset Op) : Counts := fun p => os.countP (p · = true)

theorem countsOf_lawful (os : Multiset Op) : (countsOf os).Lawful where
  zero := by simp [countsOf]
  le_add {p p₁ p₂} h := by
    induction os using Multiset.induction with
    | empty => simp [countsOf]
    | cons o os ih =>
      simp only [countsOf, Multiset.countP_cons] at ih ⊢
      have := h o
      split_ifs <;> simp_all <;> omega

namespace View

/-- A queue right after `spawn` has made it. -/
def fresh (h : Handle) : View := ⟨{ handle := h }, {.spawnRegister}, 0⟩

def step (v : View) : ViewLabel → Option View
  | .op o tid weight c =>
    if o ∈ v.ops then
      (o.exec tid weight v.queue c).map fun r =>
        ⟨r.queue, (r.next : Multiset Op) + v.ops.erase o, v.tokens + r.shared.tokens⟩
    else none
  | .push m => some { v with ops := .pushAccepting m ::ₘ v.ops }
  | .kill =>
    if v.queue.killed then none
    else some { v with queue := { v.queue with killed := true }, ops := .killAccepting ::ₘ v.ops }
  | .take =>
    match v.tokens with
    | 0 => none
    | n + 1 => some { v with ops := .dispatchState ::ₘ v.ops, tokens := n }

/-- How many threads run at a point of each class. -/
def num (v : View) : Counts := countsOf v.ops

/-- The label's access, if it is one, meets `P`. -/
def Meets (P : ActorQueue → Counts → Op → Prop) (v : View) : ViewLabel → Prop
  | .op o _ _ _ => P v.queue v.num o
  | _ => True

variable {v v' : View}

/-- A step of the queue's own code replaces one point by the next ones. -/
theorem step_op {o : Op} {tid : ℕ} {weight : ℤ} {c : Choice}
    (h : v.step (.op o tid weight c) = some v') :
    ∃ r, o.exec tid weight v.queue c = some r ∧ v'.queue = r.queue
      ∧ v'.tokens = v.tokens + r.shared.tokens
      ∧ ∃ n : Counts, n.Lawful ∧ v.num = n.add [o] ∧ v'.num = n.add r.next := by
  simp only [step] at h
  split_ifs at h with ho
  obtain ⟨r, hr, rfl⟩ := Option.map_eq_some_iff.1 h
  refine ⟨r, hr, rfl, rfl, countsOf (v.ops.erase o), countsOf_lawful _, ?_, ?_⟩
  · funext p
    conv_lhs => rw [num, countsOf, ← Multiset.cons_erase ho, Multiset.countP_cons]
    simp [Counts.add, countsOf, List.countP_cons]
  · funext p
    simp only [num, countsOf, Counts.add, Multiset.countP_add, Multiset.coe_countP]
    rw [Nat.add_comm]
    congr 2
    funext o
    simp

theorem num_cons (q : ActorQueue) (o : Op) (t : ℕ) :
    (⟨q, o ::ₘ v.ops, t⟩ : View).num = v.num.add [o] := by
  funext p
  simp [num, countsOf, Counts.add, Multiset.countP_cons, List.countP_cons]

end View

end SkynetCpp
