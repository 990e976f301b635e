import Mathlib.Data.List.Basic
import Mathlib.Tactic.SplitIfs

/-!
# Framing

A stream is cut into messages by a function that takes the first message off what has come, once
all of it has (`Framing.next`). What it takes does not depend on what comes after, so a receiver may
drain what has come as often as it likes and keep the rest (`Framing.feed_eq`).
-/

namespace Lib

structure Framing (α β : Type*) where
  next : List α → Option (β × List α)
  shorter : ∀ {b x r}, next b = some (x, r) → r.length < b.length
  append : ∀ {b x r} (c : List α), next b = some (x, r) → next (b ++ c) = some (x, r ++ c)

namespace Framing

variable {α β : Type*} (F : Framing α β) {b r c : List α} {x : β} {xs : List β} {n : ℕ}

/-- At most `n` messages. -/
def drainLoop : ℕ → List α → List β × List α
  | 0, b => ([], b)
  | n + 1, b =>
    match F.next b with
    | some (x, r) => (x :: (drainLoop n r).1, (drainLoop n r).2)
    | none => ([], b)

/-- All the messages that are complete, and the rest. -/
def drain (b : List α) : List β × List α := F.drainLoop b.length b

/-- The receiver that keeps `r` gets the chunks one by one. -/
def feed : List α → List (List α) → List β × List α
  | r, [] => ([], r)
  | r, c :: cs =>
    ((F.drain (r ++ c)).1 ++ (feed (F.drain (r ++ c)).2 cs).1, (feed (F.drain (r ++ c)).2 cs).2)

/-- Message by message. -/
@[elab_as_elim]
theorem step_induction {P : List α → Prop} (hnone : ∀ b, F.next b = none → P b)
    (hsome : ∀ b x r, F.next b = some (x, r) → P r → P b) (b : List α) : P b := by
  rcases h : F.next b with _ | ⟨x, r⟩
  · exact hnone b h
  · have hlt := F.shorter h
    exact hsome b x r h (step_induction hnone hsome r)
termination_by b.length

theorem next_nil : F.next [] = none := by
  rcases h : F.next [] with _ | ⟨x, r⟩
  · rfl
  · exact absurd (F.shorter h) (Nat.not_lt_zero _)

theorem drainLoop_none (n : ℕ) (h : F.next b = none) : F.drainLoop n b = ([], b) := by
  cases n with
  | zero => rfl
  | succ n => simp only [drainLoop, h]

theorem drainLoop_some (h : F.next b = some (x, r)) (hn : b.length ≤ n) :
    ∃ m, r.length ≤ m ∧ F.drainLoop n b = (x :: (F.drainLoop m r).1, (F.drainLoop m r).2) := by
  have hlt := F.shorter h
  cases n with
  | zero => omega
  | succ n => exact ⟨n, by omega, by simp only [drainLoop, h]⟩

theorem drainLoop_eq (h : b.length ≤ n) : F.drainLoop n b = F.drain b := by
  have hsame : ∀ n m, b.length ≤ n → b.length ≤ m → F.drainLoop n b = F.drainLoop m b := by
    clear h
    induction b using F.step_induction with
    | hnone b hnext =>
      intro n m _ _
      rw [F.drainLoop_none n hnext, F.drainLoop_none m hnext]
    | hsome b x r hnext ih =>
      intro n m hn hm
      obtain ⟨n', hn', heq⟩ := F.drainLoop_some hnext hn
      obtain ⟨m', hm', heq'⟩ := F.drainLoop_some hnext hm
      rw [heq, heq', ih n' m' hn' hm']
  exact hsame n b.length h (Nat.le_refl _)

theorem drain_none (h : F.next b = none) : F.drain b = ([], b) := F.drainLoop_none b.length h

theorem drain_some (h : F.next b = some (x, r)) :
    F.drain b = (x :: (F.drain r).1, (F.drain r).2) := by
  obtain ⟨m, hm, heq⟩ := F.drainLoop_some h (Nat.le_refl _)
  rw [drain, heq, F.drainLoop_eq hm]

/-- What is drained is drained for good. -/
theorem drain_append (b c : List α) : F.drain (b ++ c) =
    ((F.drain b).1 ++ (F.drain ((F.drain b).2 ++ c)).1, (F.drain ((F.drain b).2 ++ c)).2) := by
  induction b using F.step_induction with
  | hnone b hnext =>
    rw [F.drain_none hnext]
    rfl
  | hsome b x r hnext ih =>
    rw [F.drain_some hnext, F.drain_some (F.append c hnext), ih]
    rfl

theorem next_rest (b : List α) : F.next (F.drain b).2 = none := by
  induction b using F.step_induction with
  | hnone b hnext =>
    rw [F.drain_none hnext]
    exact hnext
  | hsome b x r hnext ih =>
    rw [F.drain_some hnext]
    exact ih

/-- How the stream is cut into chunks makes no difference. -/
theorem feed_eq (cs : List (List α)) (h : F.next r = none) :
    F.feed r cs = F.drain (r ++ cs.flatten) := by
  induction cs generalizing r with
  | nil => rw [List.flatten_nil, List.append_nil, F.drain_none h, feed]
  | cons c cs ih =>
    rw [feed, ih (F.next_rest _), List.flatten_cons, ← List.append_assoc, F.drain_append (r ++ c)]

theorem drain_forall {P : β → Prop} (hP : ∀ b x r, F.next b = some (x, r) → P x) (b : List α) :
    ∀ x ∈ (F.drain b).1, P x := by
  induction b using F.step_induction with
  | hnone b hnext =>
    rw [F.drain_none hnext]
    exact fun x hx => absurd hx List.not_mem_nil
  | hsome b x r hnext ih =>
    rw [F.drain_some hnext]
    exact List.forall_mem_cons.2 ⟨hP b x r hnext, ih⟩

section Encoding

variable {F} {enc : β → List α}

/-- The messages are drained that were written. -/
theorem drain_encoded (henc : ∀ x ∈ xs, ∀ c, F.next (enc x ++ c) = some (x, c)) :
    F.drain (xs.map enc).flatten = (xs, []) := by
  induction xs with
  | nil => exact F.drain_none F.next_nil
  | cons x xs ih =>
    rw [List.map_cons, List.flatten_cons, F.drain_some (henc x List.mem_cons_self _),
      ih fun y hy => henc y (List.mem_cons_of_mem _ hy)]

/-- What is drained and what is kept make up what has come. -/
theorem encoded_drain (hdec : ∀ b x r, F.next b = some (x, r) → enc x ++ r = b) (b : List α) :
    ((F.drain b).1.map enc).flatten ++ (F.drain b).2 = b := by
  induction b using F.step_induction with
  | hnone b hnext =>
    rw [F.drain_none hnext]
    rfl
  | hsome b x r hnext ih =>
    rw [F.drain_some hnext, List.map_cons, List.flatten_cons, List.append_assoc, ih,
      hdec b x r hnext]

end Encoding

end Framing

end Lib
