import Mathlib.Data.Fintype.EquivFin
import Mathlib.Logic.Relation
import Mathlib.Tactic.SplitIfs

/-!
# Calls with loops

What a call comes to when its loops are given a number of rounds: it returns, it raises, or it is
still at a loop. More rounds only finish what was unfinished (`Outcome.Le`). `whileLoop` is a loop
that has a position and something that it builds, and `MovesBy` says which way its position goes.
Where only finitely many positions have a next one, the loop ends unless it comes back to a position
(`MovesBy.ends_iff`). A loop over a list that never raises is a map or a fold (`mapM_some`,
`foldlM_some`).
-/

namespace Lib

open Relation

universe u

/-- A call returns, raises, or is at a loop whose rounds are used up. -/
inductive Outcome (α : Type u)
  | done (a : α)
  | raised
  | unfinished
  deriving DecidableEq

namespace Outcome

variable {α β : Type u}

def bind (x : Outcome α) (f : α → Outcome β) : Outcome β :=
  match x with
  | done a => f a
  | raised => raised
  | unfinished => unfinished

instance : Monad Outcome where
  pure := done
  bind := bind

/-- What a function returns that raises for `none`. -/
def of : Option α → Outcome α
  | some a => done a
  | none => raised

@[simp] theorem pure_eq (a : α) : (pure a : Outcome α) = done a := rfl
@[simp] theorem done_bind (a : α) (f : α → Outcome β) : done a >>= f = f a := rfl
@[simp] theorem raised_bind (f : α → Outcome β) : raised >>= f = raised := rfl
@[simp] theorem unfinished_bind (f : α → Outcome β) : unfinished >>= f = unfinished := rfl

@[simp] theorem of_ne_unfinished (x : Option α) : of x ≠ unfinished := by
  cases x <;> nofun

@[simp] theorem of_eq_done {x : Option α} {a : α} : of x = done a ↔ x = some a := by
  cases x <;> simp [of]

theorem bind_eq_done {x : Outcome α} {f : α → Outcome β} {b : β} :
    x >>= f = done b ↔ ∃ a, x = done a ∧ f a = done b := by
  cases x <;> simp

theorem bind_eq_unfinished {x : Outcome α} {f : α → Outcome β} :
    x >>= f = unfinished ↔ x = unfinished ∨ ∃ a, x = done a ∧ f a = unfinished := by
  cases x <;> simp

/-- `y` is `x`, with more rounds. -/
def Le (x y : Outcome α) : Prop := x = unfinished ∨ x = y

theorem Le.refl (x : Outcome α) : Le x x := .inr rfl

theorem Le.eq {x y : Outcome α} (h : Le x y) (hx : x ≠ unfinished) : x = y := h.resolve_left hx

theorem Le.bind {x y : Outcome α} {f g : α → Outcome β} (h : Le x y) (hfg : ∀ a, Le (f a) (g a)) :
    Le (x >>= f) (y >>= g) := by
  rcases h with rfl | rfl
  · exact .inl rfl
  · cases x with
    | done a => exact hfg a
    | raised | unfinished => exact .refl _

/-- A result that came for some number of rounds is the only one. -/
theorem eq_done_of_mono {f : ℕ → Outcome α} (hf : ∀ {m n}, m ≤ n → Le (f m) (f n)) {m n : ℕ}
    {a : α} (hm : f m = done a) (hn : f n ≠ unfinished) : f n = done a := by
  rcases Nat.le_total m n with h | h
  · rw [← hm, (hf h).eq (hm ▸ nofun)]
  · rw [← hm, (hf h).eq hn]

end Outcome

open Outcome

variable {κ τ : Type u} (more : κ → Prop)

/-- `while more pos do … end`, for this many rounds at most. -/
def whileLoop [DecidablePred more] (body : κ × τ → Outcome (κ × τ)) : ℕ → κ × τ → Outcome (κ × τ)
  | rounds, s =>
    if more s.1 then
      match rounds with
      | 0 => .unfinished
      | rounds + 1 => body s >>= whileLoop body rounds
    else .done s

/-- From a position that the loop goes on from, its body leads along `r`, whatever was built. -/
structure MovesBy (body : ℕ → κ × τ → Outcome (κ × τ)) (r : κ → κ → Prop) : Prop where
  mono : ∀ {m n} s, m ≤ n → Le (body m s) (body n s)
  guard : ∀ {p q}, r p q → more p
  leads : ∀ {p q} t, more p → (r p q ↔ ∃ n t', body n (p, t) = .done (q, t'))

variable {more} {body : ℕ → κ × τ → Outcome (κ × τ)} {r : κ → κ → Prop} {p q : κ}

section whileLoop
variable [DecidablePred more]

theorem whileLoop_of_not {f : κ × τ → Outcome (κ × τ)} (hp : ¬ more p) (n : ℕ) (t : τ) :
    whileLoop more f n (p, t) = .done (p, t) := by
  cases n <;> exact if_neg hp

theorem whileLoop_zero {f : κ × τ → Outcome (κ × τ)} (hp : more p) (t : τ) :
    whileLoop more f 0 (p, t) = .unfinished := if_pos hp

theorem whileLoop_succ {f : κ × τ → Outcome (κ × τ)} (hp : more p) (n : ℕ) (t : τ) :
    whileLoop more f (n + 1) (p, t) = f (p, t) >>= whileLoop more f n := if_pos hp

theorem whileLoop_mono {f g : κ × τ → Outcome (κ × τ)} (hfg : ∀ s, Le (f s) (g s)) {m n : ℕ}
    (h : m ≤ n) (s : κ × τ) : Le (whileLoop more f m s) (whileLoop more g n s) := by
  induction m generalizing n s with
  | zero =>
    obtain ⟨p, t⟩ := s
    by_cases hp : more p
    · exact .inl (whileLoop_zero hp t)
    · rw [whileLoop_of_not hp, whileLoop_of_not hp]
      exact .refl _
  | succ m ih =>
    obtain ⟨p, t⟩ := s
    obtain ⟨n, rfl⟩ : ∃ k, n = k + 1 := ⟨n - 1, by omega⟩
    by_cases hp : more p
    · rw [whileLoop_succ hp, whileLoop_succ hp]
      exact (hfg _).bind (ih (by omega))
    · rw [whileLoop_of_not hp, whileLoop_of_not hp]
      exact .refl _

/-- What the body keeps is kept by the loop. -/
theorem whileLoop_invariant {f : κ × τ → Outcome (κ × τ)} {I : κ × τ → Prop}
    (hI : ∀ s s', I s → f s = .done s' → I s') {n : ℕ} {s s' : κ × τ} (h0 : I s)
    (h : whileLoop more f n s = .done s') : I s' := by
  induction n generalizing s with
  | zero =>
    obtain ⟨p, t⟩ := s
    by_cases hp : more p
    · simp [whileLoop_zero hp] at h
    · rw [whileLoop_of_not hp] at h
      cases h
      exact h0
  | succ n ih =>
    obtain ⟨p, t⟩ := s
    by_cases hp : more p
    · rw [whileLoop_succ hp, bind_eq_done] at h
      obtain ⟨s₁, hs, hn⟩ := h
      exact ih (hI _ _ h0 hs) hn
    · rw [whileLoop_of_not hp] at h
      cases h
      exact h0

end whileLoop

/-- What leads to no cycle leads to an end, if only finitely many states have a next one. -/
theorem acc_of_acyclic {x : κ} (s : Finset κ) (hs : ∀ {a b}, r a b → a ∈ s)
    (h : ∀ y, ReflTransGen r x y → ¬ TransGen r y y) : Acc (flip r) x := by
  let r' (a b : {y // y ∈ s ∧ ReflTransGen r x y}) : Prop := TransGen r b.1 a.1
  have : IsTrans _ r' := ⟨fun _ _ _ hab hbc => hbc.trans hab⟩
  have : Std.Irrefl r' := ⟨fun a ha => h a.1 a.2.2 ha⟩
  have hwf : WellFounded r' := by
    have : Finite {y // y ∈ s ∧ ReflTransGen r x y} :=
      Finite.of_injective (fun a => (⟨a.1, a.2.1⟩ : s)) fun a b hab =>
        Subtype.ext (Subtype.mk.inj hab)
    exact Finite.wellFounded_of_trans_of_irrefl r'
  have hacc : ∀ a : {y // y ∈ s ∧ ReflTransGen r x y}, Acc (flip r) a.1 := by
    intro a
    induction a using hwf.induction with
    | _ a ih =>
      refine ⟨_, fun b hb => ?_⟩
      by_cases hmem : b ∈ s
      · exact ih ⟨b, hmem, a.2.2.tail hb⟩ (.single hb)
      · exact ⟨_, fun c hc => (hmem (hs hc)).elim⟩
  by_cases hmem : x ∈ s
  · exact hacc ⟨x, hmem, .refl⟩
  · exact ⟨_, fun b hb => (hmem (hs hb)).elim⟩

namespace MovesBy

theorem step (h : MovesBy more body r) (hp : more p) {t : τ} {n : ℕ} {s : κ × τ}
    (hs : body n (p, t) = .done s) : r p s.1 :=
  (h.leads t hp).2 ⟨n, s.2, hs⟩

/-- Rounds do not matter to a position that only unfinished ones follow. -/
theorem body_cases (h : MovesBy more body r) (hpq : r p q) (n : ℕ) (t : τ) :
    body n (p, t) = .unfinished ∨ ∃ t', body n (p, t) = .done (q, t') := by
  obtain ⟨m, t', hm⟩ := (h.leads t (h.guard hpq)).1 hpq
  by_cases hn : body n (p, t) = .unfinished
  · exact .inl hn
  · exact .inr ⟨t', eq_done_of_mono (f := fun k => body k (p, t)) (h.mono _) hm hn⟩

variable [DecidablePred more]

/-- The loop never ends from here. -/
def Stuck (more : κ → Prop) [DecidablePred more] (body : ℕ → κ × τ → Outcome (κ × τ)) (p : κ) :
    Prop :=
  ∀ m n t, whileLoop more (body m) n (p, t) = .unfinished

theorem stuck_of_path (h : MovesBy more body r) (hpq : ReflTransGen r p q)
    (hq : Stuck more body q) : Stuck more body p := by
  induction hpq using ReflTransGen.head_induction_on with
  | refl => exact hq
  | head hab _ ih =>
    intro m n t
    cases n with
    | zero => exact whileLoop_zero (h.guard hab) t
    | succ n =>
      rw [whileLoop_succ (h.guard hab)]
      rcases h.body_cases hab m t with hb | ⟨t', hb⟩
      · rw [hb, unfinished_bind]
      · rw [hb, done_bind, ih]

theorem stuck_of_cycle (h : MovesBy more body r) (hp : TransGen r p p) : Stuck more body p := by
  intro m n t
  induction n generalizing p t with
  | zero =>
    obtain ⟨c, hpc, -⟩ := TransGen.head'_iff.1 hp
    exact whileLoop_zero (h.guard hpc) t
  | succ n ih =>
    obtain ⟨c, hpc, hcp⟩ := TransGen.head'_iff.1 hp
    rw [whileLoop_succ (h.guard hpc)]
    rcases h.body_cases hpc m t with hb | ⟨t', hb⟩
    · rw [hb, unfinished_bind]
    · rw [hb, done_bind, ih (TransGen.tail' hcp hpc)]

theorem stuck_of_body (hp : more p) (hb : ∀ n t, body n (p, t) = .unfinished) :
    Stuck more body p := by
  intro m n t
  cases n with
  | zero => exact whileLoop_zero hp t
  | succ n => rw [whileLoop_succ hp, hb, unfinished_bind]

/-- The loop ends from a position that only finitely many steps follow, if its body does. -/
theorem ends_of_acc (h : MovesBy more body r) (hacc : Acc (flip r) p)
    (hbody : ∀ q, ReflTransGen r p q → more q → ∀ t, ∃ n, body n (q, t) ≠ .unfinished) (t : τ) :
    ∃ m n, whileLoop more (body m) n (p, t) ≠ .unfinished := by
  induction hacc generalizing t with
  | intro p _ ih =>
    by_cases hp : more p
    · obtain ⟨m, hm⟩ := hbody p .refl hp t
      cases hs : body m (p, t) with
      | unfinished => exact (hm hs).elim
      | raised => exact ⟨m, 1, by rw [whileLoop_succ hp, hs]; nofun⟩
      | done s =>
        obtain ⟨q, t'⟩ := s
        have hpq := h.step hp hs
        obtain ⟨m', n, hn⟩ := ih q hpq (fun c hc => hbody c (hc.head hpq)) t'
        have hb : body (max m m') (p, t) = .done (q, t') := by
          rw [← hs, (h.mono _ (Nat.le_max_left m m')).eq (hs ▸ nofun)]
        have hle : Le (whileLoop more (body m') n (q, t')) (whileLoop more (body _) n (q, t')) :=
          whileLoop_mono (fun s => h.mono s (Nat.le_max_right m m')) n.le_refl _
        refine ⟨max m m', n + 1, ?_⟩
        rwa [whileLoop_succ hp, hb, done_bind, ← hle.eq hn]
    · exact ⟨0, 0, by rw [whileLoop_of_not hp]; nofun⟩

/-- As many rounds for the body as for the loop. -/
theorem le_max (h : MovesBy more body r) (m n : ℕ) (s : κ × τ) :
    Le (whileLoop more (body m) n s) (whileLoop more (body (max m n)) (max m n) s) :=
  whileLoop_mono (fun s => h.mono s (Nat.le_max_left m n)) (Nat.le_max_right m n) s

theorem path_of_done (h : MovesBy more body r) {m n : ℕ} {t t' : τ}
    (hn : whileLoop more (body m) n (p, t) = .done (q, t')) : ReflTransGen r p q ∧ ¬ more q := by
  by_cases hp : more p
  · induction n generalizing p t with
    | zero => simp [whileLoop_zero hp] at hn
    | succ n ih =>
      rw [whileLoop_succ hp, bind_eq_done] at hn
      obtain ⟨⟨c, t₁⟩, hs, hn⟩ := hn
      by_cases hc : more c
      · obtain ⟨hcq, hq⟩ := ih hn hc
        exact ⟨.head (h.step hp hs) hcq, hq⟩
      · simp only [whileLoop_of_not hc, Outcome.done.injEq, Prod.mk.injEq] at hn
        exact hn.1 ▸ ⟨.single (h.step hp hs), hc⟩
  · simp only [whileLoop_of_not hp, Outcome.done.injEq, Prod.mk.injEq] at hn
    exact hn.1 ▸ ⟨.refl, hp⟩

theorem done_of_path (h : MovesBy more body r) (hpq : ReflTransGen r p q) (hq : ¬ more q) (t : τ) :
    ∃ m n t', whileLoop more (body m) n (p, t) = .done (q, t') := by
  induction hpq using ReflTransGen.head_induction_on generalizing t with
  | refl => exact ⟨0, 0, t, whileLoop_of_not hq 0 t⟩
  | head hab _ ih =>
    obtain ⟨m, t₁, hm⟩ := (h.leads t (h.guard hab)).1 hab
    obtain ⟨m', n, t', hn⟩ := ih t₁
    have hle : ∀ s, Le (whileLoop more (body m') n s) (whileLoop more (body (max m m')) n s) :=
      whileLoop_mono (fun s => h.mono s (Nat.le_max_right m m')) n.le_refl
    refine ⟨max m m', n + 1, t', ?_⟩
    rw [whileLoop_succ (h.guard hab), ← (h.mono _ (Nat.le_max_left m m')).eq (hm ▸ nofun), hm,
      done_bind, ← (hle _).eq (hn ▸ nofun), hn]

/-- Where the loop is done is where the path of its positions ends. -/
theorem done_iff (h : MovesBy more body r) (t : τ) :
    (∃ n t', whileLoop more (body n) n (p, t) = .done (q, t')) ↔
      ReflTransGen r p q ∧ ¬ more q := by
  refine ⟨fun ⟨n, t', hn⟩ => h.path_of_done hn, fun ⟨hpq, hq⟩ => ?_⟩
  obtain ⟨m, n, t', hn⟩ := h.done_of_path hpq hq t
  exact ⟨max m n, t', by rw [← (h.le_max m n _).eq (hn ▸ nofun), hn]⟩

/-- A loop whose positions are finitely many ends if and only if it comes to no position again, and
to none where its body never ends. -/
theorem ends_iff (h : MovesBy more body r) (s : Finset κ) (hs : ∀ {a b}, r a b → a ∈ s)
    (hb : ∀ q, (∀ t, ∃ n, body n (q, t) ≠ .unfinished) ∨ ∀ n t, body n (q, t) = .unfinished)
    (t : τ) :
    (∃ n, whileLoop more (body n) n (p, t) ≠ .unfinished) ↔
      ∀ q, ReflTransGen r p q → ¬ TransGen r q q ∧
        (more q → ¬ ∀ n t, body n (q, t) = .unfinished) := by
  constructor
  · rintro ⟨n, hn⟩ q hpq
    exact ⟨fun hq => hn (h.stuck_of_path hpq (h.stuck_of_cycle hq) n n t),
      fun hq hq' => hn (h.stuck_of_path hpq (stuck_of_body hq hq') n n t)⟩
  · intro hq
    obtain ⟨m, n, hn⟩ := h.ends_of_acc (acc_of_acyclic s hs fun y hy => (hq y hy).1)
      (fun y hy hmore => (hb y).resolve_right ((hq y hy).2 hmore)) t
    exact ⟨max m n, fun hmax => hn ((h.le_max m n _).elim id (hmax ▸ ·))⟩

end MovesBy

section Loops

variable {α β σ τ : Type}

/-- A loop that never raises. -/
theorem mapM_some {f : α → Option β} {g : α → β} {l : List α} (h : ∀ x ∈ l, f x = some (g x)) :
    l.mapM f = some (l.map g) := by
  induction l with
  | nil => rfl
  | cons x l ih =>
    rw [List.mapM_cons, h x List.mem_cons_self, ih fun y hy => h y (List.mem_cons_of_mem x hy)]
    rfl

/-- The same with a state, of which `e` keeps all. -/
theorem foldlM_some {e : σ → τ} {f : τ → α → Option τ} {g : σ → α → σ} {l : List α}
    (h : ∀ s, ∀ x ∈ l, f (e s) x = some (e (g s x))) (s : σ) :
    l.foldlM f (e s) = some (e (l.foldl g s)) := by
  induction l generalizing s with
  | nil => rfl
  | cons x l ih =>
    rw [List.foldlM_cons, h s x List.mem_cons_self]
    exact ih (fun t y hy => h t y (List.mem_cons_of_mem x hy)) (g s x)

end Loops

end Lib
