import Mathlib.Init

/-!
# Scripts

A script is a list of actions; to play it is to take them one after the other, up to the first that
raises an error (`play`). A computation follows a script if it does what the script does, from the
states that it is meant for (`Follows`); then what is to be known of it can be read off the list.
-/

namespace Lib

variable {ε σ ι κ α β : Type} (act : ι → EStateM ε σ Unit)

def play : List ι → EStateM ε σ Unit
  | [] => pure ()
  | i :: is => do
    act i
    play is

/-- The state in which it ends, or raises. -/
def finalState : EStateM.Result ε σ α → σ
  | .ok _ s | .error _ s => s

/-- From a state that meets `I`, what it does is to play the script; if it returns, its value and
its state meet `J`. -/
def Follows (I : σ → Prop) (m : EStateM ε σ α) (is : List ι) (J : α → σ → Prop) : Prop :=
  ∀ s, I s → match play act is s with
    | .ok _ s' => ∃ a, m s = .ok a s' ∧ J a s'
    | .error e s' => m s = .error e s'

variable {act} {I I' K : σ → Prop} {m : EStateM ε σ α} {f : α → EStateM ε σ β} {i : ι}
  {is is' : List ι} {J : α → σ → Prop} {L : β → σ → Prop} {s s' : σ} {e : ε}

theorem bind_ok {a : α} (h : m s = .ok a s') : (m >>= f) s = f a s' := by
  simp [bind, EStateM.bind, h]

theorem bind_error (h : m s = .error e s') : (m >>= f) s = .error e s' := by
  simp [bind, EStateM.bind, h]

theorem play_cons_ok (h : act i s = .ok () s') : play act (i :: is) s = play act is s' :=
  bind_ok h

theorem play_cons_error (h : act i s = .error e s') : play act (i :: is) s = .error e s' :=
  bind_error h

theorem play_append (is is' : List ι) :
    play act (is ++ is') = (do play act is; play act is') := by
  induction is with
  | nil => rfl
  | cons i is ih =>
    rw [List.cons_append, play, ih, play, bind_assoc]

theorem play_append_ok (h : play act is s = .ok () s') :
    play act (is ++ is') s = play act is' s' := by
  rw [play_append]
  exact bind_ok h

theorem play_append_error (h : play act is s = .error e s') :
    play act (is ++ is') s = .error e s' := by
  rw [play_append]
  exact bind_error h

/-- What every action keeps is kept, whether or not one raises. -/
theorem play_keeps (hact : ∀ i s, K s → K (finalState (act i s))) (h : K s) (is : List ι) :
    K (finalState (play act is s)) := by
  induction is generalizing s with
  | nil => exact h
  | cons i is ih =>
    have hi := hact i s h
    rcases hs : act i s with ⟨⟨⟩, s'⟩ | ⟨e, s'⟩
    · rw [hs] at hi
      rw [play_cons_ok hs]
      exact ih hi
    · rw [hs] at hi
      rw [play_cons_error hs]
      exact hi

namespace Follows

theorem ok (h : Follows act I m is J) (hs : I s) (hplay : play act is s = .ok () s') :
    ∃ a, m s = .ok a s' ∧ J a s' := by
  have hm := h s hs
  rw [hplay] at hm
  exact hm

theorem error (h : Follows act I m is J) (hs : I s) (hplay : play act is s = .error e s') :
    m s = .error e s' := by
  have hm := h s hs
  rw [hplay] at hm
  exact hm

theorem of_pre (h : Follows act I m is J) (hI : ∀ s, I' s → I s) : Follows act I' m is J :=
  fun s hs => h s (hI s hs)

/-- What is known beside the state. -/
theorem of_and {p : Prop} (h : p → Follows act I m is J) :
    Follows act (fun s => p ∧ I s) m is J := fun s hs => h hs.1 s hs.2

theorem pure (a : α) : Follows act I (pure a) [] fun b s => b = a ∧ I s :=
  fun _ hs => ⟨a, rfl, rfl, hs⟩

/-- One action. -/
theorem action {J : Unit → σ → Prop} (hJ : ∀ s s', I s → act i s = .ok () s' → J () s') :
    Follows act I (act i) [i] J := by
  intro s hs
  rcases hi : act i s with ⟨⟨⟩, s'⟩ | ⟨e, s'⟩
  · rw [play_cons_ok hi]
    exact ⟨(), rfl, hJ s s' hs hi⟩
  · rw [play_cons_error hi]

theorem bind (h : Follows act I m is J) (hf : ∀ a, Follows act (J a) (f a) is' L) :
    Follows act I (m >>= f) (is ++ is') L := by
  intro s hs
  rcases hplay : play act is s with ⟨⟨⟩, s'⟩ | ⟨e, s'⟩
  · obtain ⟨a, hm, ha⟩ := h.ok hs hplay
    rw [play_append_ok hplay, bind_ok hm]
    exact hf a s' ha
  · rw [play_append_error hplay]
    exact bind_error (h.error hs hplay)

/-- A value is returned in the end. -/
theorem returns {m : EStateM ε σ Unit} (h : Follows act I m is fun _ => K) (b : β) :
    Follows act I (do m; Pure.pure b) is fun c s => c = b ∧ K s := by
  have hbind : Follows act I (m >>= fun _ => Pure.pure b) (is ++ []) fun c s => c = b ∧ K s :=
    h.bind fun _ => .pure b
  rw [List.append_nil] at hbind
  exact hbind

/-- A loop whose rounds keep `I`. -/
theorem forM {l : List κ} {f : κ → EStateM ε σ Unit} {g : κ → List ι}
    (hf : ∀ x ∈ l, Follows act I (f x) (g x) fun _ => I) :
    Follows act I (l.forM f) (l.flatMap g) fun _ => I := by
  induction l with
  | nil => exact fun _ hs => ⟨(), rfl, hs⟩
  | cons x l ih =>
    have hl := ih fun y hy => hf y (List.mem_cons_of_mem _ hy)
    exact (hf x List.mem_cons_self).bind fun _ => hl

end Follows

end Lib
