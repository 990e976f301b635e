import SkynetCpp.NameRegistry

/-!
# The names of clusterd are a bijection

As long as no name moves to another address and no name that was looked up is taken away, the table
is a bijection and the memo agrees with it (`Sound`).
-/

namespace SkynetCpp

namespace Clusterd

namespace Registry

open Cluster Lib

variable {s s' : Registry} {name : Bytes}

/-- Both directions of the table say what is registered, and so does the memo. -/
structure Sound (s : Registry) : Prop where
  names : ∀ name, s.registerName (.name name) = (s.registered name).map .number
  addresses : ∀ n v, s.registerName (.number n) = some v ↔
    ∃ name, v = .name name ∧ s.registered name = some n
  cached : ∀ name a, s.registerNameCache (keyOf name) = some a →
    s.registerName (.name name) = some a

theorem sound_init : Sound {} where
  names _ := rfl
  addresses n v := by simp
  cached name a h := by cases h

theorem Sound.bijective (h : Sound s) : Bijective s where
  names name v hv := by
    rw [h.names] at hv
    obtain ⟨n, hn, rfl⟩ := Option.map_eq_some_iff.1 hv
    exact ⟨n, rfl, (h.addresses n _).2 ⟨name, rfl, hn⟩⟩
  addresses n v hv := by
    obtain ⟨name, rfl, hname⟩ := (h.addresses n v).1 hv
    exact ⟨name, rfl, by rw [h.names, hname]; rfl⟩
  queried := h.names
  resolved name := by
    rw [← h.names]
    unfold lookup
    rcases hc : s.registerNameCache (keyOf name) with _ | a
    · rfl
    · exact (h.cached name a hc).symm

theorem keyOf_inj {name' : Bytes} : keyOf name = keyOf name' ↔ name = name' := by simp [keyOf]

theorem Sound.resolve (h : Sound s) : Sound (s.resolve (keyOf name)) := by
  refine ⟨h.names, h.addresses, fun name' a ha => ?_⟩
  change Function.update _ _ _ _ = _ at ha
  by_cases hn : name' = name
  · subst hn
    rw [Function.update_self] at ha
    change s.registerName _ = some a
    rw [h.names, ← h.bijective.resolved]
    exact ha
  · rw [Function.update_of_ne fun heq => hn (keyOf_inj.1 heq)] at ha
    exact h.cached name' a ha

theorem Sound.unregister (h : Sound s)
    (hc : s.registerName (.name name) ≠ none → s.registerNameCache (keyOf name) = none) :
    Sound (s.unregister name) := by
  unfold Registry.unregister
  rcases hr : s.registerName (.name name) with _ | a
  · exact h
  · obtain ⟨n, rfl, hn⟩ := h.bijective.names name a hr
    have hreg : s.registered name = some n := by
      rw [h.names] at hr
      obtain ⟨m, hm, heq⟩ := Option.map_eq_some_iff.1 hr
      cases heq
      exact hm
    refine ⟨fun name' => ?_, fun m v => ?_, fun name' a ha => ?_⟩
    · dsimp only [set]
      by_cases hname : name' = name
      · subst hname
        simp
      · rw [Function.update_of_ne (by simpa using hname), Function.update_of_ne (by simp),
          Function.update_of_ne hname]
        exact h.names name'
    · dsimp only [set]
      rw [Function.update_of_ne (by simp)]
      by_cases hm : m = n
      · subst hm
        rw [Function.update_self]
        refine iff_of_false (by simp) ?_
        rintro ⟨name', rfl, hname'⟩
        by_cases heq : name' = name
        · subst heq
          simp at hname'
        · rw [Function.update_of_ne heq] at hname'
          have := (h.addresses m _).2 ⟨name', rfl, hname'⟩
          rw [hn] at this
          simp only [Option.some.injEq, Address.name.injEq] at this
          exact heq this.symm
      · rw [Function.update_of_ne (by simpa using hm), h.addresses]
        refine exists_congr fun name' => and_congr_right fun _ => ?_
        by_cases heq : name' = name
        · subst heq
          rw [hreg, Function.update_self]
          simp [Ne.symm hm]
        · rw [Function.update_of_ne heq]
    · dsimp only [set] at ha ⊢
      have hname : name' ≠ name := by
        rintro rfl
        rw [hc (by rw [hr]; simp)] at ha
        cases ha
      rw [Function.update_of_ne (by simpa using hname), Function.update_of_ne (by simp)]
      exact h.cached name' a ha

variable (s) in
theorem registerName_forget (addr k : Address) : (s.forget addr).registerName k
    = if s.registerName addr = some k then none else s.registerName k := by
  unfold forget
  rcases hr : s.registerName addr with _ | old
  · simp
  · by_cases hk : k = old
    · subst hk
      simp [set]
    · simp [set, Function.update_of_ne hk, Ne.symm hk]

variable (s) in
theorem registerNameCache_forget (addr : Address) :
    (s.forget addr).registerNameCache = s.registerNameCache := by
  unfold forget
  split <;> rfl

theorem Sound.register (h : Sound s) {source : ℕ} {addr : Option ℕ}
    (hc : s.Careful (.register source name addr)) : Sound (s.register source name addr) := by
  obtain ⟨hname, hspare⟩ := hc
  unfold Registry.register
  generalize addr.getD source = n at *
  -- the name has this address already, or none
  have hkeep : ∀ m, s.registered name = some m → m = n := by
    intro m hm
    have := hname (.number m) (by rw [h.names, hm]; rfl)
    simpa using this
  have hold := s.registerName_forget (.number n)
  have hcache := s.registerNameCache_forget (.number n)
  refine ⟨fun name' => ?_, fun m v => ?_, fun name' a ha => ?_⟩
  · dsimp only [set]
    by_cases hn : name' = name
    · subst hn
      simp
    · rw [Function.update_of_ne (by simpa using hn), Function.update_of_ne (by simp), hold,
        if_neg hn]
      by_cases hr : s.registered name' = some n
      · rw [if_pos ((h.addresses n _).2 ⟨name', rfl, hr⟩), if_pos hr]
        rfl
      · rw [if_neg fun heq => ?_, if_neg hr]
        · exact h.names name'
        · obtain ⟨name'', heq', hreg⟩ := (h.addresses n _).1 heq
          cases heq'
          exact hr hreg
  · dsimp only [set]
    rw [Function.update_of_ne (by simp)]
    by_cases hm : m = n
    · subst hm
      rw [Function.update_self]
      constructor
      · rintro heq
        cases heq
        exact ⟨name, rfl, if_pos rfl⟩
      · rintro ⟨name', rfl, hreg⟩
        split_ifs at hreg with h₁ h₂
        · rw [h₁]
        · exact absurd hreg h₂
    · rw [Function.update_of_ne (by simpa using hm), hold, if_neg fun heq => ?_, h.addresses]
      · refine exists_congr fun name' => and_congr_right fun _ => ?_
        by_cases hn : name' = name
        · subst hn
          rw [if_pos rfl]
          refine iff_of_false (fun hreg => hm (hkeep m hreg)) fun heq => ?_
          simp only [Option.some.injEq] at heq
          exact hm heq.symm
        · rw [if_neg hn]
          split_ifs with hreg
          · rw [hreg]
            simp [Ne.symm hm]
          · rfl
      · obtain ⟨name', heq', -⟩ := (h.addresses n _).1 heq
        cases heq'
  · dsimp only [set] at ha ⊢
    rw [hcache] at ha
    have hin := h.cached name' a ha
    by_cases hn : name' = name
    · subst hn
      rw [Function.update_self]
      exact congrArg some (hname a hin).symm
    · rw [Function.update_of_ne (by simpa using hn), Function.update_of_ne (by simp), hold, if_neg]
      · exact hin
      · intro heq
        rw [heq] at hspare
        rcases hspare with hs | hs
        · exact hn hs
        · rw [hs] at ha
          cases ha

theorem Sound.step {l : Label} (h : Sound s) (hc : s.Careful l) (hs : step s l = some s') :
    Sound s' := by
  cases hs
  cases l with
  | register source name addr => exact h.register hc
  | unregister name => exact h.unregister hc
  | queryname name => exact h
  | resolve name => exact h.resolve

/-- As long as no name moves to another address, and none that was looked up is taken away. -/
theorem bijective_of_careful (h : Reaches step Careful {} s) : Bijective s :=
  (Reaches.invariant (I := Sound) sound_init (fun _ _ _ _ hi hc hs => hi.step hc hs) h).bijective

/-- An address is renamed, and a name goes and comes back. -/
def renamed : List Label :=
  [.register 1 [97] none, .register 2 [98] (some 1), .resolve [98], .register 3 [97] none,
    .unregister [97], .register 4 [97] none]

theorem bijective_renamed : Bijective (after step {} renamed) ∧
    (after step {} renamed).queryname [98] = some (.number 1) :=
  ⟨bijective_of_careful (reaches_after (by decide)), by decide⟩

/-- A name that moves leaves its old address behind. -/
theorem moved_name : ∃ s, Reachable step {} s ∧ ¬ Bijective s := by
  refine ⟨after step {} [.register 1 [97] none, .register 2 [97] none],
    reachable_after (by decide), fun h => ?_⟩
  have h₁ : (after step {} [.register 1 [97] none, .register 2 [97] none]).registerName (.number 1)
      = some (.name [97]) := by decide
  obtain ⟨name, hname, h₂⟩ := h.addresses 1 _ h₁
  cases hname
  exact absurd h₂ (by decide)

end Registry

end Clusterd

end SkynetCpp
