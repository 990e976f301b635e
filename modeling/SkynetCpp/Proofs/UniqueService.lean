import SkynetCpp.UniqueService

/-!
# A unique service is spawned once

As long as no lookup falls between one that has not found the name and its registration, a name has
one call that opens it at most, and what was spawned of it is what that call holds, or what the table
says (`Held`).
-/

namespace SkynetCpp

namespace UniqueService

open Lib

namespace State

variable {s s' : State} {l : Label} {name : Bytes}

theorem step_eq_some : step s l = some s' ↔ s.Enabled l ∧ s.exec l = s' := by
  unfold step
  split_ifs with h <;> simp [h]

theorem getElem?_set_some {l : List Stage} {i j : ℕ} {a c : Stage}
    (h : (l.set i a)[j]? = some c) : j = i ∧ c = a ∨ j ≠ i ∧ l[j]? = some c := by
  rw [List.getElem?_set] at h
  split_ifs at h with hij hlt
  · exact .inl ⟨hij.symm, (Option.some.inj h).symm⟩
  · exact .inr ⟨Ne.symm hij, h⟩

/-- One call opens the name at most; what was spawned is the handle it has got, or the one in the
table. -/
structure Held (s : State) (name : Bytes) : Prop where
  one : ∀ (i j : ℕ) (c c' : Stage), s.calls[i]? = some c → s.calls[j]? = some c' → c.Opens name → c'.Opens name →
    i = j
  naming : ∀ (i : ℕ) h, s.calls[i]? = some (.naming name h) → s.instances name = [h]
  unnamed : s.names name = none → (∀ (i : ℕ) h, s.calls[i]? ≠ some (.naming name h)) →
    s.instances name = []
  named : ∀ h, s.names name = some h → s.instances name = [h] ∧
    ∀ (i : ℕ) (c : Stage), s.calls[i]? = some c → ¬ c.Opens name
  returned : ∀ h, (name, h) ∈ s.returned → s.names name = some h

theorem held_init : Held {} name where
  one i j c c' h := by simp at h
  naming i h hi := by simp at hi
  unnamed _ _ := rfl
  named h hn := by cases hn
  returned h hr := by cases hr

/-- A call that opens no name comes in place of another. -/
theorem Held.setCall (h : Held s name) {i : ℕ} {a c : Stage} (hi : s.calls[i]? = some c)
    (ha : a.Opens name → c.Opens name) (hn : ∀ h, a ≠ .naming name h)
    (hc : ∀ h, c ≠ .naming name h) : Held (s.setCall i a) name := by
  refine ⟨fun j k cj ck hj hk hoj hok => ?_, fun j h' hj => ?_, fun hnone hno => ?_,
    fun h' hh' => ⟨(h.named h' hh').1, fun j cj hj => ?_⟩, h.returned⟩
  · rcases getElem?_set_some hj with ⟨rfl, rfl⟩ | ⟨-, hj'⟩ <;>
      rcases getElem?_set_some hk with ⟨rfl, rfl⟩ | ⟨-, hk'⟩
    · rfl
    · exact h.one _ _ _ _ hi hk' (ha hoj) hok
    · exact h.one _ _ _ _ hj' hi hoj (ha hok)
    · exact h.one _ _ _ _ hj' hk' hoj hok
  · rcases getElem?_set_some hj with ⟨-, heq⟩ | ⟨-, hj'⟩
    · exact absurd heq.symm (hn h')
    · exact h.naming j h' hj'
  · refine h.unnamed hnone fun j h' hj => ?_
    by_cases hij : j = i
    · subst hij
      rw [hi] at hj
      exact hc h' (Option.some.inj hj)
    · refine hno j h' ?_
      change (s.calls.set i a)[j]? = _
      rw [List.getElem?_set_ne (Ne.symm hij)]
      exact hj
  · rcases getElem?_set_some hj with ⟨-, rfl⟩ | ⟨-, hj'⟩
    · exact fun ho => (h.named h' hh').2 i c hi (ha ho)
    · exact (h.named h' hh').2 j cj hj'

theorem Held.uniqueservice (h : Held s name) (n : Bytes) :
    Held { s with calls := s.calls ++ [.called n] } name := by
  have hget : ∀ {j : ℕ} {c : Stage}, (s.calls ++ [Stage.called n])[j]? = some c →
      s.calls[j]? = some c ∨ c = .called n := by
    intro j c hj
    rw [List.getElem?_append] at hj
    split_ifs at hj with hlt
    · exact .inl hj
    · rw [List.getElem?_singleton] at hj
      split_ifs at hj
      exact .inr (Option.some.inj hj).symm
  refine ⟨fun i j c c' hi hj ho ho' => ?_, fun i h' hi => ?_, fun hnone hno => ?_,
    fun h' hh' => ⟨(h.named h' hh').1, fun i c hi => ?_⟩, h.returned⟩
  · rcases hget hi with hi | rfl
    · rcases hget hj with hj | rfl
      · exact h.one i j c c' hi hj ho ho'
      · exact ho'.elim
    · exact ho.elim
  · rcases hget hi with hi | hi
    · exact h.naming i h' hi
    · cases hi
  · refine h.unnamed hnone fun i h' hi => hno i h' ?_
    change (s.calls ++ _)[i]? = _
    rw [List.getElem?_append_left (List.getElem?_eq_some_iff.1 hi).1]
    exact hi
  · rcases hget hi with hi | rfl
    · exact (h.named h' hh').2 i c hi
    · exact id

theorem instances_append {n : Bytes} {h : Handle} :
    ({ s with spawned := s.spawned ++ [(n, h)] }).instances name
      = s.instances name ++ if n = name then [h] else [] := by
  unfold instances
  rw [List.filter_append, List.map_append]
  split_ifs with hn <;> simp [hn]

theorem Held.query (h : Held s name) {i : ℕ} (halone : s.Finds s.calls[i]?) :
    Held (s.query i s.calls[i]?) name := by
  rcases hc : s.calls[i]? with _ | (n | n | ⟨n, h'⟩ | _)
  · exact h
  · rw [hc] at halone
    unfold State.query
    dsimp only
    rcases hn : s.names n with _ | handle
    · dsimp only
      by_cases hname : n = name
      · subst hname
        have hfree := halone hn
        refine ⟨fun j k cj ck hj hk hoj hok => ?_, fun j h' hj => ?_, fun _ _ => ?_,
          fun h' hh' => ?_, h.returned⟩
        · rcases getElem?_set_some hj with ⟨rfl, -⟩ | ⟨-, hj'⟩
          · rcases getElem?_set_some hk with ⟨rfl, -⟩ | ⟨-, hk'⟩
            · rfl
            · exact absurd hok (hfree ck (List.mem_of_getElem? hk'))
          · exact absurd hoj (hfree cj (List.mem_of_getElem? hj'))
        · rcases getElem?_set_some hj with ⟨-, heq⟩ | ⟨-, hj'⟩
          · cases heq
          · exact absurd rfl (hfree _ (List.mem_of_getElem? hj'))
        · refine h.unnamed hn fun j h' hj => ?_
          exact hfree _ (List.mem_of_getElem? hj) rfl
        · change s.names n = _ at hh'
          rw [hn] at hh'
          cases hh'
      · exact h.setCall hc (fun ho => absurd ho hname) (fun _ heq => by cases heq)
          fun _ heq => by cases heq
    · have hset : Held (s.setCall i .ended) name :=
        h.setCall hc (fun ho => ho.elim) (fun _ heq => by cases heq) fun _ heq => by cases heq
      refine ⟨hset.one, hset.naming, hset.unnamed, hset.named, fun h' hh' => ?_⟩
      rcases List.mem_append.1 hh' with hh' | hh'
      · exact h.returned h' hh'
      · simp only [List.mem_singleton, Prod.mk.injEq] at hh'
        obtain ⟨rfl, rfl⟩ := hh'
        exact hn
  · exact h
  · exact h
  · exact h

theorem Held.newservice (h : Held s name) {i : ℕ} (handle : Handle) :
    Held (s.newservice i handle s.calls[i]?) name := by
  rcases hc : s.calls[i]? with _ | (n | n | ⟨n, h'⟩ | _)
  · exact h
  · exact h
  · unfold State.newservice
    dsimp only
    split_ifs with h0
    · exact h.setCall hc (fun ho => ho.elim) (fun _ heq => by cases heq) fun _ heq => by cases heq
    · by_cases hname : n = name
      · subst hname
        have hopen : Stage.Opens n (.spawning n) := rfl
        have hnone : s.names n = none := by
          rcases hn : s.names n with _ | h'
          · rfl
          · exact absurd hopen ((h.named h' hn).2 i _ hc)
        have hno : ∀ (j : ℕ) h', s.calls[j]? ≠ some (.naming n h') := by
          intro j h' hj
          have := h.one j i _ _ hj hc rfl rfl
          subst this
          rw [hc] at hj
          cases hj
        have hinst := h.unnamed hnone hno
        refine ⟨fun j k cj ck hj hk hoj hok => ?_, fun j h' hj => ?_, fun _ hno' => ?_,
          fun h' hh' => ?_, h.returned⟩
        · rcases getElem?_set_some hj with ⟨rfl, -⟩ | ⟨hne, hj'⟩
          · rcases getElem?_set_some hk with ⟨rfl, -⟩ | ⟨hne, hk'⟩
            · rfl
            · exact absurd (h.one k _ _ _ hk' hc hok rfl) hne
          · exact absurd (h.one j _ _ _ hj' hc hoj rfl) hne
        · refine instances_append.trans ?_
          rw [show (s.setCall i (.naming n handle)).instances n = [] from hinst, if_pos rfl]
          rcases getElem?_set_some hj with ⟨-, heq⟩ | ⟨-, hj'⟩
          · cases heq
            rfl
          · exact absurd hj' (hno j h')
        · refine absurd ?_ (hno' i handle)
          change (s.calls.set i _)[i]? = _
          rw [List.getElem?_set_self (List.getElem?_eq_some_iff.1 hc).1]
        · change s.names n = _ at hh'
          rw [hnone] at hh'
          cases hh'
      · have hset : Held (s.setCall i (.naming n handle)) name :=
          h.setCall hc (fun ho => absurd ho hname)
            (fun _ heq => hname (Stage.naming.inj heq).1) fun _ heq => by cases heq
        have hinst : ({ s.setCall i (.naming n handle) with
            spawned := s.spawned ++ [(n, handle)] } : State).instances name = s.instances name := by
          refine instances_append.trans ?_
          rw [if_neg hname, List.append_nil]
          rfl
        refine ⟨hset.one, fun j h' hj => hinst.trans (hset.naming j h' hj),
          fun hnone hno => hinst.trans (hset.unnamed hnone hno),
          fun h' hh' => ⟨hinst.trans (hset.named h' hh').1, (hset.named h' hh').2⟩, hset.returned⟩
  · exact h
  · exact h

theorem Held.nameservice (h : Held s name) {i : ℕ} :
    Held (s.nameservice i s.calls[i]?) name := by
  rcases hc : s.calls[i]? with _ | (n | n | ⟨n, handle⟩ | _)
  · exact h
  · exact h
  · exact h
  · unfold State.nameservice
    dsimp only
    by_cases hname : n = name
    · subst hname
      have hinst := h.naming i handle hc
      have hfree : ∀ (j : ℕ) (c : Stage), (s.calls.set i .ended)[j]? = some c → ¬ c.Opens n := by
        intro j c hj ho
        rcases getElem?_set_some hj with ⟨-, rfl⟩ | ⟨hne, hj'⟩
        · exact ho
        · exact hne (h.one j i _ _ hj' hc ho rfl)
      have hnames : Function.update s.names n (some handle) n = some handle :=
        Function.update_self ..
      refine ⟨fun j k cj ck hj _ hoj _ => absurd hoj (hfree j cj hj),
        fun j h' hj => absurd rfl (hfree j _ hj), fun hnone => ?_, fun h' hh' => ?_, fun h' hh' => ?_⟩
      · cases hnames.symm.trans hnone
      · rw [Option.some.inj (hh'.symm.trans hnames)]
        exact ⟨hinst, hfree⟩
      · rcases List.mem_append.1 hh' with hh' | hh'
        · have hnone := h.returned h' hh'
          exact absurd rfl ((h.named h' hnone).2 i _ hc)
        · simp only [List.mem_singleton, Prod.mk.injEq] at hh'
          rw [hh'.2]
          exact hnames
    · have hset : Held (s.setCall i .ended) name :=
        h.setCall hc (fun ho => ho.elim) (fun _ heq => by cases heq)
          fun _ heq => hname (Stage.naming.inj heq).1
      have hnames : Function.update s.names n (some handle) name = s.names name :=
        Function.update_of_ne (Ne.symm hname) ..
      refine ⟨hset.one, hset.naming, fun hnone => hset.unnamed (hnames.symm.trans hnone),
        fun h' hh' => hset.named h' (hnames.symm.trans hh'), fun h' hh' => ?_⟩
      refine hnames.trans (h.returned h' ?_)
      rcases List.mem_append.1 hh' with hh' | hh'
      · exact hh'
      · simp only [List.mem_singleton, Prod.mk.injEq] at hh'
        exact absurd hh'.1.symm hname
  · exact h

theorem Held.step (h : Held s name) (ha : s.Alone l) (hs : step s l = some s') :
    Held s' name := by
  obtain ⟨-, rfl⟩ := step_eq_some.1 hs
  cases l with
  | uniqueservice n => exact h.uniqueservice n
  | query i => exact h.query ha
  | newservice i handle => exact h.newservice handle
  | nameservice i => exact h.nameservice

theorem Held.once (h : Held s name) : (s.instances name).length ≤ 1 := by
  rcases hn : s.names name with _ | handle
  · by_cases hnaming : ∃ (i : ℕ) (handle : Handle), s.calls[i]? = some (.naming name handle)
    · obtain ⟨i, handle, hi⟩ := hnaming
      rw [h.naming i handle hi]
      exact Nat.le_refl 1
    · rw [h.unnamed hn fun i handle hi => hnaming ⟨i, handle, hi⟩]
      exact Nat.zero_le 1
  · rw [(h.named handle hn).1]
    exact Nat.le_refl 1

/-- As long as no lookup falls between one that has not found the name and its registration. -/
theorem singleton_of_alone (h : Reaches step Alone {} s) : Singleton s := by
  have hheld : ∀ name, Held s name := fun name =>
    Reaches.invariant (I := fun s => Held s name) held_init
      (fun _ _ _ _ hi ha hs => hi.step ha hs) h
  refine ⟨fun name => (hheld name).once, fun name h₁ h₂ hr₁ hr₂ => ?_⟩
  exact Option.some.inj (((hheld name).returned h₁ hr₁).symm.trans ((hheld name).returned h₂ hr₂))

/-- Two services ask for a name, the second when the first has registered it. -/
def inTurn : List Label :=
  [.uniqueservice [115], .uniqueservice [115], .query 0, .newservice 0 8, .nameservice 0, .query 1]

theorem singleton_inTurn : Singleton (after step {} inTurn) ∧
    (after step {} inTurn).returned = [([115], 8), ([115], 8)] :=
  ⟨singleton_of_alone (reaches_after (by decide)), by decide⟩

/-- Both look the name up before one has registered it. -/
theorem spawned_twice : ∃ s, Reachable step {} s ∧ ¬ Singleton s := by
  refine ⟨after step {} [.uniqueservice [115], .uniqueservice [115], .query 0, .query 1,
    .newservice 0 8, .newservice 1 9], reachable_after (by decide), fun h => ?_⟩
  exact absurd (h.once [115]) (by decide)

end State

end UniqueService

end SkynetCpp
