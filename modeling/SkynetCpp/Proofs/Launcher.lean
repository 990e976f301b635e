import SkynetCpp.Launcher

/-!
# The launcher's books

What was started is among the children or its launch still waits, unless it was killed or removed
(`Sound`), whatever the requests and their order. A restart replaces the child that it takes; where
that child does not run, or there is none, it adds an instance to those that run.
-/

namespace SkynetCpp

namespace Launcher

open Lib

section Lookup

variable {m : AList fun _ : Handle => Child} {h k : Handle} {c d : Child}

theorem lookup_erase_eq_some :
    (m.erase k).lookup h = some c ↔ h ≠ k ∧ m.lookup h = some c := by
  by_cases hk : h = k
  · subst hk
    simp [AList.lookup_erase]
  · simp [AList.lookup_erase_ne hk, hk]

theorem lookup_insert_eq_some :
    (m.insert k d).lookup h = some c ↔ h = k ∧ c = d ∨ h ≠ k ∧ m.lookup h = some c := by
  by_cases hk : h = k
  · subst hk
    simp [AList.lookup_insert, eq_comm]
  · simp [AList.lookup_insert_ne hk, hk]

end Lookup

namespace State

variable {str2d : Bytes → Option UInt64} {s s' : State} {l : Label} {h : Handle} {name : Arg}

theorem step_eq_some : step str2d s l = some s' ↔ s.Enabled l ∧ s.exec str2d l = s' := by
  unfold step
  split_ifs with h <;> simp [h]

/-- Neither killed nor removed. -/
def Kept (s : State) (h : Handle) : Prop := h ∉ s.killed ∧ h ∉ s.removed

/-- A service that is kept is a child, or its launch waits. -/
structure Sound (s : State) : Prop where
  nodup : (s.started.map Prod.fst).Nodup
  fresh : ∀ h, s.nextHandle ≤ h →
    h ∉ s.started.map Prod.fst ∧ h ∉ s.killed ∧ h ∉ s.removed ∧ h ∉ s.exited
  child : ∀ h c, s.children.lookup h = some c → (h, c.name) ∈ s.started ∧ s.Kept h
  launch : ∀ h c, s.launches.lookup h = some c →
    (h, c.name) ∈ s.started ∧ s.Kept h ∧ s.children.lookup h = none
  recorded : ∀ h name, (h, name) ∈ s.started → s.Kept h → ∃ c, c.name = name ∧
    (s.children.lookup h = some c ∨ s.launches.lookup h = some c)

namespace Sound

theorem init : Sound {} := by
  constructor <;> simp [AList.lookup_empty]

theorem ret (hs : Sound s) (r : Reply) : Sound (s.ret r) := ⟨hs.1, hs.2, hs.3, hs.4, hs.5⟩

theorem launchService (hs : Sound s) {restart : ℕ} (hfresh : s.Fresh h) :
    Sound (s.launchService name restart h) := by
  unfold State.launchService
  split_ifs with hif
  · have hle : s.nextHandle ≤ h := hfresh.resolve_left hif.2
    obtain ⟨hstarted, hkilled, hremoved, -⟩ := hs.fresh h hle
    have hchild : s.children.lookup h = none := by
      refine Option.eq_none_iff_forall_ne_some.2 fun c hc => hstarted ?_
      exact List.mem_map_of_mem (hs.child h c hc).1
    refine ⟨?_, fun k hk => ?_, fun k c hk => ?_, fun k c hk => ?_, fun k n hk hkept => ?_⟩
    · rw [List.map_append, List.map_singleton, ← List.concat_eq_append]
      exact hs.nodup.concat hstarted
    · have hk : h < k := hk
      have hold := hs.fresh k (hle.trans hk.le)
      simpa [hk.ne'] using hold
    · exact (hs.child k c hk).imp_left (List.mem_append_left _)
    · rcases lookup_insert_eq_some.1 hk with ⟨rfl, rfl⟩ | ⟨-, hk⟩
      · exact ⟨List.mem_append_right _ (List.mem_singleton_self _), ⟨hkilled, hremoved⟩, hchild⟩
      · exact (hs.launch k c hk).imp_left (List.mem_append_left _)
    · rcases List.mem_append.1 hk with hk | hk
      · obtain ⟨c, hname, hc⟩ := hs.recorded k n hk hkept
        refine ⟨c, hname, hc.imp_right fun hc => lookup_insert_eq_some.2 (.inr ⟨?_, hc⟩)⟩
        have hmem : k ∈ s.started.map Prod.fst := List.mem_map_of_mem hk
        rintro rfl
        exact hstarted hmem
      · obtain ⟨rfl, rfl⟩ := Prod.mk.inj (List.mem_singleton.1 hk)
        exact ⟨_, rfl, .inr (AList.lookup_insert _)⟩
  · exact hs.ret _

theorem resume (hs : Sound s) : Sound (s.resume h) := by
  unfold State.resume
  split
  · next child hchild =>
    obtain ⟨hstarted, hkept, -⟩ := hs.launch h child hchild
    suffices hmoved : Sound { s with
        children := s.children.insert h child
        launches := s.launches.erase h } from hmoved.ret _
    refine ⟨hs.nodup, hs.fresh, fun k c hk => ?_, fun k c hk => ?_, fun k n hk hkept => ?_⟩
    · rcases lookup_insert_eq_some.1 hk with ⟨rfl, rfl⟩ | ⟨-, hk⟩
      · exact ⟨hstarted, hkept⟩
      · exact hs.child k c hk
    · obtain ⟨hne, hk⟩ := lookup_erase_eq_some.1 hk
      obtain ⟨hold, hkept, hnone⟩ := hs.launch k c hk
      exact ⟨hold, hkept, (AList.lookup_insert_ne hne).trans hnone⟩
    · obtain ⟨c, hname, hc⟩ := hs.recorded k n hk hkept
      refine ⟨c, hname, ?_⟩
      by_cases hne : k = h
      · subst hne
        rcases hc with hc | hc
        · rw [(hs.launch k child hchild).2.2] at hc
          cases hc
        · rw [hchild] at hc
          exact .inl ((AList.lookup_insert _).trans hc)
      · exact hc.imp (fun hc => lookup_insert_eq_some.2 (.inr ⟨hne, hc⟩)) fun hc =>
          lookup_erase_eq_some.2 ⟨hne, hc⟩
  · exact hs

/-- A child leaves the table, and is kept no longer. -/
theorem drop (hs : Sound s) {c : Child} (hc : s.children.lookup h = some c)
    {killed removed : List Handle}
    (hgone : ∀ k, k ∉ killed ∧ k ∉ removed ↔ s.Kept k ∧ k ≠ h) :
    Sound { s with children := s.children.erase h, killed, removed } := by
  have hstarted : h ∈ s.started.map Prod.fst := List.mem_map_of_mem (hs.child h c hc).1
  refine ⟨hs.nodup, fun k hk => ?_, fun k d hk => ?_, fun k d hk => ?_, fun k n hk hkept => ?_⟩
  · obtain ⟨hnew, hkilled, hremoved, hexited⟩ := hs.fresh k hk
    have hkept := (hgone k).2 ⟨⟨hkilled, hremoved⟩, fun heq => hnew (heq ▸ hstarted)⟩
    exact ⟨hnew, hkept.1, hkept.2, hexited⟩
  · obtain ⟨hne, hk⟩ := lookup_erase_eq_some.1 hk
    obtain ⟨hold, hkept⟩ := hs.child k d hk
    exact ⟨hold, (hgone k).2 ⟨hkept, hne⟩⟩
  · obtain ⟨hold, hkept, hnone⟩ := hs.launch k d hk
    have hne : k ≠ h := by
      rintro rfl
      cases hc.symm.trans hnone
    exact ⟨hold, (hgone k).2 ⟨hkept, hne⟩, (AList.lookup_erase_ne hne).trans hnone⟩
  · obtain ⟨hkept, hne⟩ := (hgone k).1 hkept
    obtain ⟨d, hname, hd⟩ := hs.recorded k n hk hkept
    exact ⟨d, hname, hd.imp_left fun hd => lookup_erase_eq_some.2 ⟨hne, hd⟩⟩

theorem kill (hs : Sound s) {c : Child} (hc : s.children.lookup h = some c) :
    Sound (s.kill h) :=
  hs.drop hc fun k => by simp [Kept]; tauto

theorem remove (hs : Sound s) {c : Child} (hc : s.children.lookup h = some c) :
    Sound { s with children := s.children.erase h, removed := s.removed ++ [h] } :=
  hs.drop hc fun k => by simp [Kept]; tauto

theorem exit (hs : Sound s) (hstarted : h ∈ s.started.map Prod.fst) :
    Sound { s with exited := s.exited ++ [h] } := by
  refine ⟨hs.nodup, fun k hk => ?_, hs.child, hs.launch, hs.recorded⟩
  obtain ⟨hnew, hkilled, hremoved, hexited⟩ := hs.fresh k hk
  refine ⟨hnew, hkilled, hremoved, ?_⟩
  rw [List.mem_append, List.mem_singleton]
  rintro (hmem | rfl)
  · exact hexited hmem
  · exact hnew hstarted

end Sound

theorem lookup_of_childAt {addr : Arg} {c : Child} (h' : s.childAt addr = some (h, c)) :
    s.children.lookup h = some c := by
  obtain ⟨k, -, hk⟩ := Option.bind_eq_some_iff.1 h'
  obtain ⟨d, hd, heq⟩ := Option.map_eq_some_iff.1 hk
  obtain ⟨rfl, rfl⟩ := Prod.mk.inj heq
  exact hd

theorem lookup_of_taken {target : Arg} {found : Option Handle} {c : Child}
    (h' : s.taken str2d target found = some (h, c)) : s.children.lookup h = some c := by
  unfold taken at h'
  split at h'
  · next hp => exact lookup_of_childAt (hp.trans h')
  · obtain ⟨k, -, hk⟩ := Option.bind_eq_some_iff.1 h'
    obtain ⟨d, hd, heq⟩ := Option.map_eq_some_iff.1 hk
    obtain ⟨rfl, rfl⟩ := Prod.mk.inj heq
    exact hd
  · cases h'

namespace Sound

theorem handleRemove (hs : Sound s) (addr : Arg) : Sound (s.handleRemove addr) := by
  unfold State.handleRemove
  split
  · next hc => exact (hs.remove (lookup_of_childAt hc)).ret _
  · exact hs.ret _

theorem handleKill (hs : Sound s) (addr : Arg) : Sound (s.handleKill str2d addr) := by
  unfold State.handleKill
  split
  · next hc => exact (hs.kill (lookup_of_childAt hc)).ret _
  · exact hs.ret _

theorem handleRestart (hs : Sound s) {target : Arg} {found : Option Handle}
    (hfresh : s.Fresh h) : Sound (s.handleRestart str2d target found h) := by
  unfold State.handleRestart
  split
  · next hc => exact (hs.kill (lookup_of_taken hc)).launchService hfresh
  · exact hs.launchService hfresh

theorem step (hs : Sound s) (h' : step str2d s l = some s') : Sound s' := by
  obtain ⟨hl, rfl⟩ := step_eq_some.1 h'
  cases l with
  | launch name handle => exact hs.launchService hl
  | resume handle => exact hs.resume
  | remove addr => exact hs.handleRemove addr
  | kill addr => exact hs.handleKill addr
  | restart target found handle => exact hs.handleRestart hl.1
  | exit handle => exact hs.exit hl

end Sound

theorem sound_of_reachable (hs : Reachable (step str2d) {} s) : Sound s :=
  hs.invariant Sound.init fun _ _ _ _ h _ h' => h.step h'

/-- When no launch waits, the books are kept. -/
theorem Sound.bookkept (hs : Sound s) (hnone : s.launches = ∅) : s.Bookkept := by
  refine ⟨fun h name hstarted hkilled hremoved => ?_, fun h c hc => ?_⟩
  · obtain ⟨c, hname, hc⟩ := hs.recorded h name hstarted ⟨hkilled, hremoved⟩
    rw [hnone, AList.lookup_empty] at hc
    exact ⟨c, hc.resolve_right nofun, hname⟩
  · exact hs.child h c hc

section Running

theorem Sound.nodup_running (hs : Sound s) : (s.running name).Nodup :=
  (List.filter_sublist.map Prod.fst).nodup hs.nodup

theorem Sound.running_kill (hs : Sound s) : (s.kill h).running name = (s.running name).erase h := by
  rw [hs.nodup_running.erase_eq_filter]
  unfold running
  rw [List.filter_map, List.filter_filter]
  congr 1
  refine List.filter_congr fun p _ => ?_
  have hkilled : p.1 ∈ (s.kill h).killed ↔ p.1 ∈ s.killed ∨ p.1 = h := by
    simp [State.kill]
  have hexited : (s.kill h).exited = s.exited := rfl
  rw [hexited, Bool.eq_iff_iff]
  simp only [hkilled, Function.comp_apply, Bool.and_eq_true, bne_iff_ne, decide_eq_true_eq]
  tauto

/-- A launch adds an instance of its name, if the service starts. -/
theorem Sound.length_running_launchService (hs : Sound s) {restart : ℕ} (hfresh : s.Fresh h) :
    ((s.launchService name restart h).running name).length
      = (s.running name).length + if name.IsName ∧ h ≠ 0 then 1 else 0 := by
  unfold State.launchService
  split_ifs with hif
  · obtain ⟨-, hkilled, -, hexited⟩ := hs.fresh h (hfresh.resolve_left hif.2)
    simp [running, List.filter_append, hkilled, hexited]
  · rfl

theorem fresh_kill {k : Handle} (hfresh : s.Fresh h) : (s.kill k).Fresh h := hfresh

/-- The instances after a restart: those but the one that is taken, and the one that starts. -/
theorem Sound.length_running_restart (hs : Sound s) {target : Arg} {found : Option Handle}
    (hfresh : s.Fresh h) :
    ((s.handleRestart str2d target found h).running (s.restartName str2d target found)).length
      = ((s.taken str2d target found).elim (s.running (s.restartName str2d target found))
          fun p => (s.running (s.restartName str2d target found)).erase p.1).length
        + if (s.restartName str2d target found).IsName ∧ h ≠ 0 then 1 else 0 := by
  unfold State.handleRestart restartName
  split
  · next k c hc =>
    rw [hc]
    refine ((hs.kill (lookup_of_taken hc)).length_running_launchService
      (fresh_kill hfresh)).trans ?_
    rw [hs.running_kill]
    rfl
  · next hc =>
    rw [hc]
    exact hs.length_running_launchService hfresh

end Running

/-- One instance is added at most, in place of the one that is taken, if that runs. -/
theorem length_le_max_iff (running : List Handle) (taken : Option (Handle × Child)) (name : Arg)
    (handle : Handle) :
    (taken.elim running fun p => running.erase p.1).length
        + (if name.IsName ∧ handle ≠ 0 then 1 else 0) ≤ max 1 running.length
      ↔ (name.IsName → handle ≠ 0 → running = [] ∨ ∃ p ∈ taken, p.1 ∈ running) := by
  have hle : (taken.elim running fun p => running.erase p.1).length ≤ running.length := by
    cases taken with
    | none => exact le_rfl
    | some p => exact List.length_erase_le
  split_ifs with hif
  · simp only [hif.1, hif.2, forall_const, ne_eq, not_false_eq_true]
    cases taken with
    | none =>
      rw [← List.length_eq_zero_iff]
      simp only [Option.elim_none, Option.not_mem_none, false_and, exists_false, or_false]
      omega
    | some p =>
      simp only [Option.elim_some, Option.mem_some_iff, exists_eq_left']
      by_cases hmem : p.1 ∈ running
      · have hpos := List.length_pos_of_mem hmem
        rw [List.length_erase_of_mem hmem]
        exact iff_of_true (by omega) (.inr hmem)
      · rw [List.erase_of_not_mem hmem, ← List.length_eq_zero_iff]
        simp only [hmem, or_false]
        omega
  · exact iff_of_true (by omega) fun hname hne => absurd ⟨hname, hne⟩ hif

/-- A service is launched, and restarted by its name. -/
def restartRun : List Label :=
  [.launch (.string (ascii "echo")) 1, .resume 1, .restart (.string (ascii "echo")) (some 1) 2]

/-- `restartRun`, and its last launch goes on. -/
def restartedRun : List Label := restartRun ++ [.resume 2]

end State

end Launcher

end SkynetCpp
