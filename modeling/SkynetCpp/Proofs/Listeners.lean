import Mathlib.Data.List.Pairwise
import SkynetCpp.Listeners

/-!
# A listener that keeps listening

The handlers of `do_accept` and `do_receive` return at an error without starting the next
operation, and ask for the endpoint of a peer without a handler for the exception. So listening
goes on as long as every completion is a success whose peer is still there
(`serving_of_orderly`), and no longer (`serving_iff_orderly`).
-/

namespace SkynetCpp

namespace Network

open Lib

namespace TcpListener

variable {t : TcpListener} {id : ℤ} {address : Bytes} {port : ℕ}

theorem listening_start (listenerId : ℤ) : (start listenerId).Listening :=
  ⟨fun _ => rfl, rfl, fun k p h => by simp [start, doAccept] at h⟩

theorem owned_start (listenerId : ℤ) : (start listenerId).Owned := by
  refine ⟨fun x hx => ?_, fun k hk => ?_, .nil⟩
  · simp [start, doAccept] at hx
  · simp [start, doAccept] at hk

/-- What is left of `connections_` when an id is taken out. -/
theorem mem_filter_id {x : ℤ × ℕ} {l : List (ℤ × ℕ)} :
    x ∈ l.filter (·.1 ≠ id) ↔ x ∈ l ∧ x.1 ≠ id := by
  simp

/-- A connection is accepted and listening goes on, when its id stands for no other. -/
theorem Listening.accept (h : t.Listening) (hfree : ∀ x ∈ t.connections, x.1 ≠ id) :
    ({ t with accepts := t.accepts - 1 }.take id address port).doAccept.Listening := by
  refine ⟨fun hopen => ?_, ?_, fun k p hk => ?_⟩
  · simp only [doAccept, take, h.one hopen]
  · simp only [doAccept, take, h.announced, List.map_append]
    rfl
  · simp only [doAccept, take] at hk ⊢
    rw [List.getElem?_append] at hk
    split_ifs at hk with hlt
    · refine (h.held k p hk).imp_right fun hmem => List.mem_append_left _ ?_
      exact mem_filter_id.2 ⟨hmem, hfree _ hmem⟩
    · obtain ⟨rfl, rfl⟩ : k = t.accepted.length ∧ _ = p := by
        rcases Nat.eq_zero_or_pos (k - t.accepted.length) with hz | hpos
        · rw [hz] at hk
          exact ⟨by omega, Option.some.inj hk⟩
        · rw [List.getElem?_eq_none (by simp; omega)] at hk
          cases hk
      exact .inr (List.mem_append_right _ (List.mem_singleton_self _))

theorem Owned.accept (h : t.Owned) :
    ({ t with accepts := t.accepts - 1 }.take id address port).doAccept.Owned := by
  refine ⟨fun x hx => ?_, fun k hk => ?_, ?_⟩
  · simp only [doAccept, take, List.mem_append, List.mem_singleton] at hx ⊢
    rcases hx with hx | rfl
    · obtain ⟨hnot, p, hp, hid⟩ := h.entries x (mem_filter_id.1 hx).1
      refine ⟨hnot, p, ?_, hid⟩
      rw [List.getElem?_append_left (List.getElem?_eq_some_iff.1 hp).1, hp]
    · refine ⟨fun hmem => absurd (h.past _ hmem) (Nat.lt_irrefl _),
        { id, address, port }, ?_, rfl⟩
      rw [List.getElem?_append_right (Nat.le_refl _), Nat.sub_self]
      rfl
  · simp only [doAccept, take, List.length_append]
    exact Nat.lt_add_right _ (h.past k hk)
  · simp only [doAccept, take, List.pairwise_append]
    refine ⟨h.distinct.filter _, List.pairwise_singleton _ _, fun x hx y hy => ?_⟩
    rw [List.mem_singleton.1 hy]
    exact (mem_filter_id.1 hx).2

theorem Owned.closeConnection (h : t.Owned) (id : ℤ) : (t.closeConnection id).Owned := by
  unfold TcpListener.closeConnection
  split
  · exact h
  rename_i y k hfind
  have hmem := List.mem_of_find?_eq_some hfind
  have hy : y = id := by simpa using List.find?_some hfind
  obtain ⟨-, p, hp, hid⟩ := h.entries _ hmem
  refine ⟨fun x hx => ?_, fun j hj => ?_, h.distinct.filter _⟩
  · obtain ⟨hx, hne⟩ := mem_filter_id.1 hx
    obtain ⟨hnot, q, hq, hqid⟩ := h.entries x hx
    refine ⟨fun hclosed => ?_, q, hq, hqid⟩
    rcases List.mem_append.1 hclosed with hclosed | hclosed
    · exact hnot hclosed
    · rw [List.mem_singleton.1 hclosed, hp, Option.some.injEq] at hq
      exact hne (by rw [← hqid, ← hq, hid, hy])
  · rcases List.mem_append.1 hj with hj | hj
    · exact h.past j hj
    · rw [List.mem_singleton.1 hj]
      exact (List.getElem?_eq_some_iff.1 hp).1

/-- A connection leaves `connections_` when it is taken. -/
theorem Listening.closeConnection (h : t.Listening) (ho : t.Owned) (id : ℤ) :
    (t.closeConnection id).Listening := by
  unfold TcpListener.closeConnection
  split
  · exact h
  rename_i y k hfind
  have hmem := List.mem_of_find?_eq_some hfind
  have hy : y = id := by simpa using List.find?_some hfind
  refine ⟨h.one, h.announced, fun j p hj => ?_⟩
  rcases h.held j p hj with hclosed | hmem'
  · exact .inl (List.mem_append_left _ hclosed)
  · by_cases hid : p.id = id
    · have hsame : ((p.id, j) : ℤ × ℕ) = (y, k) := by
        have : Std.Symm fun x x' : ℤ × ℕ => x.1 ≠ x'.1 := ⟨fun _ _ h => h.symm⟩
        by_contra hne
        exact ho.distinct.forall hmem' hmem hne (hid.trans hy.symm)
      refine .inl (List.mem_append_right _ ?_)
      rw [(Prod.mk.inj hsame).2]
      exact List.mem_singleton_self _
    · exact .inr (mem_filter_id.2 ⟨hmem', hid⟩)

theorem Owned.same {t' : TcpListener} (h : t.Owned) (hc : t'.connections = t.connections)
    (hclosed : t'.closed = t.closed) (ha : t.accepted <+: t'.accepted) : t'.Owned := by
  refine ⟨fun x hx => ?_, fun k hk => ?_, hc ▸ h.distinct⟩
  · rw [hc] at hx
    obtain ⟨hnot, p, hp, hid⟩ := h.entries x hx
    obtain ⟨rest, hrest⟩ := ha
    refine ⟨hclosed ▸ hnot, p, ?_, hid⟩
    rw [← hrest, List.getElem?_append_left (List.getElem?_eq_some_iff.1 hp).1, hp]
  · rw [hclosed] at hk
    exact Nat.lt_of_lt_of_le (h.past k hk) ha.length_le

/-- A connection whose id another one gets is held no longer. -/
theorem not_listening_accept (h : t.Owned) {x : ℤ × ℕ} (hx : x ∈ t.connections) (hid : x.1 = id) :
    ¬ ({ t with accepts := t.accepts - 1 }.take id address port).doAccept.Listening := by
  intro hl
  obtain ⟨hnot, p, hp, hpid⟩ := h.entries x hx
  have hlt := (List.getElem?_eq_some_iff.1 hp).1
  have hk : ({ t with accepts := t.accepts - 1 }.take id address port).doAccept.accepted[x.2]?
      = some p := by
    simp only [doAccept, take]
    rw [List.getElem?_append_left hlt, hp]
  rcases hl.held x.2 p hk with hclosed | hmem
  · exact hnot hclosed
  · simp only [doAccept, take, List.mem_append, List.mem_singleton, Prod.mk.injEq] at hmem
    rcases hmem with hmem | ⟨-, heq⟩
    · exact (mem_filter_id.1 hmem).2 (hpid.trans hid)
    · omega

end TcpListener

namespace IoThread

variable {s s' : IoThread} {l : Label}

theorem step_eq_some : step s l = some s' ↔ s.Enabled l ∧ s.exec l = s' := by
  unfold step
  split_ifs with h <;> simp [h]

theorem mem_modify {α : Type} {f : α → α} {l : List α} {i : ℕ} {x : α}
    (h : x ∈ l.modify i f) : x ∈ l ∨ ∃ y ∈ l[i]?, f y = x := by
  obtain ⟨j, hj⟩ := List.mem_iff_getElem?.1 h
  rw [List.getElem?_modify] at hj
  split_ifs at hj with hij
  · subst hij
    obtain ⟨y, hy, rfl⟩ := Option.map_eq_some_iff.1 hj
    exact .inr ⟨y, hy, rfl⟩
  · exact .inl (List.mem_of_getElem? (by simpa using hj))

theorem mem_modify_of {α : Type} {f : α → α} {l : List α} {i : ℕ} {y : α} (h : y ∈ l[i]?) :
    f y ∈ l.modify i f := by
  refine List.mem_of_getElem? (i := i) ?_
  rw [List.getElem?_modify, Option.mem_def.1 h]
  simp

section Steps

theorem acceptHandler_peer (i : ℕ) (address : Bytes) (port : ℕ) :
    (s.acceptHandler i (.peer address port)).listeners = s.listeners.modify i fun t =>
      ({ t with accepts := t.accepts - 1 }.take s.nextId address port).doAccept := by
  simp only [acceptHandler, modify, List.modify_modify_eq]
  rfl

theorem acceptHandler_gone (i : ℕ) :
    (s.acceptHandler i .gone).listeners = s.listeners.modify i fun t =>
      { t with accepts := t.accepts - 1 }.lose s.nextId := by
  simp only [acceptHandler, modify, List.modify_modify_eq]
  rfl

theorem receiveHandler_datagram (i : ℕ) (data address : Bytes) (port : ℕ) :
    (s.receiveHandler i (.datagram data address port)).udps = s.udps.modify i fun u =>
      ({ u with receives := u.receives - 1 }.post data address port).doReceive := by
  simp only [receiveHandler, modifyUdp, List.modify_modify_eq]
  rfl

/-- A label that leaves the listeners alone, or changes one of them, or starts one. -/
theorem owned_exec (h : ∀ t ∈ s.listeners, t.Owned) (l : Label) :
    ∀ t ∈ (s.exec l).listeners, t.Owned := by
  have of_modify {i : ℕ} {f : TcpListener → TcpListener}
      (hf : ∀ t : TcpListener, t.Owned → (f t).Owned) :
      ∀ t ∈ s.listeners.modify i f, t.Owned := by
    intro t ht
    rcases mem_modify ht with ht | ⟨t', ht', rfl⟩
    · exact h t ht
    · exact hf t' (h t' (List.mem_of_getElem? ht'))
  cases l with
  | listen listenerId =>
    intro t ht
    rcases List.mem_append.1 ht with ht | ht
    · exact h t ht
    · rw [List.mem_singleton.1 ht]
      exact TcpListener.owned_start listenerId
  | bind id => exact h
  | acceptHandler i o =>
    cases o with
    | error => exact of_modify fun t ht => ht.same rfl rfl (List.prefix_refl _)
    | gone =>
      simp only [exec, acceptHandler_gone]
      exact of_modify fun t ht => ht.same rfl rfl (List.prefix_append _ _)
    | peer address port =>
      simp only [exec, acceptHandler_peer]
      exact of_modify fun t ht => ht.accept
  | receiveHandler i o => cases o <;> exact h
  | closeConnection i id => exact of_modify fun t ht => ht.closeConnection id
  | stop i => exact of_modify fun t ht => ht.same rfl rfl (List.prefix_refl _)
  | stopUdp i => exact h

theorem owned_of_reachable (h : Reachable step init s) : ∀ t ∈ s.listeners, t.Owned := by
  refine h.invariant (I := fun s => ∀ t ∈ s.listeners, t.Owned) (fun t ht => ?_)
    fun s l s' _ ho _ hs => ?_
  · cases ht
  · obtain ⟨-, rfl⟩ := step_eq_some.1 hs
    exact owned_exec ho l

/-- One step that meets the condition. -/
theorem Serving.exec (h : Serving s) (ho : ∀ t ∈ s.listeners, t.Owned) (hl : s.Orderly l) :
    Serving (s.exec l) := by
  have of_modify {i : ℕ} {f : TcpListener → TcpListener}
      (hf : ∀ t ∈ s.listeners[i]?, t.Owned → t.Listening → (f t).Listening) :
      ∀ t ∈ s.listeners.modify i f, t.Listening := by
    intro t ht
    rcases mem_modify ht with ht | ⟨t', ht', rfl⟩
    · exact h.listening t ht
    · have hmem := List.mem_of_getElem? ht'
      exact hf t' ht' (ho t' hmem) (h.listening t' hmem)
  have of_modifyUdp {i : ℕ} {f : UdpSocket → UdpSocket}
      (hf : ∀ u ∈ s.udps[i]?, (u.isOpen = true → u.receives = 1) →
        (f u).isOpen = true → (f u).receives = 1) :
      ∀ u ∈ s.udps.modify i f, u.isOpen = true → u.receives = 1 := by
    intro u hu
    rcases mem_modify hu with hu | ⟨u', hu', rfl⟩
    · exact h.receiving u hu
    · exact hf u' hu' (h.receiving u' (List.mem_of_getElem? hu'))
  cases l with
  | listen listenerId =>
    refine ⟨h.goes, fun t ht => ?_, h.receiving⟩
    rcases List.mem_append.1 ht with ht | ht
    · exact h.listening t ht
    · rw [List.mem_singleton.1 ht]
      exact TcpListener.listening_start listenerId
  | bind id =>
    refine ⟨h.goes, h.listening, fun u hu => ?_⟩
    rcases List.mem_append.1 hu with hu | hu
    · exact h.receiving u hu
    · rw [List.mem_singleton.1 hu]
      exact fun _ => rfl
  | acceptHandler i o =>
    cases o with
    | error =>
      refine ⟨h.goes, of_modify fun t ht _ hlis => ⟨fun hopen => ?_, hlis.announced, hlis.held⟩,
        h.receiving⟩
      rw [hl t ht] at hopen
      cases hopen
    | gone => exact hl.elim
    | peer address port =>
      refine ⟨h.goes, ?_, h.receiving⟩
      simp only [IoThread.exec, acceptHandler_peer]
      exact of_modify fun t ht _ hlis => hlis.accept (hl t ht)
  | receiveHandler i o =>
    cases o with
    | error =>
      refine ⟨h.goes, h.listening, of_modifyUdp fun u hu _ hopen => ?_⟩
      rw [hl u hu] at hopen
      cases hopen
    | datagram data address port =>
      refine ⟨h.goes, h.listening, ?_⟩
      simp only [IoThread.exec, receiveHandler_datagram]
      refine of_modifyUdp fun u hu hone hopen => ?_
      simp only [UdpSocket.doReceive, UdpSocket.post, hone hopen]
  | closeConnection i id =>
    exact ⟨h.goes, of_modify fun t _ hown hlis => hlis.closeConnection hown id, h.receiving⟩
  | stop i =>
    refine ⟨h.goes, of_modify fun t _ _ hlis => ⟨fun hopen => ?_, hlis.announced, hlis.held⟩,
      h.receiving⟩
    cases hopen
  | stopUdp i =>
    refine ⟨h.goes, h.listening, of_modifyUdp fun u _ _ hopen => ?_⟩
    cases hopen

/-- A step that does not meet the condition ends the serving. -/
theorem Serving.orderly (h : Serving s) (ho : ∀ t ∈ s.listeners, t.Owned)
    (h' : Serving (s.exec l)) : s.Orderly l := by
  cases l with
  | listen listenerId => trivial
  | bind id => trivial
  | closeConnection i id => trivial
  | stop i => trivial
  | stopUdp i => trivial
  | acceptHandler i o =>
    cases o with
    | error =>
      intro t ht
      by_contra hopen
      have hone := (h.listening t (List.mem_of_getElem? ht)).one (by simpa using hopen)
      have hmem : { t with accepts := t.accepts - 1 }
          ∈ (s.exec (.acceptHandler i .error)).listeners := mem_modify_of ht
      have := (h'.listening _ hmem).one (by simpa using hopen)
      simp [hone] at this
    | gone => exact absurd h'.goes (Bool.noConfusion : true ≠ false)
    | peer address port =>
      intro t ht x hx hid
      have hmem := mem_modify_of (f := fun t : TcpListener =>
        ({ t with accepts := t.accepts - 1 }.take s.nextId address port).doAccept) ht
      rw [← acceptHandler_peer] at hmem
      exact TcpListener.not_listening_accept (ho t (List.mem_of_getElem? ht)) hx hid
        (h'.listening _ hmem)
  | receiveHandler i o =>
    cases o with
    | error =>
      intro u hu
      by_contra hopen
      have hone := h.receiving u (List.mem_of_getElem? hu) (by simpa using hopen)
      have hmem : { u with receives := u.receives - 1 }
          ∈ (s.exec (.receiveHandler i .error)).udps := mem_modify_of hu
      have := h'.receiving _ hmem (by simpa using hopen)
      simp [hone] at this
    | datagram data address port => trivial

end Steps

theorem serving_init : Serving init :=
  ⟨rfl, fun _ ht => (nomatch ht), fun _ hu => (nomatch hu)⟩

/-- In a run whose completions are all orderly, listening goes on. -/
theorem serving_of_orderly (h : Reaches step Orderly init s) : Serving s :=
  h.invariant serving_init fun s l s' hr hserving hl hs => by
    obtain ⟨-, rfl⟩ := step_eq_some.1 hs
    exact hserving.exec (owned_of_reachable hr) hl

/-- Only an orderly step keeps it. -/
theorem serving_iff_orderly (hr : Reachable step init s) (h : Serving s)
    (hs : step s l = some s') : Serving s' ↔ s.Orderly l := by
  obtain ⟨-, rfl⟩ := step_eq_some.1 hs
  exact ⟨h.orderly (owned_of_reachable hr), h.exec (owned_of_reachable hr)⟩

/-- Two connections, one of them closed, a datagram, and a listener that is stopped. -/
def servingRun : List Label :=
  [.listen 3, .bind 4, .acceptHandler 0 (.peer (ascii "10.0.0.1") 4000),
    .acceptHandler 0 (.peer (ascii "10.0.0.2") 4001), .closeConnection 0 1,
    .receiveHandler 0 (.datagram [1, 2] (ascii "10.0.0.3") 53), .listen 5, .stop 0,
    .acceptHandler 0 .error, .acceptHandler 1 (.peer (ascii "10.0.0.4") 4002)]

theorem serving_servingRun : Serving (after step init servingRun) :=
  serving_of_orderly (reaches_after (by decide))

/-- An accept fails, for want of a file descriptor, and the listener accepts no more. -/
theorem deaf_listener : ∃ s, Reachable step init s ∧ ¬ Serving s := by
  refine ⟨after step init [.listen 3, .acceptHandler 0 .error], reachable_after (by decide),
    fun h => ?_⟩
  have := (h.listening { listenerId := 3 } (by decide)).one rfl
  cases this

end IoThread

end Network

end SkynetCpp
