import SkynetCpp.SocketWaits

/-!
# Careful services leave no reader behind

Who waits to read is the reader of a record that is in `socket_connections` and not closed; who
waits to connect is in `socket_connecting`, and has an outcome to come (`Held`). The library takes a
coroutine out of these where it wakes it.
-/

namespace SkynetCpp

namespace Socket

open Lib SocketDriver

namespace Connection

variable {conn conn' : Connection} {co : Coroutine} {payload : Bytes} {op : ReadOp}
  {r : Option Bytes}

/-- A reader is woken by data, or remains. -/
theorem feed_reader (h : conn.readCo = some co) :
    (conn.feed payload).2 = some co ∨
      (conn.feed payload).1.readCo = some co ∧ (conn.feed payload).1.closed = conn.closed := by
  unfold feed
  dsimp only
  rw [h]
  rcases conn.readSz with - | sz
  · rcases conn.readSep with - | sep
    · exact .inl rfl
    · dsimp only
      split
      · exact .inl rfl
      · exact .inr ⟨rfl, rfl⟩
  · dsimp only
    split_ifs
    · exact .inl rfl
    · exact .inr ⟨rfl, rfl⟩

theorem hangUp_reader (h : conn.readCo = some co) : conn.hangUp.2 = some co := by
  unfold hangUp
  rw [h]

/-- A call that waits has made itself the reader. -/
theorem perform_waits (h : conn.perform co op = (conn', .waits)) :
    conn'.readCo = some co ∧ conn'.closed = false := by
  cases op with
  | read sz =>
    simp only [perform, read] at h
    split_ifs at h with hlen hclosed <;> simp only [Prod.mk.injEq, reduceCtorEq, and_false] at h
    obtain ⟨rfl, -⟩ := h
    exact ⟨rfl, by simpa using hclosed⟩
  | readline sep =>
    simp only [perform, readline] at h
    split at h
    · simp only [Prod.mk.injEq, reduceCtorEq, and_false] at h
    · split_ifs at h with hclosed hlen <;> simp only [Prod.mk.injEq, reduceCtorEq, and_false] at h
      obtain ⟨rfl, -⟩ := h
      exact ⟨rfl, by simpa using hclosed⟩
  | readall =>
    simp only [perform, readall] at h
    split_ifs at h with hlen hclosed <;> simp only [Prod.mk.injEq, reduceCtorEq, and_false] at h
    obtain ⟨rfl, -⟩ := h
    exact ⟨rfl, by simpa using hclosed⟩

/-- One that returns takes from the buffer only. -/
theorem perform_returns (h : conn.perform co op = (conn', .returns r)) :
    conn'.readCo = conn.readCo ∧ conn'.closed = conn.closed := by
  cases op with
  | read sz =>
    simp only [perform, read] at h
    split_ifs at h <;> simp only [Prod.mk.injEq, reduceCtorEq, and_false] at h <;>
      obtain ⟨rfl, -⟩ := h <;> exact ⟨rfl, rfl⟩
  | readline sep =>
    simp only [perform, readline] at h
    split at h
    · obtain ⟨rfl, -⟩ := Prod.mk.inj h
      exact ⟨rfl, rfl⟩
    · split_ifs at h <;> simp only [Prod.mk.injEq, reduceCtorEq, and_false] at h <;>
        obtain ⟨rfl, -⟩ := h <;> exact ⟨rfl, rfl⟩
  | readall =>
    simp only [perform, readall] at h
    split_ifs at h <;> simp only [Prod.mk.injEq, reduceCtorEq, and_false] at h <;>
      obtain ⟨rfl, -⟩ := h <;> exact ⟨rfl, rfl⟩

end Connection

/-- The record has this reader, and is not closed. -/
def Tables.Reads (t : Tables) (c : ℤ) (co : Coroutine) : Prop :=
  ∃ conn, t.connections c = some conn ∧ conn.readCo = some co ∧ conn.closed = false

namespace Tables

variable {t t' : Tables} {c c' : ℤ} {co : Coroutine} {e : Event}

theorem Reads.congr (h : t.Reads c co) (heq : t'.connections c = t.connections c) :
    t'.Reads c co := by
  obtain ⟨conn, hconn, hr⟩ := h
  exact ⟨conn, heq.trans hconn, hr⟩

theorem setConnection_of_ne {conn : Option Connection} (hne : c ≠ c') :
    (t.setConnection c' conn).connections c = t.connections c := Function.update_of_ne hne ..

/-- An event wakes the reader, or leaves it where it is, unless it brings another record. -/
theorem Reads.dispatch (h : t.Reads c co)
    (haccept : ∀ l, e = .accept l c → t.handles l = false)
    (hopened : e = .opened c → t.connecting c = none) :
    co ∈ (t.dispatch e).2 ∨ (t.dispatch e).1.Reads c co := by
  obtain ⟨conn, hconn, hreader, hopen⟩ := h
  have hsame : t.Reads c co := ⟨conn, hconn, hreader, hopen⟩
  cases e with
  | accept l c' =>
    refine .inr ?_
    simp only [Tables.dispatch]
    split_ifs with hhandles
    · refine hsame.congr (setConnection_of_ne ?_)
      rintro rfl
      exact Bool.false_ne_true ((haccept l rfl).symm.trans hhandles)
    · exact hsame
  | data l c' payload =>
    simp only [Tables.dispatch]
    by_cases heq : c = c'
    · subst heq
      rw [hconn]
      have hfeed : (conn.feed payload).2 = some co ∨ (conn.feed payload).1.readCo = some co ∧
          (conn.feed payload).1.closed = conn.closed := Connection.feed_reader hreader
      rcases hfeed with hwoken | ⟨hstill, hclosed⟩
      · exact .inl (by simp [hwoken])
      · exact .inr ⟨_, Function.update_self .., hstill, hclosed.trans hopen⟩
    · refine .inr ?_
      cases t.connections c' with
      | none => exact hsame
      | some conn' => exact hsame.congr (setConnection_of_ne heq)
  | close l c' =>
    simp only [Tables.dispatch]
    by_cases heq : c = c'
    · subst heq
      rw [hconn]
      exact .inl (List.mem_append_right _ (by simp [Connection.hangUp_reader hreader]))
    · refine .inr ?_
      cases t.connections c' with
      | none => exact hsame
      | some conn' => exact hsame.congr (setConnection_of_ne heq)
  | opened c' =>
    refine .inr ?_
    simp only [Tables.dispatch]
    cases hconnecting : t.connecting c' with
    | none => exact hsame
    | some co' =>
      refine hsame.congr (setConnection_of_ne ?_)
      rintro rfl
      rw [hopened rfl] at hconnecting
      cases hconnecting
  | warning l c' bytes | udp id payload => exact .inr hsame

/-- The outcome of a connect wakes who waits for it; no other event does anything there. -/
theorem connecting_dispatch (h : t.connecting c = some co) :
    co ∈ (t.dispatch e).2 ∨ (t.dispatch e).1.connecting c = some co ∧ e ≠ .opened c ∧
      ∀ l, e ≠ .close l c := by
  cases e with
  | accept l c' =>
    refine .inr ⟨?_, nofun, nofun⟩
    simp only [Tables.dispatch]
    split_ifs <;> exact h
  | data l c' payload =>
    refine .inr ⟨?_, nofun, nofun⟩
    simp only [Tables.dispatch]
    cases t.connections c' <;> exact h
  | close l c' =>
    by_cases heq : c = c'
    · subst heq
      refine .inl ?_
      simp only [Tables.dispatch, h]
      cases t.connections c <;> simp
    · refine .inr ⟨?_, nofun, fun l' hclose => heq (Event.close.inj hclose).2.symm⟩
      have hupdate : Function.update t.connecting c' none c = some co :=
        (Function.update_of_ne heq ..).trans h
      simp only [Tables.dispatch]
      cases t.connections c' <;> exact hupdate
  | opened c' =>
    by_cases heq : c = c'
    · subst heq
      exact .inl (by simp [Tables.dispatch, h])
    · refine .inr ⟨?_, fun hopened => heq (Event.opened.inj hopened).symm, nofun⟩
      simp only [Tables.dispatch]
      cases t.connecting c' with
      | none => exact h
      | some co' => exact (Function.update_of_ne heq ..).trans h
  | warning l c' bytes | udp id payload => exact .inr ⟨h, nofun, nofun⟩

end Tables

theorem closeTcp_none {d : Driver} {k k' : TcpId} (h : d.tcp k = none) :
    (d.closeTcp k').tcp k = none := by
  by_cases heq : k = k'
  · subst heq
    exact (Function.update_self ..).trans (by rw [h]; rfl)
  · exact (Function.update_of_ne heq ..).trans h

theorem tcp_close_none {d : Driver} {k : TcpId} {id : ℤ} (h : d.tcp k = none) :
    (d.close id).tcp k = none := by
  unfold Driver.close
  split
  · exact h
  · exact closeTcp_none h
  · exact h

theorem tcp_closeAccepted_none {d : Driver} {k : TcpId} {id connId : ℤ} (h : d.tcp k = none) :
    (d.closeAccepted id connId).tcp k = none := by
  unfold Driver.closeAccepted Driver.closeConnection
  split_ifs
  · exact closeTcp_none h
  · exact h
  · exact h

namespace Waits

variable {s s' : Waits} {w : Waiter} {c id : ℤ} {co : Coroutine}

/-- What careful services keep. -/
structure Held (s : Waits) : Prop where
  reads : ∀ w ∈ s.waiters, w.woken = false → ∀ c op, w.call = .read c op →
    s.system.tables.Reads c w.co
  connects : ∀ w ∈ s.waiters, w.woken = false → ∀ id, w.call = .connect id →
    s.system.tables.connecting id = some w.co ∧ s.Outstanding id

theorem Held.noneLeft (h : Held s) : s.NoneLeft where
  gone w hw hnone hpending := by
    by_contra hwoken
    rw [Bool.not_eq_true] at hwoken
    rcases hcall : w.call with id | ⟨c, op⟩ <;> rw [hcall] at hnone hpending
    · obtain ⟨-, ⟨e, he, hout⟩ | hconnecting⟩ := h.connects w hw hwoken id hcall
      · refine hpending (.inl ⟨e, he, ?_⟩)
        rcases hout with rfl | ⟨l, rfl⟩ <;> rfl
      · exact hpending (.inr hconnecting)
    · obtain ⟨conn, hconn, -⟩ := h.reads w hw hwoken c op hcall
      rw [WaitCall.connId, hconn] at hnone
      cases hnone
  reads w hw hwoken c op hcall := by
    obtain ⟨conn, hconn, -, hclosed⟩ := h.reads w hw hwoken c op hcall
    exact ⟨conn, hconn, hclosed⟩
  connects := h.connects

/-- A call of the library, or an event, leaves the reader of another record in its place, or wakes
it. -/
theorem reads_exec {l : System.Label} (h : s.system.tables.Reads c co)
    (hdrops : c ∉ s.drops (.lib l)) :
    co ∈ s.wokenBy l ∨ (s.system.exec l).tables.Reads c co := by
  cases l with
  | close c' | clear c' =>
    exact .inr (h.congr (Tables.setConnection_of_ne fun heq => hdrops (List.mem_singleton.2 heq)))
  | dispatch i =>
    simp only [System.exec, wokenBy, event]
    cases he : s.system.events[i]? with
    | none => exact .inr h
    | some e =>
      refine h.dispatch (e := e) (fun l haccept => ?_) fun hopened => ?_
      · subst haccept
        simp only [drops, event, he] at hdrops
        by_contra hhandles
        rw [if_pos (by simpa using hhandles)] at hdrops
        exact hdrops (List.mem_singleton_self c)
      · subst hopened
        simp only [drops, event, he] at hdrops
        by_contra hconnecting
        rw [if_pos (Option.isSome_iff_ne_none.2 hconnecting)] at hdrops
        exact hdrops (List.mem_singleton_self c)
  | _ => exact .inr h

/-- The driver still connects, or posts the outcome. -/
theorem Outstanding.congr {t : Waits} (h : s.Outstanding id)
    (hevents : s.system.events ⊆ t.system.events)
    (hcreated : s.system.created ⊆ t.system.created)
    (htcp : s.system.driver.tcp (.connector id) = none →
      t.system.driver.tcp (.connector id) = none ∨ .opened id ∈ t.system.events) :
    t.Outstanding id := by
  rcases h with ⟨e, he, hout⟩ | ⟨hmem, hnone⟩
  · exact .inl ⟨e, hevents he, hout⟩
  · rcases htcp hnone with hnone | hopened
    · exact .inr ⟨hcreated hmem, hnone⟩
    · exact .inl ⟨_, hopened, .inl rfl⟩

theorem mem_eraseIdx_of_ne {l : List Event} {i : ℕ} {e e' : Event} (hi : l[i]? = some e)
    (hmem : e' ∈ l) (hne : e' ≠ e) : e' ∈ l.eraseIdx i := by
  obtain ⟨j, hj⟩ := List.getElem?_of_mem hmem
  refine List.mem_eraseIdx_iff_getElem?.2 ⟨j, ?_, hj⟩
  rintro rfl
  rw [hi] at hj
  exact hne (Option.some.inj hj).symm

theorem connects_exec {l : System.Label}
    (hl : ∀ co', l = .connect co' → id ≠ s.system.nextConnector)
    (hco : s.system.tables.connecting id = some co) (hout : s.Outstanding id) :
    co ∈ s.wokenBy l ∨ (s.system.exec l).tables.connecting id = some co ∧
      ∀ ws, Outstanding { system := s.system.exec l, waiters := ws } id := by
  have hpost : ∀ t : System, s.system.events ⊆ t.events → t.created = s.system.created →
      (s.system.driver.tcp (.connector id) = none → t.driver.tcp (.connector id) = none ∨
        .opened id ∈ t.events) → ∀ ws, Outstanding { system := t, waiters := ws } id :=
    fun t hevents hcreated htcp ws => hout.congr hevents (fun _ hk => hcreated ▸ hk) htcp
  cases l with
  | listen handler | udp callback | ondata listenerId | connectReturn id' | clear c' | otherAccepted
  | otherConnector => exact .inr ⟨hco, hpost _ (List.Subset.refl _) rfl .inl⟩
  | connect co' =>
    have hne := hl co' rfl
    refine .inr ⟨(Function.update_of_ne hne ..).trans hco, fun ws => ?_⟩
    refine hout.congr (List.Subset.refl _) (List.subset_append_left _ _) fun hnone => .inl ?_
    refine (Function.update_of_ne ?_ ..).trans hnone
    exact fun heq => hne (TcpId.connector.inj heq)
  | close c' =>
    refine .inr ⟨hco, hpost _ (List.Subset.refl _) rfl fun hnone => .inl ?_⟩
    simp only [System.exec, Tables.close]
    split
    · exact tcp_closeAccepted_none hnone
    · exact tcp_close_none hnone
  | closeListener listenerId =>
    exact .inr ⟨hco, hpost _ (List.Subset.refl _) rfl fun hnone => .inl (tcp_close_none hnone)⟩
  | accepted listenerId =>
    refine .inr ⟨hco, fun ws => hout.congr (List.subset_append_left _ _)
      (List.subset_append_left _ _) fun hnone => .inl ?_⟩
    have hne : TcpId.connector id ≠ .accepted listenerId s.system.nextAccepted := nofun
    exact (Function.update_of_ne hne (some false) s.system.driver.tcp).trans hnone
  | connected id' =>
    refine .inr ⟨hco, hpost _ (List.subset_append_left _ _) rfl fun hnone => ?_⟩
    by_cases heq : id' = id
    · exact .inr (List.mem_append_right _ (by simp [heq]))
    · refine .inl ((Function.update_of_ne ?_ ..).trans hnone)
      exact fun h => heq (TcpId.connector.inj h).symm
  | connectFailed id' | received k payload | hungUp k | congested k bytes | datagram id' payload =>
    exact .inr ⟨hco, hpost _ (List.subset_append_left _ _) rfl .inl⟩
  | dispatch i =>
    simp only [System.exec, wokenBy, event]
    cases he : s.system.events[i]? with
    | none => exact .inr ⟨hco, hpost _ (List.Subset.refl _) rfl .inl⟩
    | some e =>
      refine (Tables.connecting_dispatch (e := e) hco).imp_right fun ⟨hstill, hopened, hclose⟩ => ?_
      refine ⟨hstill, fun ws => ?_⟩
      rcases hout with ⟨e', he', hout⟩ | hconnecting
      · refine .inl ⟨e', mem_eraseIdx_of_ne he he' ?_, hout⟩
        rintro rfl
        rcases hout with rfl | ⟨l, rfl⟩
        · exact hopened rfl
        · exact hclose l rfl
      · exact .inr hconnecting

theorem mem_wake {woken : List Coroutine} (hw : w ∈ (s.wake woken).waiters)
    (hwoken : w.woken = false) :
    w ∈ s.waiters ∧ w.co ∉ woken := by
  obtain ⟨w₀, hw₀, rfl⟩ := List.mem_map.1 hw
  simp only [Bool.or_eq_false_iff, decide_eq_false_iff_not] at hwoken
  have hsame : { w₀ with woken := w₀.woken || decide (w₀.co ∈ woken) } = w₀ := by
    rw [decide_eq_false hwoken.2, Bool.or_false]
  exact ⟨hsame.symm ▸ hw₀, hwoken.2⟩

theorem wokenBy_connect : s.wokenBy (.connect co) = [] := rfl

theorem Held.lib {l : System.Label} (h : Held s) (hP : s.Careful (.lib l)) :
    Held (s.exec (.lib l)) := by
  -- a coroutine that was not woken, and is not now
  have hold : ∀ w ∈ (s.wake (s.wokenBy l)).waiters, w.woken = false →
      w ∈ s.waiters ∧ w.co ∉ s.wokenBy l := fun w hw hwoken => mem_wake hw hwoken
  have hnew : ∀ w ∈ s.suspends l, ∃ co, l = .connect co ∧
      w = { co, call := .connect s.system.nextConnector } := by
    intro w hw
    cases l with
    | connect co => exact ⟨co, rfl, List.mem_singleton.1 hw⟩
    | _ => cases hw
  refine ⟨fun w hw hwoken c op hcall => ?_, fun w hw hwoken id hcall => ?_⟩
  · rcases List.mem_append.1 hw with hw | hw
    · obtain ⟨hw, hnot⟩ := hold w hw hwoken
      have hdrops := hP w hw hwoken
      rw [hcall] at hdrops
      exact (reads_exec (h.reads w hw hwoken c op hcall) hdrops).resolve_left hnot
    · obtain ⟨co, -, rfl⟩ := hnew w hw
      cases hcall
  · rcases List.mem_append.1 hw with hw | hw
    · obtain ⟨hmem, hnot⟩ := hold w hw hwoken
      obtain ⟨hco, hout⟩ := h.connects w hmem hwoken id hcall
      have hid : ∀ co', l = .connect co' → id ≠ s.system.nextConnector := by
        rintro co' rfl
        have hcareful := hP w hmem hwoken
        rw [hcall] at hcareful
        exact hcareful
      obtain ⟨hstill, hout⟩ := (connects_exec hid hco hout).resolve_left hnot
      exact ⟨hstill, hout _⟩
    · obtain ⟨co, rfl, rfl⟩ := hnew w hw
      obtain rfl := WaitCall.connect.inj hcall
      refine ⟨Function.update_self .., .inr ⟨?_, Function.update_self ..⟩⟩
      exact List.mem_append_right _ (List.mem_singleton_self _)

theorem Held.read {op : ReadOp} (h : Held s) (hP : s.Careful (.read co c op)) :
    Held (s.exec (.read co c op)) := by
  simp only [exec]
  rcases hperform : s.perform co c op with - | ⟨conn', outcome⟩
  · exact h
  obtain ⟨conn, hconn, hop⟩ := Option.map_eq_some_iff.1 hperform
  have hother : ∀ w ∈ s.waiters, w.woken = false → ∀ c' op', w.call = .read c' op' →
      (s.system.tables.setConnection c (some conn')).Reads c' w.co := by
    intro w hw hwoken c' op' hcall
    have hreads := h.reads w hw hwoken c' op' hcall
    by_cases heq : c' = c
    · subst heq
      cases outcome with
      | waits =>
        have hdrops := hP w hw hwoken
        simp only [hcall, drops, hperform] at hdrops
        exact absurd (List.mem_singleton_self c') hdrops
      | returns r =>
        obtain ⟨conn₀, hconn₀, hreader, hclosed⟩ := hreads
        obtain rfl : conn = conn₀ := Option.some.inj (hconn.symm.trans hconn₀)
        obtain ⟨hreader', hclosed'⟩ := Connection.perform_returns hop
        exact ⟨conn', Function.update_self .., hreader'.trans hreader, hclosed'.trans hclosed⟩
    · exact hreads.congr (Tables.setConnection_of_ne heq)
  cases outcome with
  | returns r => exact ⟨hother, h.connects⟩
  | waits =>
    refine ⟨fun w hw hwoken c' op' hcall => ?_, fun w hw hwoken id hcall => ?_⟩
    · rcases List.mem_append.1 hw with hw | hw
      · exact hother w hw hwoken c' op' hcall
      · obtain rfl := List.mem_singleton.1 hw
        obtain ⟨rfl, -⟩ := WaitCall.read.inj hcall
        exact ⟨conn', Function.update_self .., Connection.perform_waits hop⟩
    · rcases List.mem_append.1 hw with hw | hw
      · exact h.connects w hw hwoken id hcall
      · obtain rfl := List.mem_singleton.1 hw
        cases hcall

theorem Held.goOn {i : ℕ} (h : Held s) : Held (s.exec (.goOn i)) := by
  have herased : ∀ w ∈ s.waiters.eraseIdx i, w ∈ s.waiters :=
    fun w hw => List.mem_of_mem_eraseIdx hw
  simp only [exec]
  split
  · exact ⟨fun w hw => h.reads w (herased w hw), fun w hw => h.connects w (herased w hw)⟩
  · exact ⟨fun w hw => h.reads w (herased w hw), fun w hw => h.connects w (herased w hw)⟩
  · exact h

theorem Held.step {l : Label} (h : Held s) (hP : s.Careful l) (hs : s.step l = some s') :
    Held s' := by
  unfold Waits.step at hs
  split_ifs at hs
  obtain rfl := Option.some.inj hs
  cases l with
  | lib l => exact h.lib hP
  | read co c op => exact h.read hP
  | goOn i => exact h.goOn

/-- No coroutine is left waiting, in a careful run. -/
theorem noneLeft_of_careful (h : Reaches step Careful {} s) : s.NoneLeft := by
  have hinit : Held {} :=
    ⟨fun _ hw => absurd hw List.not_mem_nil, fun _ hw => absurd hw List.not_mem_nil⟩
  have hheld : Held s := h.invariant hinit fun _ _ _ _ hi hP hs => hi.step hP hs
  exact hheld.noneLeft

/-- A coroutine connects and reads a line; another connects, and its connect fails. -/
def connectRun : List Label :=
  [.lib (.connect 1), .lib (.connected 1000000), .lib (.dispatch 0), .goOn 0,
    .read 1 1000000 (.readline [10]), .lib (.connect 2), .lib (.connectFailed 1000001),
    .lib (.hungUp (.connector 1000000)), .lib (.dispatch 0), .lib (.dispatch 0)]

theorem noneLeft_connectRun : (after step {} connectRun).NoneLeft :=
  noneLeft_of_careful (reaches_after rfl)

/-- A coroutine connects, and reads; another closes the connection. -/
def closeRun : List Label :=
  [.lib (.connect 1), .lib (.connected 1000000), .lib (.dispatch 0), .goOn 0,
    .read 1 1000000 .readall, .lib (.close 1000000)]

theorem reader_left : ∃ s, Reachable step {} s ∧ ¬ NoneLeft s := by
  refine ⟨after step {} closeRun, reachable_after rfl, fun h => ?_⟩
  have hmem : ⟨1, .read 1000000 .readall, false⟩ ∈ (after step {} closeRun).waiters := by
    decide
  obtain ⟨conn, hconn, -⟩ := h.reads _ hmem rfl _ _ rfl
  cases hconn

end Waits

end Socket

end SkynetCpp
