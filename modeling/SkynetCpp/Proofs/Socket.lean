import SkynetCpp.Socket

/-!
# Closing a connection

`socket.close` closes the connection its number was reported for, and nothing else, as long as
`socket_connections` still tells which listener it is of (`closesAlone_iff`). The close event clears
that entry, and then the number alone is looked up among the listeners: the first connection of the
process has the number of the first listener of its service (`closed_the_listener`).
-/

namespace SkynetCpp

open Lib

namespace Socket

open SocketDriver

/-- The driver without one connection: it is closed, and out of the table that had it. -/
def Driver.without (d : Driver) : TcpId → Driver
  | .accepted listenerId connId =>
    { d with
      tcp := Function.update d.tcp (.accepted listenerId connId) (some true)
      connections := Function.update d.connections listenerId
        (Function.update (d.connections listenerId) connId false) }
  | .connector id =>
    { d with
      tcp := Function.update d.tcp (.connector id) (some true)
      sockets := if d.sockets id = some .connector then Function.update d.sockets id none
        else d.sockets }

namespace System

/-- `socket.close` with the number of `k` closes `k`, if it is not closed yet, and leaves the rest
of the driver as it is. -/
def ClosesAlone (s : System) (k : TcpId) : Prop :=
  s.tables.close s.driver k.number = Driver.without s.driver k

/-- No other connection of the service was given the number of `k`, and if `k` is a connector, no
listener or UDP socket was. -/
structure OwnNumber (s : System) (k : TcpId) : Prop where
  alone : ∀ k' ∈ s.created, k'.number = k.number → k' = k
  once : s.created.count k ≤ 1
  store : ∀ id, k = .connector id → ¬ (1 ≤ id ∧ id < s.driver.nextId)

/-- The library knows `k` as the connection of its listener, and the listener is not closed; or `k`
is closed already, and its number is not that of a listener or a UDP socket that would be closed
instead. -/
def Closable (s : System) : TcpId → Prop
  | .connector _ => True
  | .accepted listenerId connId =>
    (s.tables.connections connId).isSome = true ∧ s.driver.sockets listenerId = some .listener
    ∨ s.driver.tcp (.accepted listenerId connId) = some true
      ∧ ((s.tables.connections connId).isSome = true ∨ s.driver.sockets connId = none)

end System

section Dispatch

variable {t : Tables} {e : Event} {c : ℤ} {conn : Connection}

theorem connections_setConnection (t : Tables) (id c : ℤ) (conn : Option Connection) :
    (t.setConnection id conn).connections c = if c = id then conn else t.connections c := by
  show Function.update t.connections id conn c = _
  split_ifs with h
  · rw [h, Function.update_self]
  · rw [Function.update_of_ne h]

theorem feed_same (conn : Connection) (payload : Bytes) :
    (conn.feed payload).1.listenerId = conn.listenerId
      ∧ (conn.feed payload).1.connectResult = conn.connectResult := by
  unfold Connection.feed
  simp only []
  split
  · exact ⟨rfl, rfl⟩
  · split_ifs <;> exact ⟨rfl, rfl⟩
  · split <;> exact ⟨rfl, rfl⟩
  · exact ⟨rfl, rfl⟩

theorem hangUp_same (conn : Connection) :
    conn.hangUp.1.listenerId = conn.listenerId
      ∧ conn.hangUp.1.connectResult = conn.connectResult := by
  unfold Connection.hangUp
  split <;> exact ⟨rfl, rfl⟩

/-- An entry of `socket_connections` after an event: it was there, or an accept event made it, or an
open event did. -/
theorem connections_dispatch (h : (t.dispatch e).1.connections c = some conn) :
    (∃ old, t.connections c = some old ∧ conn.listenerId = old.listenerId
        ∧ conn.connectResult = old.connectResult)
      ∨ (∃ listenerId, e = .accept listenerId c ∧ conn.listenerId = some listenerId
        ∧ conn.connectResult = false)
      ∨ e = .opened c ∧ conn.listenerId = none := by
  have hold : ∀ {id : ℤ} {new : Connection} {old : Connection}, t.connections id = some old →
      new.listenerId = old.listenerId ∧ new.connectResult = old.connectResult →
      (t.setConnection id (some new)).connections c = some conn →
      ∃ old, t.connections c = some old ∧ conn.listenerId = old.listenerId
        ∧ conn.connectResult = old.connectResult := by
    intro id new old ho hsame hn
    rw [connections_setConnection] at hn
    split_ifs at hn with hc
    · rw [Option.some.injEq] at hn
      exact ⟨old, hc ▸ ho, hn ▸ hsame⟩
    · exact ⟨conn, hn, rfl, rfl⟩
  cases e with
  | accept listenerId connId =>
    unfold Tables.dispatch at h
    simp only [] at h
    split_ifs at h with hh
    · rw [connections_setConnection] at h
      split_ifs at h with hc
      · rw [Option.some.injEq] at h
        exact .inr (.inl ⟨listenerId, by rw [hc], h ▸ ⟨rfl, rfl⟩⟩)
      · exact .inl ⟨conn, h, rfl, rfl⟩
    · exact .inl ⟨conn, h, rfl, rfl⟩
  | data listenerId connId payload =>
    unfold Tables.dispatch at h
    cases ho : t.connections connId with
    | none =>
      simp only [ho] at h
      exact .inl ⟨conn, h, rfl, rfl⟩
    | some old =>
      simp only [ho] at h
      exact .inl (hold ho (feed_same old payload) h)
  | close listenerId connId =>
    unfold Tables.dispatch at h
    cases ho : t.connections connId with
    | none =>
      simp only [ho] at h
      exact .inl ⟨conn, h, rfl, rfl⟩
    | some old =>
      simp only [ho] at h
      exact .inl (hold ho (hangUp_same old) h)
  | opened connId =>
    unfold Tables.dispatch at h
    cases hco : t.connecting connId with
    | none =>
      simp only [hco] at h
      exact .inl ⟨conn, h, rfl, rfl⟩
    | some co =>
      simp only [hco] at h
      replace h : (t.setConnection connId (some { listenerId := none, connectResult := true
        })).connections c = some conn := h
      rw [connections_setConnection] at h
      split_ifs at h with hc
      · rw [Option.some.injEq] at h
        exact .inr (.inr ⟨by rw [hc], h ▸ rfl⟩)
      · exact .inl ⟨conn, h, rfl, rfl⟩
  | warning _ _ _ => exact .inl ⟨conn, h, rfl, rfl⟩
  | udp _ _ => exact .inl ⟨conn, h, rfl, rfl⟩

end Dispatch

section Driver

variable {d : Driver} {id c : ℤ} {k : TcpId}

/-- What `connections_` holds is what is not closed. -/
def Driver.Sound (d : Driver) : Prop :=
  ∀ listenerId connId, d.connections listenerId connId = true
    ↔ d.tcp (.accepted listenerId connId) = some false

theorem Driver.Sound.accept (h : Driver.Sound d) (listenerId connId : ℤ) :
    Driver.Sound (d.accept listenerId connId) := by
  intro l i
  show Function.update d.connections listenerId (Function.update (d.connections listenerId) connId
    true) l i = true ↔ Function.update d.tcp (.accepted listenerId connId) (some false)
      (.accepted l i) = some false
  by_cases hl : l = listenerId
  · subst hl
    by_cases hi : i = connId
    · subst hi
      simp
    · rw [Function.update_self, Function.update_of_ne hi, Function.update_of_ne (by simp [hi])]
      exact h l i
  · rw [Function.update_of_ne hl, Function.update_of_ne (by simp [hl])]
    exact h l i

/-- The driver looks at the connector's own state only. -/
theorem Driver.Sound.of_accepted {d' : Driver} (h : Driver.Sound d)
    (hc : d'.connections = d.connections)
    (ht : ∀ listenerId connId, d'.tcp (.accepted listenerId connId)
      = d.tcp (.accepted listenerId connId)) : Driver.Sound d' := by
  intro l i
  rw [hc, ht]
  exact h l i

theorem tcp_closeTcp_of_ne (d : Driver) {k k' : TcpId} (h : k' ≠ k) :
    (d.closeTcp k).tcp k' = d.tcp k' :=
  Function.update_of_ne h _ _

theorem tcp_connect_of_ne (d : Driver) (h : k ≠ .connector id) :
    (d.connect id).tcp k = d.tcp k :=
  Function.update_of_ne h _ _

theorem tcp_openTcp_of_ne (d : Driver) {k k' : TcpId} (h : k' ≠ k) :
    (d.openTcp k).tcp k' = d.tcp k' :=
  Function.update_of_ne h _ _

theorem tcp_openTcp_self (d : Driver) (k : TcpId) : (d.openTcp k).tcp k = some false :=
  Function.update_self _ _ _

theorem tcp_close_accepted (d : Driver) (id listenerId connId : ℤ) :
    (d.close id).tcp (.accepted listenerId connId) = d.tcp (.accepted listenerId connId) := by
  unfold Driver.close
  split
  · rfl
  · have hne : TcpId.accepted listenerId connId ≠ .connector id := nofun
    exact tcp_closeTcp_of_ne d hne
  · rfl

theorem connections_close (d : Driver) (id : ℤ) : (d.close id).connections = d.connections := by
  unfold Driver.close
  split <;> rfl

theorem nextId_close (d : Driver) (id : ℤ) : (d.close id).nextId = d.nextId := by
  unfold Driver.close
  split <;> rfl

/-- `lclose` of another number. -/
theorem close_of_ne (d : Driver) (h : c ≠ id) : (d.close id).sockets c = d.sockets c
    ∧ (d.close id).tcp (.connector c) = d.tcp (.connector c) := by
  unfold Driver.close
  split
  · exact ⟨rfl, rfl⟩
  · exact ⟨Function.update_of_ne h _ _, tcp_closeTcp_of_ne d (by simp [h])⟩
  · exact ⟨Function.update_of_ne h _ _, rfl⟩

/-- `close_connection` of a connection that was made closes it alone, closed or not. -/
theorem closeConnection_eq (h : Driver.Sound d) {listenerId connId : ℤ}
    (hk : d.tcp (.accepted listenerId connId) ≠ none) :
    d.closeConnection listenerId connId = Driver.without d (.accepted listenerId connId) := by
  unfold Driver.closeConnection Driver.without Driver.closeTcp
  simp only []
  obtain ⟨b, hb⟩ := Option.ne_none_iff_exists'.1 hk
  by_cases hc : d.connections listenerId connId = true
  · rw [if_pos hc, hb]
    rfl
  · have htrue : d.tcp (.accepted listenerId connId) = some true := by
      rw [hb]
      cases b with
      | true => rfl
      | false => exact absurd ((h _ _).2 hb) hc
    rw [if_neg hc, ← htrue, Function.update_eq_self]
    rw [Bool.not_eq_true] at hc
    rw [← hc, Function.update_eq_self, Function.update_eq_self]

theorem Driver.Sound.without (h : Driver.Sound d) (listenerId connId : ℤ) :
    Driver.Sound (Driver.without d (.accepted listenerId connId)) := by
  intro l i
  show Function.update d.connections listenerId (Function.update (d.connections listenerId) connId
    false) l i = true ↔ Function.update d.tcp (.accepted listenerId connId) (some true)
      (.accepted l i) = some false
  by_cases hl : l = listenerId
  · subst hl
    by_cases hi : i = connId
    · subst hi
      simp
    · rw [Function.update_self, Function.update_of_ne hi, Function.update_of_ne (by simp [hi])]
      exact h l i
  · rw [Function.update_of_ne hl, Function.update_of_ne (by simp [hl])]
    exact h l i

end Driver

section Invariants

namespace System

/-- The connection an entry of `socket_connections` is of. -/
def known (connId : ℤ) (conn : Connection) : TcpId :=
  match conn.listenerId with
  | some listenerId => .accepted listenerId connId
  | none => .connector connId

/-- The connection a new entry will be of. -/
def announced : Event → List TcpId
  | .accept listenerId connId => [.accepted listenerId connId]
  | .opened connId => [.connector connId]
  | _ => []

/-- What is known of a connection is known of one that was created. -/
structure Sound (s : System) : Prop where
  ids : 1 ≤ s.driver.nextId
  driver : Driver.Sound s.driver
  made : ∀ l c, .accepted l c ∈ s.created → s.driver.tcp (.accepted l c) ≠ none
  listed : ∀ c conn, s.tables.connections c = some conn → known c conn ∈ s.created
  events : ∀ e ∈ s.events, ∀ k ∈ announced e, k ∈ s.created
  reported : ∀ k ∈ s.reported, k ∈ s.created
  connects : ∀ c ∈ s.connects, .connector c ∈ s.created

/-- A connector that has a number of its own: it is in the store until it is closed, and the
service knows of it when it is connected. -/
structure ConnectorSound (s : System) (c : ℤ) : Prop where
  store : s.driver.sockets c
    = if s.driver.tcp (.connector c) = some true then none else some .connector
  reported : .connector c ∈ s.reported → s.driver.tcp (.connector c) ≠ none
  opened : .opened c ∈ s.events → s.driver.tcp (.connector c) ≠ none
  listed : ∀ conn, s.tables.connections c = some conn → conn.connectResult = true →
    s.driver.tcp (.connector c) ≠ none

variable {s s' : System} {l : Label}

theorem sound_init : Sound init where
  ids := Int.le_refl 1
  driver _ _ := by simp [init, Driver.init]
  made _ _ h := absurd h List.not_mem_nil
  listed _ _ h := by cases h
  events _ h := absurd h List.not_mem_nil
  reported _ h := absurd h List.not_mem_nil
  connects _ h := absurd h List.not_mem_nil

theorem Sound.post (h : Sound s) {e : Event} (he : ∀ k ∈ announced e, k ∈ s.created) :
    Sound (s.post e) where
  ids := h.ids
  driver := h.driver
  made := h.made
  listed := h.listed
  events e' he' := by
    rcases List.mem_append.1 he' with he' | he'
    · exact h.events e' he'
    · rw [List.mem_singleton.1 he']
      exact he
  reported := h.reported
  connects := h.connects

/-- An entry is taken away. -/
theorem Sound.remove (h : Sound s) (id : ℤ) :
    ∀ c conn, (s.tables.setConnection id none).connections c = some conn →
      known c conn ∈ s.created := by
  intro c conn hc
  rw [connections_setConnection] at hc
  split_ifs at hc
  exact h.listed c conn hc

/-- `lclose` changes no accepted connection. -/
theorem Sound.driver_close (h : Sound s) (id : ℤ) : 1 ≤ (s.driver.close id).nextId
    ∧ Driver.Sound (s.driver.close id)
    ∧ ∀ l c, .accepted l c ∈ s.created → (s.driver.close id).tcp (.accepted l c) ≠ none :=
  ⟨(nextId_close _ _).symm ▸ h.ids, h.driver.of_accepted (connections_close _ _) fun _ _ => tcp_close_accepted _ _ _ _,
    fun l c hm => by rw [tcp_close_accepted]; exact h.made l c hm⟩

/-- `socket.close` keeps the driver sound. -/
theorem Sound.tables_close (h : Sound s) (id : ℤ) : 1 ≤ (s.tables.close s.driver id).nextId
    ∧ Driver.Sound (s.tables.close s.driver id)
    ∧ ∀ l c, .accepted l c ∈ s.created → (s.tables.close s.driver id).tcp (.accepted l c) ≠ none := by
  unfold Tables.close
  split
  · rename_i listenerId hl
    obtain ⟨conn, hconn, hl⟩ := Option.bind_eq_some_iff.1 hl
    unfold Driver.closeAccepted
    split_ifs with hs
    · have hk : TcpId.accepted listenerId id ∈ s.created := by
        have := h.listed id conn hconn
        rwa [known, hl] at this
      rw [closeConnection_eq h.driver (h.made _ _ hk)]
      refine ⟨h.ids, h.driver.without _ _, fun l c hm => ?_⟩
      show Function.update s.driver.tcp (.accepted listenerId id) (some true) (.accepted l c) ≠ none
      rw [Function.update_apply]
      split_ifs
      · exact Option.some_ne_none _
      · exact h.made l c hm
    · exact ⟨h.ids, h.driver, h.made⟩
  · exact h.driver_close id

/-- A new connection of the service. -/
theorem Sound.create (h : Sound s) {k : TcpId} {d : Driver} (hd : Driver.Sound d)
    (hids : d.nextId = s.driver.nextId)
    (hmade : ∀ l c, TcpId.accepted l c ∈ s.created ++ [k] → d.tcp (.accepted l c) ≠ none) :
    Sound { s with driver := d, created := s.created ++ [k] } where
  ids := hids ▸ h.ids
  driver := hd
  made := hmade
  listed c conn hc := List.mem_append_left _ (h.listed c conn hc)
  events e he k hk := List.mem_append_left _ (h.events e he k hk)
  reported k hk := List.mem_append_left _ (h.reported k hk)
  connects c hc := List.mem_append_left _ (h.connects c hc)

theorem Sound.dispatched (h : Sound s) {e : Event} (he : ∀ k ∈ announced e, k ∈ s.created) :
    Sound (s.dispatched e) where
  ids := h.ids
  driver := h.driver
  made := h.made
  listed c conn hc := by
    rcases connections_dispatch hc with ⟨old, ho, hl, -⟩ | ⟨l, rfl, hl, -⟩ | ⟨rfl, hl⟩
    · have := h.listed c old ho
      rwa [known, ← hl] at this
    · rw [known, hl]
      exact he _ List.mem_cons_self
    · rw [known, hl]
      exact he _ List.mem_cons_self
  events := h.events
  reported k hk := by
    rcases List.mem_append.1 hk with hk | hk
    · exact h.reported k hk
    · cases e with
      | accept l c =>
        refine he k ?_
        unfold told at hk
        simp only [] at hk
        split_ifs at hk
        · exact hk
        · cases hk
      | _ => cases hk
  connects := h.connects

theorem Sound.exec (h : Sound s) (l : Label) (hl : s.Enabled l) : Sound (s.exec l) := by
  cases l with
  | listen _ | ondata _ | udp _ | otherAccepted | otherConnector =>
    exact ⟨by first | exact h.ids | exact Int.le_add_one h.ids, h.driver, h.made,
      h.listed, h.events, h.reported, h.connects⟩
  | connectFailed _ | received _ _ | hungUp _ | congested _ _ | datagram _ _ =>
    exact h.post fun _ hk => absurd hk List.not_mem_nil
  | connect co =>
    have hne : ∀ l c, (s.driver.connect s.nextConnector).tcp (.accepted l c)
        = s.driver.tcp (.accepted l c) := fun l c => tcp_connect_of_ne s.driver nofun
    have hmade : ∀ l c, TcpId.accepted l c ∈ s.created ++ [.connector s.nextConnector] →
        (s.driver.connect s.nextConnector).tcp (.accepted l c) ≠ none := fun l c hm => by
      rw [hne]
      exact h.made l c (by simpa using hm)
    obtain ⟨hi, hd, hm, hc, he, hr, hcs⟩ := h.create (h.driver.of_accepted rfl hne) rfl hmade
    refine ⟨hi, hd, hm, hc, he, hr, fun c hc => ?_⟩
    rcases List.mem_append.1 hc with hc | hc
    · exact hcs c hc
    · rw [List.mem_singleton.1 hc]
      exact List.mem_append_right _ List.mem_cons_self
  | connectReturn id =>
    refine ⟨h.ids, h.driver, h.made, h.listed, h.events, fun k hk => ?_,
      fun c hc => h.connects c (List.mem_of_mem_erase hc)⟩
    unfold System.exec at hk
    simp only [] at hk
    split_ifs at hk
    · rcases List.mem_append.1 hk with hk | hk
      · exact h.reported k hk
      · rw [List.mem_singleton.1 hk]
        exact h.connects id hl
    · exact h.reported k hk
  | close connId =>
    obtain ⟨hi, hd, hm⟩ := h.tables_close connId
    exact ⟨hi, hd, hm, h.remove connId, h.events, h.reported, h.connects⟩
  | closeListener listenerId =>
    obtain ⟨hi, hd, hm⟩ := h.driver_close listenerId
    exact ⟨hi, hd, hm, h.listed, h.events, h.reported, h.connects⟩
  | accepted listenerId =>
    have hmade : ∀ l c, TcpId.accepted l c ∈ s.created ++ [.accepted listenerId s.nextAccepted] →
        (s.driver.accept listenerId s.nextAccepted).tcp (.accepted l c) ≠ none := fun l c hm => by
      show (s.driver.openTcp (.accepted listenerId s.nextAccepted)).tcp (.accepted l c) ≠ none
      by_cases heq : TcpId.accepted l c = .accepted listenerId s.nextAccepted
      · rw [heq, tcp_openTcp_self]
        exact Option.some_ne_none _
      · rw [tcp_openTcp_of_ne _ heq]
        rcases List.mem_append.1 hm with hm | hm
        · exact h.made l c hm
        · exact absurd (List.mem_singleton.1 hm) heq
    obtain ⟨hi, hd, hm, hc, he, hr, hcs⟩ := (h.create (h.driver.accept _ _) rfl hmade).post
      (e := .accept listenerId s.nextAccepted) fun k hk =>
        List.mem_append_right _ hk
    exact ⟨hi, hd, hm, hc, he, hr, hcs⟩
  | connected id =>
    have hne : ∀ l c, (s.driver.openTcp (.connector id)).tcp (.accepted l c)
        = s.driver.tcp (.accepted l c) := fun l c => tcp_openTcp_of_ne s.driver nofun
    have hs : Sound { s with driver := s.driver.openTcp (.connector id) } :=
      ⟨h.ids, h.driver.of_accepted rfl hne, fun l c hm => by rw [hne]; exact h.made l c hm, h.listed,
        h.events, h.reported, h.connects⟩
    refine hs.post fun k hk => ?_
    rw [List.mem_singleton.1 hk]
    exact hl.1
  | dispatch i =>
    unfold System.exec
    have hi : i < s.events.length := hl
    simp only [List.getElem?_eq_getElem hi]
    have hs : Sound { s with events := s.events.eraseIdx i } :=
      ⟨h.ids, h.driver, h.made, h.listed, fun e he => h.events e (List.mem_of_mem_eraseIdx he),
        h.reported, h.connects⟩
    exact hs.dispatched (h.events _ (List.getElem_mem hi))
  | clear connId => exact ⟨h.ids, h.driver, h.made, h.remove connId, h.events, h.reported, h.connects⟩

theorem exec_grows (s : System) (l : Label) :
    (∃ ks, (s.exec l).created = s.created ++ ks) ∧ s.driver.nextId ≤ (s.exec l).driver.nextId := by
  have hsame : s.created = s.created ++ [] := (List.append_nil _).symm
  cases l with
  | listen _ | udp _ => exact ⟨⟨[], hsame⟩, Int.le_add_one (Int.le_refl _)⟩
  | connect _ => exact ⟨⟨_, rfl⟩, Int.le_refl _⟩
  | accepted _ => exact ⟨⟨_, rfl⟩, Int.le_refl _⟩
  | close connId =>
    refine ⟨⟨[], hsame⟩, ?_⟩
    show s.driver.nextId ≤ (s.tables.close s.driver connId).nextId
    unfold Tables.close Driver.closeAccepted Driver.closeConnection
    split
    · split_ifs <;> exact Int.le_refl _
    · exact Int.le_of_eq (nextId_close _ _).symm
  | closeListener listenerId => exact ⟨⟨[], hsame⟩, Int.le_of_eq (nextId_close _ _).symm⟩
  | dispatch i =>
    unfold System.exec
    simp only []
    split <;> exact ⟨⟨[], hsame⟩, Int.le_refl _⟩
  | _ => exact ⟨⟨[], hsame⟩, Int.le_refl _⟩

/-- A number that is one connection's alone was so before. -/
theorem OwnNumber.of_exec {k : TcpId} (h : OwnNumber (s.exec l) k) : OwnNumber s k := by
  obtain ⟨⟨ks, hks⟩, hn⟩ := exec_grows s l
  refine ⟨fun k' hk' => h.alone k' (by rw [hks]; exact List.mem_append_left _ hk'), ?_,
    fun id hid hlt => h.store id hid ⟨hlt.1, Int.lt_of_lt_of_le hlt.2 hn⟩⟩
  have := h.once
  rw [hks, List.count_append] at this
  omega

theorem ConnectorSound.frame {c : ℤ} (h : ConnectorSound s c)
    (hsockets : s'.driver.sockets c = s.driver.sockets c)
    (htcp : s'.driver.tcp (.connector c) = s.driver.tcp (.connector c))
    (hreported : .connector c ∈ s'.reported → .connector c ∈ s.reported)
    (hopened : .opened c ∈ s'.events → .opened c ∈ s.events)
    (hlisted : ∀ conn, s'.tables.connections c = some conn →
      ∃ old, s.tables.connections c = some old ∧ conn.connectResult = old.connectResult) :
    ConnectorSound s' c where
  store := by rw [hsockets, htcp, h.store]
  reported hr := by rw [htcp]; exact h.reported (hreported hr)
  opened ho := by rw [htcp]; exact h.opened (hopened ho)
  listed conn hc hr := by
    obtain ⟨old, ho, hsame⟩ := hlisted conn hc
    rw [htcp]
    exact h.listed old ho (hsame ▸ hr)

theorem mem_post {e e' : Event} (h : e' ∈ (s.post e).events) (hne : e' ≠ e) : e' ∈ s.events := by
  rcases List.mem_append.1 h with h | h
  · exact h
  · exact absurd (List.mem_singleton.1 h) hne

/-- `lclose` of a connector that was connected. -/
theorem close_connector {d : Driver} {c : ℤ}
    (hstore : d.sockets c = if d.tcp (.connector c) = some true then none else some .connector)
    (htcp : d.tcp (.connector c) ≠ none) : d.close c = Driver.without d (.connector c) := by
  obtain ⟨b, hb⟩ := Option.ne_none_iff_exists'.1 htcp
  cases b with
  | true =>
    rw [hb, if_pos rfl] at hstore
    unfold Driver.close Driver.without
    simp only [hstore]
    rw [if_neg nofun, ← hb, Function.update_eq_self]
  | false =>
    rw [hb, if_neg (by decide)] at hstore
    unfold Driver.close Driver.without Driver.closeTcp
    simp only [hstore, hb]
    rfl

theorem sockets_without_connector {d : Driver} {c : ℤ}
    (hstore : d.sockets c = if d.tcp (.connector c) = some true then none else some .connector) :
    (Driver.without d (.connector c)).sockets c = none
      ∧ (Driver.without d (.connector c)).tcp (.connector c) = some true := by
  refine ⟨?_, Function.update_self _ _ _⟩
  unfold Driver.without
  simp only []
  split_ifs with h
  · exact Function.update_self _ _ _
  · rw [hstore]
    split_ifs with ht
    · rfl
    · rw [hstore, if_neg ht] at h
      exact absurd rfl h

/-- `socket.close` with the number of a connector, if no accepted connection has it. -/
theorem tables_close_connector {c : ℤ} (hs : Sound s) (ho : OwnNumber s (.connector c)) :
    s.tables.close s.driver c = s.driver.close c := by
  unfold Tables.close
  split
  · rename_i listenerId hl
    obtain ⟨conn, hconn, hl⟩ := Option.bind_eq_some_iff.1 hl
    have hk := hs.listed c conn hconn
    rw [known, hl] at hk
    exact nomatch ho.alone _ hk rfl
  · rfl

/-- `socket.close` of another number than a connector's. -/
theorem tables_close_of_ne (s : System) {c id : ℤ} (h : c ≠ id) :
    (s.tables.close s.driver id).sockets c = s.driver.sockets c
      ∧ (s.tables.close s.driver id).tcp (.connector c) = s.driver.tcp (.connector c) := by
  unfold Tables.close
  split
  · rename_i listenerId _
    have hne : TcpId.connector c ≠ .accepted listenerId id := nofun
    unfold Driver.closeAccepted Driver.closeConnection
    split_ifs
    · exact ⟨rfl, tcp_closeTcp_of_ne s.driver hne⟩
    · exact ⟨rfl, rfl⟩
    · exact ⟨rfl, rfl⟩
  · exact close_of_ne s.driver h

/-- A connector's number that was given away is that of a connector the service was told of. -/
theorem reported_of_given {c : ℤ} (hs : Sound s) (ho : OwnNumber s (.connector c))
    (hg : s.Given c) : .connector c ∈ s.reported := by
  rcases hg with hg | hg
  · obtain ⟨k, hk, hn⟩ := List.mem_map.1 hg
    exact ho.alone k (hs.reported k hk) hn ▸ hk
  · exact absurd hg (ho.store c rfl)

/-- Closing the connector's own number. -/
theorem ConnectorSound.close {c : ℤ} (h : ConnectorSound s c)
    (htcp : s.driver.tcp (.connector c) ≠ none) (t : Tables) :
    ConnectorSound { s with driver := s.driver.close c, tables := t } c := by
  obtain ⟨h1, h2⟩ := sockets_without_connector h.store
  rw [← close_connector h.store htcp] at h1 h2
  have hne : (s.driver.close c).tcp (.connector c) ≠ none := by rw [h2]; exact nofun
  exact ⟨by rw [if_pos h2, h1], fun _ => hne, fun _ => hne, fun _ _ _ => hne⟩

/-- A connector that is just made. -/
theorem ConnectorSound.fresh {co : Coroutine} (hs : Sound s)
    (ho : OwnNumber (s.exec (.connect co)) (.connector s.nextConnector)) :
    ConnectorSound (s.exec (.connect co)) s.nextConnector := by
  have hnew : .connector s.nextConnector ∉ s.created := by
    have hone := ho.once
    show ¬ _
    rw [← List.count_pos_iff]
    have : List.count (TcpId.connector s.nextConnector)
        (s.created ++ [TcpId.connector s.nextConnector]) ≤ 1 := hone
    rw [List.count_append, List.count_singleton_self] at this
    omega
  have htcp : (s.driver.connect s.nextConnector).tcp (.connector s.nextConnector) = none :=
    Function.update_self _ _ _
  refine ⟨?_, fun h => absurd (hs.reported _ h) hnew,
    fun h => absurd (hs.events _ h _ List.mem_cons_self) hnew, fun conn hc _ => ?_⟩
  · show (s.driver.connect s.nextConnector).sockets s.nextConnector
      = if (s.driver.connect s.nextConnector).tcp (.connector s.nextConnector) = some true
        then none else some .connector
    rw [htcp, if_neg nofun]
    exact Function.update_self _ _ _
  · have hk := hs.listed _ conn hc
    have heq : known s.nextConnector conn = .connector s.nextConnector := by
      refine ho.alone _ (List.mem_append_left _ hk) ?_
      unfold known
      cases conn.listenerId <;> rfl
    exact absurd (heq ▸ hk) hnew

theorem ConnectorSound.dispatched {c : ℤ} (h : ConnectorSound s c) {e : Event}
    (he : e = .opened c → s.driver.tcp (.connector c) ≠ none) :
    ConnectorSound (s.dispatched e) c where
  store := h.store
  reported hr := by
    rcases List.mem_append.1 hr with hr | hr
    · exact h.reported hr
    · cases e with
      | accept l c' =>
        unfold told at hr
        simp only [] at hr
        split_ifs at hr
        · exact nomatch List.mem_singleton.1 hr
        · cases hr
      | _ => cases hr
  opened := h.opened
  listed conn hc hr := by
    rcases connections_dispatch hc with ⟨old, ho, -, hres⟩ | ⟨l, -, -, hres⟩ | ⟨heq, -⟩
    · exact h.listed old ho (hres ▸ hr)
    · rw [hres] at hr
      cases hr
    · exact he heq

theorem ConnectorSound.exec {c : ℤ} (h : ConnectorSound s c) (hs : Sound s)
    (hl : s.Enabled l) (hc : .connector c ∈ s.created) (ho : OwnNumber (s.exec l) (.connector c)) :
    ConnectorSound (s.exec l) c := by
  have hown := ho.of_exec
  have hlist : ∀ conn, s.tables.connections c = some conn →
      ∃ old, s.tables.connections c = some old ∧ conn.connectResult = old.connectResult :=
    fun conn hconn => ⟨conn, hconn, rfl⟩
  have hpost : ∀ {e : Event}, e ≠ .opened c → ConnectorSound (s.post e) c := fun hne =>
    h.frame rfl rfl id (fun hm => mem_post hm hne.symm) hlist
  have hremove : ∀ id conn, (s.tables.setConnection id none).connections c = some conn →
      s.tables.connections c = some conn := fun id conn hconn => by
    rw [connections_setConnection] at hconn
    split_ifs at hconn
    exact hconn
  cases l with
  | listen _ | udp _ =>
    have hne : c ≠ s.driver.nextId := fun heq =>
      ho.store c rfl ⟨heq ▸ hs.ids, heq ▸ Int.lt_add_one_of_le (Int.le_refl _)⟩
    exact h.frame (Function.update_of_ne hne _ _) rfl id id hlist
  | ondata _ | otherAccepted | otherConnector => exact h.frame rfl rfl id id hlist
  | connectFailed _ | received _ _ | hungUp _ | congested _ _ | datagram _ _ => exact hpost nofun
  | connect co =>
    by_cases heq : c = s.nextConnector
    · subst heq
      exact .fresh hs ho
    · exact h.frame (Function.update_of_ne heq _ _)
        (tcp_connect_of_ne s.driver (by simpa using heq)) id id hlist
  | connectReturn id =>
    refine ⟨h.store, fun hr => ?_, h.opened, h.listed⟩
    unfold System.exec at hr
    simp only [] at hr
    split_ifs at hr with hany
    · rcases List.mem_append.1 hr with hr | hr
      · exact h.reported hr
      · obtain ⟨conn, hconn, hres⟩ := (Option.any_eq_true _ _).1 hany
        cases List.mem_singleton.1 hr
        exact h.listed conn hconn hres
    · exact h.reported hr
  | close id =>
    by_cases heq : c = id
    · subst heq
      have htcp := h.reported (reported_of_given hs hown hl)
      have := h.close htcp (s.tables.setConnection c none)
      rw [← tables_close_connector hs hown] at this
      exact this
    · obtain ⟨h1, h2⟩ := tables_close_of_ne s heq
      exact h.frame h1 h2 (fun h => h) (fun h => h) fun conn hconn =>
        ⟨conn, hremove id conn hconn, rfl⟩
  | closeListener id =>
    by_cases heq : c = id
    · subst heq
      exact h.close (h.reported (reported_of_given hs hown hl)) _
    · obtain ⟨h1, h2⟩ := close_of_ne s.driver heq
      exact h.frame h1 h2 (fun h => h) (fun h => h) hlist
  | accepted id =>
    have hne : TcpId.connector c ≠ .accepted id s.nextAccepted := nofun
    exact h.frame rfl (tcp_openTcp_of_ne s.driver hne) (fun h => h)
      (fun hm => mem_post hm nofun) hlist
  | connected id =>
    by_cases heq : c = id
    · subst heq
      have htcp : (s.driver.openTcp (.connector c)).tcp (.connector c) = some false :=
        tcp_openTcp_self _ _
      have hne : (s.driver.openTcp (.connector c)).tcp (.connector c) ≠ none := by
        rw [htcp]
        exact nofun
      refine ⟨?_, fun _ => hne, fun _ => hne, fun _ _ _ => hne⟩
      show s.driver.sockets c
        = if (s.driver.openTcp (.connector c)).tcp (.connector c) = some true then none
          else some .connector
      rw [h.store, htcp, if_neg (by rw [hl.2]; exact nofun), if_neg (by decide)]
    · have hne : TcpId.connector c ≠ .connector id := by simpa using heq
      exact h.frame rfl (tcp_openTcp_of_ne s.driver hne) (fun h => h)
        (fun hm => mem_post hm (by simpa using heq)) hlist
  | dispatch i =>
    unfold System.exec
    have hi : i < s.events.length := hl
    simp only [List.getElem?_eq_getElem hi]
    have hs' : ConnectorSound { s with events := s.events.eraseIdx i } c :=
      ⟨h.store, h.reported, fun hm => h.opened (List.mem_of_mem_eraseIdx hm), h.listed⟩
    exact hs'.dispatched fun heq => h.opened (heq ▸ List.getElem_mem hi)
  | clear id =>
    exact h.frame rfl rfl (fun h => h) (fun h => h) fun conn hconn =>
      ⟨conn, hremove id conn hconn, rfl⟩

/-- What holds in every state: the invariant, and that of each connector that shares its number
with no other connection. -/
structure Invariant (s : System) : Prop where
  sound : Sound s
  connectors : ∀ c, .connector c ∈ s.created → OwnNumber s (.connector c) → ConnectorSound s c

theorem Invariant.step (h : Invariant s) (hs : s.step l = some s') : Invariant s' := by
  unfold System.step at hs
  split_ifs at hs with hl
  cases hs
  refine ⟨h.sound.exec l hl, fun c hc ho => ?_⟩
  by_cases hold : .connector c ∈ s.created
  · exact (h.connectors c hold ho.of_exec).exec h.sound hl hold ho
  · cases l with
    | connect co =>
      rcases List.mem_append.1 hc with hc | hc
      · exact absurd hc hold
      · cases List.mem_singleton.1 hc
        exact .fresh h.sound ho
    | accepted id =>
      rcases List.mem_append.1 hc with hc | hc
      · exact absurd hc hold
      · exact nomatch List.mem_singleton.1 hc
    | dispatch i =>
      unfold System.exec at hc
      simp only [] at hc
      split at hc <;> exact absurd hc hold
    | _ => exact absurd hc hold

theorem invariant_of_reachable (h : Reachable step init s) : Invariant s :=
  h.invariant ⟨sound_init, fun _ hc => absurd hc List.not_mem_nil⟩ fun _ _ _ _ hi _ hs => hi.step hs

end System

end Invariants

section Closing

namespace System

variable {s : System}

/-- `socket.close` of an accepted connection the library still knows. -/
theorem tables_close_accepted (hs : Sound s) {l c : ℤ} (ho : OwnNumber s (.accepted l c))
    (hk : (s.tables.connections c).isSome = true) :
    s.tables.close s.driver c = s.driver.closeAccepted l c := by
  obtain ⟨conn, hconn⟩ := Option.isSome_iff_exists.1 hk
  have hknown := hs.listed c conn hconn
  have heq : known c conn = .accepted l c := by
    refine ho.alone _ hknown ?_
    unfold known
    cases conn.listenerId <;> rfl
  have hl : conn.listenerId = some l := by
    unfold known at heq
    cases hid : conn.listenerId with
    | none => rw [hid] at heq; cases heq
    | some l' => rw [hid] at heq; cases heq; rfl
  unfold Tables.close
  rw [hconn, Option.bind_some, hl]

/-- `socket.close` of a number the library does not know. -/
theorem tables_close_unknown {c : ℤ} (hk : (s.tables.connections c).isSome ≠ true) :
    s.tables.close s.driver c = s.driver.close c := by
  unfold Tables.close
  cases hconn : s.tables.connections c with
  | none => rfl
  | some conn => exact absurd (by rw [hconn]; rfl) hk

/-- The driver is as it was without a connection if and only if that is closed. -/
theorem eq_without_accepted {d : Driver} (h : Driver.Sound d) {l c : ℤ} :
    d = Driver.without d (.accepted l c) ↔ d.tcp (.accepted l c) = some true := by
  constructor
  · intro heq
    rw [heq]
    exact Function.update_self _ _ _
  · intro htrue
    have hc : d.connections l c = false := by
      rw [← Bool.not_eq_true, h l c, htrue]
      decide
    unfold Driver.without
    simp only []
    rw [← htrue, Function.update_eq_self, ← hc, Function.update_eq_self, Function.update_eq_self]

/-- `lclose` of an id that is in the store takes it out. -/
theorem sockets_close_self (d : Driver) (id : ℤ) : (d.close id).sockets id = none := by
  unfold Driver.close
  split
  · assumption
  · exact Function.update_self _ _ _
  · exact Function.update_self _ _ _

/-- In every run, `socket.close` with the number of a connection that was reported closes that
connection alone if and only if it is `Closable`, provided that its number is no other's. -/
theorem closesAlone_iff (hr : Reachable step init s) {k : TcpId} (hk : k ∈ s.reported)
    (ho : OwnNumber s k) : s.ClosesAlone k ↔ s.Closable k := by
  obtain ⟨hs, hcs⟩ := invariant_of_reachable hr
  have hcreated := hs.reported k hk
  unfold ClosesAlone
  cases k with
  | connector c =>
    have hc := hcs c hcreated ho
    refine iff_of_true ?_ trivial
    show s.tables.close s.driver c = _
    rw [tables_close_connector hs ho, close_connector hc.store (hc.reported hk)]
  | accepted l c =>
    show s.tables.close s.driver c = _ ↔ _
    unfold Closable
    by_cases hknown : (s.tables.connections c).isSome = true
    · rw [tables_close_accepted hs ho hknown]
      unfold Driver.closeAccepted
      split_ifs with hl
      · exact iff_of_true (closeConnection_eq hs.driver (hs.made l c hcreated)) (.inl ⟨hknown, hl⟩)
      · rw [eq_without_accepted hs.driver]
        exact ⟨fun h => .inr ⟨h, .inl hknown⟩, fun h => h.elim (fun h => absurd h.2 hl) And.left⟩
    · rw [tables_close_unknown hknown]
      constructor
      · intro heq
        have hnone : s.driver.sockets c = none := by
          have := congrArg (fun d => d.sockets c) heq
          simp only [sockets_close_self] at this
          exact this.symm
        have hsame : s.driver.close c = s.driver := by
          unfold Driver.close
          rw [hnone]
        rw [hsame] at heq
        exact .inr ⟨(eq_without_accepted hs.driver).1 heq, .inr hnone⟩
      · rintro (⟨h, -⟩ | ⟨htrue, h | hnone⟩)
        · exact absurd h hknown
        · exact absurd h hknown
        · have hsame : s.driver.close c = s.driver := by
            unfold Driver.close
            rw [hnone]
          rw [hsame]
          exact (eq_without_accepted hs.driver).2 htrue

/-- A listener and a UDP socket; a connection is accepted, and the service is told of it. -/
def acceptRun : List Label := [.listen true, .udp true, .accepted 1, .dispatch 0]

theorem closesAlone_accepted :
    ClosesAlone (after step init acceptRun) (.accepted 1 1) := by
  have ho : OwnNumber (after step init acceptRun) (.accepted 1 1) :=
    ⟨by decide, by decide, fun _ h => by cases h⟩
  exact (closesAlone_iff (reachable_after (by decide)) (by decide) ho).2 (.inl (by decide))

/-- A listener accepts a connection, which its peer closes, and the service is told of both. -/
def hungUpRun : List Label :=
  [.listen true, .accepted 1, .dispatch 0, .hungUp (.accepted 1 1), .dispatch 0, .clear 1]

/-- Then `socket.close` of the connection, 1, closes the listener 1. -/
theorem closed_the_listener : ¬ ∀ (s : System) (k : TcpId), Reachable step init s →
    k ∈ s.reported → s.ClosesAlone k := by
  intro h
  have hclose := h (after step init hungUpRun) (.accepted 1 1) (reachable_after (by decide))
    (by decide)
  have hstore : (none : Option EntryType) = some .listener :=
    congrArg (fun d => d.sockets 1) hclose
  cases hstore

end System

end Closing

end Socket

end SkynetCpp
