import Mathlib.Data.List.Nodup
import SkynetCpp.Proofs.Socket
import SkynetCpp.SocketIds

/-!
# Sockets keep to themselves

As long as the counters keep to their ranges, an id that a counter has given is below it
(`Sock.Below`), and the ranges of accepted connections and of what the store numbers end where that
of connectors begins. Nothing keeps them there (`same_id`). -/

namespace SkynetCpp

namespace Socket

open Lib SocketDriver

section Dispatch

variable {t : Tables} {e : Event} {k : TcpId} {c : ℤ}

theorem number_of_eventIds {listenerId connId : ℤ} (h : System.eventIds k = (listenerId, connId)) :
    k.number = connId := by
  cases k <;> exact congrArg Prod.snd h

/-- What is dispatched for a connection is looked up under its number. -/
theorem dispatch_of_ne (he : e.concerns k) (hc : c ≠ k.number) :
    (t.dispatch e).1.connections c = t.connections c ∧
      (t.dispatch e).1.connecting c = t.connecting c := by
  cases e with
  | accept listenerId connId =>
    obtain rfl : k = .accepted listenerId connId := he
    change Tables.connections (if _ then _ else _) c = _ ∧
      Tables.connecting (if _ then _ else _) c = _
    split_ifs
    · exact ⟨Function.update_of_ne hc _ _, rfl⟩
    · exact ⟨rfl, rfl⟩
  | data listenerId connId payload =>
    rw [number_of_eventIds he] at hc
    simp only [Tables.dispatch]
    split
    · exact ⟨Function.update_of_ne hc _ _, rfl⟩
    · exact ⟨rfl, rfl⟩
  | close listenerId connId =>
    rw [number_of_eventIds he] at hc
    have hconnecting : Function.update t.connecting connId none c = t.connecting c :=
      Function.update_of_ne hc _ _
    simp only [Tables.dispatch]
    split
    · exact ⟨Function.update_of_ne hc _ _, hconnecting⟩
    · exact ⟨rfl, hconnecting⟩
  | opened connId =>
    obtain rfl : k = .connector connId := he
    simp only [Tables.dispatch]
    split
    · exact ⟨Function.update_of_ne hc _ _, Function.update_of_ne hc _ _⟩
    · exact ⟨rfl, rfl⟩
  | warning listenerId connId bytes => exact ⟨rfl, rfl⟩
  | udp socketId payload => exact he.elim

end Dispatch

namespace System

variable {s : System} {l : Label} {id : ℤ}

theorem nextInt_lt {n a : ℤ} (ha : 1 ≤ a) (h : a ≤ nextInt n) : n < nextInt n := by
  unfold nextInt at h ⊢
  split_ifs with heq
  · rw [if_pos heq] at h
    omega
  · omega

/-- The counters of the process change when they give an id. -/
theorem counters_exec (s : System) (l : Label) :
    ((s.exec l).nextAccepted = s.nextAccepted ∨
      ((∃ id, l = .accepted id) ∨ l = .otherAccepted) ∧
        (s.exec l).nextAccepted = nextInt s.nextAccepted) ∧
    ((s.exec l).nextConnector = s.nextConnector ∨
      ((∃ co, l = .connect co) ∨ l = .otherConnector) ∧
        (s.exec l).nextConnector = nextInt s.nextConnector) := by
  cases l with
  | accepted id => exact ⟨.inr ⟨.inl ⟨id, rfl⟩, rfl⟩, .inl rfl⟩
  | otherAccepted => exact ⟨.inr ⟨.inr rfl, rfl⟩, .inl rfl⟩
  | connect co => exact ⟨.inl rfl, .inr ⟨.inl ⟨co, rfl⟩, rfl⟩⟩
  | otherConnector => exact ⟨.inl rfl, .inr ⟨.inr rfl, rfl⟩⟩
  | dispatch i =>
    unfold System.exec
    dsimp only
    split <;> exact ⟨.inl rfl, .inl rfl⟩
  | _ => exact ⟨.inl rfl, .inl rfl⟩

theorem sockets_close (d : Driver) (h : (d.close id).sockets c = some .connector) :
    d.sockets c = some .connector := by
  by_cases hc : c = id
  · rw [hc, sockets_close_self] at h
    cases h
  · rwa [(close_of_ne d hc).1] at h

/-- The store has a new connector when the service connects. -/
theorem sockets_exec (h : (s.exec l).driver.sockets id = some .connector) :
    s.driver.sockets id = some .connector ∨ (∃ co, l = .connect co) ∧ id = s.nextConnector := by
  have halloc : ∀ type, type ≠ .connector → (s.driver.alloc type).sockets id = some .connector →
      s.driver.sockets id = some .connector := fun type hne h => by
    change Function.update s.driver.sockets s.driver.nextId (some type) id = _ at h
    by_cases hid : id = s.driver.nextId
    · rw [hid, Function.update_self] at h
      exact absurd (Option.some.inj h) hne
    · rwa [Function.update_of_ne hid] at h
  cases l with
  | listen => exact .inl (halloc .listener nofun h)
  | udp => exact .inl (halloc .udp nofun h)
  | connect co =>
    by_cases hid : id = s.nextConnector
    · exact .inr ⟨⟨co, rfl⟩, hid⟩
    · exact .inl ((Function.update_of_ne hid _ _).symm.trans h)
  | close connId =>
    refine .inl ?_
    change (s.tables.close s.driver connId).sockets id = _ at h
    unfold Tables.close Driver.closeAccepted Driver.closeConnection at h
    split at h
    · split_ifs at h <;> exact h
    · exact sockets_close s.driver h
  | closeListener listenerId => exact .inl (sockets_close s.driver h)
  | dispatch i =>
    refine .inl ?_
    unfold System.exec at h
    dsimp only at h
    split at h <;> exact h
  | _ => exact .inl h

end System

/-- The id is in the range of the counter that has given it, and below what that counter gives next,
unless it has left its range. -/
def Sock.Below (s : System) : Sock → Prop
  | .listener id | .udp id => id < s.driver.nextId ∧ id < 1000000
  | .tcp (.accepted _ connId) => connId < 1000000 ∧ (1 ≤ s.nextAccepted → connId < s.nextAccepted)
  | .tcp (.connector id) => 1000000 ≤ id ∧ (1000000 ≤ s.nextConnector → id < s.nextConnector)

namespace Census

open Socket.System

variable {s s' : Census} {l : System.Label} {sock new : Sock}

theorem step_eq_some : step s l = some s' ↔ ∃ system, s.system.step l = some system ∧
    s' = ⟨system, s.openedAfter l⟩ := by
  unfold step
  rw [Option.map_eq_some_iff]
  exact exists_congr fun system => and_congr_right fun _ => eq_comm

theorem system_reachable {P : Census → System.Label → Prop} (h : Reaches step P init s) :
    Reachable System.step System.init s.system := by
  refine Reaches.map Census.system (fun s l s' _ _ hs => .inr ⟨l, trivial, ?_⟩) h
  obtain ⟨system, hsystem, rfl⟩ := step_eq_some.1 hs
  exact hsystem

theorem below_exec (hl : s.InRange l) (h : sock.Below s.system) :
    sock.Below (s.system.exec l) := by
  obtain ⟨haccepted, hconnector⟩ := counters_exec s.system l
  have hids := (exec_grows s.system l).2
  rcases sock with id | id | ⟨listenerId, connId⟩ | id
  · exact ⟨Int.lt_of_lt_of_le h.1 hids, h.2⟩
  · exact ⟨Int.lt_of_lt_of_le h.1 hids, h.2⟩
  · refine ⟨h.1, fun hnext => ?_⟩
    rcases haccepted with heq | ⟨hlabel, heq⟩
    · rw [heq] at hnext ⊢
      exact h.2 hnext
    · rw [heq] at hnext ⊢
      have hrange : 1 ≤ s.system.nextAccepted := by
        rcases hlabel with ⟨id, rfl⟩ | rfl
        · exact hl.1
        · exact hl
      exact Int.lt_trans (h.2 hrange) (nextInt_lt (Int.le_refl 1) hnext)
  · refine ⟨h.1, fun hnext => ?_⟩
    rcases hconnector with heq | ⟨hlabel, heq⟩
    · rw [heq] at hnext ⊢
      exact h.2 hnext
    · rw [heq] at hnext ⊢
      have hrange : 1000000 ≤ s.system.nextConnector := by
        rcases hlabel with ⟨co, rfl⟩ | rfl <;> exact hl
      exact Int.lt_trans (h.2 hrange) (nextInt_lt (by decide) hnext)

/-- The id that a counter gives next. -/
def Fresh (s : System) : Sock → Prop
  | .listener id | .udp id => id = s.driver.nextId ∧ id < 1000000
  | .tcp (.accepted _ connId) => connId = s.nextAccepted ∧ 1 ≤ connId ∧ connId < 1000000
  | .tcp (.connector id) => id = s.nextConnector ∧ 1000000 ≤ id

theorem id_ne_of_fresh {t : Table} (hnew : Fresh s.system new) (h : sock.Below s.system)
    (husesnew : new.uses t) (huses : sock.uses t) : sock.id ≠ new.id := by
  rcases new with id | id | ⟨listenerId, connId⟩ | id <;>
    rcases sock with id' | id' | ⟨listenerId', connId'⟩ | id' <;>
    simp only [Fresh, Sock.Below, Sock.id, TcpId.number] at hnew h ⊢ <;>
    cases t <;>
    first
    | exact absurd huses Bool.false_ne_true
    | exact absurd husesnew Bool.false_ne_true
    | omega

/-- What holds in every run whose counters keep to their ranges. -/
structure Ranged (s : Census) : Prop where
  opened : ∀ sock ∈ s.opened, sock.Below s.system
  created : ∀ k ∈ s.system.created, (Sock.tcp k).Below s.system
  numbers : (s.system.created.map TcpId.number).Nodup
  known : ∀ k, .tcp k ∈ s.opened → k ∈ s.system.created
  stored : ∀ id, s.system.driver.sockets id = some .connector → 1000000 ≤ id
  distinct : ∀ t : Table, ((s.opened.filter fun sock => sock.uses t).map Sock.id).Nodup

theorem ranged_init : Ranged init where
  opened _ h := absurd h List.not_mem_nil
  created _ h := absurd h List.not_mem_nil
  numbers := List.nodup_nil
  known _ h := absurd h List.not_mem_nil
  stored _ h := by cases h
  distinct _ := List.nodup_nil

/-- The socket that is made has an id that is fresh, and below the counter then. -/
def Makes (s : Census) (l : System.Label) (new : Sock) : Prop :=
  s.InRange l → Fresh s.system new ∧ new.Below (s.system.exec l)

theorem makes_listen {handler : Bool} :
    s.Makes (.listen handler) (.listener s.system.driver.nextId) :=
  fun h => ⟨⟨rfl, h⟩, Int.lt_succ _, h⟩

theorem makes_udp {callback : Bool} : s.Makes (.udp callback) (.udp s.system.driver.nextId) :=
  fun h => ⟨⟨rfl, h⟩, Int.lt_succ _, h⟩

theorem makes_connect {co : Coroutine} :
    s.Makes (.connect co) (.tcp (.connector s.system.nextConnector)) :=
  fun h => ⟨⟨rfl, h⟩, h, nextInt_lt (by decide)⟩

theorem makes_accepted {id : ℤ} :
    s.Makes (.accepted id) (.tcp (.accepted id s.system.nextAccepted)) :=
  fun h => ⟨⟨rfl, h.1, h.2⟩, h.2, nextInt_lt (Int.le_refl 1)⟩

/-- The sockets that were open, or fewer, or a new one besides. -/
theorem openedAfter_cases (s : Census) (l : System.Label) :
    (s.openedAfter l).Sublist s.opened ∨
      ∃ new, s.openedAfter l = s.opened ++ [new] ∧ s.Makes l new ∧
        ∀ k, new = .tcp k → k ∈ (s.system.exec l).created := by
  have hwithout : ∀ sock, (s.without sock).Sublist s.opened := fun sock => by
    cases sock with
    | none => exact List.Sublist.refl _
    | some sock => exact List.erase_sublist
  cases l with
  | listen => exact .inr ⟨_, rfl, makes_listen, nofun⟩
  | udp => exact .inr ⟨_, rfl, makes_udp, nofun⟩
  | connect =>
    refine .inr ⟨_, rfl, makes_connect, fun k hk => ?_⟩
    exact Sock.tcp.inj hk ▸ List.mem_append_right _ List.mem_cons_self
  | accepted =>
    refine .inr ⟨_, rfl, makes_accepted, fun k hk => ?_⟩
    exact Sock.tcp.inj hk ▸ List.mem_append_right _ List.mem_cons_self
  | close | closeListener | hungUp | connectFailed => exact .inl (hwithout _)
  | _ => exact .inl (List.Sublist.refl _)

/-- The service has a new connection when it connects or a listener of its accepts. -/
theorem created_cases (s : Census) (l : System.Label) :
    (s.system.exec l).created = s.system.created ∨
      ∃ k, (s.system.exec l).created = s.system.created ++ [k] ∧ s.Makes l (.tcp k) := by
  cases l with
  | accepted id => exact .inr ⟨_, rfl, makes_accepted⟩
  | connect co => exact .inr ⟨_, rfl, makes_connect⟩
  | dispatch i =>
    refine .inl ?_
    unfold System.exec
    dsimp only
    split <;> rfl
  | _ => exact .inl rfl

/-- An id that a counter gives is none of an open socket's that shares a table with the new one. -/
theorem Ranged.distinct_append (h : Ranged s) (hnew : Fresh s.system new) (t : Table) :
    (((s.opened ++ [new]).filter fun sock => sock.uses t).map Sock.id).Nodup := by
  rw [List.filter_append, List.map_append, List.nodup_append]
  refine ⟨h.distinct t, ?_, fun a ha b hb => ?_⟩
  · by_cases huses : new.uses t = true
    · simp [huses]
    · simp [huses]
  · obtain ⟨sock, hsock, rfl⟩ := List.mem_map.1 ha
    obtain ⟨sock', hsock', rfl⟩ := List.mem_map.1 hb
    obtain ⟨hmem, huses⟩ := List.mem_filter.1 hsock
    obtain ⟨hmem', huses'⟩ := List.mem_filter.1 hsock'
    obtain rfl := List.mem_singleton.1 hmem'
    exact id_ne_of_fresh hnew (h.opened sock hmem) huses' huses

/-- A new connection of the service has a number of its own. -/
theorem Ranged.numbers_append (h : Ranged s) {k : TcpId} (hnew : Fresh s.system (.tcp k)) :
    ((s.system.created ++ [k]).map TcpId.number).Nodup := by
  rw [List.map_append, List.nodup_append]
  refine ⟨h.numbers, List.nodup_singleton k.number, fun a ha b hb => ?_⟩
  obtain ⟨k', hk', rfl⟩ := List.mem_map.1 ha
  obtain rfl := List.mem_singleton.1 hb
  exact id_ne_of_fresh (t := .socketConnections) hnew (h.created k' hk') rfl rfl

theorem Ranged.step (h : Ranged s) (hl : s.InRange l) (hs : Census.step s l = some s') :
    Ranged s' := by
  obtain ⟨system, hsystem, rfl⟩ := step_eq_some.1 hs
  unfold System.step at hsystem
  split_ifs at hsystem
  obtain rfl := Option.some.inj hsystem
  have hcreated : (∀ k ∈ (s.system.exec l).created, (Sock.tcp k).Below (s.system.exec l)) ∧
      ((s.system.exec l).created.map TcpId.number).Nodup := by
    rcases created_cases s l with heq | ⟨k, heq, hmakes⟩
    · rw [heq]
      exact ⟨fun k hk => below_exec hl (h.created k hk), h.numbers⟩
    · rw [heq]
      refine ⟨fun k' hk' => ?_, h.numbers_append (hmakes hl).1⟩
      rcases List.mem_append.1 hk' with hk' | hk'
      · exact below_exec hl (h.created k' hk')
      · exact List.mem_singleton.1 hk' ▸ (hmakes hl).2
  have hkept : ∀ k, .tcp k ∈ s.opened → k ∈ (s.system.exec l).created := fun k hk => by
    obtain ⟨ks, heq⟩ := (exec_grows s.system l).1
    rw [heq]
    exact List.mem_append_left _ (h.known k hk)
  have hstored : ∀ id, (s.system.exec l).driver.sockets id = some .connector → 1000000 ≤ id := by
    intro id hid
    rcases sockets_exec hid with hold | ⟨⟨co, rfl⟩, rfl⟩
    · exact h.stored id hold
    · exact hl
  rcases openedAfter_cases s l with hsub | ⟨new, heq, hmakes, hknown⟩
  · refine ⟨fun sock hsock => below_exec hl (h.opened sock (hsub.subset hsock)), hcreated.1,
      hcreated.2, fun k hk => hkept k (hsub.subset hk), hstored, fun t => ?_⟩
    exact (h.distinct t).sublist ((hsub.filter _).map _)
  · refine ⟨fun sock hsock => ?_, hcreated.1, hcreated.2, fun k hk => ?_, hstored, fun t => ?_⟩
    · rcases List.mem_append.1 (heq ▸ hsock) with hsock | hsock
      · exact below_exec hl (h.opened sock hsock)
      · exact List.mem_singleton.1 hsock ▸ (hmakes hl).2
    · rcases List.mem_append.1 (heq ▸ hk) with hk | hk
      · exact hkept k hk
      · exact hknown k (List.mem_singleton.1 hk).symm
    · change ((List.filter _ (s.openedAfter l)).map _).Nodup
      rw [heq]
      exact h.distinct_append (hmakes hl).1 t

/-- While the counters keep to their ranges. -/
theorem unambiguous_of_inRange (h : Reaches step InRange init s) : Unambiguous s := by
  have hr : Ranged s := h.invariant ranged_init fun _ _ _ _ hi hl hs => hi.step hl hs
  have hsound := (invariant_of_reachable (system_reachable h)).sound
  have hinj : ∀ k k', k ∈ s.system.created → k' ∈ s.system.created → k.number = k'.number →
      k = k' := fun k k' hk hk' heq => List.inj_on_of_nodup_map hr.numbers hk hk' heq
  refine ⟨hr.distinct, fun k k' hk hk' hne e he => ?_, fun k hk k' hk' => ?_⟩
  · exact dispatch_of_ne he fun heq => hne (hinj k k' (hr.known k hk) (hr.known k' hk') heq.symm)
  · unfold Tables.sendTo at hk'
    split at hk'
    · rename_i listenerId hl
      split_ifs at hk'
      · obtain rfl := Option.some.inj hk'
        obtain ⟨conn, hconn, hl⟩ := Option.bind_eq_some_iff.1 hl
        have hlisted := hsound.listed _ conn hconn
        rw [System.known, hl] at hlisted
        exact hinj _ k hlisted (hr.known k hk) rfl
      · cases hk'
    · split_ifs at hk' with hstored
      · obtain rfl := Option.some.inj hk'
        rcases k with ⟨listenerId, connId⟩ | id
        · exact absurd (hr.opened _ hk).1 (Int.not_lt.2 (hr.stored _ hstored))
        · rfl
      · cases hk'

section Runs

/-- A listener and a UDP socket, a connection that is accepted and one that is made. -/
def idsRun : List System.Label :=
  [.listen true, .udp true, .accepted 1, .dispatch 0, .connect 0, .connected 1000000, .dispatch 0]

theorem unambiguous_idsRun : Unambiguous (after step init idsRun) :=
  unambiguous_of_inRange (reaches_after (by decide))

/-- Other services' listeners accept connections. -/
theorem reachable_accepted (n : ℕ) (hn : n < 2 ^ 31 - 1) :
    Reachable step init ⟨{ System.init with nextAccepted := n + 1 }, []⟩ := by
  induction n with
  | zero => exact .refl
  | succ n ih =>
    refine (ih (by omega)).tail (l := .otherAccepted) trivial ?_
    have hnext : nextInt ((n : ℤ) + 1) = ((n + 1 : ℕ) : ℤ) + 1 := by
      unfold nextInt
      rw [if_neg (by omega)]
      rfl
    rw [← hnext]
    rfl

/-- The millionth connection that is accepted in the process, by a service that has made the first
connector: both have the id 1000000. -/
theorem same_id : ∃ s, Reachable step init s ∧ ¬ Unambiguous s := by
  have hmillion := reachable_accepted 999999 (by decide)
  have hrun : run step ⟨{ System.init with nextAccepted := (999999 : ℕ) + 1 }, []⟩
      [.listen true, .connect 0, .accepted 1] = some _ := rfl
  refine ⟨_, hmillion.trans (reachable_of_run hrun), fun h => ?_⟩
  exact absurd (h.distinct .socketConnections) (by decide)

end Runs

end Census

end Socket

end SkynetCpp
