import SkynetCpp.Network

/-!
# Reads and events of a TCP connection

As long as no read is outstanding when a paused connection is resumed, there is one read at most
(`oneRead_of_calm`), and so the buffer holds the bytes of one read until they have been reported. The
events of a connection begin with the one that tells of it and go on with what its handlers send
(`Shaped`); they end with the close event if nothing completes after it.
-/

namespace SkynetCpp

namespace Network

open Lib

namespace TcpConnection

variable {c c' : TcpConnection} {l : Io}

theorem step_eq_some : step c l = some c' ↔ c.Enabled l ∧ c.exec l = c' := by
  unfold step
  split_ifs with h <;> simp [h]

section Fields

variable (c)

/-- The operation leaves the reads alone, and sends no data. -/
structure SameReads (c c' : TcpConnection) : Prop where
  listenerId : c'.listenerId = c.listenerId
  id : c'.id = c.id
  reads : c'.reads = c.reads
  readBuf : c'.readBuf = c.readBuf
  isPaused : c'.isPaused = c.isPaused
  received : c'.received = c.received
  events : ∃ es, c'.events = c.events ++ es ∧ ∀ e ∈ es, dataOf e = []

theorem doRead_eq : c.doRead =
    { c with reads := c.reads ++ if c.isPaused then [] else [.outstanding] } := by
  unfold doRead
  split_ifs <;> simp

theorem sameReads_doWrite : SameReads c c.doWrite := by
  unfold doWrite
  split_ifs <;> exact ⟨rfl, rfl, rfl, rfl, rfl, rfl, [], by simp⟩

theorem sameReads_checkSendWarning : SameReads c c.checkSendWarning := by
  unfold checkSendWarning
  split_ifs
  · exact ⟨rfl, rfl, rfl, rfl, rfl, rfl, [_], rfl, by simp [dataOf]⟩
  · exact ⟨rfl, rfl, rfl, rfl, rfl, rfl, [], by simp⟩

end Fields

theorem SameReads.trans {c'' : TcpConnection} (h : SameReads c c') (h' : SameReads c' c'') :
    SameReads c c'' := by
  obtain ⟨es, hes, hdata⟩ := h.events
  obtain ⟨es', hes', hdata'⟩ := h'.events
  refine ⟨h'.listenerId.trans h.listenerId, h'.id.trans h.id, h'.reads.trans h.reads,
    h'.readBuf.trans h.readBuf, h'.isPaused.trans h.isPaused, h'.received.trans h.received,
    es ++ es', ?_, ?_⟩
  · rw [hes', hes, List.append_assoc]
  · intro e he
    rcases List.mem_append.1 he with he | he
    · exact hdata e he
    · exact hdata' e he

theorem sameReads_send (data : Bytes) : SameReads c (c.send data) := by
  have h : SameReads c ({ c with
      pendingBytes := c.pendingBytes + data.length
      writeQueue := c.writeQueue ++ [data] }.checkSendWarning) := by
    refine SameReads.trans ?_ (sameReads_checkSendWarning _)
    exact ⟨rfl, rfl, rfl, rfl, rfl, rfl, [], by simp⟩
  unfold send
  dsimp only
  split_ifs
  · exact h
  · exact h.trans (sameReads_doWrite _)

theorem sameReads_writeHandler (ok : Bool) : SameReads c (c.writeHandler ok) := by
  unfold writeHandler
  dsimp only
  split_ifs
  · refine SameReads.trans ?_ (sameReads_doWrite _)
    exact ⟨rfl, rfl, rfl, rfl, rfl, rfl, [], by simp⟩
  · exact ⟨rfl, rfl, rfl, rfl, rfl, rfl, [_], rfl, by simp [dataOf]⟩

theorem flatMap_dataOf {es : List Payload} (h : ∀ e ∈ es, dataOf e = []) :
    es.flatMap dataOf = [] := List.flatMap_eq_nil_iff.2 h

theorem OneRead.same (h : OneRead c) (hs : SameReads c c') : OneRead c' := by
  obtain ⟨es, hes, hdata⟩ := hs.events
  refine ⟨by rw [hs.reads]; exact h.one, ?_, fun hp => ?_⟩
  · unfold inFlight
    rw [hs.reads, hs.readBuf, hs.received, hes, List.flatMap_append, flatMap_dataOf hdata,
      List.append_nil]
    exact h.bytes
  · rw [hs.reads, hs.listenerId, hs.id, hes]
    rw [hs.isPaused] at hp
    exact (h.reading hp).imp_right fun hmem => List.mem_append_left _ hmem

theorem oneRead_start (listenerId id : ℤ) : OneRead (start listenerId id) :=
  ⟨Nat.le_refl _, rfl, fun _ => .inl (by simp [start, doRead])⟩

/-- There is one read at most: it is none, or the only one. -/
theorem OneRead.reads_eq (h : OneRead c) {r : Read} (hr : r ∈ c.reads) : c.reads = [r] := by
  have hone := h.one
  rcases hl : c.reads with _ | ⟨a, _ | ⟨b, rest⟩⟩
  · rw [hl] at hr
    cases hr
  · rw [hl] at hr
    rw [List.mem_singleton.1 hr]
  · rw [hl] at hone
    simp at hone

theorem OneRead.readHandler (h : OneRead c) (hc : Completed c.reads) : OneRead c.readHandler := by
  have hbytes := h.bytes
  unfold inFlight at hbytes
  rcases hl : c.reads with _ | ⟨r, reads⟩
  · rw [hl] at hc
    exact hc.elim
  · have hreads : reads = [] := by
      have := h.reads_eq (r := r) (by simp [hl])
      rw [hl] at this
      exact (List.cons.inj this).2
    subst hreads
    rw [hl] at hbytes
    unfold TcpConnection.readHandler
    rw [hl]
    cases r with
    | outstanding =>
      rw [hl] at hc
      exact hc.elim
    | done bytes =>
      simp only [List.flatMap_cons, List.flatMap_nil, List.append_nil] at hbytes
      simp only [doRead_eq, post, List.nil_append]
      refine ⟨?_, ?_, fun hp => .inl ?_⟩
      · dsimp only
        split_ifs <;> simp
      · rw [← hbytes]
        dsimp only [inFlight]
        split_ifs <;> simp [dataOf]
      · have hp : c.isPaused = false := hp
        simp [hp]
    | failed =>
      refine ⟨Nat.zero_le _, ?_, fun _ => .inr (by simp [post])⟩
      simpa [inFlight, post, dataOf] using hbytes

theorem OneRead.step (h : OneRead c) (hcalm : c.Calm l) (hs : step c l = some c') : OneRead c' := by
  obtain ⟨hen, rfl⟩ := step_eq_some.1 hs
  cases l with
  | send data => exact h.same (sameReads_send data)
  | close => exact ⟨h.one, h.bytes, h.reading⟩
  | pause => exact ⟨h.one, h.bytes, fun hp => by cases hp⟩
  | resume =>
    change OneRead c.resume
    unfold resume
    split_ifs with hp
    · have hreads := hcalm rfl hp
      have hbytes := h.bytes
      unfold inFlight at hbytes
      rw [hreads] at hbytes
      have hdo : doRead { c with isPaused := false }
          = { c with isPaused := false, reads := [.outstanding] } := by
        simp [doRead, hreads]
      rw [hdo]
      exact ⟨Nat.le_refl _, hbytes, fun _ => .inl (by simp)⟩
    · exact h
  | shutdownWrite => exact h
  | receive data =>
    obtain ⟨-, hmem, -, -⟩ := hen
    have hreads := h.reads_eq hmem
    have hbytes := h.bytes
    simp only [inFlight, hreads, List.flatMap_cons, List.flatMap_nil, List.append_nil] at hbytes
    have hexec : c.exec (.receive data) = { c with
        reads := [.done data.length]
        readBuf := data ++ c.readBuf.drop data.length
        received := c.received ++ data } := by
      simp [exec, receive, hreads, settle]
    rw [hexec]
    refine ⟨Nat.le_refl _, ?_, fun _ => .inl (by simp)⟩
    simp [inFlight, hbytes]
  | readFails =>
    have hreads := h.reads_eq hen
    have hbytes := h.bytes
    simp only [inFlight, hreads, List.flatMap_cons, List.flatMap_nil, List.append_nil] at hbytes
    have hexec : c.exec .readFails = { c with reads := [.failed] } := by
      simp [exec, hreads, settle]
    rw [hexec]
    refine ⟨Nat.le_refl _, ?_, fun _ => .inl (by simp)⟩
    simp [inFlight, hbytes]
  | readHandler => exact h.readHandler hen
  | writeHandler ok => exact h.same (sameReads_writeHandler ok)

/-- As long as a paused connection is resumed when no read is outstanding. -/
theorem oneRead_of_calm {listenerId id : ℤ} (h : Reaches step Calm (start listenerId id) c) :
    OneRead c :=
  Reaches.invariant (I := OneRead) (oneRead_start listenerId id)
    (fun _ _ _ _ hi hcalm hs => hi.step hcalm hs) h

/-- The connection is paused while a read gets bytes, and resumed after its handler. -/
def pausedRun : List Io :=
  [.receive [1, 2], .pause, .readHandler, .resume, .receive [3], .readHandler]

theorem oneRead_pausedRun :
    OneRead (after step (start 1 1) pausedRun) ∧
      (after step (start 1 1) pausedRun).received = [1, 2, 3] :=
  ⟨oneRead_of_calm (reaches_after (by decide)), by decide⟩

/-- Paused and resumed while its read is outstanding, the connection has two, and bytes of the first
are lost. -/
theorem two_reads : ∃ c, Reachable step (start 1 1) c ∧ ¬ OneRead c := by
  refine ⟨after step (start 1 1) [.pause, .resume], reachable_after (by decide), fun h => ?_⟩
  exact absurd h.one (by decide)

end TcpConnection

section Events

variable {c : TcpConnection} {l : Io} {es : List Payload}

/-- What one operation sends: nothing, or one event of the connection. -/
structure Sends (c : TcpConnection) (l : Io) (es : List Payload) : Prop where
  events : (c.exec l).events = c.events ++ es
  silent : c.Silent l → es = []
  one : es = [] ∨ ∃ x, es = [x] ∧ (Middle x ∨ Closes x) ∧ connId x = some c.id

theorem sends_nil (h : (c.exec l).events = c.events) : Sends c l [] :=
  ⟨by rw [h, List.append_nil], fun _ => rfl, .inl rfl⟩

theorem events_doWrite (c : TcpConnection) : c.doWrite.events = c.events := by
  unfold TcpConnection.doWrite
  split_ifs <;> rfl

theorem id_doWrite (c : TcpConnection) : c.doWrite.id = c.id := by
  unfold TcpConnection.doWrite
  split_ifs <;> rfl

theorem sends_send (data : Bytes) : ∃ es, Sends c (.send data) es := by
  have hevents : (c.exec (.send data)).events = ({ c with
      pendingBytes := c.pendingBytes + data.length
      writeQueue := c.writeQueue ++ [data] }.checkSendWarning).events := by
    change (c.send data).events = _
    unfold TcpConnection.send
    dsimp only
    split_ifs
    · rfl
    · exact events_doWrite _
  unfold TcpConnection.checkSendWarning at hevents
  split_ifs at hevents with hwarn
  · refine ⟨[_], hevents, fun hs => ?_, .inr ⟨_, rfl, .inl trivial, rfl⟩⟩
    obtain ⟨hw, hp⟩ := hwarn
    rcases hs with hs | hs
    · exact absurd (hw.symm.trans hs) (by simp)
    · exact absurd hp (Nat.not_le_of_lt hs)
  · exact ⟨[], sends_nil hevents⟩

theorem sends_readHandler : ∃ es, Sends c .readHandler es := by
  rcases hl : c.reads with _ | ⟨_ | bytes | _, reads⟩
  · exact ⟨[], sends_nil (by simp [TcpConnection.exec, TcpConnection.readHandler, hl])⟩
  · exact ⟨[], sends_nil (by simp [TcpConnection.exec, TcpConnection.readHandler, hl])⟩
  · refine ⟨[.socketData c.listenerId c.id (c.readBuf.take bytes)], ?_, fun hs => hs.elim,
      .inr ⟨_, rfl, .inl trivial, rfl⟩⟩
    simp [TcpConnection.exec, TcpConnection.readHandler, hl, TcpConnection.doRead_eq,
      TcpConnection.post]
  · refine ⟨[.socketClose c.listenerId c.id], ?_, fun hs => hs.elim,
      .inr ⟨_, rfl, .inr trivial, rfl⟩⟩
    simp [TcpConnection.exec, TcpConnection.readHandler, hl, TcpConnection.post]

theorem exists_sends (c : TcpConnection) (l : Io) : ∃ es, Sends c l es := by
  cases l with
  | send data => exact sends_send data
  | close | pause | shutdownWrite | receive data | readFails => exact ⟨[], sends_nil rfl⟩
  | resume =>
    refine ⟨[], sends_nil ?_⟩
    change c.resume.events = c.events
    unfold TcpConnection.resume
    split_ifs
    · rw [TcpConnection.doRead_eq]
    · rfl
  | readHandler => exact sends_readHandler
  | writeHandler ok =>
    cases ok with
    | true => exact ⟨[], sends_nil (events_doWrite _)⟩
    | false => exact ⟨[_], rfl, fun hs => (by cases hs), .inr ⟨_, rfl, .inr trivial, rfl⟩⟩

theorem id_exec (c : TcpConnection) (l : Io) : (c.exec l).id = c.id := by
  cases l with
  | send data => exact (TcpConnection.sameReads_send data).id
  | close | pause | shutdownWrite | receive data | readFails => rfl
  | resume =>
    change c.resume.id = c.id
    unfold TcpConnection.resume
    split_ifs
    · rw [TcpConnection.doRead_eq]
    · rfl
  | readHandler =>
    change c.readHandler.id = c.id
    unfold TcpConnection.readHandler
    split
    · rw [TcpConnection.doRead_eq]
      rfl
    · rfl
    · rfl
  | writeHandler ok => exact (TcpConnection.sameReads_writeHandler ok).id

/-- The events of a connection that was made. -/
def Shaped (es : List Payload) : Prop :=
  ∃ e middle closing, es = e :: middle ++ closing ∧ Opens e ∧ (∀ x ∈ middle, Middle x) ∧
    (closing = [] ∨ ∃ x, Closes x ∧ closing = [x])

theorem shaped_opens {e : Payload} (h : Opens e) : Shaped [e] :=
  ⟨e, [], [], rfl, h, by simp, .inl rfl⟩

/-- What comes when no close event was sent goes to the end. -/
theorem Shaped.append (h : Shaped es) (hopen : ¬ ∃ e ∈ es, Closes e) {x : Payload}
    (hx : Middle x ∨ Closes x) : Shaped (es ++ [x]) := by
  obtain ⟨e, middle, closing, rfl, he, hm, hc⟩ := h
  have hnil : closing = [] := by
    rcases hc with rfl | ⟨y, hy, rfl⟩
    · rfl
    · exact absurd ⟨y, by simp, hy⟩ hopen
  subst hnil
  rcases hx with hx | hx
  · refine ⟨e, middle ++ [x], [], by simp, he, fun y hy => ?_, .inl rfl⟩
    rcases List.mem_append.1 hy with hy | hy
    · exact hm y hy
    · exact List.mem_singleton.1 hy ▸ hx
  · exact ⟨e, middle, [x], by simp, he, hm, .inr ⟨x, hx, rfl⟩⟩

theorem Shaped.exec (h : Shaped c.events) (hs : c.Spent l) : Shaped (c.exec l).events := by
  obtain ⟨es, hsends⟩ := exists_sends c l
  rw [hsends.events]
  by_cases hclosed : ∃ e ∈ c.events, Closes e
  · rw [hsends.silent (hs hclosed), List.append_nil]
    exact h
  · rcases hsends.one with rfl | ⟨x, rfl, hx, -⟩
    · rw [List.append_nil]
      exact h
    · exact h.append hclosed hx

end Events

/-- What was sent for an endpoint. -/
def Endpoint.events : Endpoint → List Payload
  | .connecting _ => []
  | .failed id => [.socketClose 0 id]
  | .opened c => c.events

namespace Net

variable {n n' : Net} {i : ℕ}

/-- What was sent for the connection. -/
def eventsOf (n : Net) (id : ℤ) : List Payload := n.events.filter fun x => connId x = some id

structure Kept (n : Net) : Prop where
  ids : (n.endpoints.map Endpoint.id).Nodup
  events : ∀ e ∈ n.endpoints, n.eventsOf e.id = e.events
  known : ∀ x ∈ n.events, ∃ e ∈ n.endpoints, connId x = some e.id
  shaped : ∀ c, .opened c ∈ n.endpoints → Shaped c.events

theorem kept_init : Kept {} where
  ids := List.nodup_nil
  events e he := by cases he
  known x hx := by cases hx
  shaped c hc := by cases hc

theorem eventsOf_append (id : ℤ) (es : List Payload) :
    ({ n with events := n.events ++ es }).eventsOf id
      = n.eventsOf id ++ es.filter fun x => connId x = some id := List.filter_append ..

/-- Nothing was sent for an id that is not given. -/
theorem Kept.eventsOf_new (h : Kept n) {id : ℤ} (hid : ∀ e ∈ n.endpoints, e.id ≠ id) :
    n.eventsOf id = [] := by
  refine List.filter_eq_nil_iff.2 fun x hx => ?_
  obtain ⟨e, he, hxe⟩ := h.known x hx
  rw [hxe, decide_eq_true_eq, Option.some_inj]
  exact hid e he

theorem Kept.add (h : Kept n) {e : Endpoint} {es : List Payload}
    (hid : ∀ e' ∈ n.endpoints, e'.id ≠ e.id) (hes : e.events = es)
    (hids : ∀ x ∈ es, connId x = some e.id)
    (hshaped : ∀ c, e = .opened c → Shaped c.events) (a b : ℤ) :
    Kept { nextAccepted := a, nextConnector := b, endpoints := n.endpoints ++ [e],
           events := n.events ++ es } := by
  have hfilter : ∀ id, id ≠ e.id → (es.filter fun x => connId x = some id) = [] := by
    intro id hne
    refine List.filter_eq_nil_iff.2 fun x hx => ?_
    rw [hids x hx, decide_eq_true_eq, Option.some_inj]
    exact Ne.symm hne
  have hself : (es.filter fun x => connId x = some e.id) = es :=
    List.filter_eq_self.2 fun x hx => by rw [hids x hx]; simp
  refine ⟨?_, fun e' he' => ?_, fun x hx => ?_, fun c hc => ?_⟩
  · rw [List.map_append, List.nodup_append]
    refine ⟨h.ids, by simp, fun x hx y hy hxy => ?_⟩
    obtain ⟨e', he', rfl⟩ := List.mem_map.1 hx
    simp only [List.map_cons, List.map_nil, List.mem_singleton] at hy
    exact hid e' he' (hxy.trans hy)
  · refine (List.filter_append ..).trans ?_
    rcases List.mem_append.1 he' with he' | he'
    · rw [hfilter e'.id (hid e' he'), List.append_nil]
      exact h.events e' he'
    · rw [List.mem_singleton] at he'
      subst he'
      rw [hself, hes]
      exact congrArg (· ++ es) (h.eventsOf_new hid)
  · rcases List.mem_append.1 hx with hx | hx
    · obtain ⟨e', he', hxe⟩ := h.known x hx
      exact ⟨e', List.mem_append_left _ he', hxe⟩
    · exact ⟨e, by simp, hids x hx⟩
  · rcases List.mem_append.1 hc with hc | hc
    · exact h.shaped c hc
    · exact hshaped c (List.mem_singleton.1 hc).symm

theorem Kept.set (h : Kept n) {e e' : Endpoint} {es : List Payload} (hi : n.endpoints[i]? = some e)
    (hid : e'.id = e.id) (hes : e'.events = e.events ++ es)
    (hids : ∀ x ∈ es, connId x = some e.id)
    (hshaped : ∀ c, e' = .opened c → Shaped c.events) : Kept (n.set i e' es) := by
  obtain ⟨hlt, hget⟩ := List.getElem?_eq_some_iff.1 hi
  have hmap : (n.endpoints.set i e').map Endpoint.id = n.endpoints.map Endpoint.id := by
    refine List.ext_getElem (by simp) fun j hj hj' => ?_
    rw [List.getElem_map, List.getElem_map, List.getElem_set]
    split_ifs with hij
    · subst hij
      rw [hid, hget]
    · rfl
  have hmem : ∀ e'' ∈ n.endpoints.set i e', e'' = e' ∨ e'' ∈ n.endpoints ∧ e''.id ≠ e.id := by
    intro e'' he''
    obtain ⟨j, hj, hje⟩ := List.mem_iff_getElem.1 he''
    rw [List.getElem_set] at hje
    split_ifs at hje with hij
    · exact .inl hje.symm
    · have hj' : j < n.endpoints.length := by simpa using hj
      refine .inr ⟨hje ▸ List.getElem_mem hj', fun heq => hij ?_⟩
      have hi' : i < (n.endpoints.map Endpoint.id).length := by simpa using hlt
      have hjm : j < (n.endpoints.map Endpoint.id).length := by simpa using hj'
      have hids : (n.endpoints.map Endpoint.id)[i] = (n.endpoints.map Endpoint.id)[j] := by
        rw [List.getElem_map, List.getElem_map, hget, hje, heq]
      exact (List.getElem_inj h.ids).1 hids
  have hself : (es.filter fun x => connId x = some e.id) = es :=
    List.filter_eq_self.2 fun x hx => by rw [hids x hx]; simp
  have hmem' : e' ∈ n.endpoints.set i e' := List.mem_set hlt e'
  refine ⟨?_, fun e'' he'' => ?_, fun x hx => ?_, fun c hc => ?_⟩
  · change ((n.endpoints.set i e').map Endpoint.id).Nodup
    rw [hmap]
    exact h.ids
  · refine (List.filter_append ..).trans ?_
    rcases hmem e'' he'' with rfl | ⟨hin, hne⟩
    · rw [hid, hself, hes]
      exact congrArg (· ++ es) (h.events e (hget ▸ List.getElem_mem hlt))
    · have hnone : (es.filter fun x => connId x = some e''.id) = [] := by
        refine List.filter_eq_nil_iff.2 fun x hx => ?_
        rw [hids x hx, decide_eq_true_eq, Option.some_inj]
        exact Ne.symm hne
      rw [hnone, List.append_nil]
      exact h.events e'' hin
  · rcases List.mem_append.1 hx with hx | hx
    · obtain ⟨e₀, he₀, hxe⟩ := h.known x hx
      have hin : e₀.id ∈ (n.endpoints.set i e').map Endpoint.id := by
        rw [hmap]
        exact List.mem_map_of_mem he₀
      obtain ⟨e₁, he₁, heq⟩ := List.mem_map.1 hin
      exact ⟨e₁, he₁, hxe.trans (congrArg some heq.symm)⟩
    · exact ⟨e', hmem', (hids x hx).trans (congrArg some hid.symm)⟩
  · rcases hmem _ hc with hc | ⟨hc, -⟩
    · exact hshaped c hc.symm
    · exact h.shaped c hc

theorem step_eq_some {l : Label} : step n l = some n' ↔ n.Enabled l ∧ n.exec l = n' := by
  unfold step
  split_ifs with h <;> simp [h]

theorem events_start (listenerId id : ℤ) : (TcpConnection.start listenerId id).events = [] := rfl

theorem id_start (listenerId id : ℤ) : (TcpConnection.start listenerId id).id = id := rfl

theorem Kept.step {l : Label} (h : Kept n) (ho : n.Orderly l) (hs : step n l = some n') :
    Kept n' := by
  obtain ⟨hen, rfl⟩ := step_eq_some.1 hs
  cases l with
  | accept listenerId address port =>
    have hids : ∀ x ∈ [Payload.socketAccept listenerId n.nextAccepted address port],
        connId x = some n.nextAccepted := by simp [connId]
    refine h.add (e := .opened ((TcpConnection.start listenerId n.nextAccepted).post _)) ho rfl hids
      ?_ _ _
    rintro c hc
    cases hc
    exact shaped_opens trivial
  | connect =>
    have := Kept.add (e := .connecting n.nextConnector) h ho rfl (fun x hx => by cases hx)
      (fun c hc => by cases hc) n.nextAccepted (Socket.System.nextInt n.nextConnector)
    rw [show (Endpoint.connecting n.nextConnector).events = [] from rfl, List.append_nil] at this
    exact this
  | connected j address port =>
    change Kept (n.connected j address port)
    unfold connected
    split
    · rename_i id hj
      refine h.set hj rfl rfl (by simp [connId, Endpoint.id]) ?_
      rintro c hc
      cases hc
      exact shaped_opens trivial
    · exact h
  | connectFails j =>
    change Kept (n.connectFails j)
    unfold connectFails
    split
    · rename_i id hj
      exact h.set hj rfl rfl (by simp [connId, Endpoint.id]) fun c hc => by cases hc
    · exact h
  | io j l =>
    change Kept (n.io j l)
    unfold io
    split
    · rename_i c hj
      obtain ⟨es, hsends⟩ := exists_sends c l
      have hspent : c.Spent l := by
        have : Spent l n.endpoints[j]? := ho
        rw [hj] at this
        exact this
      have hc : .opened c ∈ n.endpoints := List.mem_of_getElem? hj
      refine h.set hj (id_exec c l) ?_ ?_ ?_
      · change (c.exec l).events = c.events ++ _
        rw [hsends.events, List.drop_left]
      · rw [hsends.events, List.drop_left]
        intro x hx
        rcases hsends.one with rfl | ⟨y, rfl, -, hy⟩
        · cases hx
        · exact List.mem_singleton.1 hx ▸ hy
      · rintro c' hc'
        cases hc'
        exact (h.shaped c hc).exec hspent
    · exact h

/-- The events of each connection come in the order of the protocol, as long as ids are not given
twice and nothing completes on a connection whose close event was sent. -/
theorem protocol_of_orderly (h : Reaches step Orderly {} n) (id : ℤ) :
    Protocol (n.eventsOf id) := by
  have hk : Kept n := Reaches.invariant (I := Kept) kept_init
    (fun _ _ _ _ hi ho hs => hi.step ho hs) h
  by_cases hid : ∃ e ∈ n.endpoints, e.id = id
  · obtain ⟨e, he, rfl⟩ := hid
    rw [hk.events e he]
    cases e with
    | connecting id => exact .inl rfl
    | failed id => exact .inr (.inl ⟨.socketClose 0 id, trivial, rfl⟩)
    | opened c => exact .inr (.inr (hk.shaped c he))
  · rw [hk.eventsOf_new fun e he heq => hid ⟨e, he, heq⟩]
    exact .inl rfl

/-- A connection is accepted, gets data and is closed by its peer, while another connect fails. -/
def closedRun : List Label :=
  [.accept 1 [] 80, .connect, .io 0 (.receive [1]), .io 0 .readHandler, .io 0 (.send [2]),
    .connectFails 1, .io 0 (.writeHandler true), .io 0 .readFails, .io 0 .readHandler]

theorem protocol_closedRun :
    Protocol ((after step {} closedRun).eventsOf 1) ∧
      (after step {} closedRun).eventsOf 1
        = [.socketAccept 1 1 [] 80, .socketData 1 1 [1], .socketClose 1 1] :=
  ⟨protocol_of_orderly (reaches_after (by decide)) 1, by decide⟩

/-- The peer resets a connection that is written to: the read and the write both tell of it. -/
theorem closed_twice : ∃ n, Reachable step {} n ∧ ¬ Protocol (n.eventsOf 1) := by
  refine ⟨after step {} [.accept 1 [] 80, .io 0 (.send [2]), .io 0 .readFails, .io 0 .readHandler,
    .io 0 (.writeHandler false)], reachable_after (by decide), ?_⟩
  have hevents : (after step {} [.accept 1 [] 80, .io 0 (.send [2]), .io 0 .readFails,
      .io 0 .readHandler, .io 0 (.writeHandler false)]).eventsOf 1
        = [.socketAccept 1 1 [] 80, .socketClose 1 1, .socketClose 1 1] := by decide
  rw [hevents]
  rintro (h | ⟨e, -, h⟩ | ⟨e, middle, closing, h, -, hm, hc⟩)
  · cases h
  · cases h
  · obtain ⟨-, h⟩ := List.cons.inj (h : _ = e :: (middle ++ closing))
    rcases middle with _ | ⟨x, middle⟩
    · rcases hc with rfl | ⟨x, -, rfl⟩ <;> cases h
    · obtain ⟨rfl, -⟩ := List.cons.inj h
      exact hm _ List.mem_cons_self

end Net

end Network

end SkynetCpp
