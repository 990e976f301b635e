import SkynetCpp.RequestOrder

/-!
# Requests are written in the order of their calls

The calls in `block_connect` stand in the order they were made in (`Queue`), and what has been
written is of requests that were called before every request that is still there (`History`). A step
lets one call go on; if no request is ahead of it, it is the next.
-/

namespace SkynetCpp

namespace SocketChannel

namespace RequestOrder

open Lib

namespace State

variable {s s' : State} {l : Label}

theorem step_eq_some : step s l = some s' ↔ s.Enabled l ∧ s.exec l = s' := by
  unfold step
  split_ifs with h <;> simp [h]

section Proceed
variable (s) (call : Call)

theorem pending_proceed : (s.proceed call).pending = s.pending := by
  unfold State.proceed
  split <;> rfl

theorem stage_proceed : (s.proceed call).stage = s.stage := by
  unfold State.proceed
  split <;> rfl

theorem waiting_proceed : (s.proceed call).waiting = s.waiting := by
  unfold State.proceed
  split <;> rfl

theorem woken_proceed : (s.proceed call).woken = s.woken := by
  unfold State.proceed
  split <;> rfl

theorem calls_proceed : (s.proceed call).calls = s.calls := by
  unfold State.proceed
  split <;> rfl

end Proceed

/-- One is taken out of a list. -/
theorem split_at {as : List Call} {i : ℕ} {c : Call} (h : as[i]? = some c) :
    as = as.take i ++ c :: as.drop (i + 1) ∧ as.eraseIdx i = as.take i ++ as.drop (i + 1) := by
  obtain ⟨hi, rfl⟩ := List.getElem?_eq_some_iff.1 h
  exact ⟨by rw [← List.drop_eq_getElem_cons hi, List.take_append_drop],
    List.eraseIdx_eq_take_drop_succ as i⟩

/-! ## The calls in `block_connect` -/

structure Queue (s : State) : Prop where
  sorted : s.pending.Pairwise fun a b => a.index < b.index
  fresh : ∀ c ∈ s.pending, c.index < s.calls
  idle : s.stage = .idle → s.waiting = []
  authing : s.stage.isAuthing → s.woken = []

theorem queue_init : Queue {} where
  sorted := .nil
  fresh _ hc := nomatch hc
  idle _ := rfl
  authing h := nomatch h

/-- Nobody comes, and nobody goes past another. -/
theorem Queue.sublist (h : Queue s) (hp : s'.pending.Sublist s.pending)
    (hc : s.calls ≤ s'.calls) (hi : s'.stage = .idle → s'.waiting = [])
    (ha : s'.stage.isAuthing → s'.woken = []) : Queue s' where
  sorted := h.sorted.sublist hp
  fresh c hcp := Nat.lt_of_lt_of_le (h.fresh c (hp.subset hcp)) hc
  idle := hi
  authing := ha

theorem Queue.proceed (h : Queue s) (call : Call) : Queue (s.proceed call) := by
  refine h.sublist ?_ (Nat.le_of_eq (calls_proceed s call).symm) ?_ ?_
  · rw [pending_proceed]
  · rw [stage_proceed, waiting_proceed]
    exact h.idle
  · rw [stage_proceed, woken_proceed]
    exact h.authing

theorem Queue.wakeWaiters (h : Queue s) : Queue s.wakeWaiters := by
  refine h.sublist ?_ (Nat.le_refl _) (fun _ => rfl) nofun
  simp only [pending, State.wakeWaiters, Stage.call, List.append_nil]
  exact .append (List.sublist_append_left _ _) (.refl _)

/-- The call that connects goes on to another stage. -/
theorem Queue.setStage (h : Queue s) (st : Stage) (hcall : st.call = s.stage.call)
    (hidle : st ≠ .idle) (ha : st.isAuthing → s.woken = []) (connId : Option ℤ) :
    Queue { s with stage := st, connId } := by
  refine h.sublist ?_ (Nat.le_refl _) (fun hi => (hidle hi).elim) ha
  simp only [pending, hcall]
  exact .refl _

theorem Queue.retry (h : Queue s) {call : Call} (hs : s.stage.call = [call]) (n : ℕ) :
    Queue (s.retry call n) := by
  unfold State.retry
  split_ifs
  · exact h.setStage (.sleeping call (n + 1)) hs.symm nofun nofun s.connId
  · exact h.wakeWaiters

/-- The next call comes last. -/
theorem Queue.blockConnect (h : Queue s) (caller : Caller) (connId : Option ℤ) :
    Queue ({ s with calls := s.calls + 1, connId }.blockConnect ⟨s.calls, caller⟩) := by
  have hlast : (s.pending ++ [(⟨s.calls, caller⟩ : Call)]).Pairwise
      fun a b => a.index < b.index := by
    refine List.pairwise_append.2 ⟨h.sorted, List.pairwise_singleton _ _, fun a ha b hb => ?_⟩
    rw [List.mem_singleton.1 hb]
    exact h.fresh a ha
  have hfresh : ∀ c ∈ s.pending ++ [(⟨s.calls, caller⟩ : Call)], c.index < s.calls + 1 := by
    intro c hc
    rcases List.mem_append.1 hc with hc | hc
    · exact Nat.lt_succ_of_lt (h.fresh c hc)
    · rw [List.mem_singleton.1 hc]
      exact Nat.lt_succ_self _
  unfold State.blockConnect
  split_ifs with hconn hidle
  · have h' : Queue { s with calls := s.calls + 1, connId } :=
      h.sublist (.refl _) (Nat.le_succ _) h.idle h.authing
    exact h'.proceed _
  · have hp : ({ s with calls := s.calls + 1, connId, waiting := s.waiting ++ [⟨s.calls, caller⟩] } :
        State).pending = s.pending ++ [⟨s.calls, caller⟩] := by simp [pending]
    exact ⟨hp ▸ hlast, hp ▸ hfresh, fun hi => absurd hi hidle, h.authing⟩
  · have hi : s.stage = .idle := not_not.1 hidle
    have hp : ({ s with calls := s.calls + 1, connId, stage := .opening ⟨s.calls, caller⟩ 0 } :
        State).pending = s.pending ++ [⟨s.calls, caller⟩] := by
      simp [pending, Stage.call, hi, h.idle hi]
    exact ⟨hp ▸ hlast, hp ▸ hfresh, nofun, nofun⟩

theorem Queue.exec (h : Queue s) (hl : s.Enabled l) : Queue (s.exec l) := by
  cases l with
  | call caller =>
    cases caller with
    | connect once => exact h.blockConnect _ none
    | request | response => exact h.blockConnect _ s.connId
  | resume i =>
    simp only [State.exec]
    split
    · have h' : Queue { s with woken := s.woken.eraseIdx i } :=
        h.sublist (.append (.append (List.eraseIdx_sublist _ _) (.refl _)) (.refl _))
          (Nat.le_refl _) h.idle fun ha => by simp [h.authing ha]
      exact h'.proceed _
    · exact h
  | interrupt i =>
    simp only [State.exec]
    split
    · have h' : Queue { s with waiting := s.waiting.eraseIdx i } :=
        h.sublist (.append (.refl _) (List.eraseIdx_sublist _ _)) (Nat.le_refl _)
          (fun hi => by simp [h.idle hi]) h.authing
      exact h'.proceed _
    · exact h
  | opened conn =>
    simp only [State.exec]
    split
    case h_1 call retry hs =>
      exact h.setStage (.authing call retry) (by rw [hs]; rfl) nofun (fun _ => hl.1) _
    case h_2 => exact h
  | openFails =>
    simp only [State.exec]
    split
    case h_1 call retry hs => exact h.retry (by rw [hs, Stage.call]) retry
    case h_2 => exact h
  | awake =>
    simp only [State.exec]
    split
    case h_1 call retry hs =>
      exact h.setStage (.opening call retry) (by rw [hs]; rfl) nofun nofun s.connId
    case h_2 => exact h
  | authReturns =>
    simp only [State.exec]
    split
    · exact h.wakeWaiters.proceed _
    · exact h
  | authRaises =>
    simp only [State.exec]
    split
    case h_1 call retry hs =>
      have h' : Queue { s with connId := none } :=
        h.sublist (.refl _) (Nat.le_refl _) h.idle h.authing
      exact h'.retry (hs ▸ rfl : s.stage.call = [call]) retry
    case h_2 => exact h
  | close => exact h.sublist (.refl _) (Nat.le_refl _) h.idle h.authing

/-! ## What has been written -/

/-- A request that was written: its connection, its number and its parts. -/
structure Entry where
  conn : ℤ
  index : ℕ
  parts : List Bytes

def Entry.written (e : Entry) : List Written := e.parts.map fun part => ⟨e.conn, e.index, part⟩

/-- Requests have been written in their order, and those that are in `block_connect` come later. -/
def History (s : State) : Prop :=
  ∃ sent : List Entry, s.written = sent.flatMap Entry.written ∧
    sent.Pairwise (fun a b => a.index < b.index) ∧
    ∀ e ∈ sent, e.index < s.calls ∧ ∀ c ∈ s.pending, c.IsRequest → e.index < c.index

theorem history_init : History {} := ⟨[], rfl, .nil, nofun⟩

theorem History.mono (h : History s) (hw : s'.written = s.written) (hc : s.calls ≤ s'.calls)
    (hp : ∀ c ∈ s'.pending, c ∈ s.pending ∨ s.calls ≤ c.index) : History s' := by
  obtain ⟨sent, hsent, hsorted, hall⟩ := h
  refine ⟨sent, hw.trans hsent, hsorted, fun e he => ?_⟩
  obtain ⟨hlt, hbefore⟩ := hall e he
  refine ⟨Nat.lt_of_lt_of_le hlt hc, fun c hcp hreq => ?_⟩
  rcases hp c hcp with hcp | hcp
  · exact hbefore c hcp hreq
  · exact Nat.lt_of_lt_of_le hlt hcp

/-- A call goes on that was in `block_connect` or is new; if it is a request and there is a
connection, the requests in `block_connect` come after it. -/
theorem History.proceed (h : History s) {t : State} {call : Call} (hw : t.written = s.written)
    (hc : s.calls ≤ t.calls) (hcall : call ∈ s.pending ∨ s.calls ≤ call.index)
    (hi : call.index < t.calls) (hp : ∀ c ∈ t.pending, c ∈ s.pending)
    (hnext : t.connId ≠ none → call.IsRequest → ∀ c ∈ t.pending, c.IsRequest →
      call.index < c.index) : History (t.proceed call) := by
  have hmono : History t := h.mono hw hc fun c hcp => .inl (hp c hcp)
  unfold State.proceed
  split
  case h_2 => exact hmono
  case h_1 conn data hconn hdata =>
    have hreq : call.IsRequest := by
      unfold Call.IsRequest
      rw [hdata]
      trivial
    obtain ⟨sent, hsent, hsorted, hall⟩ := h
    have hlast : ∀ e ∈ sent, e.index < call.index := fun e he =>
      hcall.elim (fun hmem => (hall e he).2 call hmem hreq) fun hle =>
        Nat.lt_of_lt_of_le (hall e he).1 hle
    refine ⟨sent ++ [⟨conn, call.index, data.parts⟩], ?_, ?_, fun e he => ?_⟩
    · simp only [hw, hsent, List.flatMap_append, List.flatMap_singleton, Entry.written]
    · refine List.pairwise_append.2 ⟨hsorted, List.pairwise_singleton _ _, fun e he e' he' => ?_⟩
      rw [List.mem_singleton.1 he']
      exact hlast e he
    · rcases List.mem_append.1 he with he | he
      · exact ⟨Nat.lt_of_lt_of_le (hall e he).1 hc, fun c hcp => (hall e he).2 c (hp c hcp)⟩
      · rw [List.mem_singleton.1 he]
        exact ⟨hi, hnext (by rw [hconn]; nofun) hreq⟩

theorem History.wakeWaiters (h : History s) : History s.wakeWaiters :=
  h.mono rfl (Nat.le_refl _) fun c hc => .inl (by
    simp only [pending, State.wakeWaiters, Stage.call, List.append_nil, List.mem_append] at hc ⊢
    tauto)

theorem History.retry (h : History s) {call : Call} (hs : s.stage.call = [call]) (n : ℕ) :
    History (s.retry call n) := by
  unfold State.retry
  split_ifs
  · refine h.mono rfl (Nat.le_refl _) fun c hc => .inl ?_
    rw [pending, hs]
    exact hc
  · exact h.wakeWaiters

/-- A call that is made comes after the requests in `block_connect`, or there are none. -/
theorem History.blockConnect (h : History s) (caller : Caller) (connId : Option ℤ)
    (hnext : connId ≠ none → (⟨s.calls, caller⟩ : Call).IsRequest →
      ∀ c ∈ s.pending, ¬ c.IsRequest) :
    History ({ s with calls := s.calls + 1, connId }.blockConnect ⟨s.calls, caller⟩) := by
  unfold State.blockConnect
  split_ifs with hconn hidle
  · exact h.proceed rfl (Nat.le_succ _) (.inr (Nat.le_refl _)) (Nat.lt_succ_self _)
      (fun c hc => hc) fun hne hreq c hc hcreq => (hnext hne hreq c hc hcreq).elim
  · refine h.mono rfl (Nat.le_succ _) fun c hc => ?_
    simp only [pending, List.mem_append, List.mem_singleton] at hc ⊢
    rcases hc with hc | hc | rfl
    · exact .inl (.inl hc)
    · exact .inl (.inr hc)
    · exact .inr (Nat.le_refl _)
  · refine h.mono rfl (Nat.le_succ _) fun c hc => ?_
    simp only [pending, Stage.call, List.mem_append, List.mem_singleton] at hc ⊢
    rcases hc with (hc | rfl) | hc
    · exact .inl (.inl (.inl hc))
    · exact .inr (Nat.le_refl _)
    · exact .inl (.inr hc)

/-- What is behind a call that is taken out comes after it, and no request is ahead of it. -/
theorem Queue.next {as bs : List Call} {call : Call} (hq : Queue s)
    (hp : s.pending = as ++ call :: bs) (hahead : ∀ c ∈ as, ¬ c.IsRequest) :
    ∀ c ∈ as ++ bs, c.IsRequest → call.index < c.index := by
  have hsorted := hq.sorted
  rw [hp, List.pairwise_append, List.pairwise_cons] at hsorted
  intro c hc hreq
  rcases List.mem_append.1 hc with hc | hc
  · exact (hahead c hc hreq).elim
  · exact hsorted.2.1.1 c hc

/-- A call leaves `block_connect`, with no request ahead of it if it is one and can go on. -/
theorem History.leave (h : History s) (hq : Queue s) {t : State} (as bs : List Call) {call : Call}
    (hw : t.written = s.written) (hc : t.calls = s.calls) (hp : s.pending = as ++ call :: bs)
    (htp : t.pending = as ++ bs)
    (hahead : t.connId ≠ none → call.IsRequest → ∀ c ∈ as, ¬ c.IsRequest) :
    History (t.proceed call) := by
  have hmem : call ∈ s.pending := hp ▸ List.mem_append_right _ List.mem_cons_self
  refine h.proceed hw (Nat.le_of_eq hc.symm) (.inl hmem) (hc ▸ hq.fresh call hmem) ?_ ?_
  · rw [htp, hp]
    intro c hc
    rcases List.mem_append.1 hc with hc | hc
    · exact List.mem_append_left _ hc
    · exact List.mem_append_right _ (List.mem_cons_of_mem _ hc)
  · intro hne hreq
    rw [htp]
    exact hq.next hp (hahead hne hreq)

theorem History.exec (h : History s) (hq : Queue s) (ho : s.Orderly l) : History (s.exec l) := by
  cases l with
  | call caller =>
    cases caller with
    | request data => exact h.blockConnect _ s.connId fun hne _ => ho trivial hne
    | connect once => exact h.blockConnect _ none fun hne => (hne rfl).elim
    | response => exact h.blockConnect _ s.connId fun _ hreq => hreq.elim
  | resume i =>
    simp only [State.exec]
    split
    case h_1 call hcall =>
      obtain ⟨hsplit, herase⟩ := split_at hcall
      refine h.leave hq (s.woken.take i) (s.woken.drop (i + 1) ++ s.stage.call ++ s.waiting)
        rfl rfl ?_ ?_ fun hne hreq => ho ⟨call, hcall, hreq⟩ hne
      · rw [pending]
        nth_rewrite 1 [hsplit]
        simp only [List.append_assoc, List.cons_append]
      · simp only [pending, herase, List.append_assoc]
    case h_2 => exact h
  | interrupt i =>
    simp only [State.exec]
    split
    case h_1 call hcall =>
      obtain ⟨hsplit, herase⟩ := split_at hcall
      refine h.leave hq (s.woken ++ s.stage.call ++ s.waiting.take i) (s.waiting.drop (i + 1))
        rfl rfl ?_ ?_ fun hne hreq => ho ⟨call, hcall, hreq⟩ hne
      · rw [pending]
        nth_rewrite 1 [hsplit]
        simp only [List.append_assoc]
      · simp only [pending, herase, List.append_assoc]
    case h_2 => exact h
  | opened conn =>
    simp only [State.exec]
    split
    case h_1 call retry hs =>
      refine h.mono rfl (Nat.le_refl _) fun c hc => .inl ?_
      rw [pending, hs]
      exact hc
    case h_2 => exact h
  | openFails =>
    simp only [State.exec]
    split
    case h_1 call retry hs => exact h.retry (hs ▸ rfl : s.stage.call = [call]) retry
    case h_2 => exact h
  | awake =>
    simp only [State.exec]
    split
    case h_1 call retry hs =>
      refine h.mono rfl (Nat.le_refl _) fun c hc => .inl ?_
      rw [pending, hs]
      exact hc
    case h_2 => exact h
  | authReturns =>
    simp only [State.exec]
    split
    case h_1 call retry hs =>
      have hwoken : s.woken = [] := hq.authing (by rw [hs]; rfl)
      refine h.leave hq [] s.waiting rfl rfl ?_ ?_ fun _ _ c hc => nomatch hc
      · rw [pending, hs, hwoken]
        rfl
      · simp [pending, State.wakeWaiters, hwoken, Stage.call]
    case h_2 => exact h
  | authRaises =>
    simp only [State.exec]
    split
    case h_1 call retry hs =>
      have h' : History { s with connId := none } := h.mono rfl (Nat.le_refl _) fun c hc => .inl hc
      exact h'.retry (hs ▸ rfl : s.stage.call = [call]) retry
    case h_2 => exact h
  | close => exact h.mono rfl (Nat.le_refl _) fun c hc => .inl hc

/-- What was written on one connection. -/
theorem filter_written (conn : ℤ) (sent : List Entry) :
    (sent.flatMap Entry.written).filter (fun w => w.conn = conn)
      = (sent.filter fun e => e.conn = conn).flatMap Entry.written := by
  induction sent with
  | nil => rfl
  | cons e sent ih =>
    rw [List.flatMap_cons, List.filter_append, ih, List.filter_cons]
    by_cases he : e.conn = conn
    · simp [he, Entry.written, List.filter_map, Function.comp_def]
    · simp [he, Entry.written, List.filter_map, Function.comp_def]

theorem History.inOrder (h : History s) : InOrder s := by
  obtain ⟨sent, hsent, hsorted, hall⟩ := h
  refine ⟨fun conn => ?_, fun w hw => ?_⟩
  · refine ⟨(sent.filter fun e => e.conn = conn).map fun e => (e.index, e.parts), ?_, ?_⟩
    · rw [List.map_map, List.pairwise_map]
      exact hsorted.sublist List.filter_sublist
    · rw [hsent, filter_written, List.flatMap_map]
      refine List.flatMap_congr fun e he => ?_
      rw [Entry.written, of_decide_eq_true (List.mem_filter.1 he).2]
  · rw [hsent] at hw
    obtain ⟨e, he, hw⟩ := List.mem_flatMap.1 hw
    obtain ⟨part, -, rfl⟩ := List.mem_map.1 hw
    exact (hall e he).2

/-- A channel connects for one request while another waits, and a third comes when both are
written. -/
def orderlyRun : List Label :=
  [.call (.request (.plain [1])), .call (.request (.padded [2] [[3], [4]])), .openFails, .awake,
    .opened 7, .authReturns, .resume 0, .call (.request (.table [[5], [6]]))]

theorem InOrder.pairwise (h : InOrder s) (conn : ℤ) :
    (s.written.filter fun w => w.conn = conn).Pairwise fun a b => a.index ≤ b.index := by
  obtain ⟨sent, hsorted, hsent⟩ := h.order conn
  rw [List.pairwise_map] at hsorted
  rw [hsent, List.pairwise_flatMap]
  refine ⟨fun r _ => ?_, hsorted.imp fun {r r'} hlt w hw w' hw' => ?_⟩
  · rw [List.pairwise_map]
    exact List.pairwise_of_forall fun _ _ => Nat.le_refl _
  · obtain ⟨part, -, rfl⟩ := List.mem_map.1 hw
    obtain ⟨part', -, rfl⟩ := List.mem_map.1 hw'
    exact Nat.le_of_lt hlt

end State

end RequestOrder

end SocketChannel

end SkynetCpp
