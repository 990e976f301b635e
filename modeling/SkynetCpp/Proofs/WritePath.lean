import SkynetCpp.Proofs.Network
import SkynetCpp.WritePath

/-!
# One write at a time

The chain of writes is idle, writing the first string of the queue, or stopped by an error
(`Doing`). A send that runs starts a write only from idle; a write that succeeds takes its string
from the queue and starts the next; a write that fails leaves `is_writing_` set, so nothing is
started again. What is written is then the strings that have left the queue and a prefix of the
first one in it.
-/

namespace SkynetCpp

namespace Network

open Lib

namespace TcpConnection

variable (c : TcpConnection)

/-- The operation leaves the write path alone, and sends no warning. -/
structure SameWrites (c c' : TcpConnection) : Prop where
  writeQueue : c'.writeQueue = c.writeQueue
  isWriting : c'.isWriting = c.isWriting
  writes : c'.writes = c.writes
  pendingBytes : c'.pendingBytes = c.pendingBytes
  warnings : ∀ l i p, .socketWarning l i p ∈ c'.events → .socketWarning l i p ∈ c.events

theorem sameWrites_doRead : SameWrites c c.doRead := by
  rw [doRead_eq]
  exact ⟨rfl, rfl, rfl, rfl, fun _ _ _ h => h⟩

theorem sameWrites_exec {l : Io} (h : WritePath.Elsewhere l) : SameWrites c (c.exec l) := by
  cases l with
  | send data => exact h.elim
  | writeHandler ok => exact h.elim
  | close | pause | shutdownWrite | receive _ | readFails =>
    exact ⟨rfl, rfl, rfl, rfl, fun _ _ _ h => h⟩
  | resume =>
    simp only [exec, resume]
    split_ifs
    · obtain ⟨hq, hi, hw, hp, hevents⟩ := sameWrites_doRead { c with isPaused := false }
      exact ⟨hq, hi, hw, hp, hevents⟩
    · exact ⟨rfl, rfl, rfl, rfl, fun _ _ _ h => h⟩
  | readHandler =>
    simp only [exec, readHandler]
    split
    · rename_i bytes reads h
      obtain ⟨hq, hi, hw, hp, hevents⟩ := sameWrites_doRead
        ({ c with reads }.post (.socketData c.listenerId c.id (c.readBuf.take bytes)))
      exact ⟨hq, hi, hw, hp, fun l i p hm => by simpa [post] using hevents l i p hm⟩
    · exact ⟨rfl, rfl, rfl, rfl, fun l i p hm => by simpa [post] using hm⟩
    · exact ⟨rfl, rfl, rfl, rfl, fun _ _ _ h => h⟩

/-- `do_write`, with the write it starts as a flag. -/
theorem doWrite_eq : c.doWrite =
    { c with
      isWriting := c.writeQueue ≠ [], writes := if c.writeQueue = [] then c.writes else true } := by
  unfold doWrite
  split_ifs with h <;> simp [h]

theorem send_eq (data : Bytes) : c.send data =
    if (c.enqueue data).isWriting then c.enqueue data else (c.enqueue data).doWrite := rfl

theorem writeHandler_true : c.writeHandler true = c.dequeue.doWrite := rfl

section Enqueue

variable (data : Bytes)

theorem enqueue_fields : (c.enqueue data).writeQueue = c.writeQueue ++ [data] ∧
    (c.enqueue data).isWriting = c.isWriting ∧ (c.enqueue data).writes = c.writes ∧
    (c.enqueue data).pendingBytes = c.pendingBytes + data.length := by
  unfold enqueue checkSendWarning
  split_ifs <;> exact ⟨rfl, rfl, rfl, rfl⟩

/-- A new warning tells of what is pending, which has reached the bound. -/
theorem warning_enqueue {l i : ℤ} {p : ℕ}
    (h : .socketWarning l i p ∈ (c.enqueue data).events) :
    .socketWarning l i p ∈ c.events ∨ SEND_BUFFER_WARNING ≤ p := by
  unfold enqueue checkSendWarning at h
  split_ifs at h with hw
  · simp only [post, List.mem_append, List.mem_singleton, Payload.socketWarning.injEq] at h
    rcases h with h | ⟨-, -, rfl⟩
    · exact .inl h
    · exact .inr hw.2
  · exact .inl h

end Enqueue

end TcpConnection

namespace WritePath

open TcpConnection

variable {s s' : WritePath} {l : Label}

theorem step_eq_some : step s l = some s' ↔ s.Enabled l ∧ s.exec l = s' := by
  unfold step
  split_ifs with h <;> simp [h]

section Steps

theorem accounted_start (listenerId id : ℤ) : Accounted (start listenerId id) :=
  ⟨.idle rfl rfl rfl rfl rfl, rfl, rfl, fun l i p h => by
    simp [start, TcpConnection.start, doRead] at h⟩

theorem Accounted.post (h : Accounted s) (data : Bytes) : Accounted (s.exec (.post data)) := by
  refine ⟨?_, ?_, h.pending, h.warnings⟩
  · rcases h.doing with ⟨ho, hq, hi, hw, hb⟩ | ⟨d, rest, n, ho, hq, hi, hw, hb⟩ |
      ⟨d, rest, n, ho, hq, hi, hw, hf, hb⟩
    · exact .idle ho hq hi hw hb
    · exact .writing d rest n ho hq hi hw hb
    · exact .stopped d rest n ho hq hi hw hf hb
  · simp only [exec, h.order, List.append_assoc]

theorem Accounted.io (h : Accounted s) {l : Io} (hl : Elsewhere l) :
    Accounted (s.exec (.io l)) := by
  obtain ⟨heq, hei, hew, hep, hevents⟩ := sameWrites_exec s.conn hl
  refine ⟨?_, ?_, ?_, fun l i p hm => h.warnings l i p (hevents l i p hm)⟩
  · rcases h.doing with ⟨ho, hq, hi, hw, hb⟩ | ⟨d, rest, n, ho, hq, hi, hw, hb⟩ |
      ⟨d, rest, n, ho, hq, hi, hw, hf, hb⟩
    · exact .idle ho (heq.trans hq) (hei.trans hi) (hew.trans hw) hb
    · exact .writing d rest n ho (heq.trans hq) (hei.trans hi) (hew.trans hw) hb
    · exact .stopped d rest n ho (heq.trans hq) (hei.trans hi) (hew.trans hw) hf hb
  · simp only [exec, heq]
    exact h.order
  · simp only [exec, hep, heq]
    exact h.pending

/-- `do_write` when no write is outstanding. -/
theorem Doing.doWrite (ho : s.outstanding = []) (hw : s.conn.writes = false)
    (hb : s.written = s.done.flatten) : Doing s.doWrite := by
  unfold WritePath.doWrite asyncWrite
  rw [doWrite_eq]
  rcases hq : s.conn.writeQueue with _ | ⟨data, rest⟩
  · refine .idle ?_ ?_ ?_ ?_ hb <;> simp [ho, hw]
  · refine .writing data rest 0 ?_ ?_ ?_ ?_ ?_ <;> simp [ho, hb]

theorem Accounted.send (h : Accounted s) (hs : s.posted ≠ []) : Accounted (s.exec .send) := by
  obtain ⟨data, posted, hp⟩ := List.exists_cons_of_ne_nil hs
  obtain ⟨heq, hei, hew, hep⟩ := enqueue_fields s.conn data
  simp only [exec, WritePath.send, hp]
  have horder : s.sent = s.done ++ (s.conn.enqueue data).writeQueue ++ posted := by
    rw [h.order, heq, hp]
    simp
  have hpending : (s.conn.enqueue data).pendingBytes
      = ((s.conn.enqueue data).writeQueue.map List.length).sum := by
    rw [hep, heq, h.pending]
    simp
  have hwarn : ∀ l i p, .socketWarning l i p ∈ (s.conn.enqueue data).events →
      SEND_BUFFER_WARNING ≤ p := fun l i p hm =>
    (warning_enqueue s.conn data hm).elim (h.warnings l i p) id
  rcases h.doing with ⟨ho, hq, hi, hw, hb⟩ | ⟨d, rest, n, ho, hq, hi, hw, hb⟩ |
    ⟨d, rest, n, ho, hq, hi, hw, hf, hb⟩
  · rw [if_neg (by simp [hei, hi])]
    refine ⟨Doing.doWrite ho (hew.trans hw) hb, ?_, ?_, ?_⟩
    · simpa [WritePath.doWrite, doWrite_eq] using horder
    · simpa [WritePath.doWrite, doWrite_eq] using hpending
    · simpa [WritePath.doWrite, doWrite_eq] using hwarn
  · rw [if_pos (hei.trans hi)]
    refine ⟨.writing d (rest ++ [data]) n ho ?_ (hei.trans hi) (hew.trans hw) hb, horder, hpending,
      hwarn⟩
    simp [heq, hq]
  · rw [if_pos (hei.trans hi)]
    refine ⟨.stopped d (rest ++ [data]) n ho ?_ (hei.trans hi) (hew.trans hw) hf hb, horder,
      hpending, hwarn⟩
    simp [heq, hq]

/-- A write is outstanding: the path is writing, and it is that write. -/
theorem Doing.of_on (h : Doing s) {P : Write → Prop} {i : ℕ} (hon : s.On P i) :
    i = 0 ∧ ∃ data rest n, s.outstanding = [{ item := s.done.length, buffer := data, written := n }]
      ∧ s.conn.writeQueue = data :: rest ∧ s.conn.isWriting = true ∧ s.conn.writes = true
      ∧ s.written = s.done.flatten ++ data.take n
      ∧ P { item := s.done.length, buffer := data, written := n } := by
  obtain ⟨w, hmem, hP⟩ := hon
  rw [Option.mem_def] at hmem
  rcases h with ⟨ho, -⟩ | ⟨d, rest, n, ho, hq, hi, hw, hb⟩ | ⟨d, rest, n, ho, -⟩
  · simp [ho] at hmem
  · rw [ho] at hmem
    obtain ⟨rfl, rfl⟩ : i = 0 ∧ _ = w := by
      cases i with
      | zero => exact ⟨rfl, Option.some.inj hmem⟩
      | succ i => simp at hmem
    exact ⟨rfl, d, rest, n, ho, hq, hi, hw, hb, hP⟩
  · simp [ho] at hmem

theorem Accounted.transfer (h : Accounted s) {i n : ℕ} (hs : s.Enabled (.transfer i n)) :
    Accounted (s.exec (.transfer i n)) := by
  obtain ⟨rfl, data, rest, k, ho, hq, hi, hw, hb, -, hn⟩ := h.doing.of_on hs
  simp only [exec, WritePath.transfer, ho, List.getElem?_cons_zero]
  refine ⟨.writing data rest (k + n) ?_ hq hi hw ?_, h.order, h.pending, h.warnings⟩
  · simp
  · simp only [hb, List.append_assoc, List.take_add]

theorem Accounted.writeHandler (h : Accounted s) {i : ℕ} {ok : Bool}
    (hs : s.Enabled (.writeHandler i ok)) : Accounted (s.exec (.writeHandler i ok)) := by
  obtain ⟨rfl, data, rest, k, ho, hq, hi, hw, hb, hok⟩ := h.doing.of_on hs
  have hpending := h.pending
  have horder := h.order
  rw [hq] at hpending horder
  simp only [exec, WritePath.writeHandler, ho, List.eraseIdx_cons_zero]
  cases ok with
  | true =>
    have hk : k = data.length := hok rfl
    rw [if_pos rfl]
    refine ⟨Doing.doWrite rfl rfl ?_, ?_, ?_, ?_⟩
    · simp [hb, hq, hk]
    · simpa [WritePath.doWrite, doWrite_eq, dequeue, hq] using horder
    · simp [WritePath.doWrite, doWrite_eq, dequeue, hq, hpending]
    · simpa [WritePath.doWrite, doWrite_eq, dequeue] using h.warnings
  | false =>
    rw [if_neg Bool.false_ne_true]
    refine ⟨.stopped data rest k rfl hq hi rfl rfl hb, h.order, h.pending, fun l i p hm => ?_⟩
    exact h.warnings l i p (by simpa [TcpConnection.writeHandler, TcpConnection.post] using hm)

end Steps

theorem Accounted.exec (h : Accounted s) (hs : s.Enabled l) : Accounted (s.exec l) := by
  cases l with
  | post data => exact h.post data
  | send => exact h.send hs
  | transfer i n => exact h.transfer hs
  | writeHandler i ok => exact h.writeHandler hs
  | io l => exact h.io hs.1

theorem accounted_of_reachable {listenerId id : ℤ}
    (h : Reachable step (start listenerId id) s) : Accounted s :=
  h.invariant (accounted_start listenerId id) fun s l s' _ ha _ hs => by
    obtain ⟨hen, rfl⟩ := step_eq_some.1 hs
    exact ha.exec hen

/-- The connection's own model, which has a flag for the write, does the same. -/
theorem reaches_conn {listenerId id : ℤ} (h : Reachable step (start listenerId id) s) :
    Reachable TcpConnection.step (TcpConnection.start listenerId id) s.conn := by
  refine h.map WritePath.conn fun s l s' hr _ hs => ?_
  obtain ⟨hen, rfl⟩ := step_eq_some.1 hs
  have ha := accounted_of_reachable hr
  cases l with
  | post data => exact .inl rfl
  | send =>
    obtain ⟨data, posted, hp⟩ := List.exists_cons_of_ne_nil hen
    refine .inr ⟨.send data, trivial, TcpConnection.step_eq_some.2 ⟨trivial, ?_⟩⟩
    simp only [TcpConnection.exec, send_eq, exec, send, hp]
    split_ifs <;> rfl
  | transfer i n =>
    obtain ⟨rfl, data, rest, k, ho, -⟩ := ha.doing.of_on hen
    exact .inl (by simp [exec, transfer, ho])
  | writeHandler i ok =>
    obtain ⟨rfl, data, rest, k, -, -, -, hw, -⟩ := ha.doing.of_on hen
    refine .inr ⟨.writeHandler ok, trivial, TcpConnection.step_eq_some.2 ⟨hw, ?_⟩⟩
    cases ok with
    | true => rfl
    | false => rfl
  | io l => exact .inr ⟨l, trivial, TcpConnection.step_eq_some.2 ⟨hen.2, rfl⟩⟩

theorem Accounted.inOrder (h : Accounted s) : InOrder s := by
  have hpending := h.pending
  have horder := h.order
  rcases h.doing with ⟨ho, hq, hi, hw, hb⟩ | ⟨d, rest, n, ho, hq, hi, hw, hb⟩ |
    ⟨d, rest, n, ho, hq, hi, hw, hf, hb⟩
  · refine ⟨by simp [ho], by simp [ho], ?_, h.pending, by simp [hq], fun _ hne => absurd hq hne,
      h.warnings⟩
    rw [hb, horder, List.append_assoc, List.flatten_append]
    exact List.prefix_append _ _
  all_goals
    have hwritten : s.written <+: s.sent.flatten := by
      rw [hb, horder, hq, List.append_assoc, List.flatten_append]
      refine (List.prefix_append_right_inj _).2 ?_
      rw [List.cons_append, List.flatten_cons]
      exact (List.take_prefix n d).trans (List.prefix_append _ _)
    have hcovered : ∀ data ∈ s.conn.writeQueue.head?, data.length ≤ s.conn.pendingBytes := by
      simp [hpending, hq]
  · exact ⟨by simp [ho], by simp [ho, hq], hwritten, hpending, hcovered, by simp [ho], h.warnings⟩
  · exact ⟨by simp [ho], by simp [ho], hwritten, hpending, hcovered, fun _ _ => hf, h.warnings⟩

/-- In every run the writes of a connection are in order. -/
theorem inOrder_of_reachable {listenerId id : ℤ}
    (h : Reachable step (start listenerId id) s) : InOrder s :=
  (accounted_of_reachable h).inOrder

/-- Two sends, the first written in two pieces, and the second write fails half way. -/
def brokenRun : List Label :=
  [.post [1, 2], .post [3, 4, 5], .send, .transfer 0 1, .send, .transfer 0 1, .writeHandler 0 true,
    .transfer 0 2, .io .close, .writeHandler 0 false, .post [6], .send]

theorem inOrder_brokenRun :
    InOrder (after step (start 1 7) brokenRun) ∧
      (after step (start 1 7) brokenRun).written = [1, 2, 3, 4] ∧
      (after step (start 1 7) brokenRun).conn.writeQueue = [[3, 4, 5], [6]] :=
  ⟨inOrder_of_reachable (reachable_after (by decide)), by decide, by decide⟩

end WritePath

end Network

end SkynetCpp
