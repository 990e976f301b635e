import SkynetCpp.SocketStream

/-!
# Nothing of a stream is lost

A reader that waits has its mode in the fields of the connection and cannot take the buffer
(`Steady.waiting`); one that was woken has what it takes in `read_result`, and the buffer the rest.
-/

namespace SkynetCpp

namespace Socket

open Lib

theorem find_spec {sep : Bytes} : ∀ {bytes : Bytes} {pos : ℕ}, find sep bytes = some pos →
    bytes.take pos ++ sep ++ bytes.drop (pos + sep.length) = bytes
  | [], pos, h => by
    unfold find at h
    split_ifs at h with hs
    cases h
    simp [hs]
  | b :: bytes, pos, h => by
    unfold find at h
    split_ifs at h with hs
    · cases h
      obtain ⟨rest, hrest⟩ := List.isPrefixOf_iff_prefix.1 hs
      rw [← hrest]
      simp
    · obtain ⟨pos', hpos, rfl⟩ := Option.map_eq_some_iff.1 h
      have := find_spec hpos
      rw [Nat.add_right_comm]
      simpa using this

namespace Connection

variable {conn : Connection} {co : Coroutine} {op : ReadOp}

/-- The fields say that the reader waits in this call. -/
def Mode (conn : Connection) : ReadOp → Prop
  | .read sz => conn.readSz = some sz ∧ conn.readSep = none
  | .readline sep => conn.readSz = none ∧ conn.readSep = some sep
  | .readall => conn.readSz = none ∧ conn.readSep = none

/-- Data satisfies the reader that waits, or not yet. -/
theorem feed_waiting (payload : Bytes) (hco : conn.readCo = some co) (hm : conn.Mode op) :
    (∃ result rest, conn.feed payload = ({ conn with
        buffer := rest, readCo := none, readSz := none, readSep := none,
        readResult := some result }, some co)
      ∧ result ++ op.sep ++ rest = conn.buffer ++ payload)
    ∨ conn.feed payload = ({ conn with buffer := conn.buffer ++ payload }, none)
      ∧ op.takes false (conn.buffer ++ payload) = none := by
  cases op with
  | read sz =>
    obtain ⟨hsz, hsep⟩ := hm
    by_cases hle : sz ≤ (conn.buffer ++ payload).length
    · refine .inl ⟨(conn.buffer ++ payload).take sz, (conn.buffer ++ payload).drop sz, ?_, ?_⟩
      · simp only [feed, hco, hsz, hsep, if_pos hle]
      · simp [ReadOp.sep]
    · refine .inr ⟨?_, if_neg hle⟩
      simp only [feed, hco, hsz, if_neg hle]
  | readline sep =>
    obtain ⟨hsz, hsep⟩ := hm
    rcases hf : find sep (conn.buffer ++ payload) with _ | pos
    · refine .inr ⟨?_, ?_⟩
      · simp only [feed, hco, hsz, hsep, hf]
      · simp [ReadOp.takes, hf]
    · refine .inl ⟨(conn.buffer ++ payload).take pos,
        (conn.buffer ++ payload).drop (pos + sep.length), ?_, find_spec hf⟩
      simp only [feed, hco, hsz, hsep, hf]
  | readall =>
    obtain ⟨hsz, hsep⟩ := hm
    refine .inl ⟨conn.buffer ++ payload, [], ?_, by simp [ReadOp.sep]⟩
    simp only [feed, hco, hsz, hsep]

theorem feed_free (payload : Bytes) (hco : conn.readCo = none) :
    conn.feed payload = ({ conn with buffer := conn.buffer ++ payload }, none) := by
  simp only [feed, hco]

/-- A call takes what it can, returns nil when the peer has closed, or waits. -/
theorem perform_spec (conn : Connection) (co : Coroutine) (op : ReadOp) :
    (∃ result sep rest, op.takes conn.closed conn.buffer = some (result, sep) ∧
        conn.perform co op = ({ conn with buffer := rest }, .returns (some result)) ∧
        result ++ sep ++ rest = conn.buffer)
    ∨ (conn.closed = true ∧ op.takes true conn.buffer = none ∧
        conn.perform co op = (conn, .returns none))
    ∨ (conn.closed = false ∧ op.takes false conn.buffer = none ∧
        ∃ conn', conn.perform co op = (conn', .waits) ∧ conn'.buffer = conn.buffer ∧
          conn'.closed = false ∧ conn'.readCo = some co ∧ conn'.readResult = none ∧
          (conn.readSz = none ∧ conn.readSep = none → conn'.Mode op)) := by
  cases op with
  | read sz =>
    by_cases hle : sz ≤ conn.buffer.length
    · refine .inl ⟨conn.buffer.take sz, [], conn.buffer.drop sz, if_pos hle, ?_, by simp⟩
      simp only [perform, read, if_pos hle]
    · refine .inr ?_
      rcases hc : conn.closed with _ | _
      · refine .inr ⟨rfl, if_neg hle,
          { conn with readCo := some co, readSz := some sz, readResult := none }, ?_, rfl, hc, rfl,
          rfl, fun hf => ⟨rfl, hf.2⟩⟩
        simp only [perform, read, if_neg hle, hc, Bool.false_eq_true, if_false]
      · refine .inl ⟨rfl, if_neg hle, ?_⟩
        simp only [perform, read, if_neg hle, hc, if_true]
  | readline sep =>
    rcases hf : find sep conn.buffer with _ | pos
    · rcases hc : conn.closed with _ | _
      · refine .inr (.inr ⟨rfl, by simp [ReadOp.takes, hf],
          { conn with readCo := some co, readSep := some sep, readResult := none }, ?_, rfl, hc, rfl,
          rfl, fun hf => ⟨hf.1, rfl⟩⟩)
        simp only [perform, readline, hf, hc, Bool.false_eq_true, if_false]
      · by_cases hb : conn.buffer = []
        · have hf' : find sep [] = none := hb ▸ hf
          refine .inr (.inl ⟨rfl, by simp [ReadOp.takes, hf', hb], ?_⟩)
          simp [perform, readline, hf', hc, hb]
        · refine .inl ⟨conn.buffer, [], [], by simp [ReadOp.takes, hf, hb], ?_, by simp⟩
          simp [perform, readline, hf, hc, List.length_pos_iff, hb]
    · refine .inl ⟨_, sep, conn.buffer.drop (pos + sep.length), by simp only [ReadOp.takes, hf], ?_,
        find_spec hf⟩
      simp only [perform, readline, hf]
  | readall =>
    by_cases hb : conn.buffer = []
    · rcases hc : conn.closed with _ | _
      · refine .inr (.inr ⟨rfl, by simp [ReadOp.takes, hb],
          { conn with readCo := some co, readResult := none }, ?_, rfl, hc, rfl, rfl,
          fun hf => hf⟩)
        simp [perform, readall, hc, hb]
      · refine .inr (.inl ⟨rfl, by simp [ReadOp.takes, hb], ?_⟩)
        simp [perform, readall, hc, hb]
    · refine .inl ⟨conn.buffer, [], [], by simp [ReadOp.takes, hb], ?_, by simp⟩
      simp [perform, readall, List.length_pos_iff, hb]

end Connection

namespace Stream

variable {s s' : Stream} {l : StreamLabel}

theorem step_eq_some : step s l = some s' ↔ s.Enabled l ∧ s.exec l = s' := by
  unfold step
  split_ifs with h <;> simp [h]

structure Steady (s : Stream) : Prop where
  bytes : s.returned ++ s.inFlight ++ s.conn.buffer = s.received
  gone : s.registered = false → s.conn.buffer = [] ∧ s.conn.closed = true
  waiting : ∀ op, s.reader = some op → s.woken = false → s.conn.closed = false ∧
    s.conn.readCo = some self ∧ s.conn.Mode op ∧ op.takes false s.conn.buffer = none
  free : (s.reader = none ∨ s.woken = true) → s.conn.readCo = none ∧
    (s.conn.closed = false → s.conn.readSz = none ∧ s.conn.readSep = none)
  woken : s.woken = true → s.reader ≠ none
  ended : ∀ op, s.reader = some op → s.woken = true → s.conn.readResult = none →
    s.conn.closed = true ∧ (s.conn.buffer = [] ∨ op.takes true s.conn.buffer = none)
  nils : ∀ n ∈ s.nils, n.unread = [] ∨ n.op.takes n.closed n.unread = none

theorem Steady.unread (h : Steady s) : s.unread = s.inFlight ++ s.conn.buffer := by
  unfold Stream.unread
  rw [← h.bytes, List.append_assoc, List.drop_left]

theorem Steady.whole (h : Steady s) : Whole s := by
  refine ⟨?_, h.nils⟩
  rw [← h.bytes]
  unfold buffered
  split_ifs with hr
  · rfl
  · rw [(h.gone (by simpa using hr)).1]

theorem steady_init (listenerId : Option ℤ) (connectResult : Bool) :
    Steady (init listenerId connectResult) where
  bytes := rfl
  gone h := by cases h
  waiting op h := by cases h
  free _ := ⟨rfl, fun _ => ⟨rfl, rfl⟩⟩
  woken h := by cases h
  ended op h := by cases h
  nils n hn := by cases hn

theorem inFlight_of_not_woken (h : s.woken = false) : s.inFlight = [] := by
  unfold inFlight
  rw [h]
  rcases s.reader with _ | op <;> rfl

/-- A reader waits, or nobody does and the connection has no reader. -/
theorem waits_or_free (s : Stream) : (∃ op, s.reader = some op ∧ s.woken = false)
    ∨ (s.reader = none ∨ s.woken = true) := by
  rcases hr : s.reader with _ | op
  · exact .inr (.inl rfl)
  · rcases hw : s.woken with _ | _
    · exact .inl ⟨op, rfl, rfl⟩
    · exact .inr (.inr rfl)

theorem Steady.data (h : Steady s) {payload : Bytes} (hopen : s.conn.closed = false) :
    Steady (s.data payload) := by
  have hreg : s.registered = true := by
    rcases hr : s.registered with _ | _
    · rw [(h.gone hr).2] at hopen
      cases hopen
    · rfl
  have hbytes := h.bytes
  unfold Stream.data
  dsimp only
  rw [if_pos hreg]
  rcases s.waits_or_free with ⟨op, hr, hw⟩ | hfree
  · obtain ⟨-, hco, hm, -⟩ := h.waiting op hr hw
    rw [inFlight_of_not_woken hw, List.append_nil] at hbytes
    rcases Connection.feed_waiting payload hco hm with ⟨result, rest, hfeed, hrest⟩ | ⟨hfeed, hno⟩
    · rw [hfeed]
      refine ⟨?_, fun hg => absurd (hreg.symm.trans hg) (by simp), fun _ _ hw' => ?_,
        fun _ => ⟨rfl, fun _ => ⟨rfl, rfl⟩⟩, fun _ hnone => ?_, fun _ _ _ hres => ?_, h.nils⟩
      · simp only [inFlight, hr, hw, Option.isSome_some, Bool.or_true]
        rw [← hbytes, List.append_assoc, hrest, List.append_assoc]
      · simp at hw'
      · cases hr.symm.trans hnone
      · cases hres
    · rw [hfeed]
      refine ⟨?_, fun hg => absurd (hreg.symm.trans hg) (by simp), fun op' hr' _ => ?_,
        fun hf => ?_, fun hw' => ?_, fun op' hr' hw' _ => ?_, h.nils⟩
      · rw [inFlight_of_not_woken (by simp [hw]), List.append_nil, ← hbytes, List.append_assoc]
      · cases hr.symm.trans hr'
        exact ⟨hopen, hco, hm, hno⟩
      · rcases hf with hf | hf
        · cases hr.symm.trans hf
        · simp [hw] at hf
      · simp [hw] at hw'
      · simp [hw] at hw'
  · obtain ⟨hco, hmode⟩ := h.free hfree
    rw [Connection.feed_free payload hco]
    refine ⟨?_, fun hg => absurd (hreg.symm.trans hg) (by simp), fun op hr hw => ?_,
      fun _ => ⟨hco, hmode⟩, fun hw => h.woken (by simpa using hw), fun op hr hw hres => ?_, h.nils⟩
    · rw [← hbytes]
      simp [inFlight]
    · rcases hfree with hf | hf
      · cases hf.symm.trans hr
      · simp [hf] at hw
    · have := (h.ended op hr (by simpa using hw) hres).1
      rw [hopen] at this
      cases this

/-- What cannot be taken while more may come cannot be taken after, but by `readline`. -/
theorem takes_true {op : ReadOp} {bytes : Bytes} (h : op.takes false bytes = none)
    (hline : ∀ sep, op = .readline sep → bytes = []) : bytes = [] ∨ op.takes true bytes = none := by
  cases op with
  | read sz => exact .inr h
  | readline sep => exact .inl (hline sep rfl)
  | readall => exact .inr h

theorem Steady.close (h : Steady s) (ha : s.Attended .close) : Steady s.close := by
  unfold Stream.close
  split_ifs with hreg
  · have hbytes := h.bytes
    rcases s.waits_or_free with ⟨op, hr, hw⟩ | hfree
    · obtain ⟨-, hco, -, hno⟩ := h.waiting op hr hw
      have hup : s.conn.hangUp
          = ({ s.conn with closed := true, readCo := none, readResult := none }, some self) := by
        simp only [Connection.hangUp, hco]
      have hline : ∀ sep, op = .readline sep → s.conn.buffer = [] := by
        rintro sep rfl
        refine ha ?_
        rw [hr]
        exact hw
      rw [hup]
      rw [inFlight_of_not_woken hw] at hbytes
      refine ⟨?_, fun hg => absurd (hreg.symm.trans hg) (by simp), fun _ _ hw' => ?_,
        fun _ => ⟨rfl, fun hc => by cases hc⟩, fun _ hnone => ?_, fun op' hr' _ _ => ⟨rfl, ?_⟩, h.nils⟩
      · simpa [inFlight, hr] using hbytes
      · simp at hw'
      · cases hr.symm.trans hnone
      · cases hr.symm.trans hr'
        exact takes_true hno hline
    · obtain ⟨hco, -⟩ := h.free hfree
      have hup : s.conn.hangUp = ({ s.conn with closed := true }, none) := by
        simp only [Connection.hangUp, hco]
      rw [hup]
      refine ⟨?_, fun hg => absurd (hreg.symm.trans hg) (by simp), fun op hr hw => ?_,
        fun _ => ⟨hco, fun hc => by cases hc⟩, fun hw => h.woken (by simpa using hw),
        fun op hr hw hres => ⟨rfl, (h.ended op hr (by simpa using hw) hres).2⟩, h.nils⟩
      · simpa [inFlight] using hbytes
      · rcases hfree with hf | hf
        · cases hf.symm.trans hr
        · simp [hf] at hw
  · exact h

theorem Steady.call (h : Steady s) {op : ReadOp} (hr : s.reader = none) : Steady (s.call op) := by
  have hw : s.woken = false := by
    rcases hw : s.woken with _ | _
    · rfl
    · exact absurd hr (h.woken hw)
  have hfree := h.free (.inl hr)
  have hbytes := h.bytes
  have hunread := h.unread
  rw [inFlight_of_not_woken hw, List.append_nil] at hbytes
  rw [inFlight_of_not_woken hw, List.nil_append] at hunread
  unfold Stream.call
  split_ifs with hreg
  · rcases s.conn.perform_spec self op with
      ⟨result, sep, rest, htakes, hperf, hrest⟩ | ⟨hc, hno, hperf⟩ | ⟨hc, hno, conn, hperf, hbuf,
        hclosed, hco, hres, hm⟩
    · have hsep : s.sepOf op = sep := by
        unfold sepOf
        rw [htakes]
        rfl
      simp only [hperf, ret, hsep]
      refine ⟨?_, fun hg => absurd (hreg.symm.trans hg) (by simp), fun _ hr' _ => ?_,
        fun _ => hfree, fun hw' => ?_, fun _ hr' _ _ => ?_, h.nils⟩
      · rw [← hbytes, ← hrest]
        simp [inFlight, hr]
      · cases hr.symm.trans hr'
      · exact h.woken hw'
      · cases hr.symm.trans hr'
    · simp only [hperf, ret]
      refine ⟨h.bytes, h.gone, h.waiting, h.free, h.woken, h.ended, fun n hn => ?_⟩
      rcases List.mem_append.1 hn with hn | hn
      · exact h.nils n hn
      · rw [List.mem_singleton] at hn
        subst hn
        dsimp only
        rw [hunread, hc]
        exact .inr hno
    · simp only [hperf]
      refine ⟨?_, fun hg => absurd (hreg.symm.trans hg) (by simp), fun op' hr' _ => ?_,
        fun hf => ?_, fun hw' => ?_, fun _ _ hw' _ => ?_, h.nils⟩
      · simpa [inFlight, hw, hbuf] using hbytes
      · cases hr'
        exact ⟨hclosed, hco, hm (hfree.2 hc), hbuf.symm ▸ hno⟩
      · rcases hf with hf | hf
        · cases hf
        · exact absurd (hw.symm.trans hf) (by simp)
      · exact absurd (hw.symm.trans hw') (by simp)
      · exact absurd (hw.symm.trans hw') (by simp)
  · have hgone := h.gone (by simpa using hreg)
    refine ⟨h.bytes, h.gone, h.waiting, h.free, h.woken, h.ended, fun n hn => ?_⟩
    rcases List.mem_append.1 hn with hn | hn
    · exact h.nils n hn
    · rw [List.mem_singleton] at hn
      subst hn
      exact .inl (hunread.trans hgone.1)

theorem Steady.goOn (h : Steady s) (hw : s.woken = true) : Steady s.goOn := by
  unfold Stream.goOn
  rcases hr : s.reader with _ | op
  · exact h
  · have hbytes := h.bytes
    have hfree := h.free (.inr hw)
    have hunread := h.unread
    simp only [inFlight, hr, hw] at hbytes hunread
    dsimp only
    rcases hres : s.conn.readResult with _ | result
    · obtain ⟨hc, hno⟩ := h.ended op hr hw hres
      simp only [hres, List.append_nil, List.nil_append] at hbytes hunread
      refine ⟨?_, h.gone, fun _ hr' => ?_, fun _ => hfree, fun hw' => ?_, fun _ hr' => ?_,
        fun n hn => ?_⟩
      · simpa [inFlight, ret] using hbytes
      · cases hr'
      · cases hw'
      · cases hr'
      · rcases List.mem_append.1 hn with hn | hn
        · exact h.nils n hn
        · rw [List.mem_singleton] at hn
          subst hn
          change s.unread = [] ∨ op.takes s.conn.closed s.unread = none
          rw [hunread, hc]
          exact hno
    · simp only [hres] at hbytes
      refine ⟨?_, h.gone, fun _ hr' => ?_, fun _ => hfree, fun hw' => ?_, fun _ hr' => ?_, h.nils⟩
      · simpa [inFlight, ret] using hbytes
      · cases hr'
      · cases hw'
      · cases hr'

theorem Steady.step (h : Steady s) (ha : s.Attended l) (hs : step s l = some s') : Steady s' := by
  obtain ⟨hen, rfl⟩ := step_eq_some.1 hs
  cases l with
  | data payload => exact h.data ha
  | close => exact h.close ha
  | clear =>
    exact ⟨h.bytes, fun _ => ⟨ha, hen⟩, h.waiting, h.free, h.woken, h.ended, h.nils⟩
  | call op => exact h.call hen
  | resume => exact h.goOn hen.2
  | interrupt => exact ha.elim

/-- As long as the buffer is empty when the connection goes, and the library wakes the readers. -/
theorem whole_of_attended {listenerId : Option ℤ} {connectResult : Bool}
    (h : Reaches step Attended (init listenerId connectResult) s) : Whole s :=
  (Reaches.invariant (I := Steady) (steady_init listenerId connectResult)
    (fun _ _ _ _ hi ha hs => hi.step ha hs) h).whole

/-- A line in two parts, whose separator is cut, and a rest that is read after the close event. -/
def linesRun : List StreamLabel :=
  [.call (.readline [13, 10]), .data [97, 13], .data [10, 98], .resume, .call (.read 2), .data [99],
    .resume, .data [100], .close, .call (.readline [10]), .call .readall, .clear]

theorem whole_linesRun : Whole (after step (init none true) linesRun) ∧
    (after step (init none true) linesRun).returned = [97, 13, 10, 98, 99, 100] :=
  ⟨whole_of_attended (reaches_after (by decide)), by decide⟩

/-- The close event takes away what nobody has read yet. -/
theorem unread_lost : ∃ s, Reachable step (init none true) s ∧ ¬ Whole s := by
  refine ⟨after step (init none true) [.data [97, 98], .close, .clear, .call (.read 2)],
    reachable_after (by decide), fun h => ?_⟩
  exact absurd h.bytes (by decide)

end Stream

end Socket

end SkynetCpp
