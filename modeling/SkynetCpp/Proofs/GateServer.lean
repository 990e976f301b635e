import Mathlib.Data.List.Perm.Basic
import SkynetCpp.GateServer
import SkynetCpp.Proofs.Netpack

/-!
# Careful handlers get every frame in order

The calls of `handler.message` for a connection and the messages that its loops have left make up
the frames of its stream, as long as it is in `connections` and in `socket_connections` (`Ordered`).
At most one loop of a connection has messages left (`Holds`).
-/

namespace SkynetCpp

namespace GateServer

open Lib

variable {L L' : List Loop} {loop loop' : Loop} {c : ℤ}

section Frames

variable {stream data b : Bytes}

theorem lfilter_append (stream data : Bytes) : Netpack.lfilter [] (stream ++ data) =
    ((Netpack.lfilter [] stream).1 ++ (Netpack.lfilter (Netpack.lfilter [] stream).2 data).1,
      (Netpack.lfilter (Netpack.lfilter [] stream).2 data).2) := by
  simp only [Netpack.lfilter_eq, List.nil_append]
  exact Netpack.framing.drain_append stream data

/-- What comes later does not change the frames before. -/
theorem frames_append (stream data : Bytes) :
    Gate.frames stream <+: Gate.frames (stream ++ data) := by
  unfold Gate.frames
  rw [lfilter_append]
  exact List.prefix_append _ _

end Frames

section Left

/-- Not both loops have messages left for one connection. -/
def Apart (loop loop' : Loop) : Prop :=
  loop.connId = loop'.connId → loop.msgs = [] ∨ loop'.msgs = []

theorem Apart.symm (h : Apart loop loop') : Apart loop' loop := fun heq => (h heq.symm).symm

/-- The messages that are left. -/
def left (L : List Loop) (c : ℤ) : List Bytes :=
  (L.filter fun loop => loop.connId = c).flatMap Loop.msgs

theorem left_cons_self (loop : Loop) (L : List Loop) :
    left (loop :: L) loop.connId = loop.msgs ++ left L loop.connId := by
  simp [left]

theorem left_cons_of_ne (h : loop.connId ≠ c) : left (loop :: L) c = left L c := by
  simp [left, h]

/-- A loop without messages makes no difference. -/
theorem left_cons_nil (h : loop.msgs = []) : left (loop :: L) c = left L c := by
  by_cases heq : loop.connId = c
  · subst heq
    rw [left_cons_self, h, List.nil_append]
  · exact left_cons_of_ne heq

theorem left_eq_nil (h : ∀ loop ∈ L, loop.connId = c → loop.msgs = []) : left L c = [] := by
  simpa [left, List.flatMap_eq_nil_iff] using h

theorem left_perm (h : L.Perm L') (hL : L.Pairwise Apart) : left L c = left L' c := by
  induction h with
  | nil => rfl
  | cons loop _ ih =>
    obtain ⟨-, htail⟩ := List.pairwise_cons.1 hL
    by_cases heq : loop.connId = c
    · subst heq
      rw [left_cons_self, left_cons_self, ih htail]
    · rw [left_cons_of_ne heq, left_cons_of_ne heq, ih htail]
  | swap loop loop' L =>
    have hapart := (List.pairwise_cons.1 hL).1 loop List.mem_cons_self
    by_cases heq : loop.connId = c
    · subst heq
      by_cases heq' : loop'.connId = loop.connId
      · rcases hapart heq' with hnil | hnil
        · rw [left_cons_nil hnil, left_cons_self, left_cons_self, left_cons_nil hnil]
        · rw [left_cons_nil hnil, ← heq', left_cons_self, left_cons_self, left_cons_nil hnil]
      · rw [left_cons_of_ne heq', left_cons_self, left_cons_self, left_cons_of_ne heq']
    · by_cases heq' : loop'.connId = c
      · subst heq'
        rw [left_cons_self, left_cons_of_ne heq, left_cons_of_ne heq, left_cons_self]
      · rw [left_cons_of_ne heq', left_cons_of_ne heq, left_cons_of_ne heq, left_cons_of_ne heq']
  | trans h₁ _ ih₁ ih₂ => exact (ih₁ hL).trans (ih₂ (hL.perm h₁ Apart.symm))

end Left

/-- A connection: its trace, its buffer, whether it is in `socket_connections`, and the messages
that its loops have left. -/
structure Ordered (t : Trace) (buffer : Option Bytes) (record : Bool) (left : List Bytes) :
    Prop where
  known : t.live = buffer.isSome
  gone : buffer = none → left = []
  order : t.calls ++ left <+: Gate.frames t.stream
  whole : ∀ b, buffer = some b → record = true →
    Netpack.lfilter [] t.stream = (t.calls ++ left, b)
  closed : buffer.isSome = true → record = false → t.closed = true
  late : t.late = []

namespace Ordered

variable {t : Trace} {buffer : Option Bytes} {record record' : Bool} {msg b data : Bytes}
  {msgs : List Bytes}

theorem start : Ordered {} none false [] where
  known := rfl
  gone _ := rfl
  order := List.nil_prefix
  whole _ h := by cases h
  closed h := by cases h
  late := rfl

theorem accept : Ordered { live := true } (some []) true [] where
  known := rfl
  gone h := by cases h
  order := List.nil_prefix
  whole b h _ := by
    obtain rfl := Option.some.inj h
    rfl
  closed _ h := by cases h
  late := rfl

/-- Data is not for the handler when the connection is not in both tables. -/
theorem ignore (h : Ordered t buffer record msgs) (hout : buffer = none ∨ record = false)
    (data : Bytes) : Ordered { t with stream := t.stream ++ data } buffer record msgs where
  known := h.known
  gone := h.gone
  order := h.order.trans (frames_append _ _)
  whole b hb hr := by
    rcases hout with hnone | hfalse
    · cases hnone.symm.trans hb
    · cases hfalse.symm.trans hr
  closed := h.closed
  late := h.late

/-- Data, when nothing is left or it makes no frame complete. -/
theorem feed (h : Ordered t (some b) true msgs) (data : Bytes)
    (hleft : msgs = [] ∨ (Netpack.lfilter b data).1 = []) :
    Ordered { t with stream := t.stream ++ data } (some (Netpack.lfilter b data).2) true
      ((Netpack.lfilter b data).1 ++ msgs) := by
  have hall : Netpack.lfilter [] (t.stream ++ data) =
      (t.calls ++ ((Netpack.lfilter b data).1 ++ msgs), (Netpack.lfilter b data).2) := by
    rw [lfilter_append, h.whole b rfl rfl]
    rcases hleft with hnil | hnil
    · rw [hnil, List.append_nil, List.append_nil]
    · rw [hnil, List.append_nil, List.nil_append]
  exact
    { known := h.known
      gone := fun hnone => by cases hnone
      order := by rw [Gate.frames, hall]
      whole := fun b' hb' _ => by
        obtain rfl := Option.some.inj hb'
        exact hall
      closed := fun _ hr => by cases hr
      late := h.late }

theorem drop (h : Ordered t buffer record []) (record' : Bool) :
    Ordered { t with live := false } none record' [] where
  known := rfl
  gone _ := rfl
  order := h.order
  whole _ hb := by cases hb
  closed hb := by cases hb
  late := h.late

theorem close (h : Ordered t buffer record msgs) :
    Ordered { t with closed := true } buffer false msgs where
  known := h.known
  gone := h.gone
  order := h.order
  whole _ _ hr := by cases hr
  closed _ _ := rfl
  late := h.late

/-- The handler gets the next message. -/
theorem call (h : Ordered t buffer record (msg :: msgs)) :
    Ordered { t with
      calls := t.calls ++ [msg], late := if t.live then t.late else t.late ++ [msg] }
        buffer record msgs := by
  have hlive : t.live = true := by
    rw [h.known]
    cases hb : buffer with
    | none => cases h.gone hb
    | some b => rfl
  have hcons : t.calls ++ [msg] ++ msgs = t.calls ++ msg :: msgs := by simp
  exact
    { known := h.known
      gone := fun hb => by cases h.gone hb
      order := by
        rw [hcons]
        exact h.order
      whole := by
        rw [hcons]
        exact h.whole
      closed := h.closed
      late := (if_pos hlive).trans h.late }

/-- The record of a connection that is not known comes and goes. -/
theorem record_of_none (h : Ordered t none record msgs) (record' : Bool) :
    Ordered t none record' msgs where
  known := h.known
  gone := h.gone
  order := h.order
  whole _ hb := by cases hb
  closed hb := by cases hb
  late := h.late

end Ordered

namespace Gate

variable {s s' : Gate} {l : Label} {o : Outcome}

/-- Every connection, when these are the loops. -/
structure Holds (s : Gate) (L : List Loop) : Prop where
  apart : L.Pairwise Apart
  ordered : ∀ c, Ordered (s.trace c) (s.connections c) (s.tables.connections c).isSome (left L c)

namespace Holds

theorem perm (h : Holds s L) (hperm : L.Perm L') : Holds s L' where
  apart := h.apart.perm hperm Apart.symm
  ordered c := by
    rw [← left_perm hperm h.apart]
    exact h.ordered c

theorem dropNil (h : Holds s (loop :: L)) (hnil : loop.msgs = []) : Holds s L where
  apart := (List.pairwise_cons.1 h.apart).2
  ordered c := by
    rw [← left_cons_nil hnil]
    exact h.ordered c

theorem consNil (h : Holds s L) (hnil : loop.msgs = []) : Holds s (loop :: L) where
  apart := List.pairwise_cons.2 ⟨fun _ _ _ => .inl hnil, h.apart⟩
  ordered c := by
    rw [left_cons_nil hnil]
    exact h.ordered c

/-- The tables may change as long as the same connections are in them. -/
theorem congr (h : Holds s L) (htrace : s'.trace = s.trace)
    (hconnections : s'.connections = s.connections)
    (htables : ∀ c, (s'.tables.connections c).isSome = (s.tables.connections c).isSome) :
    Holds s' L where
  apart := h.apart
  ordered c := by
    rw [htrace, hconnections, htables]
    exact h.ordered c

/-- Only one connection changes. -/
theorem change (h : Holds s L) (c : ℤ) (hapart : L'.Pairwise Apart)
    (hc : Ordered (s'.trace c) (s'.connections c) (s'.tables.connections c).isSome (left L' c))
    (htrace : ∀ c' ≠ c, s'.trace c' = s.trace c')
    (hconnections : ∀ c' ≠ c, s'.connections c' = s.connections c')
    (htables : ∀ c' ≠ c,
      (s'.tables.connections c').isSome = (s.tables.connections c').isSome)
    (hleft : ∀ c' ≠ c, left L' c' = left L c') : Holds s' L' where
  apart := hapart
  ordered c' := by
    by_cases hne : c' = c
    · rw [hne]
      exact hc
    · rw [htrace c' hne, hconnections c' hne, htables c' hne, hleft c' hne]
      exact h.ordered c'

end Holds

section Tables

variable {t : Socket.Tables} {c' : ℤ}

theorem setConnection_of_ne {conn : Option Socket.Connection} (hne : c' ≠ c) :
    (t.setConnection c conn).connections c' = t.connections c' := Function.update_of_ne hne ..

theorem setConnection_self {conn : Option Socket.Connection} :
    (t.setConnection c conn).connections c = conn := Function.update_self ..

/-- A record that is replaced remains one. -/
theorem setConnection_isSome {conn conn' : Socket.Connection} (h : t.connections c = some conn) :
    ((t.setConnection c (some conn')).connections c').isSome = (t.connections c').isSome := by
  by_cases hne : c' = c
  · rw [hne, setConnection_self, h]
    rfl
  · rw [setConnection_of_ne hne]

theorem dispatch_data (listenerId : ℤ) (payload : Bytes) :
    ((t.dispatch (.data listenerId c payload)).1.connections c').isSome
      = (t.connections c').isSome := by
  simp only [Socket.Tables.dispatch]
  rcases hconn : t.connections c with _ | conn
  · rfl
  · exact setConnection_isSome hconn

theorem dispatch_close (listenerId : ℤ) :
    ((t.dispatch (.close listenerId c)).1.connections c').isSome = (t.connections c').isSome := by
  simp only [Socket.Tables.dispatch]
  rcases hconn : t.connections c with _ | conn
  · rfl
  · exact setConnection_isSome (t := { t with connecting := _ }) hconn

/-- No event changes the listeners. -/
theorem dispatch_listeners (e : Socket.Event) : (t.dispatch e).1.listeners = t.listeners := by
  cases e <;> simp only [Socket.Tables.dispatch] <;> split <;> rfl

theorem dispatch_handles {l : ℤ} {e : Socket.Event} : (t.dispatch e).1.handles l = t.handles l := by
  rw [Socket.Tables.handles, dispatch_listeners, Socket.Tables.handles]

theorem dispatch_accept {l : ℤ} (h : t.handles l = true) :
    (t.dispatch (.accept l c)).1 = t.setConnection c (some { listenerId := some l }) := if_pos h

theorem dispatch_accept_not {l : ℤ} (h : t.handles l = false) :
    (t.dispatch (.accept l c)).1 = t := if_neg (by simp [h])

end Tables

section Run

/-- The call has gone on: `raises` with nothing left loses nothing. -/
theorem Holds.settle (h : Holds s (loop :: s.suspended))
    (ho : o = .raises → loop.msgs = []) : Holds (s.settle loop o) (s.settle loop o).loops := by
  cases o with
  | returns =>
    by_cases hnil : loop.msgs = []
    · have hloops : (s.settle loop .returns).loops = s.suspended := by
        simp [Gate.settle, proceed, loops, hnil]
      rw [hloops]
      exact (h.dropNil hnil).congr rfl rfl fun _ => rfl
    · have hloops : (s.settle loop .returns).loops = loop :: s.suspended := by
        simp [Gate.settle, proceed, loops, hnil]
      rw [hloops]
      exact h.congr rfl rfl fun _ => rfl
  | raises => exact (h.dropNil (ho rfl)).congr rfl rfl fun _ => rfl
  | suspends => exact (h.perm (List.perm_append_singleton _ _).symm).congr rfl rfl fun _ => rfl

theorem loops_of_none (h : s.running = none) : s.loops = s.suspended := by
  simp [loops, h]

theorem left_of_not_waits (h : ¬ s.Waits c) : left s.suspended c = [] :=
  left_eq_nil fun loop hloop hc => by_contra fun hne => h ⟨loop, hloop, hc, hne⟩

/-- The gate forgets a connection that has nothing left. -/
theorem Holds.drop (h : Holds s L) (hnil : left L c = []) (htrace : s'.trace = s.trace)
    (hconnections : s'.connections = s.connections)
    (htables : ∀ c' ≠ c,
      (s'.tables.connections c').isSome = (s.tables.connections c').isSome) :
    Holds (s'.drop c) L := by
  have hc := h.ordered c
  rw [hnil] at hc
  refine h.change c h.apart ?_ ?_ ?_ htables fun _ _ => rfl
  · simp only [Gate.drop, setTrace, setConnection, Function.update_self, hnil, htrace]
    exact hc.drop _
  · intro c' hne
    simp only [Gate.drop, setTrace, setConnection, Function.update_of_ne hne, htrace]
  · intro c' hne
    simp only [Gate.drop, setTrace, setConnection, Function.update_of_ne hne, hconnections]

theorem Holds.onAccept (h : Holds s L) (hnil : left L c = []) (htrace : s'.trace = s.trace)
    (hconnections : s'.connections = s.connections)
    (hself : (s'.tables.connections c).isSome = true)
    (htables : ∀ c' ≠ c,
      (s'.tables.connections c').isSome = (s.tables.connections c').isSome) :
    Holds (s'.onAccept c) L := by
  refine h.change c h.apart ?_ ?_ ?_ htables fun _ _ => rfl
  · change Ordered _ _ (s'.tables.connections c).isSome _
    simp only [Gate.onAccept, setTrace, setConnection, Function.update_self, hnil, hself]
    exact .accept
  · intro c' hne
    simp only [Gate.onAccept, setTrace, setConnection, Function.update_of_ne hne, htrace]
  · intro c' hne
    simp only [Gate.onAccept, setTrace, setConnection, Function.update_of_ne hne, hconnections]

/-- Data for a connection that the handler does not get. -/
theorem Holds.note (h : Holds s L)
    (hout : s.connections c = none ∨ (s.tables.connections c).isSome = false) (payload : Bytes) :
    Holds (s.note c payload) L := by
  refine h.change c h.apart ?_ (fun c' hne => Function.update_of_ne hne ..) (fun _ _ => rfl)
    (fun _ _ => rfl) fun _ _ => rfl
  simp only [Gate.note, setTrace, Function.update_self]
  exact (h.ordered c).ignore hout payload

theorem Holds.onData (h : Holds s s.suspended) (hrun : s.running = none)
    (hrecord : (s.tables.connections c).isSome = true) {payload : Bytes}
    (hnew : s.Waits c → s.newFrames c payload = []) :
    Holds ((s.note c payload).onData c payload) ((s.note c payload).onData c payload).loops := by
  unfold Gate.onData
  unfold newFrames at hnew
  rcases hb : s.connections c with _ | b
  · have hb' : (s.note c payload).connections c = none := hb
    have hloops : (s.note c payload).loops = s.suspended := loops_of_none hrun
    rw [hb']
    dsimp only
    rw [hloops]
    exact h.note (.inl hb) payload
  · have hb' : (s.note c payload).connections c = some b := hb
    have hc := h.ordered c
    rw [hb, hrecord] at hc
    rw [hb] at hnew
    have hfeed := hc.feed payload (by
      by_cases hwaits : s.Waits c
      · exact .inr (hnew hwaits)
      · exact .inl (left_of_not_waits hwaits))
    rw [hb']
    dsimp only at hnew ⊢
    generalize Netpack.lfilter b payload = new at hnew hfeed ⊢
    obtain ⟨msgs, remaining⟩ := new
    refine Holds.settle (o := .returns) (s := (s.note c payload).setConnection c _) ?_
      fun hraises => by cases hraises
    have hapart : (⟨c, msgs⟩ :: s.suspended).Pairwise Apart := by
      refine List.pairwise_cons.2 ⟨fun loop hloop hc => ?_, h.apart⟩
      by_cases hnil : loop.msgs = []
      · exact .inr hnil
      · exact .inl (hnew ⟨loop, hloop, hc.symm, hnil⟩)
    refine h.change c hapart ?_ (fun c' hne => Function.update_of_ne hne ..)
      (fun c' hne => Function.update_of_ne hne ..) (fun _ _ => rfl)
      fun c' hne => left_cons_of_ne (Ne.symm hne)
    change Ordered _ _ (s.tables.connections c).isSome _
    simp only [setConnection, Gate.note, setTrace, Function.update_self, hrecord]
    rw [left_cons_self ⟨c, msgs⟩ s.suspended]
    exact hfeed

/-- An event, in a careful run. -/
theorem Holds.dispatch {e : Socket.Event} (h : Holds s s.suspended) (hrun : s.running = none)
    (hP : s.Careful (.event e)) : Holds (s.dispatch e) (s.dispatch e).loops := by
  cases e with
  | accept l c =>
    simp only [Careful] at hP
    simp only [Gate.dispatch]
    split_ifs with hhandles
    · rw [dispatch_handles] at hhandles
      have haccept := dispatch_accept (c := c) hhandles
      refine (loops_of_none hrun).symm ▸ h.onAccept (left_of_not_waits (hP hhandles)) rfl rfl ?_ ?_
      · simp only [haccept, setConnection_self, Option.isSome_some]
      · intro c' hne
        simp only [haccept, setConnection_of_ne hne]
    · rw [dispatch_handles] at hhandles
      have haccept := dispatch_accept_not (c := c) (Bool.not_eq_true _ ▸ hhandles)
      exact (loops_of_none hrun).symm ▸ h.congr rfl rfl fun c' => by simp only [haccept]
  | data l c payload =>
    simp only [Careful] at hP
    simp only [Gate.dispatch]
    have hrecords : ∀ c', ((s.tables.dispatch (.data l c payload)).1.connections c').isSome
        = (s.tables.connections c').isSome := fun c' => dispatch_data l payload
    have h' : Holds { s with tables := (s.tables.dispatch (.data l c payload)).1 } s.suspended :=
      h.congr rfl rfl hrecords
    split_ifs with hhandles hrecord
    · refine Holds.onData h' hrun hrecord fun hwaits => ?_
      rw [handlesData, dispatch_listeners] at hhandles
      exact hP hhandles ((hrecords c).symm.trans hrecord) hwaits
    · rw [Bool.not_eq_true] at hrecord
      exact (loops_of_none hrun).symm ▸ h'.note (.inr hrecord) payload
    · exact (loops_of_none hrun).symm ▸ h'
  | close l c =>
    simp only [Careful] at hP
    simp only [Gate.dispatch]
    have hrecords : ∀ c', ((s.tables.dispatch (.close l c)).1.connections c').isSome
        = (s.tables.connections c').isSome := fun c' => dispatch_close l
    have h' : Holds { s with tables := (s.tables.dispatch (.close l c)).1 } s.suspended :=
      h.congr rfl rfl hrecords
    split_ifs with hhandles
    · rw [dispatch_handles] at hhandles
      unfold Gate.onClose
      split_ifs
      · exact (loops_of_none hrun).symm ▸ h.drop (left_of_not_waits (hP hhandles)) rfl rfl
          fun c' _ => hrecords c'
      · exact (loops_of_none hrun).symm ▸ h'.congr rfl rfl fun _ => rfl
    · exact (loops_of_none hrun).symm ▸ h'.congr rfl rfl fun _ => rfl
  | opened c =>
    simp only [Careful] at hP
    refine (loops_of_none hrun).symm ▸ h.change c h.apart ?_ (fun _ _ => rfl) (fun _ _ => rfl)
      (fun c' hne => ?_) fun _ _ => rfl
    · simp only [Gate.dispatch, Socket.Tables.dispatch]
      have hc := h.ordered c
      rcases hco : s.tables.connecting c with _ | co
      · exact hc
      · dsimp only
        rw [setConnection_self, Option.isSome_some]
        rcases hb : s.connections c with _ | b
        · exact (hb ▸ hc).record_of_none true
        · have hrecord := hP (by rw [hco]; rfl) (by rw [hb]; rfl)
          rw [← hrecord, ← hb]
          exact hc
    · simp only [Gate.dispatch, Socket.Tables.dispatch]
      rcases s.tables.connecting c with _ | co
      · rfl
      · dsimp only
        rw [setConnection_of_ne hne]
  | warning l c bytes => exact (loops_of_none hrun).symm ▸ h.congr rfl rfl fun _ => rfl
  | udp id payload => exact (loops_of_none hrun).symm ▸ h.congr rfl rfl fun _ => rfl

/-- A command closes the connection. -/
theorem Holds.kick (h : Holds s s.suspended) (hP : ¬ s.Waits c) :
    Holds ((s.socketClose c).drop c) s.suspended :=
  h.drop (left_of_not_waits hP) rfl rfl fun c' hne => by
    simp only [Gate.socketClose, setConnection_of_ne hne]

theorem loops_eq_cons {msgs : List Bytes} (h : s.running = some ⟨c, msgs⟩) :
    s.loops = ⟨c, msgs⟩ :: s.suspended := by
  simp [loops, h]

theorem Holds.call {msg : Bytes} {msgs : List Bytes} (h : Holds s (⟨c, msg :: msgs⟩ :: L)) :
    Holds (s.call c msg) (⟨c, msgs⟩ :: L) := by
  have hhead := left_cons_self ⟨c, msg :: msgs⟩ L
  have hhead' := left_cons_self ⟨c, msgs⟩ L
  obtain ⟨hapart, htail⟩ := List.pairwise_cons.1 h.apart
  have hapart' : (⟨c, msgs⟩ :: L).Pairwise Apart := by
    refine List.pairwise_cons.2 ⟨fun loop hloop hc => ?_, htail⟩
    rcases hapart loop hloop hc with hnil | hnil
    · cases hnil
    · exact .inr hnil
  refine h.change c hapart' ?_ (fun c' hne => Function.update_of_ne hne ..) (fun _ _ => rfl)
    (fun _ _ => rfl) fun c' hne => ?_
  · have hc := h.ordered c
    dsimp only at hhead hhead'
    rw [hhead] at hc
    rw [hhead']
    simp only [Gate.call, setTrace, Function.update_self]
    exact hc.call
  · rw [left_cons_of_ne (Ne.symm hne), left_cons_of_ne (Ne.symm hne)]

theorem step_eq_some : step s l = some s' ↔ s.Enabled l ∧ s.exec l = s' := by
  unfold step
  split_ifs with h <;> simp [h]

theorem holds_step (h : Holds s s.loops) (hP : s.Careful l) (hs : step s l = some s') :
    Holds s' s'.loops := by
  obtain ⟨hen, rfl⟩ := step_eq_some.1 hs
  cases l with
  | handleOpen id => exact h.congr rfl rfl fun _ => rfl
  | handleClose c =>
    rw [loops_of_none hen] at h
    change Holds (s.handleClose c) (s.handleClose c).loops
    unfold Gate.handleClose
    split_ifs with hopen
    · exact (loops_of_none hen).symm ▸ h.kick (hP hopen)
    · exact (loops_of_none hen).symm ▸ h
  | handleKick c =>
    rw [loops_of_none hen] at h
    change Holds (s.handleKick c) (s.handleKick c).loops
    unfold Gate.handleKick
    split_ifs with hopen
    · exact (loops_of_none hen).symm ▸ h.kick (hP hopen)
    · exact (loops_of_none hen).symm ▸ h
  | event e =>
    rw [loops_of_none hen] at h
    exact h.dispatch hen hP
  | clear c =>
    refine h.change c h.apart ?_ (fun _ _ => rfl) (fun _ _ => rfl)
      (fun c' hne => by simp only [exec, setConnection_of_ne hne]) fun _ _ => rfl
    have hc := h.ordered c
    simp only [exec, setConnection_self]
    rcases hb : s.connections c with _ | b
    · exact (hb ▸ hc).record_of_none false
    · have hgone := hP (by rw [hb]; rfl)
      rw [hgone, hb] at hc
      exact hc
  | message o =>
    simp only [exec]
    split
    · rename_i c msg msgs hrun
      rw [loops_eq_cons hrun] at h
      refine Holds.settle h.call fun ho => ?_
      subst ho
      exact hP ⟨c, msg :: msgs⟩ hrun
    · exact h
  | goOn i o =>
    obtain ⟨hrun, hi⟩ := hen
    have hloop := List.getElem?_eq_getElem hi
    simp only [exec, hloop]
    rw [loops_of_none hrun] at h
    refine Holds.settle ((h.perm (List.getElem_cons_eraseIdx_perm hi).symm).congr rfl rfl
      fun _ => rfl) fun ho => ?_
    subst ho
    exact hP _ hloop
  | socketClose c =>
    refine h.change c h.apart ?_ (fun c' hne => Function.update_of_ne hne ..) (fun _ _ => rfl)
      (fun c' hne => ?_) fun _ _ => rfl
    · simp only [exec, setTrace, Gate.socketClose, Function.update_self, setConnection_self]
      exact (h.ordered c).close
    · simp only [exec, setTrace, Gate.socketClose, setConnection_of_ne hne]
  | connect co id => exact h.congr rfl rfl fun _ => rfl
  | read co c op =>
    simp only [exec]
    split
    · rename_i conn hconn
      exact h.congr rfl rfl fun c' => setConnection_isSome hconn
    · exact h

theorem holds_of_careful (h : Reaches step Careful {} s) : Holds s s.loops :=
  Reaches.invariant (I := fun s => Holds s s.loops) ⟨List.Pairwise.nil, fun _ => .start⟩
    (fun _ _ _ _ hi hP hs => holds_step hi hP hs) h

end Run

/-- As long as `handler.message` neither raises nor lets the connection be closed, or more of its
frames in, before it has got the frames of the event at hand, it gets every frame in order. -/
theorem inOrder_of_careful (h : Reaches step Careful {} s) : s.InOrder where
  order c := (List.prefix_append _ _).trans ((holds_of_careful h).ordered c).order
  all c hlive hclosed hleft := by
    have hc := (holds_of_careful h).ordered c
    have hknown := hc.known.symm.trans hlive
    obtain ⟨b, hb⟩ := Option.isSome_iff_exists.1 hknown
    have hrecord : (s.tables.connections c).isSome = true := by
      by_contra hnot
      have hclosed' := hc.closed hknown (Bool.eq_false_of_not_eq_true hnot)
      exact Bool.false_ne_true (hclosed.symm.trans hclosed')
    have hwhole := hc.whole b hb hrecord
    rw [left_eq_nil hleft, List.append_nil] at hwhole
    rw [frames, hwhole]
  late c := ((holds_of_careful h).ordered c).late

/-- A connection whose second data event comes while the handler has suspended at the only frame of
the first, and which is kicked when the handler has got the next two, and raised at the last. -/
def gateRun : List Label :=
  [.handleOpen 1, .event (.accept 1 1), .event (.data 1 1 [0, 1, 97, 0]), .message .suspends,
    .event (.data 1 1 [1, 98, 0, 1, 99]), .message .returns, .message .raises, .goOn 0 .returns,
    .handleKick 1, .event (.data 1 1 [0, 0]), .event (.close 1 1), .clear 1]

theorem inOrder_gateRun : (after step {} gateRun).InOrder ∧
    ((after step {} gateRun).trace 1).calls = [[97], [98], [99]] :=
  ⟨inOrder_of_careful (reaches_after rfl), rfl⟩

/-- The handler raises at the first of two frames. -/
def raiseRun : List Label :=
  [.handleOpen 1, .event (.accept 1 1), .event (.data 1 1 [0, 1, 97, 0, 1, 98]), .message .raises]

/-- The second frame is lost. -/
theorem lost_frame : ∃ s, Reachable step {} s ∧ ¬ s.InOrder := by
  refine ⟨after step {} raiseRun, reachable_after rfl, fun h => ?_⟩
  have hall := h.all 1 rfl rfl (by decide)
  exact absurd hall (by decide)

end Gate

end GateServer

end SkynetCpp
