import SkynetCpp.Cluster

/-!
# Unpacking what was packed

Every packet of a message is a header and what `unpackrequest` reads as the matching request
(`carries_packets`): the whole of a small message, or the head and the parts of a large one.
-/

namespace SkynetCpp

open Lib

namespace Cluster

/-- An address a packet has room for. -/
def Address.Valid : Address → Prop
  | .number n => n < 2 ^ 32
  | .name s => 1 ≤ s.length ∧ s.length ≤ 255

/-- A message for another node: what is handed to `packrequest` or `packpush`. -/
structure Outgoing where
  addr : Address
  session : ℕ
  msg : Bytes
  isPush : Bool

namespace Outgoing

structure Valid (m : Outgoing) : Prop where
  addr : m.addr.Valid
  session : 1 ≤ m.session ∧ m.session ≤ INT32_MAX
  size : m.msg.length < 2 ^ 31

/-- The packets of a message, in the order they are written. -/
def packets (m : Outgoing) : List Bytes :=
  match if m.isPush then packpush m.addr m.session m.msg else packrequest m.addr m.session m.msg with
  | .ok (packet, _, padding) => packet :: padding.getD []
  | .error _ => []

/-- What the parts of a message are read as. -/
def partRequests (session : ℕ) : ℕ → Bytes → List Request
  | 0, _ => []
  | part + 1, msg =>
    let s := min msg.length MULTI_PART
    { addr := none, session, msg := some (msg.take s), sz := s,
      padding := MULTI_PART < msg.length, isPush := false }
      :: partRequests session part (msg.drop s)

/-- What the packets of a message are read as. -/
def requests (m : Outgoing) : List Request :=
  if m.msg.length < MULTI_PART then
    [{ addr := some m.addr, session := if m.isPush then 0 else m.session, msg := some m.msg,
       sz := m.msg.length, padding := false, isPush := m.isPush }]
  else
    { addr := some m.addr, session := m.session, msg := none, sz := m.msg.length, padding := true,
      isPush := m.isPush } :: partRequests m.session (partCount m.msg.length) m.msg

end Outgoing

/-- A packet is a header and what is read as the request `r`. -/
def Carries (packet : Bytes) (r : Request) : Prop :=
  ∃ data, packet = fillHeader data.length ++ data ∧ 0 < data.length ∧ data.length < 0x10000
    ∧ unpackrequest data = .ok r

theorem unpackHeader_fillHeader {sz : ℕ} (h : sz < 0x10000) (rest : Bytes) :
    unpackHeader (fillHeader sz ++ rest) = sz := by
  show (UInt8.ofNat (sz / 256)).toNat * 256 + (UInt8.ofNat sz).toNat = sz
  rw [UInt8.toNat_ofNat', UInt8.toNat_ofNat']
  omega

theorem unpackUint32_fillUint32 {n : ℕ} (h : n < 2 ^ 32) (rest : Bytes) :
    unpackUint32 (fillUint32 n ++ rest) = n := by
  unfold unpackUint32 fillUint32
  rw [List.take_left' (length_le 4 n), ofLe_le_of_lt (by omega)]

theorem drop_fillUint32 (n k : ℕ) (rest : Bytes) :
    (fillUint32 n ++ rest).drop (4 + k) = rest.drop k := by
  unfold fillUint32
  rw [← List.drop_drop, List.drop_left' (length_le 4 n)]

@[simp] theorem length_fillUint32 (n : ℕ) : (fillUint32 n).length = 4 := length_le 4 n

theorem unpackreqNumber_of (t : UInt8) {addr session : ℕ} (msg : Bytes) (ha : addr < 2 ^ 32)
    (hs : session < 2 ^ 32) :
    unpackreqNumber (t :: (fillUint32 addr ++ (fillUint32 session ++ msg))) =
      .ok { addr := some (.number addr), session, msg := some msg, sz := msg.length,
            padding := false, isPush := session = 0 } := by
  unfold unpackreqNumber
  simp only [List.length_cons, List.length_append, length_fillUint32, List.drop_succ_cons]
  rw [if_neg (by omega), List.drop_zero, unpackUint32_fillUint32 ha, drop_fillUint32 addr 0,
    drop_fillUint32 addr 4, drop_fillUint32 session 0, List.drop_zero, List.drop_zero,
    unpackUint32_fillUint32 hs]
  congr 2
  omega

theorem unpackmreqNumber_of {t : UInt8} {addr session sz : ℕ} {isPush : Bool}
    (ha : addr < 2 ^ 32) (hs : session < 2 ^ 32) (hz : sz < 2 ^ 32) :
    unpackmreqNumber (t :: (fillUint32 addr ++ (fillUint32 session ++ fillUint32 sz))) isPush =
      .ok { addr := some (.number addr), session, msg := none, sz, padding := true, isPush } := by
  have hsz := unpackUint32_fillUint32 hz []
  rw [List.append_nil] at hsz
  unfold unpackmreqNumber
  simp only [List.length_cons, List.length_append, length_fillUint32, List.drop_succ_cons]
  rw [if_neg (by omega), List.drop_zero, unpackUint32_fillUint32 ha, drop_fillUint32 addr 0,
    drop_fillUint32 addr 4, List.drop_zero, unpackUint32_fillUint32 hs]
  rw [← List.append_nil (fillUint32 sz), drop_fillUint32 session 0, List.drop_zero,
    unpackUint32_fillUint32 hz]

theorem unpackmreqPart_of (t : UInt8) {session : ℕ} (msg : Bytes) (hs : session < 2 ^ 32) :
    unpackmreqPart (t :: (fillUint32 session ++ msg)) =
      .ok { addr := none, session, msg := some msg, sz := msg.length, padding := t = 2,
            isPush := false } := by
  unfold unpackmreqPart
  simp only [List.length_cons, List.length_append, length_fillUint32, List.drop_succ_cons]
  rw [if_neg (by omega), List.drop_zero, unpackUint32_fillUint32 hs, drop_fillUint32 session 0,
    List.drop_zero]
  simp only [List.head?_cons, Option.some.injEq]
  congr 2
  omega

theorem nameSize_of {t : UInt8} {name rest : Bytes} (hn : name.length ≤ 255) :
    nameSize (t :: UInt8.ofNat name.length :: rest) = name.length := by
  show (UInt8.ofNat name.length).toNat = name.length
  rw [UInt8.toNat_ofNat']
  omega

/-- Past the name of a packet. -/
theorem drop_name (t n : UInt8) (name rest : Bytes) (k : ℕ) :
    (t :: n :: (name ++ rest)).drop (name.length + 2 + k) = rest.drop k := by
  rw [Nat.add_right_comm, List.drop_succ_cons, List.drop_succ_cons, ← List.drop_drop,
    List.drop_left]

theorem unpackreqString_of (t : UInt8) {name : Bytes} {session : ℕ} (msg : Bytes)
    (hn : name.length ≤ 255) (hs : session < 2 ^ 32) :
    unpackreqString (t :: UInt8.ofNat name.length :: (name ++ (fillUint32 session ++ msg))) =
      .ok { addr := some (.name name), session, msg := some msg, sz := msg.length,
            padding := false, isPush := session = 0 } := by
  unfold unpackreqString
  simp only [nameSize_of hn]
  simp only [List.length_cons, List.length_append, length_fillUint32]
  have h4 := drop_name t (UInt8.ofNat name.length) name (fillUint32 session ++ msg) 4
  have h0 := drop_name t (UInt8.ofNat name.length) name (fillUint32 session ++ msg) 0
  rw [drop_fillUint32 session 0, List.drop_zero, Nat.add_assoc] at h4
  rw [List.drop_zero, Nat.add_zero] at h0
  rw [if_neg (by omega), h0, h4, unpackUint32_fillUint32 hs, List.drop_succ_cons,
    List.drop_succ_cons, List.drop_zero, List.take_left]
  congr 2
  omega

theorem unpackmreqString_of {t : UInt8} {name : Bytes} {session sz : ℕ} {isPush : Bool}
    (hn : name.length ≤ 255) (hs : session < 2 ^ 32) (hz : sz < 2 ^ 32) :
    unpackmreqString (t :: UInt8.ofNat name.length :: (name ++ (fillUint32 session
        ++ fillUint32 sz))) isPush =
      .ok { addr := some (.name name), session, msg := none, sz, padding := true, isPush } := by
  have hsz := unpackUint32_fillUint32 hz []
  rw [List.append_nil] at hsz
  unfold unpackmreqString
  simp only [nameSize_of hn]
  simp only [List.length_cons, List.length_append, length_fillUint32]
  have h4 := drop_name t (UInt8.ofNat name.length) name (fillUint32 session ++ fillUint32 sz) 4
  have h0 := drop_name t (UInt8.ofNat name.length) name (fillUint32 session ++ fillUint32 sz) 0
  rw [drop_fillUint32 session 0, List.drop_zero, Nat.add_assoc] at h4
  rw [List.drop_zero, Nat.add_zero] at h0
  rw [if_neg (by omega), h0, h4, unpackUint32_fillUint32 hs, hsz, List.drop_succ_cons,
    List.drop_succ_cons, List.drop_zero, List.take_left]

theorem carries {packet : Bytes} (sz : ℕ) (data : Bytes) {r : Request} (hp : packet = fillHeader sz ++ data)
    (hsz : data.length = sz) (h0 : 0 < sz) (h1 : sz < 0x10000) (h : unpackrequest data = .ok r) :
    Carries packet r := by
  subst hsz
  exact ⟨data, hp, h0, h1, h⟩

section Packets

variable {addr session : ℕ} {name msg : Bytes}

theorem carries_number (isPush : Bool) (ha : addr < 2 ^ 32) (hs : 1 ≤ session ∧ session < 2 ^ 32)
    (hm : msg.length < MULTI_PART) :
    Carries (packreqNumber addr session msg isPush).1
      { addr := some (.number addr), session := if isPush then 0 else session, msg := some msg,
        sz := msg.length, padding := false, isPush } := by
  have hlt : msg.length < 0x8000 := hm
  have hpush : decide ((if isPush then 0 else session) = 0) = isPush := by
    cases isPush
    · simp only [Bool.false_eq_true, if_false, decide_eq_false_iff_not]
      omega
    · rfl
  have hread := unpackreqNumber_of 0 msg ha
    (by split_ifs <;> omega : (if isPush then 0 else session) < 2 ^ 32)
  rw [hpush] at hread
  refine carries (msg.length + 9) (0 :: (fillUint32 addr
    ++ (fillUint32 (if isPush then 0 else session) ++ msg))) ?_ ?_ (by omega) (by omega) hread
  · rw [packreqNumber, if_pos hm]
    simp only [List.append_assoc, List.cons_append, List.nil_append]
  · simp only [List.length_cons, List.length_append, length_fillUint32]
    omega

/-- The head of a message in parts. -/
theorem carries_number_head (isPush : Bool) (ha : addr < 2 ^ 32) (hs : session < 2 ^ 32)
    (hm : MULTI_PART ≤ msg.length) (hz : msg.length < 2 ^ 32) :
    Carries (packreqNumber addr session msg isPush).1
      { addr := some (.number addr), session, msg := none, sz := msg.length, padding := true,
        isPush } := by
  refine carries 13 ((if isPush then 0x41 else 1) :: (fillUint32 addr
    ++ (fillUint32 session ++ fillUint32 msg.length))) ?_ ?_ (by omega) (by omega) ?_
  · simp only [packreqNumber, if_neg (not_lt.2 hm)]
    simp only [List.append_assoc, List.cons_append, List.nil_append]
  · simp only [List.length_cons, List.length_append, length_fillUint32]
  · cases isPush <;> exact unpackmreqNumber_of ha hs hz

theorem carries_string (isPush : Bool) (hn : name.length ≤ 255)
    (hs : 1 ≤ session ∧ session < 2 ^ 32) (hm : msg.length < MULTI_PART) :
    Carries (fillHeader (msg.length + 6 + name.length) ++ [0x80, UInt8.ofNat name.length] ++ name
        ++ fillUint32 (if isPush then 0 else session) ++ msg)
      { addr := some (.name name), session := if isPush then 0 else session, msg := some msg,
        sz := msg.length, padding := false, isPush } := by
  have hlt : msg.length < 0x8000 := hm
  have hpush : decide ((if isPush then 0 else session) = 0) = isPush := by
    cases isPush
    · simp only [Bool.false_eq_true, if_false, decide_eq_false_iff_not]
      omega
    · rfl
  have hread := unpackreqString_of 0x80 msg hn
    (by split_ifs <;> omega : (if isPush then 0 else session) < 2 ^ 32)
  rw [hpush] at hread
  refine carries (msg.length + 6 + name.length) (0x80 :: UInt8.ofNat name.length
    :: (name ++ (fillUint32 (if isPush then 0 else session) ++ msg))) ?_ ?_ (by omega) (by omega)
    hread
  · simp only [List.append_assoc, List.cons_append, List.nil_append]
  · simp only [List.length_cons, List.length_append, length_fillUint32]
    omega

theorem carries_string_head (isPush : Bool) (hn : name.length ≤ 255) (hs : session < 2 ^ 32)
    (hz : msg.length < 2 ^ 32) :
    Carries (fillHeader (10 + name.length) ++ [if isPush then 0xc1 else 0x81,
        UInt8.ofNat name.length] ++ name ++ fillUint32 session ++ fillUint32 msg.length)
      { addr := some (.name name), session, msg := none, sz := msg.length, padding := true,
        isPush } := by
  refine carries (10 + name.length) ((if isPush then 0xc1 else 0x81)
    :: UInt8.ofNat name.length :: (name ++ (fillUint32 session ++ fillUint32 msg.length))) ?_ ?_
    (by omega) (by omega) ?_
  · simp only [List.append_assoc, List.cons_append, List.nil_append]
  · simp only [List.length_cons, List.length_append, length_fillUint32]
    omega
  · cases isPush <;> exact unpackmreqString_of hn hs hz

theorem carries_multi (hs : session < 2 ^ 32) (part : ℕ) (msg : Bytes) :
    List.Forall₂ Carries (packreqMulti session part msg)
      (Outgoing.partRequests session part msg) := by
  induction part generalizing msg with
  | zero => exact .nil
  | succ part ih =>
    refine .cons (carries (min msg.length MULTI_PART + 5)
      ((if MULTI_PART < msg.length then 2 else 3)
        :: (fillUint32 session ++ msg.take (min msg.length MULTI_PART))) ?_ ?_ ?_ ?_ ?_) (ih _)
    · simp only [List.append_assoc, List.cons_append, List.nil_append]
    · simp only [List.length_cons, List.length_append, length_fillUint32, List.length_take]
      omega
    · omega
    · unfold MULTI_PART
      omega
    · have hread := fun t =>
        unpackmreqPart_of t (msg.take (min msg.length MULTI_PART)) hs
      rw [List.length_take, min_assoc, min_comm MULTI_PART, ← min_assoc, min_self] at hread
      split_ifs with h
      · rw [decide_eq_true h]
        exact hread 2
      · rw [decide_eq_false h]
        exact hread 3

end Packets

/-- Every packet of a message is read as the matching request. -/
theorem carries_packets {m : Outgoing} (hm : m.Valid) :
    List.Forall₂ Carries m.packets m.requests := by
  obtain ⟨ha, ⟨hs1, hs2⟩, hz⟩ := hm
  obtain ⟨addr, session, msg, isPush⟩ := m
  unfold INT32_MAX at hs2
  simp only [] at ha hs1 hs2 hz
  have hmsg : msg.take (msg.length % 2 ^ 32) = msg := by
    rw [Nat.mod_eq_of_lt (by omega), List.take_length]
  have hsess : toSigned 32 (session : ℤ) = session := toSigned_of_range (by omega) (by omega)
  have hs32 : session < 2 ^ 32 := by omega
  have hparts := carries_multi hs32 (partCount msg.length) msg
  have hpack : (if isPush then packpush addr session msg else packrequest addr session msg)
      = packrequestImpl addr session msg isPush := by cases isPush <;> rfl
  unfold Outgoing.packets Outgoing.requests
  simp only [hpack]
  unfold packrequestImpl
  simp only [hmsg, hsess, Int.toNat_natCast]
  rw [if_neg (by omega)]
  cases addr with
  | number n =>
    by_cases hsz : msg.length < MULTI_PART
    · have h0 : (packreqNumber n session msg isPush).2 = 0 := by rw [packreqNumber, if_pos hsz]
      simp only [bind, Except.bind, h0, if_pos hsz]
      exact .cons (carries_number isPush ha ⟨hs1, by omega⟩ hsz) .nil
    · have h1 : (packreqNumber n session msg isPush).2 = partCount msg.length := by
        rw [packreqNumber, if_neg hsz]
      have hne : partCount msg.length ≠ 0 := Nat.succ_ne_zero _
      simp only [bind, Except.bind, h1, if_neg hsz, if_pos hne]
      exact .cons (carries_number_head isPush ha (by omega) (not_lt.1 hsz) (by omega)) hparts
  | name s =>
    obtain ⟨hn1, hn2⟩ := ha
    have hname : ¬ (s.length < 1 ∨ 255 < s.length) := by omega
    simp only [packreqString]
    rw [if_neg hname]
    by_cases hsz : msg.length < MULTI_PART
    · simp only [if_pos hsz]
      exact .cons (carries_string isPush hn2 ⟨hs1, by omega⟩ hsz) .nil
    · have hne : partCount msg.length ≠ 0 := Nat.succ_ne_zero _
      simp only [if_neg hsz, bind, Except.bind, if_pos hne]
      exact .cons (carries_string_head isPush hn2 (by omega) (by omega)) hparts

end Cluster

end SkynetCpp
