import SkynetCpp.Proofs.Cluster

/-!
# The cluster codec

The packets of a request, a push or a response fit the buffer they are written in and the header
that tells their length, and are read as what they were written from; and no byte string makes a
decoder read past its end (`codec_correct`).
-/

namespace SkynetCpp

open Lib

namespace Cluster

section Reads

variable {buf : Bytes}

theorem readUint32_of_le {off : ℕ} (h : off + 4 ≤ buf.length) :
    Checked.readUint32 buf off = .ok (unpackUint32 (buf.drop off)) :=
  if_pos h

theorem readByte_of_lt {off : ℕ} (h : off < buf.length) :
    Checked.readByte buf off = .ok ((buf.drop off).headD 0) :=
  if_pos h

theorem readBytes_of_le {off len : ℕ} (h : off + len ≤ buf.length) :
    Checked.readBytes buf off len = .ok ((buf.drop off).take len) :=
  if_pos h

/-- The rest of the buffer. -/
theorem readBytes_rest {off : ℕ} (h : off ≤ buf.length) :
    Checked.readBytes buf off (buf.length - off) = .ok (buf.drop off) := by
  rw [readBytes_of_le (by omega), List.take_of_length_le (by rw [List.length_drop])]

theorem checked_reqNumber (buf : Bytes) :
    Checked.unpackreqNumber buf = (unpackreqNumber buf).mapError .raised := by
  unfold Checked.unpackreqNumber unpackreqNumber
  simp only []
  split_ifs with h
  · rfl
  · rw [readUint32_of_le (by omega), readUint32_of_le (by omega), readBytes_rest (by omega)]
    rfl

theorem checked_mreqNumber (buf : Bytes) (isPush : Bool) :
    Checked.unpackmreqNumber buf isPush = (unpackmreqNumber buf isPush).mapError .raised := by
  unfold Checked.unpackmreqNumber unpackmreqNumber
  simp only []
  split_ifs with h
  · rfl
  · rw [readUint32_of_le (by omega), readUint32_of_le (by omega), readUint32_of_le (by omega)]
    rfl

theorem checked_mreqPart (buf : Bytes) :
    Checked.unpackmreqPart buf = (unpackmreqPart buf).mapError .raised := by
  unfold Checked.unpackmreqPart unpackmreqPart
  simp only []
  split_ifs with h
  · rfl
  · have hhead : decide ((buf.drop 0).headD 0 = 2) = decide (buf.head? = some 2) := by
      cases buf with
      | nil => simp at h
      | cons t rest => simp
    rw [readByte_of_lt (by omega), readUint32_of_le (by omega), readBytes_rest (by omega)]
    simp only [bind, Except.bind, pure, Except.pure, hhead]
    rfl

theorem checked_reqString (buf : Bytes) :
    Checked.unpackreqString buf = (unpackreqString buf).mapError .raised := by
  unfold Checked.unpackreqString unpackreqString
  simp only []
  by_cases h2 : buf.length < 2
  · rw [if_pos h2, if_pos (.inl h2)]
    rfl
  · rw [if_neg h2, readByte_of_lt (by omega)]
    show (if buf.length < nameSize buf + 6 then _ else _) = _
    by_cases h6 : buf.length < nameSize buf + 6
    · rw [if_pos h6, if_pos (.inr h6)]
      rfl
    · rw [if_neg h6, if_neg (by omega)]
      show (Checked.readBytes buf 2 (nameSize buf) >>= _) = _
      rw [readBytes_of_le (by omega)]
      show (Checked.readUint32 buf (nameSize buf + 2) >>= _) = _
      rw [readUint32_of_le (by omega)]
      show (Checked.readBytes buf (nameSize buf + 6) (buf.length - (nameSize buf + 6)) >>= _) = _
      rw [readBytes_rest (by omega)]
      rfl

theorem checked_mreqString (buf : Bytes) (isPush : Bool) :
    Checked.unpackmreqString buf isPush = (unpackmreqString buf isPush).mapError .raised := by
  unfold Checked.unpackmreqString unpackmreqString
  simp only []
  by_cases h2 : buf.length < 2
  · rw [if_pos h2, if_pos (.inl h2)]
    rfl
  · rw [if_neg h2, readByte_of_lt (by omega)]
    show (if buf.length < nameSize buf + 10 then _ else _) = _
    by_cases h10 : buf.length < nameSize buf + 10
    · rw [if_pos h10, if_pos (.inr h10)]
      rfl
    · rw [if_neg h10, if_neg (by omega)]
      show (Checked.readBytes buf 2 (nameSize buf) >>= _) = _
      rw [readBytes_of_le (by omega)]
      show (Checked.readUint32 buf (nameSize buf + 2) >>= _) = _
      rw [readUint32_of_le (by omega)]
      show (Checked.readUint32 buf (nameSize buf + 6) >>= _) = _
      rw [readUint32_of_le (by omega)]
      rfl

/-- The request decoder reads nothing outside its buffer. -/
theorem checked_unpackrequest (buf : Bytes) :
    Checked.unpackrequest buf = (unpackrequest buf).mapError .raised := by
  cases buf with
  | nil => rfl
  | cons t rest =>
    unfold Checked.unpackrequest unpackrequest
    rw [if_neg (by simp), readByte_of_lt (by simp)]
    simp only [bind, Except.bind, List.drop_zero, List.headD_cons]
    split_ifs
    · exact checked_reqNumber _
    · exact checked_mreqNumber _ _
    · exact checked_mreqNumber _ _
    · exact checked_mreqPart _
    · exact checked_reqString _
    · exact checked_mreqString _ _
    · exact checked_mreqString _ _
    · rfl

/-- The response decoder reads nothing outside its buffer. -/
theorem checked_unpackresponse (buf : Bytes) :
    Checked.unpackresponse buf = .ok (unpackresponse buf) := by
  unfold Checked.unpackresponse unpackresponse
  simp only []
  by_cases h5 : buf.length < 5
  · rw [if_pos h5, if_pos h5]
    rfl
  · rw [if_neg h5, if_neg h5, readUint32_of_le (by omega)]
    show (Checked.readByte buf 4 >>= _) = _
    rw [readByte_of_lt (by omega)]
    show (if (buf.drop 4).headD 0 = 0 then _ else _) = _
    rw [readBytes_rest (by omega)]
    split_ifs with _ _ _ h9
    · rfl
    · rfl
    · rfl
    · rw [readUint32_of_le (by omega)]
      rfl
    · rfl
    · rfl

end Reads

section Lengths

/-- A packet is its header and what the header tells the length of, and fits the buffer. -/
structure WellFormed (packet : Bytes) : Prop where
  header : unpackHeader packet = packet.length - 2
  size : 2 ≤ packet.length ∧ packet.length - 2 < 0x10000
  fits : packet.length ≤ TEMP_LENGTH

theorem wellFormed {sz : ℕ} {data : Bytes} (hsz : data.length = sz) (hfits : sz + 2 ≤ TEMP_LENGTH) :
    WellFormed (fillHeader sz ++ data) := by
  have hlen : (fillHeader sz ++ data).length = sz + 2 := by
    rw [List.length_append, hsz, Nat.add_comm]
    rfl
  unfold TEMP_LENGTH at hfits
  refine ⟨?_, by omega, by rw [hlen]; exact hfits⟩
  rw [unpackHeader_fillHeader (by omega), hlen]
  omega

variable {session : ℕ} {msg : Bytes}

theorem wellFormed_number (addr : ℕ) (isPush : Bool) :
    WellFormed (packreqNumber addr session msg isPush).1 := by
  unfold packreqNumber
  simp only [List.append_assoc]
  by_cases hm : msg.length < MULTI_PART
  · rw [if_pos hm]
    unfold MULTI_PART at hm
    refine wellFormed ?_ (by unfold TEMP_LENGTH; omega)
    simp only [List.length_append, List.length_cons, List.length_nil, length_fillUint32]
    omega
  · rw [if_neg hm]
    refine wellFormed ?_ (by decide)
    simp only [List.length_append, List.length_cons, List.length_nil, length_fillUint32]

theorem wellFormed_string {name packet : Bytes} {isPush : Bool} {part : ℕ}
    (h : packreqString name session msg isPush = .ok (packet, part)) : WellFormed packet := by
  unfold packreqString at h
  simp only [List.append_assoc] at h
  by_cases hn : name.length < 1 ∨ 255 < name.length
  · rw [if_pos hn] at h
    cases h
  · rw [if_neg hn] at h
    by_cases hm : msg.length < MULTI_PART
    · rw [if_pos hm] at h
      cases h
      unfold MULTI_PART at hm
      refine wellFormed ?_ (by unfold TEMP_LENGTH; omega)
      simp only [List.length_append, List.length_cons, List.length_nil, length_fillUint32]
      omega
    · rw [if_neg hm] at h
      cases h
      refine wellFormed ?_ (by unfold TEMP_LENGTH; omega)
      simp only [List.length_append, List.length_cons, List.length_nil, length_fillUint32]
      omega

theorem wellFormed_multi (part : ℕ) (msg : Bytes) :
    ∀ p ∈ packreqMulti session part msg, WellFormed p := by
  induction part generalizing msg with
  | zero => exact fun p hp => absurd hp List.not_mem_nil
  | succ part ih =>
    intro p hp
    rcases List.mem_cons.1 hp with rfl | hp
    · simp only [List.append_assoc]
      refine wellFormed ?_ (by unfold MULTI_PART TEMP_LENGTH; omega)
      simp only [List.length_append, List.length_cons, List.length_nil, length_fillUint32,
        List.length_take]
      omega
    · exact ih _ p hp

theorem wellFormed_packresponseMulti (part : ℕ) (msg : Bytes) :
    ∀ p ∈ packresponseMulti session part msg, WellFormed p := by
  induction part generalizing msg with
  | zero => exact fun p hp => absurd hp List.not_mem_nil
  | succ part ih =>
    intro p hp
    rcases List.mem_cons.1 hp with rfl | hp
    · simp only [List.append_assoc]
      refine wellFormed ?_ (by unfold MULTI_PART TEMP_LENGTH; omega)
      simp only [List.length_append, List.length_cons, List.length_nil, length_fillUint32,
        List.length_take]
      omega
    · exact ih _ p hp

theorem wellFormed_packresponse (ok : Bool) (msg : Bytes) :
    ∀ p ∈ packresponse session ok msg, WellFormed p := by
  unfold packresponse
  by_cases hm : ok ∧ MULTI_PART < msg.length
  · rw [if_pos hm]
    intro p hp
    rcases List.mem_cons.1 hp with rfl | hp
    · simp only [List.append_assoc]
      refine wellFormed ?_ (by decide)
      simp only [List.length_append, List.length_cons, List.length_nil, length_fillUint32]
    · exact wellFormed_packresponseMulti _ _ p hp
  · rw [if_neg hm]
    intro p hp
    rw [List.mem_singleton.1 hp]
    simp only [List.append_assoc]
    have hlen : (if ok then msg else msg.take MULTI_PART).length ≤ MULTI_PART := by
      cases ok
      · exact List.length_take_le _ _
      · exact not_lt.1 fun h => hm ⟨rfl, h⟩
    have hM : MULTI_PART + 7 ≤ TEMP_LENGTH := by decide
    refine wellFormed ?_ (by omega)
    simp only [List.length_append, List.length_cons, List.length_nil, length_fillUint32]
    omega

end Lengths

section Chunks

/-- A message in chunks, each with whether another follows. -/
def chunks : ℕ → Bytes → List (Bytes × Bool)
  | 0, _ => []
  | part + 1, msg =>
    let s := min msg.length MULTI_PART
    (msg.take s, decide (MULTI_PART < msg.length)) :: chunks part (msg.drop s)

/-- The chunks make up the message, and another follows each but the last. -/
structure Splits (cs : List (Bytes × Bool)) (msg : Bytes) : Prop where
  concat : (cs.map Prod.fst).flatten = msg
  padding : cs.map Prod.snd = List.replicate (cs.length - 1) true ++ [false]

theorem splits_chunks {msg : Bytes} (h : 0 < msg.length) :
    Splits (chunks (partCount msg.length) msg) msg := by
  have hM : MULTI_PART = 0x8000 := rfl
  obtain ⟨n, hn⟩ : ∃ n, partCount msg.length = n + 1 := ⟨_, rfl⟩
  induction n generalizing msg with
  | zero =>
    have hlen : ¬ MULTI_PART < msg.length := by
      unfold partCount at hn
      rw [hM] at hn ⊢
      omega
    rw [hn]
    simp only [chunks, decide_eq_false hlen, min_eq_left (not_lt.1 hlen), List.take_length]
    exact ⟨by simp, rfl⟩
  | succ n ih =>
    have hlen : MULTI_PART < msg.length := by
      unfold partCount at hn
      rw [hM] at hn ⊢
      omega
    have hdrop : (msg.drop MULTI_PART).length = msg.length - MULTI_PART := List.length_drop
    have hpart : partCount (msg.drop MULTI_PART).length = n + 1 := by
      rw [hdrop]
      unfold partCount at hn ⊢
      rw [hM] at hn hlen ⊢
      omega
    have h0 : 0 < (msg.drop MULTI_PART).length := by omega
    obtain ⟨hc, hp⟩ := ih h0 hpart
    rw [hpart] at hc hp
    rw [hn]
    unfold chunks
    simp only [min_eq_right hlen.le, decide_eq_true hlen]
    refine ⟨?_, ?_⟩
    · rw [List.map_cons, List.flatten_cons, hc, List.take_append_drop]
    · rw [List.map_cons, hp, List.length_cons, Nat.add_sub_cancel]
      obtain ⟨k, hk⟩ : ∃ k, (chunks (n + 1) (msg.drop MULTI_PART)).length = k + 1 := ⟨_, rfl⟩
      rw [hk, Nat.add_sub_cancel, List.replicate_succ, List.cons_append]

/-- The later packets of a request carry its chunks. -/
theorem partRequests_eq (session part : ℕ) (msg : Bytes) :
    Outgoing.partRequests session part msg = (chunks part msg).map fun c =>
      { addr := none, session, msg := some c.1, sz := c.1.length, padding := c.2,
        isPush := false } := by
  induction part generalizing msg with
  | zero => rfl
  | succ part ih =>
    unfold Outgoing.partRequests chunks
    simp only [List.map_cons, ih, List.length_take, min_assoc, min_comm MULTI_PART msg.length]
    rw [← min_assoc, min_self]

end Chunks

section Responses

/-- What the packets of a response are read as. -/
def responses (session : ℕ) (ok : Bool) (msg : Bytes) : List Response :=
  if ok ∧ MULTI_PART < msg.length then
    { session, ok := true, data := .number msg.length, padding := true }
      :: (chunks (partCount msg.length) msg).map fun c =>
        { session, ok := true, data := .string c.1, padding := c.2 }
  else
    [{ session, ok, data := .string (if ok then msg else msg.take MULTI_PART), padding := false }]

variable {session : ℕ}

/-- A packet of a response with a string. -/
theorem unpackresponse_string (hs : session < 2 ^ 32) (t : UInt8) (data : Bytes) :
    unpackresponse (fillUint32 session ++ ([t] ++ data)) =
      if t = 0 then some { session, ok := false, data := .string data, padding := false }
      else if t = 1 ∨ t = 4 then
        some { session, ok := true, data := .string data, padding := false }
      else if t = 2 then
        if data.length ≠ 4 then none
        else some { session, ok := true, data := .number (unpackUint32 data), padding := true }
      else if t = 3 then
        some { session, ok := true, data := .string data, padding := true }
      else none := by
  have h4 := drop_fillUint32 session 0 ([t] ++ data)
  have h5 := drop_fillUint32 session 1 ([t] ++ data)
  simp only [List.drop_zero, List.cons_append, List.nil_append, List.drop_succ_cons] at h4 h5
  unfold unpackresponse
  simp only [List.length_append, List.length_cons, length_fillUint32, unpackUint32_fillUint32 hs,
    List.cons_append, List.nil_append, h4, h5, List.headD_cons]
  rw [if_neg (by omega)]
  have h9 : (4 + (data.length + 1) ≠ 9) = (data.length ≠ 4) := by
    rw [eq_iff_iff]
    omega
  simp only [h9]

theorem unpackresponse_multi (hs : session < 2 ^ 32) (part : ℕ) (msg : Bytes) :
    (packresponseMulti session part msg).map (fun p => unpackresponse (p.drop 2))
      = (chunks part msg).map fun c =>
        some { session, ok := true, data := .string c.1, padding := c.2 } := by
  induction part generalizing msg with
  | zero => rfl
  | succ part ih =>
    unfold packresponseMulti chunks
    simp only [List.map_cons, ih, List.append_assoc]
    congr 1
    have hdrop : ∀ (sz : ℕ) (data : Bytes), (fillHeader sz ++ data).drop 2 = data := fun _ _ => rfl
    rw [hdrop, unpackresponse_string hs]
    by_cases h : MULTI_PART < msg.length
    · rw [if_pos h, decide_eq_true h]
      rfl
    · rw [if_neg h, decide_eq_false h]
      rfl

/-- Every packet of a response is read as the matching part of it. -/
theorem unpackresponse_packresponse (hs : session < 2 ^ 32) (ok : Bool) {msg : Bytes}
    (hm : msg.length < 2 ^ 32) :
    (packresponse session ok msg).map (fun p => unpackresponse (p.drop 2))
      = (responses session ok msg).map some := by
  have hdrop : ∀ (sz : ℕ) (data : Bytes), (fillHeader sz ++ data).drop 2 = data := fun _ _ => rfl
  unfold packresponse responses
  by_cases h : ok ∧ MULTI_PART < msg.length
  · have hnum := unpackUint32_fillUint32 hm []
    rw [List.append_nil] at hnum
    rw [if_pos h, if_pos h]
    simp only [List.map_cons, List.map_map, List.append_assoc, hdrop, unpackresponse_multi hs]
    rw [unpackresponse_string hs, if_neg (by decide), if_neg (by decide), if_pos rfl,
      length_fillUint32, if_neg (by decide), hnum]
    rfl
  · rw [if_neg h, if_neg h]
    simp only [List.map_cons, List.map_nil, List.append_assoc, hdrop, unpackresponse_string hs]
    cases ok <;> rfl

end Responses

section Codec

/-- What is read from the packets of a message: a small one whole, with session 0 for a push; the
head of a large one with its size, and then its chunks. -/
def ReadBack (m : Outgoing) (rs : List Request) : Prop :=
  if m.msg.length < MULTI_PART then
    rs = [{ addr := some m.addr, session := if m.isPush then 0 else m.session, msg := some m.msg,
            sz := m.msg.length, padding := false, isPush := m.isPush }]
  else
    ∃ cs, Splits cs m.msg ∧
      rs = { addr := some m.addr, session := m.session, msg := none, sz := m.msg.length,
             padding := true, isPush := m.isPush }
        :: cs.map fun c => { addr := none, session := m.session, msg := some c.1,
                             sz := c.1.length, padding := c.2, isPush := false }

/-- The same of a response: of an error, its longest prefix of at most `MULTI_PART` bytes. -/
def ResponseReadBack (session : ℕ) (ok : Bool) (msg : Bytes) (rs : List Response) : Prop :=
  if ok ∧ MULTI_PART < msg.length then
    ∃ cs, Splits cs msg ∧
      rs = { session, ok := true, data := .number msg.length, padding := true }
        :: cs.map fun c => { session, ok := true, data := .string c.1, padding := c.2 }
  else
    rs = [{ session, ok, data := .string (if ok then msg else msg.take MULTI_PART),
            padding := false }]

theorem readBack_requests (m : Outgoing) : ReadBack m m.requests := by
  unfold ReadBack Outgoing.requests
  by_cases h : m.msg.length < MULTI_PART
  · rw [if_pos h, if_pos h]
  · rw [if_neg h, if_neg h]
    have hM : MULTI_PART = 0x8000 := rfl
    exact ⟨_, splits_chunks (by omega), by rw [partRequests_eq]⟩

theorem readBack_responses (session : ℕ) (ok : Bool) (msg : Bytes) :
    ResponseReadBack session ok msg (responses session ok msg) := by
  unfold ResponseReadBack responses
  by_cases h : ok ∧ MULTI_PART < msg.length
  · rw [if_pos h, if_pos h]
    exact ⟨_, splits_chunks (by omega), rfl⟩
  · rw [if_neg h, if_neg h]

/-- The next session, in `int` and `uint32_t`. -/
theorem next_session {session : ℕ} (h : 1 ≤ session ∧ session ≤ INT32_MAX) :
    let next := if INT32_MAX < session + 1 then 1 else session + 1
    1 ≤ next ∧ next ≤ INT32_MAX ∧ next ≠ session := by
  unfold INT32_MAX at h ⊢
  simp only []
  split_ifs <;> omega

/-- `packrequest` and `packpush` of a valid message. -/
theorem packrequest_valid {m : Outgoing} (hm : m.Valid) :
    ∃ packet next padding, packrequestImpl m.addr m.session m.msg m.isPush
        = .ok (packet, next, padding) ∧ m.packets = packet :: padding.getD []
      ∧ (1 ≤ next ∧ next ≤ INT32_MAX ∧ next ≠ m.session) ∧ ∀ p ∈ m.packets, WellFormed p := by
  obtain ⟨addr, session, msg, isPush⟩ := m
  obtain ⟨ha, hs, hz⟩ := hm
  simp only [] at ha hs hz
  have hnext := next_session hs
  have hpack : (if isPush then packpush addr session msg else packrequest addr session msg)
      = packrequestImpl addr session msg isPush := by cases isPush <;> rfl
  have hmsg : msg.take (msg.length % 2 ^ 32) = msg := by
    rw [Nat.mod_eq_of_lt (by omega), List.take_length]
  have hsess : toSigned 32 (session : ℤ) = session := by
    unfold INT32_MAX at hs
    exact toSigned_of_range (by omega) (by omega)
  have hresult : ∃ packet padding, packrequestImpl addr session msg isPush
      = .ok (packet, if INT32_MAX < session + 1 then 1 else session + 1, padding)
      ∧ WellFormed packet ∧ ∀ p ∈ padding.getD [], WellFormed p := by
    have hparts : ∀ (packet : Bytes) (multipak : ℕ), WellFormed packet →
        ∃ packet' padding, (if multipak ≠ 0 then
            Except.ok (packet, if INT32_MAX < session + 1 then 1 else session + 1,
              some (packreqMulti session multipak msg))
          else Except.ok (packet, if INT32_MAX < session + 1 then 1 else session + 1, none)
          : Except String (Bytes × ℕ × Option (List Bytes)))
            = .ok (packet', if INT32_MAX < session + 1 then 1 else session + 1, padding)
          ∧ WellFormed packet' ∧ ∀ p ∈ padding.getD [], WellFormed p := by
      intro packet multipak hw
      by_cases hz : multipak ≠ 0
      · rw [if_pos hz]
        exact ⟨_, _, rfl, hw, wellFormed_multi _ _⟩
      · rw [if_neg hz]
        exact ⟨_, none, rfl, hw, fun p hp => absurd hp List.not_mem_nil⟩
    unfold packrequestImpl
    simp only [hmsg, hsess, Int.toNat_natCast]
    rw [if_neg (by omega)]
    cases addr with
    | number n => exact hparts _ _ (wellFormed_number n isPush)
    | name s =>
      obtain ⟨h1, h2⟩ := ha
      obtain ⟨⟨packet, multipak⟩, hok⟩ : ∃ r, packreqString s session msg isPush = .ok r := by
        unfold packreqString
        simp only []
        rw [if_neg (by omega)]
        by_cases hm : msg.length < MULTI_PART
        · exact ⟨_, if_pos hm⟩
        · exact ⟨_, if_neg hm⟩
      simp only [hok]
      exact hparts _ _ (wellFormed_string hok)
  obtain ⟨packet, padding, hresult, hwell, hpad⟩ := hresult
  have hpackets : Outgoing.packets ⟨addr, session, msg, isPush⟩ = packet :: padding.getD [] := by
    unfold Outgoing.packets
    simp only [hpack, hresult]
  refine ⟨packet, _, padding, hresult, hpackets, hnext, fun p hp => ?_⟩
  rw [hpackets] at hp
  rcases List.mem_cons.1 hp with rfl | hp
  · exact hwell
  · exact hpad p hp

theorem unpackrequest_of_carries {ps : List Bytes} {rs : List Request}
    (h : List.Forall₂ Carries ps rs) :
    ps.map (fun p => unpackrequest (p.drop 2)) = rs.map .ok := by
  induction h with
  | nil => rfl
  | @cons p r ps rs hp _ ih =>
    obtain ⟨data, rfl, -, -, hr⟩ := hp
    rw [List.map_cons, List.map_cons, ih]
    congr 1

/-- Requests, pushes and responses are read as they were written, from packets that fit their
header and their buffer; the next session is another one; and the decoders read nothing outside
the string they are given. -/
theorem codec_correct :
    (∀ m : Outgoing, m.Valid → ∃ packet next padding,
      packrequestImpl m.addr m.session m.msg m.isPush = .ok (packet, next, padding)
        ∧ (1 ≤ next ∧ next ≤ INT32_MAX ∧ next ≠ m.session)
        ∧ (∀ p ∈ packet :: padding.getD [], WellFormed p)
        ∧ ∃ rs, ReadBack m rs
          ∧ (packet :: padding.getD []).map (fun p => unpackrequest (p.drop 2)) = rs.map .ok)
    ∧ (∀ session ok (msg : Bytes), session < 2 ^ 32 → msg.length < 2 ^ 31 →
      (∀ p ∈ packresponse session ok msg, WellFormed p)
        ∧ ∃ rs, ResponseReadBack session ok msg rs
          ∧ (packresponse session ok msg).map (fun p => unpackresponse (p.drop 2)) = rs.map some)
    ∧ ∀ buf : Bytes, Checked.unpackrequest buf = (unpackrequest buf).mapError .raised
      ∧ Checked.unpackresponse buf = .ok (unpackresponse buf) := by
  refine ⟨fun m hm => ?_, fun session ok msg hs hm => ?_, fun buf => ?_⟩
  · obtain ⟨packet, next, padding, hok, hpackets, hnext, hwell⟩ := packrequest_valid hm
    rw [hpackets] at hwell
    refine ⟨packet, next, padding, hok, hnext, hwell, m.requests, readBack_requests m, ?_⟩
    rw [← hpackets, unpackrequest_of_carries (carries_packets hm)]
  · exact ⟨wellFormed_packresponse ok msg, responses session ok msg,
      readBack_responses session ok msg, unpackresponse_packresponse hs ok (by omega)⟩
  · exact ⟨checked_unpackrequest buf, checked_unpackresponse buf⟩

/-- A push with the last session, whose next session is 1. -/
theorem codec_last_session : ∃ packet padding,
    packrequestImpl (.number 8) INT32_MAX [1, 2, 3] true = .ok (packet, 1, padding)
      ∧ ∀ p ∈ packet :: padding.getD [], WellFormed p := by
  have hvalid : Outgoing.Valid ⟨.number 8, INT32_MAX, [1, 2, 3], true⟩ :=
    ⟨(by decide : 8 < 2 ^ 32), by decide, by decide⟩
  obtain ⟨packet, next, padding, hok, -, hwell, -⟩ := codec_correct.1 _ hvalid
  have hnext : next = 1 := by
    cases hok
    rfl
  exact ⟨packet, padding, hnext ▸ hok, hwell⟩

end Codec

end Cluster

end SkynetCpp
