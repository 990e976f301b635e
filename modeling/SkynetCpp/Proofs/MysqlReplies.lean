import SkynetCpp.MysqlReplies
import SkynetCpp.Proofs.MysqlRows

/-!
# When the replies stay in step

A packet is read as it was sent and nothing of what follows, and so is every part of a result until
an error comes in the place of a row.
-/

namespace SkynetCpp

open Lib LuaString MysqlBinary

namespace Mysql

section Packets

variable {p rest : Bytes} {number : ℕ}

theorem read_append {n : ℕ} (h : p.length = n) : read n (p ++ rest) = some (p, rest) := by
  subst h
  simp [read, Socket.ReadOp.takes]

theorem recvPacket_nil : recvPacket [] = none := rfl

theorem recvPacket_packet (hne : p ≠ []) (hlen : p.length < 2 ^ 24) :
    recvPacket (MysqlReplies.packet number p ++ rest) = some (.ok (p, packetType p), rest) := by
  have hleft : Left (le 3 p.length ++ [UInt8.ofNat number]) 1
      (le 3 p.length ++ [UInt8.ofNat number]) := ⟨[], rfl, rfl⟩
  have hnat : (UInt64.ofNat p.length).toNat = p.length := by
    rw [UInt64.toNat_ofNat', Nat.mod_eq_of_lt (by omega)]
  have hpos : 0 < p.length := List.length_pos_iff.2 hne
  have hzero : UInt64.ofNat p.length ≠ 0 := fun h => by
    rw [← UInt64.toNat_inj, hnat] at h
    exact hpos.ne' h
  rw [MysqlReplies.packet, List.append_assoc, recvPacket,
    read_append (by rw [List.length_append, length_le]; rfl)]
  simp only [Option.bind_eq_bind, Option.bind_some]
  rw [hleft.at.unpackUnsigned (by omega), Option.bind_some, if_neg hzero, hnat, read_append rfl]
  rfl

end Packets

section Parsers

variable {data s t : Bytes} {pos : ℤ} {k n : ℕ}

theorem left_sub (h : Left data pos s) : sub data pos (-1) = s := by
  obtain ⟨pre, rfl, rfl⟩ := h
  exact sub_rest pre s

/-- The bytes behind the first one. -/
theorem left_cons (x : UInt8) (s : Bytes) : Left (x :: s) 2 s := ⟨[x], rfl, rfl⟩

theorem bin_left (h : Left data pos (lenenc n ++ t)) (hn : n < 2 ^ 64) :
    ∃ pos', fromLengthCodedBin data pos = .ok (.integer (Int64.ofNat n), pos') ∧ Left data pos' t :=
  ⟨_, fromLengthCodedBin_at h.at hn, h.right⟩

theorem str_left (h : Left data pos (lenencStr s ++ t)) (hs : s.length < 2 ^ 63) :
    ∃ pos', fromLengthCodedStr data pos = .ok (.string s, pos') ∧ Left data pos' t :=
  ⟨_, (getString_left h hs : getString data pos false = _), h.right⟩

theorem int_left (h : Left data pos (le k n ++ t)) (hn : n < 256 ^ k) (hk : n < 2 ^ 64) :
    ∃ pos', orRaise (unpackUnsigned k data pos) = .ok (UInt64.ofNat n, pos') ∧ Left data pos' t
      ∧ (UInt64.ofNat n).toNat = n := by
  refine ⟨_, by rw [h.at.unpackUnsigned hn, orRaise], ?_, ?_⟩
  · have hright := h.right
    rwa [length_le] at hright
  · rw [UInt64.toNat_ofNat', Nat.mod_eq_of_lt hk]

theorem parseOkPacket_encode {p : MysqlReplies.Ok} (h : p.Fits) :
    parseOkPacket p.encode = .ok (okResult p) := by
  obtain ⟨ha, hi, hs, hw⟩ := h
  have hleft := left_cons 0x00 (lenenc p.affectedRows ++ (lenenc p.insertId
    ++ (le 2 p.status ++ (le 2 p.warnings ++ p.info))))
  obtain ⟨_, hread1, hleft⟩ := bin_left hleft ha
  obtain ⟨_, hread2, hleft⟩ := bin_left hleft hi
  obtain ⟨_, hread3, hleft, hstatus⟩ := int_left hleft hs (by omega)
  obtain ⟨_, hread4, hleft, hwarnings⟩ := int_left hleft hw (by omega)
  simp only [MysqlReplies.Ok.encode, List.append_assoc, parseOkPacket, hread1, hread2, hread3,
    hread4, left_sub hleft, hstatus, hwarnings, bind, Except.bind, pure, Except.pure]
  rfl

theorem parseEofPacket_encode {p : MysqlReplies.Eof} (h : p.Fits) :
    parseEofPacket p.encode = .ok (p.warnings, p.status) := by
  have hleft := left_cons 0xfe (le 2 p.warnings ++ (le 2 p.status ++ []))
  obtain ⟨_, hread1, hleft, hwarnings⟩ := int_left hleft h.1 (by have := h.1; omega)
  obtain ⟨_, hread2, -, hstatus⟩ := int_left hleft h.2 (by have := h.2; omega)
  rw [List.append_nil] at hread1 hread2
  simp only [MysqlReplies.Eof.encode, parseEofPacket, hread1, hread2, hwarnings, hstatus, bind,
    Except.bind, pure, Except.pure]

theorem parseErrPacket_encode {p : MysqlReplies.Err} (h : p.Fits) :
    parseErrPacket p.encode = .ok (failureOf p) := by
  obtain ⟨he, hs⟩ := h
  have hleft := left_cons 0xff (le 2 p.errno ++ ([35] ++ (p.sqlstate ++ p.message)))
  obtain ⟨pos, hread, hleft, herrno⟩ := int_left hleft he (by omega)
  have hmark : sub _ pos pos = ascii "#" := hleft.at.sub (by simp)
  have hbehind : Left _ (pos + 1) (p.sqlstate ++ p.message) := hleft.right
  have hstate : sub _ (pos + 1) (pos + 1 + 5 - 1) = p.sqlstate := hbehind.at.sub (by rw [hs]; rfl)
  have hmessage := left_sub hbehind.right
  rw [hs] at hmessage
  have hdata : p.encode = 0xff :: (le 2 p.errno ++ ([35] ++ (p.sqlstate ++ p.message))) := by
    simp [MysqlReplies.Err.encode]
  rw [hdata, parseErrPacket, hread]
  simp only [bind, Except.bind, pure, Except.pure]
  rw [if_pos hmark, hstate]
  simp only [herrno, failureOf]
  exact congrArg (fun m => Except.ok (⟨m, _, _⟩ : Failure)) hmessage

theorem length_le_lenencStr (s : Bytes) : s.length ≤ (lenencStr s).length := by
  rw [lenencStr, List.length_append]
  omega

theorem and_flag (flags : ℕ) (h : flags < 2 ^ 16) :
    decide (UInt64.ofNat flags &&& 0x20 = 0) = !flags.testBit 5 := by
  have hnat : (UInt64.ofNat flags).toNat = flags := by
    rw [UInt64.toNat_ofNat', Nat.mod_eq_of_lt (by omega)]
  have hiff : UInt64.ofNat flags &&& 0x20 = 0 ↔ ¬ flags &&& 0x20 ≠ 0 := by
    rw [not_not, ← UInt64.toNat_inj, UInt64.toNat_and, hnat]
    rfl
  rw [decide_eq_decide.2 hiff, decide_not, show (0x20 : ℕ) = 1 <<< 5 by rfl, and_bit]

/-- The six strings, the fields of a fixed length, the type and the flags. -/
theorem parseFieldPacket_encode {c : MysqlReplies.Column} (h : c.Fits)
    (hlen : c.encode.length < 2 ^ 63) : parseFieldPacket c.encode = .ok (colOf c) := by
  obtain ⟨hcharset, hlength, htype, hflags, -⟩ := h
  have hdata : c.encode = lenencStr [100, 101, 102] ++ (lenencStr c.schema ++ (lenencStr c.table
      ++ (lenencStr c.orgTable ++ (lenencStr c.name ++ (lenencStr c.orgName ++ ([0x0c]
      ++ (le 2 c.charset ++ (le 4 c.length ++ ([UInt8.ofNat c.type] ++ (le 2 c.flags
      ++ (le 1 c.decimals ++ [0, 0]))))))))))) := by
    simp [MysqlReplies.Column.encode, le]
  have hsizes := congrArg List.length hdata
  simp only [List.length_append] at hsizes
  have hsize (s : Bytes) := length_le_lenencStr s
  have hleft : Left c.encode 1 _ := (congrArg (Left c.encode 1) hdata).mp ⟨[], rfl, rfl⟩
  obtain ⟨_, hread1, hleft⟩ := str_left hleft (by simp)
  obtain ⟨_, hread2, hleft⟩ := str_left hleft (by have := hsize c.schema; omega)
  obtain ⟨_, hread3, hleft⟩ := str_left hleft (by have := hsize c.table; omega)
  obtain ⟨_, hread4, hleft⟩ := str_left hleft (by have := hsize c.orgTable; omega)
  obtain ⟨_, hread5, hleft⟩ := str_left hleft (by have := hsize c.name; omega)
  obtain ⟨pos, hread6, hleft⟩ := str_left hleft (by have := hsize c.orgName; omega)
  have hleft : Left c.encode (pos + 1) _ := hleft.right
  obtain ⟨_, hread7, hleft, -⟩ := int_left hleft hcharset (by omega)
  obtain ⟨pos', hread8, hleft, -⟩ := int_left hleft hlength (by omega)
  have hbyte : orRaise (byte c.encode pos') = .ok (UInt8.ofNat c.type) :=
    congrArg orRaise hleft.at.byte
  have hleft : Left c.encode (pos' + 1) _ := hleft.right
  obtain ⟨_, hread9, -, -⟩ := int_left hleft hflags (by omega)
  have hnat : (UInt8.ofNat c.type).toNat = c.type := by
    rw [UInt8.toNat_ofNat', Nat.mod_eq_of_lt htype]
  simp only [parseFieldPacket, hread1, hread2, hread3, hread4, hread5, hread6, hread7, hread8,
    hread9, hbyte, bind, Except.bind, pure, Except.pure, hnat, and_flag _ hflags]
  rfl

section TextRow

variable {str2d : Bytes → Option UInt64} {compact : Bool} {i : ℕ} {cells : List (Option Bytes)}
  {cols : List Col}

theorem cell_left {cell : Option Bytes}
    (h : Left data pos (MysqlReplies.encodeCell cell ++ t))
    (hlen : (MysqlReplies.encodeCell cell).length < 2 ^ 63) :
    ∃ pos', fromLengthCodedStr data pos = .ok ((cell.map Value.string).getD .nil, pos')
      ∧ Left data pos' t := by
  cases cell with
  | none =>
    refine ⟨pos + 1, ?_, h.right⟩
    rw [fromLengthCodedStr, fromLengthCodedBin, (h.at (a := [0xfb])).byte]
    rfl
  | some s =>
    exact str_left h ((length_le_lenencStr s).trans_lt hlen)

theorem textColumns_left (h : Left data pos (MysqlReplies.encodeTextRow cells))
    (hcells : cells.length = cols.length)
    (hlen : (MysqlReplies.encodeTextRow cells).length < 2 ^ 63) :
    textColumns str2d data compact i cols pos = .ok (textRow str2d compact i cols cells) := by
  induction cols generalizing pos i cells with
  | nil => rfl
  | cons col cols ih =>
    obtain ⟨cell, cells, rfl⟩ := List.exists_cons_of_length_eq_add_one hcells
    rw [MysqlReplies.encodeTextRow, List.flatMap_cons, ← MysqlReplies.encodeTextRow] at h hlen
    rw [List.length_append] at hlen
    obtain ⟨_, hread, hleft⟩ := cell_left h (by omega)
    rw [textColumns, hread]
    simp only [bind, Except.bind]
    rw [ih hleft (by simpa using hcells) (by omega), textRow]
    cases cell <;> rfl

end TextRow

end Parsers

section Types

variable {x : UInt8} {s : Bytes} {n : ℕ}

theorem packetType_cons (x : UInt8) (s : Bytes) : packetType (x :: s)
    = if x = 0x00 then .ok else if x = 0xff then .err else if x = 0xfe then .eof else .data := by
  have hat : At (x :: s) 1 (x :: s) := ⟨[], [], by simp, rfl⟩
  rw [packetType, hat.byte]
  split_ifs with h0 h255 h254
  · subst h0
    rfl
  · subst h255
    rfl
  · subst h254
    rfl
  · split <;> simp_all

/-- A length of less than four bytes does not look like an EOF packet. -/
theorem lenenc_head (hn : n < 2 ^ 24) : ∃ x s, lenenc n = x :: s ∧ x.toNat < 0xfe
    ∧ (0 < n → x ≠ 0) := by
  unfold lenenc
  split_ifs with h1 h2
  · have hnat : (UInt8.ofNat n).toNat = n := by
      rw [UInt8.toNat_ofNat', Nat.mod_eq_of_lt (by omega)]
    refine ⟨_, _, rfl, by omega, fun hpos h => ?_⟩
    rw [h] at hnat
    exact hpos.ne hnat
  · exact ⟨_, _, rfl, by decide, fun _ => by decide⟩
  · exact ⟨_, _, rfl, by decide, fun _ => by decide⟩

theorem packetType_of_lt (hx : x.toNat < 0xfe) : packetType (x :: s) ≠ .eof := by
  have h254 : x ≠ 0xfe := fun h => by rw [h] at hx; exact absurd hx (by decide)
  rw [packetType_cons, if_neg h254]
  split_ifs <;> simp

theorem packetType_count (hpos : 0 < n) (hn : n < 2 ^ 24) : packetType (lenenc n) = .data := by
  obtain ⟨x, s, hx, hlt, hne⟩ := lenenc_head hn
  have h255 : x ≠ 0xff := fun h => by rw [h] at hlt; exact absurd hlt (by decide)
  have h254 : x ≠ 0xfe := fun h => by rw [h] at hlt; exact absurd hlt (by decide)
  rw [hx, packetType_cons, if_neg (hne hpos), if_neg h255, if_neg h254]

theorem packetType_many (hn : 2 ^ 24 ≤ n) : packetType (lenenc n) = .eof := by
  rw [lenenc, if_neg (by omega), if_neg (by omega), if_neg (by omega), packetType_cons]
  rfl

theorem packetType_textRow {cells : List (Option Bytes)} (hne : cells ≠ [])
    (hlen : (MysqlReplies.encodeTextRow cells).length < 2 ^ 24) :
    packetType (MysqlReplies.encodeTextRow cells) ≠ .eof := by
  obtain ⟨cell, cells, rfl⟩ := List.exists_cons_of_ne_nil hne
  cases cell with
  | none => exact packetType_of_lt (by decide)
  | some t =>
    have hsize : t.length < 2 ^ 24 := by
      have h := length_le_lenencStr t
      rw [MysqlReplies.encodeTextRow, List.flatMap_cons, List.length_append,
        MysqlReplies.encodeCell] at hlen
      omega
    obtain ⟨x, s, hx, hlt, -⟩ := lenenc_head hsize
    rw [MysqlReplies.encodeTextRow, List.flatMap_cons, MysqlReplies.encodeCell, lenencStr, hx]
    exact packetType_of_lt hlt

end Types

section Loops

open MysqlReplies (packets)

variable {ps qs : List Bytes} {rest : Bytes} {number : ℕ}

/-- The packets of a well-formed reply have something in them and are not split. -/
def Whole (ps : List Bytes) : Prop := ∀ p ∈ ps, p ≠ [] ∧ p.length < 2 ^ 24

theorem recvPacket_packets {p : Bytes} (h : p ≠ [] ∧ p.length < 2 ^ 24) :
    recvPacket (packets number (p :: ps) ++ rest)
      = some (.ok (p, packetType p), packets (number + 1) ps ++ rest) := by
  rw [packets, List.append_assoc]
  exact recvPacket_packet h.1 h.2

/-- There are more bytes than packets. -/
theorem length_le_packets (number : ℕ) (ps : List Bytes) :
    ps.length ≤ (packets number ps).length := by
  induction ps generalizing number with
  | nil => exact Nat.zero_le _
  | cons p ps ih =>
    have htail := ih (number + 1)
    simp only [packets, MysqlReplies.packet, List.length_append, List.length_cons]
    omega

section Rows

variable {parse : Bytes → Except Error Fields} {checked : Bool} {rounds : ℕ} {acc : List Fields}

theorem again_eq (status : ℕ) : again status = MysqlReplies.moreResults status := by
  rw [again, MysqlReplies.moreResults, show (8 : ℕ) = 1 <<< 3 by rfl, and_bit]

/-- Rows are read until the EOF packet. -/
theorem recvRows_eof {ρ : Type} {rows : List ρ} {row : ρ → Bytes} (parsed : ρ → Fields)
    {p : MysqlReplies.Eof} (hwhole : Whole (rows.map row)) (hp : p.Fits)
    (hrows : ∀ r ∈ rows, packetType (row r) ≠ .eof ∧ parse (row r) = .ok (parsed r))
    (hrounds : rows.length < rounds) :
    recvRows parse checked rounds acc (packets number (rows.map row ++ [p.encode]) ++ rest)
      = some (.ok (.rows (acc ++ rows.map parsed), MysqlReplies.moreResults p.status), rest) := by
  induction rows generalizing rounds acc number with
  | nil =>
    obtain ⟨rounds, rfl⟩ := Nat.exists_eq_succ_of_ne_zero (Nat.ne_zero_of_lt hrounds)
    have hsize : p.encode ≠ [] ∧ p.encode.length < 2 ^ 24 := by
      simp [MysqlReplies.Eof.encode]
    have htype : packetType p.encode = .eof := packetType_cons ..
    rw [List.map_nil, List.nil_append, recvRows, recvPacket_packets hsize]
    simp only [Option.bind_eq_bind, Option.bind_some, htype, if_true,
      parseEofPacket_encode hp, Except.toOption, again_eq]
    simp [packets]
  | cons r rows ih =>
    obtain ⟨rounds, rfl⟩ := Nat.exists_eq_succ_of_ne_zero (Nat.ne_zero_of_lt hrounds)
    obtain ⟨⟨htype, hparse⟩, hrows⟩ := List.forall_mem_cons.1 hrows
    obtain ⟨hr, hwhole⟩ := List.forall_mem_cons.1 hwhole
    rw [List.map_cons, List.cons_append, recvRows, recvPacket_packets hr]
    simp only [Option.bind_eq_bind, Option.bind_some, if_neg htype, hparse, Except.toOption]
    rw [ih hwhole hrows (Nat.lt_of_succ_lt_succ hrounds), List.map_cons, List.append_assoc,
      List.singleton_append]

/-- A row that is not parsed, or rows without an end, are no result. -/
theorem recvRows_none (hwhole : Whole ps) (hrows : ∀ q ∈ ps, packetType q ≠ .eof)
    (hend : (∃ q ∈ ps, (parse q).toOption = none) ∨ rest = []) :
    recvRows parse checked rounds acc (packets number ps ++ rest) = none := by
  induction ps generalizing rounds acc number with
  | nil =>
    obtain rfl : rest = [] := by simpa using hend
    cases rounds <;> rfl
  | cons q ps ih =>
    obtain ⟨htype, hrows⟩ := List.forall_mem_cons.1 hrows
    obtain ⟨hq, hwhole⟩ := List.forall_mem_cons.1 hwhole
    cases rounds with
    | zero => rfl
    | succ rounds =>
      rw [recvRows, recvPacket_packets hq]
      simp only [Option.bind_eq_bind, Option.bind_some, if_neg htype]
      cases hparse : (parse q).toOption with
      | none => rfl
      | some row =>
        refine ih hwhole hrows (hend.imp_left ?_)
        rintro ⟨q', hq', hnone⟩
        rcases List.mem_cons.1 hq' with rfl | hmem
        · rw [hparse] at hnone
          cases hnone
        · exact ⟨q', hmem, hnone⟩

end Rows

section Fields

variable {cols : List MysqlReplies.Column}

theorem column_encode (c : MysqlReplies.Column) : ∃ s, c.encode = 3 :: s :=
  ⟨_, rfl⟩

theorem recvFields_encode (hcols : ∀ c ∈ cols, c.Fits ∧ c.encode.length < 2 ^ 24) :
    recvFields cols.length (packets number (cols.map MysqlReplies.Column.encode ++ ps) ++ rest)
      = some (.ok (cols.map colOf), packets (number + cols.length) ps ++ rest) := by
  induction cols generalizing number with
  | nil => rfl
  | cons c cols ih =>
    obtain ⟨⟨hfits, hlen⟩, hcols⟩ := List.forall_mem_cons.1 hcols
    obtain ⟨s, hs⟩ := column_encode c
    have htype : packetType c.encode = .data := by rw [hs, packetType_cons]; rfl
    rw [List.map_cons, List.cons_append, List.length_cons, recvFields, recvFieldPacket,
      recvPacket_packets ⟨by simp [hs], hlen⟩]
    simp only [Option.bind_eq_bind, Option.bind_some, htype,
      parseFieldPacket_encode hfits (by omega), Except.toOption, ih hcols, Option.pure_def,
      Except.map, List.map_cons]
    rw [Nat.add_right_comm, Nat.add_assoc]

theorem recvCols_encode {acc : List Col} {rounds : ℕ} {p : MysqlReplies.Eof}
    (hcols : ∀ c ∈ cols, c.Fits ∧ c.encode.length < 2 ^ 24) (hrounds : cols.length < rounds) :
    recvCols rounds acc
        (packets number (cols.map MysqlReplies.Column.encode ++ p.encode :: ps) ++ rest)
      = some (acc ++ cols.map colOf, packets (number + cols.length + 1) ps ++ rest) := by
  induction cols generalizing number acc rounds with
  | nil =>
    obtain ⟨rounds, rfl⟩ := Nat.exists_eq_succ_of_ne_zero (Nat.ne_zero_of_lt hrounds)
    have hsize : p.encode ≠ [] ∧ p.encode.length < 2 ^ 24 := by
      simp [MysqlReplies.Eof.encode]
    have htype : packetType p.encode = .eof := packetType_cons ..
    rw [List.map_nil, List.nil_append, recvCols, recvPacket_packets hsize]
    simp [htype]
  | cons c cols ih =>
    obtain ⟨rounds, rfl⟩ := Nat.exists_eq_succ_of_ne_zero (Nat.ne_zero_of_lt hrounds)
    obtain ⟨⟨hfits, hlen⟩, hcols⟩ := List.forall_mem_cons.1 hcols
    obtain ⟨s, hs⟩ := column_encode c
    have htype : packetType c.encode ≠ .eof := by
      rw [hs]
      exact packetType_of_lt (by decide)
    rw [List.map_cons, List.cons_append, recvCols,
      recvPacket_packets ⟨by simp [hs], hlen⟩]
    simp only [Option.bind_eq_bind, Option.bind_some, if_neg htype,
      parseFieldPacket_encode hfits (by omega), Except.toOption]
    rw [ih hcols (Nat.lt_of_succ_lt_succ hrounds), List.length_cons, List.map_cons,
      List.append_assoc, List.singleton_append, Nat.add_right_comm number 1, Nat.add_assoc number]

end Fields

end Loops

section Readings

open MysqlReplies (packets)

variable {data : Bytes → Bytes → Reading} {ps : List Bytes} {rest : Bytes} {number n : ℕ}

section First

theorem readFirst_ok {p : MysqlReplies.Ok} (hp : p.Fits) (hlen : p.encode.length < 2 ^ 24) :
    readFirst data (packets number [p.encode] ++ rest)
      = some (.ok (.ok (okResult p), MysqlReplies.moreResults p.status), rest) := by
  have htype : packetType p.encode = .ok := packetType_cons ..
  rw [readFirst, recvPacket_packets (p := p.encode) ⟨List.cons_ne_nil _ _, hlen⟩]
  simp [htype, parseOkPacket_encode hp, Except.toOption, again_eq, packets, okResult]

theorem readFirst_err {p : MysqlReplies.Err} (hp : p.Fits) (hlen : p.encode.length < 2 ^ 24) :
    readFirst data (packets number [p.encode] ++ rest) = some (.error (failureOf p), rest) := by
  have htype : packetType p.encode = .err := packetType_cons ..
  rw [readFirst, recvPacket_packets (p := p.encode) ⟨List.cons_ne_nil _ _, hlen⟩]
  simp [htype, parseErrPacket_encode hp, Except.toOption, packets]

theorem lenenc_whole (n : ℕ) : lenenc n ≠ [] ∧ (lenenc n).length < 2 ^ 24 := by
  unfold lenenc
  split_ifs <;> simp [le]

theorem readFirst_set (hpos : 0 < n) (hn : n < 2 ^ 24) :
    readFirst data (packets number (lenenc n :: ps) ++ rest)
      = data (lenenc n) (packets (number + 1) ps ++ rest) := by
  rw [readFirst, recvPacket_packets (lenenc_whole n)]
  simp [packetType_count hpos hn]

/-- The number of columns looks like an EOF packet. -/
theorem readFirst_many (data : Bytes → Bytes → Reading) (number : ℕ) (ps : List Bytes)
    (rest : Bytes) (hn : 2 ^ 24 ≤ n) :
    ∃ failure, readFirst data (packets number (lenenc n :: ps) ++ rest)
      = some (.error failure, packets (number + 1) ps ++ rest) := by
  rw [readFirst, recvPacket_packets (lenenc_whole n)]
  simp [packetType_many hn, failed]

end First

section Sets

variable {ρ : Type} {parse : List Col → Bytes → Except Error Fields} {checked : Bool}
  {fitsRow : List MysqlReplies.Column → ρ → Prop} {row : ρ → Bytes}
  {rowOf : List Col → ρ → Fields} {accepts : List Col → ρ → Prop}

theorem whole_rows {rows : List ρ}
    (hrows : ∀ r ∈ rows, (row r).length < 2 ^ 24 ∧ row r ≠ [] ∧ packetType (row r) ≠ .eof) :
    Whole (rows.map row) := by
  intro p hp
  obtain ⟨r, hr, rfl⟩ := List.mem_map.1 hp
  exact ⟨(hrows r hr).2.1, (hrows r hr).1⟩

/-- How a reader of sets gets to the rows, and which rows it parses. -/
structure ReadsSets (data : Bytes → Bytes → Reading)
    (parse : List Col → Bytes → Except Error Fields) (checked : Bool)
    (fitsRow : List MysqlReplies.Column → ρ → Prop) (row : ρ → Bytes)
    (rowOf : List Col → ρ → Fields) (accepts : List Col → ρ → Prop) : Prop where
  toRows : ∀ {cols : List MysqlReplies.Column} (p : MysqlReplies.Eof) (number ps rest),
    cols ≠ [] → cols.length < 2 ^ 24 → (∀ c ∈ cols, c.Fits ∧ c.encode.length < 2 ^ 24) →
    ∃ number', data (lenenc cols.length)
        (packets number (cols.map MysqlReplies.Column.encode ++ p.encode :: ps) ++ rest)
      = recvRows (parse (cols.map colOf)) checked (packets number' ps ++ rest).length []
        (packets number' ps ++ rest)
  typed : ∀ {cols r}, cols ≠ [] → fitsRow cols r → (row r).length < 2 ^ 24 →
    row r ≠ [] ∧ packetType (row r) ≠ .eof
  parsed : ∀ {cols r}, fitsRow cols r → (row r).length < 2 ^ 24 → accepts (cols.map colOf) r →
    parse (cols.map colOf) (row r) = .ok (rowOf (cols.map colOf) r)
  refused : ∀ {cols r}, ¬ accepts cols r → (parse cols (row r)).toOption = none

namespace ReadsSets

variable (h : ReadsSets data parse checked fitsRow row rowOf accepts) {r : MysqlReplies.Result ρ}

include h

/-- The packets of a set, one after the other. -/
theorem set_parts {s : MysqlReplies.ResultSet ρ} (hfits : s.Fits fitsRow)
    (hshort : ∀ p ∈ s.payloads row, p.length < 2 ^ 24 - 1) :
    (∀ c ∈ s.columns, c.Fits ∧ c.encode.length < 2 ^ 24)
      ∧ (∀ r ∈ s.rows, (row r).length < 2 ^ 24 ∧ row r ≠ [] ∧ packetType (row r) ≠ .eof)
      ∧ Whole [s.rowsEnd.elim MysqlReplies.Eof.encode MysqlReplies.Err.encode] := by
  obtain ⟨hne, -, hcols, -, hrows, -⟩ := hfits
  simp only [MysqlReplies.ResultSet.payloads, List.mem_cons, List.mem_append, List.mem_map,
    List.not_mem_nil, or_false] at hshort
  refine ⟨fun c hc => ⟨hcols c hc, ?_⟩, fun r hr => ?_, fun p hp => ?_⟩
  · have := hshort _ (.inr (.inl ⟨c, hc, rfl⟩))
    omega
  · have hlen := hshort _ (.inr (.inr (.inr (.inl ⟨r, hr, rfl⟩))))
    exact ⟨by omega, h.typed hne (hrows r hr) (by omega)⟩
  · obtain rfl := List.mem_singleton.1 hp
    have := hshort _ (.inr (.inr (.inr (.inr rfl))))
    refine ⟨?_, by omega⟩
    cases s.rowsEnd <;> exact List.cons_ne_nil _ _

/-- A result is read to its end. -/
theorem reads (hfits : r.Fits fitsRow) (hshort : ∀ p ∈ r.payloads row, p.length < 2 ^ 24 - 1)
    (hr : ReadableResult accepts r) :
    readFirst data (packets number (r.payloads row) ++ rest)
      = some ((expectedResult rowOf r).map fun res => (res, r.more), rest) := by
  cases r with
  | ok p =>
    have hlen := hshort p.encode (List.mem_singleton_self _)
    exact readFirst_ok hfits (by omega)
  | err p =>
    have hlen := hshort p.encode (List.mem_singleton_self _)
    exact readFirst_err hfits (by omega)
  | set s =>
    obtain ⟨hcount, hleft, haccepts⟩ := hr
    obtain ⟨hcols, hrows, -⟩ := h.set_parts hfits hshort
    obtain ⟨p, hp⟩ := Sum.isLeft_iff.1 hleft
    obtain ⟨hne, -, -, -, hfitsRows, hend⟩ := hfits
    rw [hp] at hend
    obtain ⟨number', hrun⟩ := h.toRows s.columnsEnd (number + 1)
      (s.rows.map row ++ [p.encode]) rest hne hcount hcols
    rw [MysqlReplies.Result.payloads, MysqlReplies.ResultSet.payloads,
      readFirst_set (List.length_pos_iff.2 hne) hcount, hp]
    refine hrun.trans ?_
    rw [recvRows_eof (rowOf (s.columns.map colOf)) (whole_rows hrows) hend
      (fun r hr => ⟨(hrows r hr).2.2, h.parsed (hfitsRows r hr) (hrows r hr).1 (haccepts r hr)⟩) ?_]
    · simp [expectedResult, hp, MysqlReplies.Result.more, Except.map]
    · have hlen := length_le_packets number' (s.rows.map row ++ [p.encode])
      simp only [List.length_append, List.length_map, List.length_singleton] at hlen ⊢
      omega

/-- A result that is not readable leaves too much, or is no result; at the end of a reply it waits
for an end of the rows that does not come. -/
theorem breaks (hfits : r.Fits fitsRow) (hshort : ∀ p ∈ r.payloads row, p.length < 2 ^ 24 - 1)
    (hr : ¬ ReadableResult accepts r) (hrest : r.more = true ∨ rest = []) :
    readFirst data (packets number (r.payloads row) ++ rest) = none
      ∨ ∃ failure left, readFirst data (packets number (r.payloads row) ++ rest)
        = some (.error failure, left) ∧ rest.length < left.length := by
  cases r with
  | ok p => exact absurd trivial hr
  | err p => exact absurd trivial hr
  | set s =>
    obtain ⟨hcols, hrows, hlast⟩ := h.set_parts hfits hshort
    obtain ⟨hne, -⟩ := hfits
    rw [MysqlReplies.Result.payloads, MysqlReplies.ResultSet.payloads]
    rcases Nat.lt_or_ge s.columns.length (2 ^ 24) with hcount | hcount
    · left
      obtain ⟨number', hrun⟩ := h.toRows s.columnsEnd (number + 1)
        (s.rows.map row ++ [s.rowsEnd.elim MysqlReplies.Eof.encode MysqlReplies.Err.encode])
        rest hne hcount hcols
      rw [readFirst_set (List.length_pos_iff.2 hne) hcount]
      refine hrun.trans ?_
      have htypes : ∀ q ∈ s.rows.map row, packetType q ≠ .eof := fun q hq => by
        obtain ⟨r, hr, rfl⟩ := List.mem_map.1 hq
        exact (hrows r hr).2.2
      by_cases hrefused : ∃ r ∈ s.rows, ¬ accepts (s.columns.map colOf) r
      · obtain ⟨r, hr, hnot⟩ := hrefused
        rw [MysqlReplies.packets_append, List.append_assoc]
        exact recvRows_none (whole_rows hrows) htypes
          (.inl ⟨row r, List.mem_map_of_mem hr, h.refused hnot⟩)
      · cases hend : s.rowsEnd with
        | inl p => exact absurd ⟨hcount, by simp [hend], by simpa using hrefused⟩ hr
        | inr p =>
          obtain rfl : rest = [] := by
            simpa [MysqlReplies.Result.more, hend] using hrest
          rw [hend] at hlast
          have htype : packetType p.encode ≠ .eof := by
            rw [show packetType p.encode = .err from packetType_cons ..]
            nofun
          refine recvRows_none ?_ ?_ (.inr rfl)
          · exact List.forall_mem_append.2 ⟨whole_rows hrows, hlast⟩
          · exact List.forall_mem_append.2 ⟨htypes, List.forall_mem_singleton.2 htype⟩
    · right
      obtain ⟨failure, hread⟩ := readFirst_many data number (s.columns.map
        MysqlReplies.Column.encode ++ s.columnsEnd.encode :: (s.rows.map row
          ++ [s.rowsEnd.elim MysqlReplies.Eof.encode MysqlReplies.Err.encode])) rest hcount
      refine ⟨failure, _, hread, ?_⟩
      have hlen := length_le_packets (number + 1) (s.columns.map
        MysqlReplies.Column.encode ++ s.columnsEnd.encode :: (s.rows.map row
          ++ [s.rowsEnd.elim MysqlReplies.Eof.encode MysqlReplies.Err.encode]))
      rw [List.length_append] at hlen ⊢
      simp only [List.length_cons] at hlen
      omega

end ReadsSets

end Sets

end Readings

section Chains

open MysqlReplies (packets Chained)

variable {ρ : Type} {row : ρ → Bytes} {rowOf : List Col → ρ → Fields} {readNext : Bytes → Reading}
  {later : Later} {reply : List (MysqlReplies.Result ρ)} {rest : Bytes} {number : ℕ}

theorem chained_cons {r : MysqlReplies.Result ρ} (h : Chained (r :: reply)) :
    r.more = true ∧ Chained reply ∨ r.more = false ∧ reply = [] := by
  cases reply with
  | nil => exact .inr ⟨h, rfl⟩
  | cons r' reply => exact .inl h

/-- After an error there are no more results. -/
theorem more_of_error {r : MysqlReplies.Result ρ} {failure : Failure}
    (h : expectedResult rowOf r = .error failure) : r.more = false := by
  cases r with
  | ok p => cases h
  | err p => rfl
  | set s =>
    cases hend : s.rowsEnd with
    | inl p => simp [expectedResult, hend] at h
    | inr p => simp [MysqlReplies.Result.more, hend]

theorem payloads_pos (row : ρ → Bytes) (r : MysqlReplies.Result ρ) :
    0 < (r.payloads row).length := by
  cases r <;> exact Nat.succ_pos _

theorem packets_cons (r : MysqlReplies.Result ρ) :
    packets number ((r :: reply).flatMap (MysqlReplies.Result.payloads row)) ++ rest
      = packets number (r.payloads row) ++ (packets (number + (r.payloads row).length)
        (reply.flatMap (MysqlReplies.Result.payloads row)) ++ rest) := by
  rw [List.flatMap_cons, MysqlReplies.packets_append, List.append_assoc]

/-- The results of a reply are read one after the other. -/
def ReadsAll (readNext : Bytes → Reading) (row : ρ → Bytes) (rowOf : List Col → ρ → Fields)
    (r : MysqlReplies.Result ρ) : Prop :=
  ∀ number rest, readNext (packets number (r.payloads row) ++ rest)
    = some ((expectedResult rowOf r).map fun res => (res, r.more), rest)

/-- A result that is not read to its end. -/
def BreaksOff (readNext : Bytes → Reading) (row : ρ → Bytes) (r : MysqlReplies.Result ρ) : Prop :=
  ∀ number rest, r.more = true ∨ rest = [] →
    readNext (packets number (r.payloads row) ++ rest) = none
      ∨ ∃ failure left, readNext (packets number (r.payloads row) ++ rest)
        = some (.error failure, left) ∧ rest.length < left.length

theorem respondLoop_reads {rounds : ℕ} {results : List Result} (hchain : Chained reply)
    (hreads : ∀ r ∈ reply, ReadsAll readNext row rowOf r) (hrounds : reply.length ≤ rounds) :
    respondLoop readNext later rounds results
        (packets number (reply.flatMap (MysqlReplies.Result.payloads row)) ++ rest)
      = some (collect later results (reply.map (expectedResult rowOf)), rest) := by
  induction reply generalizing rounds results number with
  | nil => exact hchain.elim
  | cons r reply ih =>
    obtain ⟨rounds, rfl⟩ := Nat.exists_eq_succ_of_ne_zero (Nat.ne_zero_of_lt hrounds)
    obtain ⟨hread, hreads⟩ := List.forall_mem_cons.1 hreads
    rw [packets_cons, respondLoop, hread, List.map_cons]
    cases hres : expectedResult rowOf r with
    | error failure =>
      rcases chained_cons hchain with ⟨hmore, -⟩ | ⟨-, rfl⟩
      · rw [more_of_error hres] at hmore
        cases hmore
      · rfl
    | ok res =>
      simp only [Except.map, Option.bind_eq_bind, Option.bind_some, collect]
      rcases chained_cons hchain with ⟨hmore, hchain⟩ | ⟨hmore, rfl⟩
      · rw [if_pos hmore]
        exact ih hchain hreads (Nat.le_of_succ_le_succ hrounds)
      · rw [hmore]
        rfl

theorem length_le_reply (row : ρ → Bytes) (number : ℕ) (reply : List (MysqlReplies.Result ρ)) :
    reply.length
      ≤ (packets number (reply.flatMap (MysqlReplies.Result.payloads row))).length := by
  refine le_trans ?_ (length_le_packets _ _)
  induction reply with
  | nil => exact Nat.zero_le _
  | cons r reply ih =>
    have hpos := payloads_pos row r
    rw [List.flatMap_cons, List.length_append, List.length_cons]
    omega

theorem respond_reads (hchain : Chained reply)
    (hreads : ∀ r ∈ reply, ReadsAll readNext row rowOf r) :
    respond readNext later
        (packets number (reply.flatMap (MysqlReplies.Result.payloads row)) ++ rest)
      = some (responseOf later (reply.map (expectedResult rowOf)), rest) := by
  cases reply with
  | nil => exact hchain.elim
  | cons r reply =>
    obtain ⟨hread, hreads⟩ := List.forall_mem_cons.1 hreads
    rw [packets_cons, respond, hread, List.map_cons]
    cases hres : expectedResult rowOf r with
    | error failure =>
      rcases chained_cons hchain with ⟨hmore, -⟩ | ⟨-, rfl⟩
      · rw [more_of_error hres] at hmore
        cases hmore
      · rfl
    | ok res =>
      simp only [Except.map, Option.bind_eq_bind, Option.bind_some]
      rcases chained_cons hchain with ⟨hmore, hchain⟩ | ⟨hmore, rfl⟩
      · obtain ⟨r', reply, rfl⟩ : ∃ r' reply', reply = r' :: reply' :=
          List.exists_cons_of_ne_nil fun h => by subst h; exact hchain
        rw [if_pos hmore, responseOf]
        · refine respondLoop_reads hchain hreads ?_
          have hlen := length_le_reply row (number + (r.payloads row).length)
            (r' :: reply)
          rw [List.length_append]
          omega
        · simp
      · rw [hmore]
        rfl

/-- The first result of a reply with one that breaks off: it does, or the others have one. -/
theorem read_breaks {r : MysqlReplies.Result ρ} (hchain : Chained (r :: reply))
    (hreads : ∀ q ∈ r :: reply, ReadsAll readNext row rowOf q ∨ BreaksOff readNext row q)
    (hbreaks : ∃ q ∈ r :: reply, ¬ ReadsAll readNext row rowOf q) :
    let out := readNext (packets number (r.payloads row)
      ++ (packets (number + (r.payloads row).length)
        (reply.flatMap (MysqlReplies.Result.payloads row)) ++ []))
    (out = none ∨ ∃ failure left, out = some (.error failure, left) ∧ left ≠ [])
      ∨ ∃ res, out = some (.ok (res, true), packets (number + (r.payloads row).length)
          (reply.flatMap (MysqlReplies.Result.payloads row)) ++ [])
        ∧ Chained reply ∧ ∃ q ∈ reply, ¬ ReadsAll readNext row rowOf q := by
  intro out
  by_cases hread : ReadsAll readNext row rowOf r
  · right
    obtain ⟨q, hq, hbreak⟩ := hbreaks
    have hmem : q ∈ reply := (List.mem_cons.1 hq).resolve_left fun h => hbreak (h ▸ hread)
    rcases chained_cons hchain with ⟨hmore, hchain⟩ | ⟨-, rfl⟩
    · cases hres : expectedResult rowOf r with
      | error failure =>
        rw [more_of_error hres] at hmore
        cases hmore
      | ok res =>
        refine ⟨res, ?_, hchain, q, hmem, hbreak⟩
        rw [show out = _ from hread _ _, hres, hmore]
        rfl
    · cases hmem
  · left
    have hoff := (hreads r List.mem_cons_self).resolve_left hread
    refine (hoff _ _ ?_).imp_right ?_
    · rcases chained_cons hchain with ⟨hmore, -⟩ | ⟨-, rfl⟩
      · exact .inl hmore
      · exact .inr rfl
    · rintro ⟨failure, left, hout, hlen⟩
      exact ⟨failure, left, hout, List.ne_nil_of_length_pos (by omega)⟩

theorem respondLoop_breaks {rounds : ℕ} {results : List Result} (hchain : Chained reply)
    (hreads : ∀ r ∈ reply, ReadsAll readNext row rowOf r ∨ BreaksOff readNext row r)
    (hbreaks : ∃ r ∈ reply, ¬ ReadsAll readNext row rowOf r) (res : Response) :
    respondLoop readNext later rounds results
        (packets number (reply.flatMap (MysqlReplies.Result.payloads row)) ++ [])
      ≠ some (res, []) := by
  induction reply generalizing rounds results number with
  | nil => exact hchain.elim
  | cons r reply ih =>
    cases rounds with
    | zero => nofun
    | succ rounds =>
      rw [packets_cons, respondLoop]
      rcases read_breaks hchain hreads hbreaks with (hnone | ⟨failure, left, hread, hleft⟩)
        | ⟨res', hread, hchain, hbreaks⟩
      · rw [hnone]
        nofun
      · rw [hread]
        simp [hleft]
      · rw [hread]
        exact ih hchain (fun r hr => hreads r (List.mem_cons_of_mem _ hr)) hbreaks

/-- A reply with a result that breaks off is not read to its end. -/
theorem respond_breaks (rowOf : List Col → ρ → Fields) (hchain : Chained reply)
    (hreads : ∀ r ∈ reply, ReadsAll readNext row rowOf r ∨ BreaksOff readNext row r)
    (hbreaks : ∃ r ∈ reply, ¬ ReadsAll readNext row rowOf r) (res : Response) :
    respond readNext later
        (packets number (reply.flatMap (MysqlReplies.Result.payloads row)) ++ [])
      ≠ some (res, []) := by
  cases reply with
  | nil => exact hchain.elim
  | cons r reply =>
    rw [packets_cons, respond]
    rcases read_breaks hchain hreads hbreaks with (hnone | ⟨failure, left, hread, hleft⟩)
      | ⟨res', hread, hchain, hbreaks⟩
    · rw [hnone]
      nofun
    · rw [hread]
      simp [hleft]
    · rw [hread]
      exact respondLoop_breaks hchain (fun r hr => hreads r (List.mem_cons_of_mem _ hr)) hbreaks res

end Chains

section Readers

open MysqlReplies (packets WellFormed)

variable {str2d : Bytes → Option UInt64} {compact : Bool}

theorem readsSets_text : ReadsSets (readTextSet str2d compact)
    (fun cols packet => parseRowDataPacket str2d packet cols compact) true FitsTextRow
    MysqlReplies.encodeTextRow (textRow str2d compact 0) (fun _ _ => True) where
  toRows := by
    intro cols p number ps rest hne hcount hcols
    have hat : At (lenenc cols.length) 1 (lenenc cols.length) := ⟨[], [], by simp, rfl⟩
    have hnat : (Int64.ofNat cols.length).toNatClampNeg = cols.length := by
      rw [Int64.toNatClampNeg_ofNat_of_lt (by omega)]
    have hsize : p.encode ≠ [] ∧ p.encode.length < 2 ^ 24 := by simp [MysqlReplies.Eof.encode]
    have htype : packetType p.encode = .eof := packetType_cons ..
    refine ⟨number + cols.length + 1, ?_⟩
    rw [readTextSet, fromLengthCodedBin_at hat (by omega)]
    simp only [Except.toOption, Option.bind_eq_bind, Option.bind_some, hnat]
    rw [recvFields_encode hcols]
    simp only [Option.bind_some]
    rw [recvPacket_packets hsize]
    simp [htype]
  typed := by
    intro cols r hne hfits hlen
    have hcells : r ≠ [] := fun h => hne (List.length_eq_zero_iff.1 (by rw [← hfits, h]; rfl))
    have htype := packetType_textRow hcells hlen
    refine ⟨?_, htype⟩
    obtain ⟨cell, cells, rfl⟩ := List.exists_cons_of_ne_nil hcells
    cases cell with
    | none => exact List.cons_ne_nil _ _
    | some t =>
      rw [MysqlReplies.encodeTextRow, List.flatMap_cons, MysqlReplies.encodeCell, lenencStr]
      simp [(lenenc_whole t.length).1]
  parsed := by
    intro cols r hfits hlen _
    refine textColumns_left ⟨[], rfl, rfl⟩ ?_ (by omega)
    rw [List.length_map]
    exact hfits
  refused := fun h => absurd trivial h

theorem readsSets_binary : ReadsSets (readBinarySet compact)
    (fun cols packet => parseRowDataBinary packet cols compact) false (fun _ _ => True)
    MysqlReplies.encodeBinaryRow (binaryRow compact) (Accepted compact) where
  toRows := by
    intro cols p number ps rest hne hcount hcols
    refine ⟨number + cols.length + 1, ?_⟩
    have hlen := length_le_packets number
      (cols.map MysqlReplies.Column.encode ++ p.encode :: ps)
    rw [List.length_append, List.length_map, List.length_cons] at hlen
    rw [readBinarySet, recvCols_encode hcols (by rw [List.length_append]; omega)]
    simp [hne]
  typed := fun _ _ _ => ⟨List.cons_ne_nil _ _, packetType_of_lt (by decide)⟩
  parsed := by
    intro cols r _ _ haccepts
    unfold binaryRow
    unfold Accepted at haccepts
    cases hparse : parseRowDataBinary (MysqlReplies.encodeBinaryRow r) (cols.map colOf) compact with
    | error e => simp [hparse, Except.toOption] at haccepts
    | ok row => rfl
  refused := fun h => by simpa [Accepted] using h

/-- Each result is read to its end, or breaks off. -/
theorem reads_or_breaks {ρ : Type} {data : Bytes → Bytes → Reading}
    {parse : List Col → Bytes → Except Error Fields} {checked : Bool}
    {fitsRow : List MysqlReplies.Column → ρ → Prop} {row : ρ → Bytes}
    {rowOf : List Col → ρ → Fields} {accepts : List Col → ρ → Prop}
    (h : ReadsSets data parse checked fitsRow row rowOf accepts)
    {reply : List (MysqlReplies.Result ρ)} (hwell : WellFormed fitsRow row reply)
    {r : MysqlReplies.Result ρ} (hr : r ∈ reply) :
    (ReadableResult accepts r ∧ ReadsAll (readFirst data) row rowOf r)
      ∨ (¬ ReadableResult accepts r ∧ BreaksOff (readFirst data) row r) := by
  by_cases hread : ReadableResult accepts r
  · exact .inl ⟨hread, fun _ _ => h.reads (hwell.fits r hr) (hwell.short r hr) hread⟩
  · exact .inr ⟨hread, fun _ _ => h.breaks (hwell.fits r hr) (hwell.short r hr) hread⟩

theorem not_readsAll {ρ : Type} {readNext : Bytes → Reading} {row : ρ → Bytes}
    {rowOf : List Col → ρ → Fields} {r : MysqlReplies.Result ρ}
    (h : BreaksOff readNext row r) : ¬ ReadsAll readNext row rowOf r := by
  intro hread
  rcases h 0 [] (.inr rfl) with hnone | ⟨failure, left, hfail, hlen⟩
  · rw [hread 0 []] at hnone
    cases hnone
  · rw [hread 0 []] at hfail
    obtain ⟨-, rfl⟩ := Prod.mk.inj (Option.some.inj hfail)
    exact absurd hlen (Nat.lt_irrefl 0)

/-- A response is read from the bytes of a reply, and nothing of what follows, if and only if each
result is readable; and it is the one that the results make. -/
theorem respond_iff {ρ : Type} {data : Bytes → Bytes → Reading}
    {parse : List Col → Bytes → Except Error Fields} {checked : Bool}
    {fitsRow : List MysqlReplies.Column → ρ → Prop} {row : ρ → Bytes}
    {rowOf : List Col → ρ → Fields} {accepts : List Col → ρ → Prop}
    (h : ReadsSets data parse checked fitsRow row rowOf accepts) (later : Later)
    {reply : List (MysqlReplies.Result ρ)} (hwell : WellFormed fitsRow row reply)
    (response : Response) :
    (∀ rest, respond (readFirst data) later (MysqlReplies.encodeReply row reply ++ rest)
        = some (response, rest))
      ↔ (∀ r ∈ reply, ReadableResult accepts r)
        ∧ response = responseOf later (reply.map (expectedResult rowOf)) := by
  by_cases hreads : ∀ r ∈ reply, ReadableResult accepts r
  · have hrespond (rest : Bytes) : respond (readFirst data) later
        (MysqlReplies.encodeReply row reply ++ rest)
        = some (responseOf later (reply.map (expectedResult rowOf)), rest) :=
      respond_reads hwell.chained fun r hr =>
        (reads_or_breaks h hwell hr).elim And.right fun hbreak => absurd (hreads r hr) hbreak.1
    simp only [hrespond, Option.some.injEq, Prod.mk.injEq, and_true, forall_const]
    rw [and_iff_right hreads, eq_comm]
  · refine iff_of_false (fun hall => ?_) fun hall => hreads hall.1
    obtain ⟨r, hr, hnot⟩ : ∃ r ∈ reply, ¬ ReadableResult accepts r := by simpa using hreads
    refine respond_breaks rowOf hwell.chained (fun r hr =>
      (reads_or_breaks h hwell hr).imp And.right And.right) ⟨r, hr, not_readsAll ?_⟩
      response (hall [])
    exact ((reads_or_breaks h hwell hr).resolve_left fun hread => hnot hread.1).2

end Readers

section Errors

variable {ρ : Type} {rowOf : List Col → ρ → Fields} {accepts : List Col → ρ → Prop}
  {reply : List (MysqlReplies.Result ρ)}

/-- Keeping only the text of later errors does no harm if there are none. -/
theorem collect_errOnly {results : List Result}
    (hreads : ∀ r ∈ reply, ReadableResult accepts r) :
    collect .whole results (reply.map (expectedResult rowOf))
        = collect .errOnly results (reply.map (expectedResult rowOf))
      ↔ ∀ r ∈ reply, ∀ p, r ≠ .err p := by
  induction reply generalizing results with
  | nil => simp [collect]
  | cons r reply ih =>
    obtain ⟨hread, htail⟩ := List.forall_mem_cons.1 hreads
    cases r with
    | ok p => simpa [collect, expectedResult] using ih htail
    | err p => simp [collect, expectedResult, Later.keep, failureOf]
    | set s =>
      obtain ⟨p, hp⟩ := Sum.isLeft_iff.1 hread.2.1
      simpa [collect, expectedResult, hp] using ih htail

theorem responseOf_errOnly (hchain : MysqlReplies.Chained reply)
    (hreads : ∀ r ∈ reply, ReadableResult accepts r) :
    responseOf .whole (reply.map (expectedResult rowOf))
        = responseOf .errOnly (reply.map (expectedResult rowOf))
      ↔ NoLaterError reply := by
  cases reply with
  | nil => exact hchain.elim
  | cons r reply =>
    rw [List.map_cons, NoLaterError, List.tail_cons]
    cases hres : expectedResult rowOf r with
    | error failure =>
      rcases chained_cons hchain with ⟨hmore, -⟩ | ⟨-, rfl⟩
      · rw [more_of_error hres] at hmore
        cases hmore
      · simp [responseOf]
    | ok res =>
      cases reply with
      | nil => simp [responseOf]
      | cons r' reply =>
        exact collect_errOnly fun q hq => hreads q (List.mem_cons_of_mem _ hq)

end Errors

section InStep

open MysqlReplies (WellFormed encodeTextRow encodeBinaryRow)

def intColumn : MysqlReplies.Column :=
  ⟨[], [], [], ascii "n", [], 33, 11, 0x03, 0, 0⟩

/-- Two rows, and an OK packet after them. -/
def twoResults : List (MysqlReplies.Result (List (Option Bytes))) :=
  [.set ⟨[intColumn], ⟨0, 2⟩, [[some (ascii "42")], [none]], .inl ⟨0, 10⟩⟩, .ok ⟨1, 2, 2, 0, []⟩]

def oneSet : List (MysqlReplies.Result Bytes) :=
  [.set ⟨[intColumn], ⟨0, 2⟩, [[0, 7, 0, 0, 0]], .inl ⟨0, 2⟩⟩]

/-- A query that was killed while its rows were sent. -/
def killed : List (MysqlReplies.Result (List (Option Bytes))) :=
  [.set ⟨[intColumn], ⟨0, 2⟩, [], .inr ⟨1317, ascii "70100", ascii "interrupted"⟩⟩]

end InStep

end Mysql

end SkynetCpp
