import SkynetCpp.Proofs.BsonDecode
import SkynetCpp.Proofs.BsonEncode
import SkynetCpp.Proofs.LuaString

/-!
# When a BSON document round-trips

What the decoder returns is clean: its keys end at the first NUL, and it writes the digits of object
ids itself. So a document with another key or another object id does not come back. From the bytes
of a clean document it reads each value and goes on where the value ends, by induction on the value
(`reads`); so such a document comes back if the encoder has written its bytes.
-/

namespace SkynetCpp

open Lib LuaString

namespace Bson

variable {env : Env} {data : Bytes} {fields : Fields} {n : ℕ}

section Clean

theorem find_zero {s : Bytes} {i : ℕ} (h : Socket.find [0] s = some i) :
    i < s.length ∧ 0 ∉ s.take i := by
  induction s generalizing i with
  | nil => simp [Socket.find] at h
  | cons b s ih =>
    rw [Socket.find] at h
    split_ifs at h with hb
    · cases h
      simp
    · obtain ⟨j, hj, rfl⟩ := Option.map_eq_some_iff.1 h
      obtain ⟨hlt, hnot⟩ := ih hj
      rw [List.take_succ_cons, List.mem_cons, not_or]
      refine ⟨Nat.succ_lt_succ hlt, fun h0 => hb ?_, hnot⟩
      subst h0
      simp [List.isPrefixOf]

/-- A key ends at the first NUL. -/
theorem zero_not_mem_key {pos keyEnd : ℤ} {key : Bytes}
    (h : decodeCstring data pos = some (key, keyEnd)) : 0 ∉ key := by
  obtain ⟨e, he, heq⟩ := Option.map_eq_some_iff.1 h
  cases heq
  simp only [find] at he
  split_ifs at he
  obtain ⟨i, hi, rfl⟩ := Option.map_eq_some_iff.1 he
  obtain ⟨hlt, hnot⟩ := find_zero hi
  have hfirst : 1 ≤ posrelatI pos data.length := by
    unfold posrelatI
    split_ifs <;> omega
  rw [List.length_drop] at hlt
  have hcast : ((i + posrelatI pos data.length : ℕ) : ℤ) - 1
      = (i + posrelatI pos data.length - 1 : ℕ) := by omega
  have hlast : getendpos ((i + posrelatI pos data.length : ℕ) - 1) data.length + 1
      - posrelatI pos data.length = i := by
    rw [hcast, getendpos_of_le (by omega)]
    omega
  simp only [sub, hlast]
  exact hnot

theorem slot_eq_string {isArray : Bool} {key s : Bytes}
    (h : slot env isArray key = some (.string s)) : s = key := by
  unfold slot at h
  split_ifs at h
  · split at h
    · cases h
    · simp only [] at h
      split_ifs at h
      have h := Option.some.inj h
      unfold SkynetCpp.Value.normKey at h
      simp only [] at h
      split at h <;> cases h
    · cases h
  · cases h
    rfl

/-- The fields of a table that is clean throughout. -/
def CleanFields (fields : Fields) : Prop :=
  ∀ p ∈ fields, (∀ s, p.1 = .string s → 0 ∉ s) ∧ Throughout Clean p.2

theorem CleanFields.table (h : CleanFields fields) (n : ℕ) :
    Throughout Clean (.table fields n) :=
  .table (fun p hp => (h p hp).1) fun p hp => (h p hp).2

theorem CleanFields.put (h : CleanFields fields) {key : SkynetCpp.Value} {v : Value}
    (hkey : ∀ s, key = .string s → 0 ∉ s) (hv : Throughout Clean v) :
    CleanFields (put fields key v) := by
  intro p hp
  rcases List.mem_append.1 hp with hp | hp
  · exact h p (List.mem_filter.1 hp).1
  · rw [List.mem_singleton.1 hp]
    exact ⟨hkey, hv⟩

theorem clean_decodeValue {table : Bool → ℤ → Outcome (Value × ℤ)}
    (h : ∀ a p v q, table a p = .done (v, q) → Throughout Clean v) {type : Option UInt8}
    {pos q : ℤ} {v : Value} (hv : decodeValue data table type pos = .done (v, q)) :
    Throughout Clean v := by
  unfold decodeValue at hv
  split at hv
  case h_3 => exact h _ _ _ _ hv
  case h_4 => exact h _ _ _ _ hv
  case h_6 =>
    obtain ⟨o, ho, hdone⟩ := Outcome.bind_eq_done.1 hv
    cases hdone
    have hhex := objectid_eq_some.1 (Outcome.of_eq_done.1 ho)
    have hbytes := o.made.2
    rw [hhex, charsOfHex_hexOfBytes] at hbytes
    refine .scalar (by simp) (?_ : o.hex = hexOfBytes o.bytes)
    rw [hhex, ← Option.some.inj hbytes]
  case h_1 | h_2 | h_5 | h_8 | h_10 | h_11 =>
    obtain ⟨x, -, hdone⟩ := Outcome.bind_eq_done.1 hv
    cases hdone
    exact .scalar (by simp) trivial
  case h_7 | h_9 | h_12 | h_13 =>
    cases hv
    exact .scalar (by simp) trivial
  case h_14 => cases hv

/-- What the decoder returns is clean. -/
theorem clean_decodeTable {rounds depth : ℕ} {isArray : Bool} {pos q : ℤ} {v : Value}
    (h : decodeTable env data rounds depth isArray pos = .done (v, q)) : Throughout Clean v := by
  induction depth generalizing isArray pos v q with
  | zero => cases h
  | succ depth ih =>
    obtain ⟨len, -, h⟩ := Outcome.bind_eq_done.1 h
    obtain ⟨s, hs, h⟩ := Outcome.bind_eq_done.1 h
    cases h
    have hclean : CleanFields s.2 := by
      refine whileLoop_invariant (I := fun s => CleanFields s.2) (fun s s' hI hround => ?_) ?_ hs
      swap
      · exact fun p hp => nomatch hp
      obtain ⟨⟨key, v, next⟩, helement, hround⟩ := Outcome.bind_eq_done.1 hround
      obtain ⟨k, hk, hround⟩ := Outcome.bind_eq_done.1 hround
      cases hround
      obtain ⟨⟨key', keyEnd⟩, hkey, helement⟩ := Outcome.bind_eq_done.1 helement
      obtain ⟨⟨v', next'⟩, hv, helement⟩ := Outcome.bind_eq_done.1 helement
      cases helement
      refine hI.put (fun text htext => ?_) (clean_decodeValue (fun _ _ _ _ => ih) hv)
      subst htext
      rw [slot_eq_string (Outcome.of_eq_done.1 hk)]
      exact zero_not_mem_key (Outcome.of_eq_done.1 hkey)
    exact hclean.table _

theorem equalFields_iff {fields' : Fields} :
    EqualFields fields fields' ↔
      ∀ p ∈ fields, ∃ v', lookup fields' p.1 = some v' ∧ Equals p.2 v' := by
  induction fields with
  | nil => simp [EqualFields]
  | cons p fields ih => simp only [EqualFields, ih, List.forall_mem_cons]

/-- A document is clean that is equal to what is. -/
theorem Throughout.of_equals {v v' : Value} (h : Equals v v') (hc : Throughout Clean v') :
    Throughout Clean v := by
  induction v using Value.induction generalizing v' with
  | scalar v hs =>
    refine .scalar hs ?_
    cases v with
    | table fields n => exact (hs _ _ rfl).elim
    | objectid o => exact (show Value.objectid o = v' from h) ▸ hc.head
    | _ => trivial
  | table fields n ih =>
    cases v' with
    | table fields' n' =>
      have hall := equalFields_iff.1 h.1
      refine .table (fun p hp s hkey => ?_) fun p hp => ?_
      · obtain ⟨v', hv', -⟩ := hall p hp
        exact hc.head _ (mem_of_lookup hv') s hkey
      · obtain ⟨v', hv', heq⟩ := hall p hp
        exact ih p hp heq (hc.mem (mem_of_lookup hv'))
    | _ => exact h.elim

end Clean

section At

variable {pos : ℤ}

theorem decodeCstring_at {key : Bytes} (h : At data pos (key ++ [0])) (hkey : 0 ∉ key) :
    decodeCstring data pos = some (key, pos + key.length + 1) := by
  have hsub := h.left
  obtain ⟨pre, post, rfl, rfl⟩ := h
  have hfind := find_from pre ((key ++ [0]) ++ post) [0]
  rw [List.append_assoc, List.singleton_append,
    find_byte (fun b hb (h0 : b = 0) => hkey (h0 ▸ hb)), Option.map_some] at hfind
  rw [List.append_assoc, List.singleton_append] at hsub ⊢
  rw [decodeCstring, hfind, Option.map_some, hsub.sub (by push_cast; omega)]
  push_cast
  congr 2
  omega

end At

section Slots

/-- The key of an element of an array. -/
theorem slot_numeral {i : ℕ} (hi : i + 1 < 2 ^ 63) :
    slot env true (numeral i) = some (.integer (Int64.ofNat (i + 1))) := by
  have htext : tonumber env.str2d (numeral i) = .integer (Int64.ofInt i) :=
    tonumber_intNumeral env.str2d (n := (i : ℤ)) (by omega) (by omega)
  rw [slot, if_pos rfl, htext]
  simp only []
  rw [Int64.ofInt_eq_ofNat, Int64.ofNat_add]
  rfl

theorem slot_document (env : Env) (key : Bytes) : slot env false key = some (.string key) := rfl

/-- Each entry is stored under the key it has in the document. -/
structure Slots (env : Env) (fields : Fields) (n : ℕ) : Prop where
  slot : ∀ e ∈ entries env fields n, 0 ∉ e.1 ∧ ∃ k, slot env (decide (0 < n)) e.1 = some k ∧
    lookup fields k = some e.2 ∧ SkynetCpp.Value.keyEq k k = true
  entry : ∀ p ∈ fields, ∃ e ∈ entries env fields n,
    Bson.slot env (decide (0 < n)) e.1 = some p.1 ∧ e.2 = p.2
  nodup : ((entries env fields n).map fun e => Bson.slot env (decide (0 < n)) e.1).Nodup

theorem IsDocument.slots (hdoc : IsDocument (.table fields n)) (hc : Clean (.table fields n)) :
    Slots env fields n := by
  cases hdoc with
  | scalar _ hs => exact (hs _ _ rfl).elim
  | document hkeys hnd =>
    have hslot : ∀ p ∈ fields, Bson.slot env (decide (0 < 0)) (tostring env p.1) = some p.1 := by
      intro p hp
      obtain ⟨s, hs⟩ := hkeys p hp
      rw [hs]
      rfl
    refine ⟨fun e he => ?_, fun p hp => ?_, ?_⟩
    · obtain ⟨p, hp, rfl⟩ := List.mem_map.1 he
      obtain ⟨s, hs⟩ := hkeys p hp
      have hkeq : SkynetCpp.Value.keyEq p.1 p.1 = true := by
        rw [hs]
        exact keyEq_string.2 rfl
      refine ⟨?_, p.1, hslot p hp, lookup_of_mem hnd hp hkeq, hkeq⟩
      simp only [hs, tostring]
      exact hc p hp s hs
    · exact ⟨_, List.mem_map_of_mem hp, hslot p hp, rfl⟩
    · rw [entries, if_neg (by decide), List.map_map]
      have hmap : fields.map ((fun e => Bson.slot env (decide (0 < 0)) e.1) ∘
          fun p => (tostring env p.1, p.2)) = (fields.map Prod.fst).map some := by
        rw [List.map_map]
        exact List.map_congr_left hslot
      rw [hmap]
      exact hnd.map (Option.some_injective _)
  | array hlt hperm =>
    obtain ⟨hall, honly⟩ := lookup_array hlt hperm
    rcases Nat.eq_zero_or_pos fields.length with h0 | h0
    · obtain rfl := List.length_eq_zero_iff.1 h0
      exact ⟨by simp [entries], by simp, .nil⟩
    have hentry (i : ℕ) (hi : i < fields.length) : Bson.slot env (decide (0 < fields.length))
        (numeral i) = some (.integer (Int64.ofNat (i + 1))) := by
      rw [decide_eq_true h0]
      exact slot_numeral (by omega)
    have hentries : entries env fields fields.length = (List.range fields.length).map fun i =>
        (numeral i, (lookup fields (.integer (Int64.ofNat (i + 1)))).getD .nil) := if_pos h0
    refine ⟨fun e he => ?_, fun p hp => ?_, ?_⟩
    · rw [hentries] at he
      obtain ⟨i, hi, rfl⟩ := List.mem_map.1 he
      have hi := List.mem_range.1 hi
      obtain ⟨v, hv⟩ := hall i hi
      refine ⟨fun hmem => ?_, _, hentry i hi, by rw [hv]; rfl, keyEq_integer _⟩
      exact ne_zero_of_mem_intNumeral (n := (i : ℤ)) hmem rfl
    · obtain ⟨i, hi, hkey, hv⟩ := honly p hp
      refine ⟨_, hentries ▸ List.mem_map_of_mem (List.mem_range.2 hi), ?_, by rw [hv]; rfl⟩
      rw [← hkey]
      exact hentry i hi
    · rw [hentries, List.map_map]
      have hmap : (List.range fields.length).map
          ((fun e : Bytes × Value => Bson.slot env (decide (0 < fields.length)) e.1) ∘ fun i =>
            (numeral i, (lookup fields (.integer (Int64.ofNat (i + 1)))).getD .nil))
          = ((List.range fields.length).map fun i =>
              SkynetCpp.Value.integer (Int64.ofNat (i + 1))).map some := by
        rw [List.map_map]
        exact List.map_congr_left fun i hi => hentry i (List.mem_range.1 hi)
      rw [hmap]
      exact (nodup_arrayKeys hlt).map (Option.some_injective _)

end Slots

section Reading

/-- From the bytes of `v` at `pos` a value is decoded that is equal to `v`, once there are rounds
and stack enough, and then the decoder is behind them. -/
def ReadsAt (env : Env) (data : Bytes) (v : Value) (pos : ℤ) : Prop :=
  ∃ v', Equals v v' ∧ ∃ N, ∀ rounds ≥ N, ∀ depth ≥ N,
    decodeValue data (decodeTable env data rounds depth) (some (layout env v).1) pos
      = .done (v', pos + (layout env v).2.length)

theorem decodeValue_integer {pos : ℤ} {m : Int64} (h : At data pos (integerPart m.toInt).2)
    (table : Bool → ℤ → Outcome (Value × ℤ)) :
    decodeValue data table (some (integerPart m.toInt).1) pos
      = .done (.integer m, pos + (integerPart m.toInt).2.length) := by
  unfold integerPart at h ⊢
  split_ifs at h ⊢ with hm
  · simp [decodeValue, decodeInt, At.unpackInt (k := 4) h (by omega) (by omega), Outcome.of]
  · simp [decodeValue, decodeInt, At.unpackInt64 h, Outcome.of]

theorem readsAt_scalar {v : Value} (hs : ∀ fields n, v ≠ .table fields n) (hnil : v ≠ .nil)
    (hc : Clean v) (hlen : (layout env v).2.length < 2 ^ 31) {pos : ℤ}
    (h : At data pos (layout env v).2) : ReadsAt env data v pos := by
  have done (v' : Value) (heq : Equals v v') (hv : ∀ table,
      decodeValue data table (some (layout env v).1) pos
        = .done (v', pos + (layout env v).2.length)) : ReadsAt env data v pos :=
    ⟨v', heq, 0, fun _ _ _ _ => hv _⟩
  cases v with
  | table fields n => exact (hs _ _ rfl).elim
  | nil => exact (hnil rfl).elim
  | integer m => exact done _ rfl (decodeValue_integer h)
  | float bits =>
    cases hf : SkynetCpp.Value.floatToInteger bits with
    | some m =>
      have hpart : layout env (.float bits) = integerPart m.toInt := by rw [layout, hf]
      rw [hpart] at h
      exact done (.integer m) (by rw [Equals, hf]) fun _ => by
        rw [hpart]
        exact decodeValue_integer h _
    | none =>
      have hpart : layout env (.float bits) = (0x01, le 8 bits.toNat) := by rw [layout, hf]
      rw [hpart] at h
      have hbits : UInt64.ofNat (ofLe (le 8 bits.toNat)) = bits := by
        rw [ofLe_le_of_lt (by exact bits.toNat_lt), UInt64.ofNat_toNat]
      exact done (.float bits) (by rw [Equals, hf]) fun _ => by
        simp [hpart, decodeValue, h.unpackBytes (length_le 8 _), Outcome.of, hbits]
  | string s =>
    rw [layout] at h hlen
    have hsize : s.length + 1 < 2 ^ 31 := by
      simp at hlen
      omega
    have htext := h.left.right
    rw [length_le] at htext
    refine done (.string s) rfl fun _ => ?_
    have hsub : sub data (pos + 4) (pos + 4 + (s.length + 1 : ℕ) - 2) = s :=
      htext.sub (by push_cast; omega)
    simp only [decodeValue, layout, h.left.left.unpackLength hsize, Outcome.of, Outcome.done_bind,
      hsub, Outcome.pure_eq]
    congr 2
    simp
    omega
  | boolean b =>
    refine done (.boolean b) rfl fun _ => ?_
    cases b <;> simp [decodeValue, layout, At.byte h]
  | int64 m =>
    refine done (.integer m) rfl fun _ => ?_
    simp [decodeValue, decodeInt, layout, At.unpackInt64 h, Outcome.of]
  | objectid o =>
    have hhex : o.hex = hexOfBytes o.bytes := hc
    have hbytes : o.bytes.length = 12 := (objectid_hexOfBytes _).1 ⟨o, objectid_eq_some.2 hhex⟩
    rw [layout] at h
    have hsub : sub data pos (pos + 11) = o.bytes := h.sub (by rw [hbytes]; omega)
    have hid : objectid (hexOfBytes o.bytes) = some o := objectid_eq_some.2 hhex
    refine done (.objectid o) rfl fun _ => ?_
    simp [decodeValue, layout, hsub, hid, Outcome.of, hbytes]
  | null => exact done _ rfl fun _ => by simp [decodeValue, layout]
  | minkey => exact done _ rfl fun _ => by simp [decodeValue, layout]
  | maxkey => exact done _ rfl fun _ => by simp [decodeValue, layout]

theorem entry_at {e : Bytes × Value} {pos : ℤ} (h : At data pos (entryBytes env e)) :
    LuaString.byte data pos = some (layout env e.2).1 ∧ At data (pos + 1) (e.1 ++ [0]) ∧
      At data (pos + 1 + e.1.length + 1) (layout env e.2).2 := by
  have h : At data pos ([(layout env e.2).1] ++ ((e.1 ++ [0]) ++ (layout env e.2).2)) := by
    simpa [entryBytes, element] using h
  refine ⟨h.byte, h.right.left, ?_⟩
  have hv := h.right.right
  simp only [List.length_append, List.length_singleton, Nat.cast_add, Nat.cast_one] at hv
  rwa [← add_assoc] at hv

theorem decodeElement_entry {e : Bytes × Value} {pos : ℤ} (h : At data pos (entryBytes env e))
    (hkey : 0 ∉ e.1) {table : Bool → ℤ → Outcome (Value × ℤ)} {v : Value}
    (hv : decodeValue data table (some (layout env e.2).1) (pos + 1 + e.1.length + 1)
      = .done (v, pos + 1 + e.1.length + 1 + (layout env e.2).2.length)) :
    decodeElement data table pos = .done (e.1, v, pos + (entryBytes env e).length) := by
  obtain ⟨hbyte, hcstring, -⟩ := entry_at h
  rw [decodeElement, decodeCstring_at hcstring hkey, hbyte]
  simp only [Outcome.of, Outcome.done_bind, hv, Outcome.pure_eq]
  congr 3
  rw [entryBytes, length_element]
  push_cast
  omega

theorem put_of_new {key : SkynetCpp.Value} (h : ∀ p ∈ fields, ¬ SkynetCpp.Value.keyEq p.1 key)
    (v : Value) : put fields key v = fields ++ [(key, v)] := by
  rw [put, List.filter_eq_self.2 fun p hp => by simpa using h p hp]

theorem exists_of_forall₂ {α β : Type} {R : α → β → Prop} {as : List α} {bs : List β}
    (h : List.Forall₂ R as bs) : ∀ b ∈ bs, ∃ a ∈ as, R a b := by
  induction h with
  | nil => nofun
  | cons hR _ ih =>
    refine List.forall_mem_cons.2 ⟨⟨_, List.mem_cons_self, hR⟩, fun b hb => ?_⟩
    obtain ⟨a, ha, hab⟩ := ih b hb
    exact ⟨a, List.mem_cons_of_mem _ ha, hab⟩

/-- The loop reads one entry after another, to the end of the last. -/
theorem loop_reads {isArray : Bool} {last : ℤ} {es : List (Bytes × Value)}
    (hslot : ∀ e ∈ es, 0 ∉ e.1 ∧ ∃ k, slot env isArray e.1 = some k)
    (hnd : (es.map fun e => slot env isArray e.1).Nodup)
    (hreads : ∀ e ∈ es, ∀ pos, At data pos (layout env e.2).2 → ReadsAt env data e.2 pos)
    {pos : ℤ} (h : At data pos (es.flatMap (entryBytes env)))
    (hlast : pos + (es.flatMap (entryBytes env)).length = last) :
    ∃ read : Fields,
      List.Forall₂ (fun e f => slot env isArray e.1 = some f.1 ∧ Equals e.2 f.2) es read ∧
      ∃ N, ∀ m ≥ N, ∀ rounds ≥ N, ∀ depth ≥ N, ∀ acc : Fields,
        (∀ p ∈ acc, ∀ f ∈ read, ¬ SkynetCpp.Value.keyEq p.1 f.1) →
        whileLoop (· < last) (decodeRound env data (decodeTable env data rounds depth) isArray)
          m (pos, acc) = .done (last, acc ++ read) := by
  induction es generalizing pos with
  | nil =>
    have hpos : pos = last := by simpa using hlast
    refine ⟨[], .nil, 0, fun m _ _ _ _ _ acc _ => ?_⟩
    rw [hpos, List.append_nil]
    exact @whileLoop_of_not _ _ (· < last) last _ _ (lt_irrefl last) m acc
  | cons e es ih =>
    obtain ⟨⟨hkey, k, hk⟩, hslots⟩ := List.forall_mem_cons.1 hslot
    obtain ⟨hreads, hrest⟩ := List.forall_mem_cons.1 hreads
    rw [List.map_cons, List.nodup_cons] at hnd
    rw [List.flatMap_cons] at h hlast
    rw [List.length_append] at hlast
    obtain ⟨v, heq, N₁, hN₁⟩ := hreads _ (entry_at h.left).2.2
    obtain ⟨read, hread, N₂, hN₂⟩ := ih hslots hnd.2 hrest h.right (by push_cast at hlast; omega)
    refine ⟨(k, v) :: read, .cons ⟨hk, heq⟩ hread, max N₁ N₂ + 1, ?_⟩
    intro m hm rounds hr depth hd acc hacc
    obtain ⟨m, rfl⟩ : ∃ m', m = m' + 1 := ⟨m - 1, by omega⟩
    have hlt : pos < last := by
      have := length_element e.1 (layout env e.2)
      rw [← entryBytes] at this
      omega
    have hround : decodeRound env data (decodeTable env data rounds depth) isArray (pos, acc)
        = .done (pos + (entryBytes env e).length, acc ++ [(k, v)]) := by
      rw [decodeRound, decodeElement_entry h.left hkey (hN₁ rounds (by omega) depth (by omega))]
      simp only [Outcome.done_bind, hk, Outcome.of, Outcome.pure_eq]
      rw [put_of_new fun p hp => hacc p hp (k, v) List.mem_cons_self]
    rw [@whileLoop_succ _ _ (· < last) pos _ _ hlt m acc, hround, Outcome.done_bind,
      hN₂ m (by omega) rounds (by omega) depth (by omega), List.append_assoc]
    · rfl
    · intro p hp f hf
      rcases List.mem_append.1 hp with hp | hp
      · exact hacc p hp f (List.mem_cons_of_mem _ hf)
      · rw [List.mem_singleton.1 hp]
        intro hkf
        obtain ⟨e', he', hf', -⟩ := exists_of_forall₂ hread f hf
        have hfk : some f.1 = some k := congrArg some (eq_of_keyEq hkf).symm
        exact hnd.1 (List.mem_map.2 ⟨e', he', by rw [hf', hk, hfk]⟩)

/-- What was read of the entries is equal to the table. -/
theorem Slots.equals (hs : Slots env fields n) {read : Fields}
    (hread : List.Forall₂
      (fun e f => Bson.slot env (decide (0 < n)) e.1 = some f.1 ∧ Equals e.2 f.2)
      (entries env fields n) read) (r : ℕ) :
    Equals (.table fields n) (.table read r) := by
  have hkeys : (entries env fields n).map (fun e => Bson.slot env (decide (0 < n)) e.1)
      = (read.map Prod.fst).map some := by
    rw [List.map_map, ← List.forall₂_eq_eq_eq, List.forall₂_map_left_iff,
      List.forall₂_map_right_iff]
    exact hread.imp fun _ _ h => h.1
  have hnd : (read.map Prod.fst).Nodup := (hkeys ▸ hs.nodup).of_map
  refine ⟨equalFields_iff.2 fun p hp => ?_, fun f hf => ?_⟩
  · obtain ⟨e, he, hslot, hv⟩ := hs.entry p hp
    obtain ⟨f, hf, hfslot, heq⟩ := exists_of_forall₂ hread.flip e he
    obtain ⟨-, k, hk, -, hkk⟩ := hs.slot e he
    have hfp : f.1 = p.1 := Option.some.inj (hfslot.symm.trans hslot)
    have hkp : k = p.1 := Option.some.inj (hk.symm.trans hslot)
    exact ⟨f.2, hfp ▸ lookup_of_mem hnd hf (hfp ▸ hkp ▸ hkk), hv ▸ heq⟩
  · obtain ⟨e, he, hfslot, -⟩ := exists_of_forall₂ hread f hf
    obtain ⟨-, k, hk, hlookup, -⟩ := hs.slot e he
    rw [← Option.some.inj (hk.symm.trans hfslot), hlookup]
    rfl

theorem wrap_of_range {x : ℤ} (h0 : -2 ^ 62 ≤ x) (h1 : x < 2 ^ 62) : wrap x = x :=
  toSigned_of_range (by omega) (by omega)

/-- A table is read from its bytes, if its values are. -/
theorem table_reads (hs : Slots env fields n) (hdata : data.length < 2 ^ 31)
    (ih : ∀ e ∈ entries env fields n, ∀ pos, At data pos (layout env e.2).2 →
      ReadsAt env data e.2 pos) {pos : ℤ} (h : At data pos (layout env (.table fields n)).2) :
    ∃ v', Equals (.table fields n) v' ∧ ∃ N, ∀ rounds ≥ N, ∀ depth ≥ N,
      decodeTable env data rounds depth (decide (0 < n)) pos
        = .done (v', pos + (layout env (.table fields n)).2.length) := by
  have hrange := h.range
  rw [layout_table] at h hrange ⊢
  simp only [length_framed] at hrange ⊢
  set es := (entries env fields n).flatMap (entryBytes env) with hes
  have hbody := h.left.right
  rw [length_le] at hbody
  have hlast : pos + (4 : ℕ) + es.length = wrap (pos + (es.length + 5 : ℕ) - 1) := by
    rw [wrap_of_range (by omega) (by omega)]
    push_cast
    omega
  obtain ⟨read, hread, N, hN⟩ := loop_reads
    (fun e he => ⟨(hs.slot e he).1, (hs.slot e he).2.imp fun _ hk => hk.1⟩) hs.nodup ih hbody hlast
  refine ⟨.table read (env.border read), hs.equals hread _, N + 1, fun rounds hr depth hd => ?_⟩
  obtain ⟨depth, rfl⟩ : ∃ d, depth = d + 1 := ⟨depth - 1, by omega⟩
  have hlen := h.left.left.unpackLength (m := es.length + 5) (by omega)
  have hend : wrap (pos + (es.length + 5 : ℕ)) = pos + (es.length + 5 : ℕ) :=
    wrap_of_range (by omega) (by omega)
  have hstart : wrap (pos + 4) = pos + (4 : ℕ) := wrap_of_range (by omega) (by omega)
  have hloop := hN rounds (by omega) rounds (by omega) depth (by omega) [] nofun
  rw [decodeTable, hlen]
  simp only [Outcome.of, Outcome.done_bind, hend, hstart, hloop, Outcome.pure_eq, List.nil_append]

/-- Every clean document is read from its bytes. -/
theorem reads {v : Value} (hdoc : IsDocument v) (hc : Throughout Clean v)
    (hdata : data.length < 2 ^ 31) {pos : ℤ} (h : At data pos (layout env v).2) :
    ReadsAt env data v pos := by
  induction v using Value.induction generalizing pos with
  | scalar v hs =>
    have hrange := h.range
    refine readsAt_scalar hs ?_ hc.head (by omega) h
    rintro rfl
    cases hdoc with
    | scalar hnil _ => exact hnil rfl
  | table fields n ih =>
    obtain ⟨v', heq, N, hN⟩ := table_reads (hdoc.slots hc.head) hdata (fun e he pos hat => by
      obtain ⟨p, hp, hv⟩ := (hdoc.entries_values env e.2).1 ⟨e, he, rfl⟩
      exact hv ▸ ih p hp (hdoc.mem hp) (hc.mem hp) (hv ▸ hat)) h
    refine ⟨v', heq, N, fun rounds hr depth hd => ?_⟩
    rw [← hN rounds hr depth hd, layout_table, tableByte]
    by_cases hn : 0 < n
    · simp only [if_pos hn, decide_eq_true hn, decodeValue]
    · simp only [if_neg hn, decide_eq_false hn, decodeValue]

end Reading

section RoundTrips

/-- A document comes back if and only if no key of it has a NUL, its object ids are written as
`%02x` does, and no document in it is taken for a wrapper; or else the encoder meets one that is,
and refuses it. -/
theorem roundTrips_iff (env : Env) {doc : Fields} (hdoc : IsDocument (.table doc 0))
    (hlen : (bytesOf env doc).length < 2 ^ 31) :
    RoundTrips env doc ↔
      (Throughout Clean (.table doc 0) ∧ ∀ p ∈ doc, Throughout Unmistaken p.2) ∨
        ∃ p ∈ doc, Refused env p.2 := by
  rcases encode_cases hdoc hlen with ⟨href, hnone⟩ | ⟨hnref, b, hsome, heq, hlt⟩
  · exact ⟨fun _ => .inr href, fun _ => .inl hnone⟩
  · constructor
    · rintro (hnone | ⟨henc, rounds, depth, v, hdec, hv⟩)
      · rw [hsome] at hnone
        cases hnone
      · refine .inl ⟨.of_equals hv (clean_decodeTable hdec), ?_⟩
        by_contra hnot
        have hshort := hlt hnot
        rw [hsome] at henc
        cases henc
        exact lt_irrefl _ hshort
    · rintro (⟨hc, hu⟩ | ⟨p, hp, href⟩)
      · refine .inr ⟨by rw [hsome, heq hu], ?_⟩
        have hat : At (bytesOf env doc) 1 (layout env (.table doc 0)).2 :=
          ⟨[], [], by rw [List.nil_append, List.append_nil, bytesOf], rfl⟩
        obtain ⟨v, hv, N, hN⟩ := reads hdoc hc hlen hat
        refine ⟨N, N, v, ?_, hv⟩
        have hread := hN N le_rfl N le_rfl
        have htype : (layout env (.table doc 0)).1 = 0x03 := by rw [layout_table]; rfl
        simp only [htype, decodeValue] at hread
        rw [decode, hread, bytesOf, add_comm]
      · exact (hnref p hp href).elim

/-- An array in a document, and a key of any byte but NUL. -/
def nestedDocument : Fields :=
  [(.string (ascii "a"), .table [(.integer 2, .boolean true), (.integer 1, .integer 5)] 2),
    (.string [0xFF], .null)]

theorem roundTrips_nested : RoundTrips integerEnv nestedDocument := by
  have scalars : ∀ p ∈ [(SkynetCpp.Value.integer 2, Value.boolean true), (.integer 1, .integer 5)],
      IsDocument p.2 ∧ Throughout Clean p.2 ∧ Throughout Unmistaken p.2 := by
    intro p hp
    rcases List.mem_pair.1 hp with rfl | rfl <;>
      exact ⟨.scalar nofun nofun, .scalar nofun trivial, .scalar nofun trivial⟩
  have values : ∀ p ∈ nestedDocument,
      IsDocument p.2 ∧ Throughout Clean p.2 ∧ Throughout Unmistaken p.2 := by
    intro p hp
    rcases List.mem_pair.1 hp with rfl | rfl
    · refine ⟨.array (by decide) (.swap _ _ _) fun p hp => (scalars p hp).1,
        .table (fun p hp s hs => ?_) fun p hp => (scalars p hp).2.1,
        .table ⟨nofun, nofun⟩ fun p hp => (scalars p hp).2.2⟩
      rcases List.mem_pair.1 hp with rfl | rfl <;> cases hs
    · exact ⟨.scalar nofun nofun, .scalar nofun trivial, .scalar nofun trivial⟩
  have keys : ∀ p ∈ nestedDocument, ∃ s, p.1 = .string s ∧ 0 ∉ s := by
    intro p hp
    rcases List.mem_pair.1 hp with rfl | rfl <;> exact ⟨_, rfl, by decide⟩
  refine (roundTrips_iff integerEnv (.document (fun p hp => (keys p hp).imp fun _ h => h.1) ?_
    fun p hp => (values p hp).1) (by decide)).2 (.inl ⟨.table (fun p hp s hs => ?_)
      fun p hp => (values p hp).2.1, fun p hp => (values p hp).2.2⟩)
  · simp [nestedDocument, ascii]
  · obtain ⟨s', hs', h0⟩ := keys p hp
    exact (SkynetCpp.Value.string.inj (hs'.symm.trans hs)) ▸ h0

/-- The key of the one field is cut at its NUL. -/
theorem nul_key_lost : ¬ RoundTrips integerEnv [(.string [0x61, 0, 0x62], .integer 1)] := by
  rintro (hnone | ⟨-, rounds, depth, v, hdec, hv⟩)
  · exact absurd hnone (by decide)
  · have hclean := (Throughout.of_equals hv (clean_decodeTable hdec)).head
    exact hclean _ List.mem_cons_self _ rfl (by decide)

end RoundTrips

end Bson

end SkynetCpp
