import Mathlib.Data.Int.ConditionallyCompleteOrder
import Mathlib.Data.Int.Interval
import SkynetCpp.BsonWalk

/-!
# When the BSON decoder ends

`Goes` says where the loop of a table goes (`follows`), so the library's theorem about such loops
applies: by induction on the depth, a table is read through if and only if `Returns` says so, and
its decoding ends if and only if it does not spin.
-/

namespace SkynetCpp

open Lib LuaString Relation

namespace Bson

variable {env : Env} {data : Bytes}

section Hex

theorem tonumber16_hexOfByte (b : UInt8) : tonumber16 (hexOfByte b) = some (b.toNat : ℤ) := by
  have h : ∀ n : Fin 256, tonumber16 (hexOfByte (UInt8.ofNat n)) = some (n : ℤ) := by
    decide +kernel
  have hb := h ⟨b.toNat, b.toNat_lt⟩
  rwa [UInt8.ofNat_toNat] at hb

theorem charsOfHex_hexOfBytes (bytes : Bytes) : charsOfHex (hexOfBytes bytes) = some bytes := by
  induction bytes with
  | nil => rfl
  | cons b bytes ih =>
    have hb := tonumber16_hexOfByte b
    have hlt := b.toNat_lt
    unfold hexOfBytes at ih ⊢
    rw [hexOfByte] at hb
    rw [List.flatMap_cons, hexOfByte, List.cons_append, List.cons_append, List.nil_append,
      charsOfHex, hb, ih]
    simp
    omega

theorem length_hexOfBytes (bytes : Bytes) : (hexOfBytes bytes).length = 2 * bytes.length := by
  induction bytes with
  | nil => rfl
  | cons b bytes ih =>
    unfold hexOfBytes at ih ⊢
    rw [List.flatMap_cons, List.length_append, ih, List.length_cons]
    change 2 + _ = _
    omega

theorem objectid_eq_some {hex : Bytes} {o : ObjectId} : objectid hex = some o ↔ o.hex = hex := by
  unfold objectid
  constructor
  · intro h
    split at h
    · split_ifs at h
      cases h
      rfl
    · cases h
  · rintro rfl
    obtain ⟨hex, bytes, hlen, hmade⟩ := o
    split
    · rename_i heq
      rw [hmade] at heq
      cases heq
      rw [dif_pos hlen]
    · rename_i heq
      simp [hmade] at heq

theorem objectid_hexOfBytes (bytes : Bytes) :
    (∃ o, objectid (hexOfBytes bytes) = some o) ↔ bytes.length = 12 := by
  simp only [objectid_eq_some]
  constructor
  · rintro ⟨o, ho⟩
    have := o.made.1
    rw [ho, length_hexOfBytes] at this
    omega
  · intro h
    exact ⟨⟨hexOfBytes bytes, bytes, by rw [length_hexOfBytes, h], charsOfHex_hexOfBytes bytes⟩,
      rfl⟩

end Hex

section Round
variable {table table' : Bool → ℤ → Outcome (Value × ℤ)}

theorem decodeValue_mono (h : ∀ a p, (table a p).Le (table' a p)) (type : Option UInt8) (pos : ℤ) :
    (decodeValue data table type pos).Le (decodeValue data table' type pos) := by
  unfold decodeValue
  split
  case h_3 => exact h _ _
  case h_4 => exact h _ _
  all_goals exact .refl _

theorem decodeRound_mono (h : ∀ a p, (table a p).Le (table' a p)) (isArray : Bool)
    (s : ℤ × Fields) :
    (decodeRound env data table isArray s).Le (decodeRound env data table' isArray s) := by
  refine Outcome.Le.bind ?_ fun _ => .refl _
  exact .bind (.refl _) fun x => .bind (decodeValue_mono h _ _) fun _ => .refl _

theorem decodeInt_ne_unfinished (k : ℕ) (pos : ℤ) : decodeInt data k pos ≠ .unfinished := by
  simp [decodeInt, Outcome.bind_eq_unfinished]

theorem decodeValue_unfinished {type : Option UInt8} {pos : ℤ} :
    decodeValue data table type pos = .unfinished ↔
      ∃ isArray, tableType type = some isArray ∧ table isArray pos = .unfinished := by
  unfold decodeValue
  split <;>
    simp [tableType, Outcome.bind_eq_unfinished, decodeInt_ne_unfinished]

/-- A table family that `nested` describes. -/
theorem ends_iff {tables : ℕ → Bool → ℤ → Outcome (Value × ℤ)} {nested : Bool → ℤ → ℤ → Prop}
    (h : ∀ a p q, nested a p q ↔ ∃ n v, tables n a p = .done (v, q)) {type : Option UInt8}
    {pos q : ℤ} :
    Ends data nested type pos q ↔ ∃ n v, decodeValue data (tables n) type pos = .done (v, q) := by
  unfold Ends
  split
  all_goals unfold decodeValue
  case h_2 | h_3 => exact h _ _ _
  all_goals
    simp [Outcome.bind_eq_done, decodeInt, unpackInt, ← objectid_hexOfBytes, @eq_comm ℤ q]

theorem decodeRound_unfinished {isArray : Bool} {p : ℤ} {fields : Fields} :
    decodeRound env data table isArray (p, fields) = .unfinished ↔
      ∃ key keyEnd a, decodeCstring data (p + 1) = some (key, keyEnd) ∧
        tableType (byte data p) = some a ∧ table a keyEnd = .unfinished := by
  simp [decodeRound, decodeElement, Outcome.bind_eq_unfinished, decodeValue_unfinished]

theorem byte_range {i : ℤ} (h : byte data i ≠ none) :
    i ∈ Finset.Icc (-(data.length : ℤ)) data.length := by
  unfold byte posrelatI getendpos at h
  rw [Finset.mem_Icc]
  by_contra hi
  refine h (if_pos ?_)
  split_ifs <;> omega

theorem Goes.mem_Icc {nested : Bool → ℤ → ℤ → Prop} {isArray : Bool} {endPos p q : ℤ}
    (h : Goes env data nested isArray endPos p q) :
    p ∈ Finset.Icc (-(data.length : ℤ)) data.length := by
  obtain ⟨-, key, keyEnd, -, hends, -⟩ := h
  refine byte_range fun hnone => ?_
  rw [hnone] at hends
  exact hends

theorem follows (env : Env) (data : Bytes) {tables : ℕ → Bool → ℤ → Outcome (Value × ℤ)}
    {nested : Bool → ℤ → ℤ → Prop}
    (hmono : ∀ {m n}, m ≤ n → ∀ a p, (tables m a p).Le (tables n a p))
    (h : ∀ a p q, nested a p q ↔ ∃ n v, tables n a p = .done (v, q)) (isArray : Bool)
    (endPos : ℤ) :
    MovesBy (· < wrap (endPos - 1)) (fun n => decodeRound env data (tables n) isArray)
      (Goes env data nested isArray endPos) where
  mono s hmn := decodeRound_mono (hmono hmn) isArray s
  guard hpq := hpq.1
  leads {p q} fields hp := by
    simp only [Goes, hp, true_and, ends_iff h, Option.isSome_iff_exists, decodeRound,
      decodeElement, Outcome.bind_eq_done, Outcome.of_eq_done, Outcome.pure_eq, Prod.exists]
    constructor
    · rintro ⟨key, keyEnd, hkey, ⟨n, v, hv⟩, k, hk⟩
      exact ⟨n, put fields k v, key, v, q, ⟨key, keyEnd, hkey, v, q, hv, rfl⟩, k, hk, rfl⟩
    · rintro ⟨n, t', key, v, next, ⟨key', keyEnd, hkey, v', next', hv, heq⟩, k, hk, hdone⟩
      cases heq
      cases hdone
      exact ⟨key, keyEnd, hkey, ⟨n, v, hv⟩, k, hk⟩

end Round

section Table

theorem decodeTable_mono (env : Env) (data : Bytes) {m n : ℕ} (h : m ≤ n) (depth : ℕ)
    (isArray : Bool) (pos : ℤ) :
    (decodeTable env data m depth isArray pos).Le (decodeTable env data n depth isArray pos) := by
  induction depth generalizing isArray pos with
  | zero => exact .refl _
  | succ depth ih =>
    refine .bind (.refl _) fun len => .bind ?_ fun _ => .refl _
    exact whileLoop_mono (decodeRound_mono ih isArray) h _

theorem returns_iff {depth : ℕ} {isArray : Bool} {pos q : ℤ} :
    Returns env data depth isArray pos q ↔
      ∃ n v, decodeTable env data n depth isArray pos = .done (v, q) := by
  induction depth generalizing isArray pos q with
  | zero => simp [Returns, decodeTable]
  | succ depth ih =>
    have hf := follows env data (fun hmn => decodeTable_mono env data hmn depth)
      (fun _ _ _ => ih) isArray q
    simp only [Returns, ← hf.done_iff ([] : Fields), decodeTable, Outcome.bind_eq_done,
      Outcome.of_eq_done, Outcome.pure_eq, Prod.exists]
    constructor
    · rintro ⟨len, next, hlen, rfl, p, n, fields, hdone⟩
      exact ⟨n, _, len, next, hlen, p, fields, hdone, rfl⟩
    · rintro ⟨n, v, len, next, hlen, p, fields, hdone, heq⟩
      cases heq
      exact ⟨len, next, hlen, rfl, p, n, fields, hdone⟩

/-- Where the loop of a table goes, nested tables included. -/
theorem table_follows (env : Env) (data : Bytes) (depth : ℕ) (isArray : Bool) (endPos : ℤ) :
    MovesBy (· < wrap (endPos - 1))
      (fun n => decodeRound env data (decodeTable env data n depth) isArray)
      (Goes env data (Returns env data depth) isArray endPos) :=
  follows env data (fun hmn => decodeTable_mono env data hmn depth)
    (fun _ _ _ => returns_iff) isArray endPos

/-- An element never ends that is a table which never ends. -/
theorem round_stuck_iff (env : Env) (data : Bytes)
    {tables : ℕ → Bool → ℤ → Outcome (Value × ℤ)} {spins : Bool → ℤ → Prop}
    (h : ∀ a p, spins a p ↔ ∀ n, tables n a p = .unfinished) (isArray : Bool) (p : ℤ)
    (fields : Fields) :
    (∀ n, decodeRound env data (tables n) isArray (p, fields) = .unfinished) ↔
      ∃ key keyEnd a, decodeCstring data (p + 1) = some (key, keyEnd) ∧
        tableType (byte data p) = some a ∧ spins a keyEnd := by
  simp only [decodeRound_unfinished, h]
  constructor
  · intro hall
    obtain ⟨key, keyEnd, a, hkey, ha, -⟩ := hall 0
    refine ⟨key, keyEnd, a, hkey, ha, fun n => ?_⟩
    obtain ⟨key', keyEnd', a', hkey', ha', hn⟩ := hall n
    rw [hkey] at hkey'
    rw [ha] at ha'
    cases hkey'
    cases ha'
    exact hn
  · rintro ⟨key, keyEnd, a, hkey, ha, hn⟩ n
    exact ⟨key, keyEnd, a, hkey, ha, hn n⟩

theorem spins_iff {depth : ℕ} {isArray : Bool} {pos : ℤ} :
    Spins env data depth isArray pos ↔
      ∀ n, decodeTable env data n depth isArray pos = .unfinished := by
  induction depth generalizing isArray pos with
  | zero => simp [Spins, decodeTable]
  | succ depth ih =>
    have hround := round_stuck_iff env data (fun a p => @ih a p) isArray
    cases hlen : unpackInt 4 data pos with
    | none => simp [Spins, decodeTable, hlen, Outcome.of]
    | some header =>
      obtain ⟨len, next⟩ := header
      have hends := (table_follows env data depth isArray (wrap (pos + len))).ends_iff
        (p := wrap (pos + 4)) _ Goes.mem_Icc (fun q => ?_) ([] : Fields)
      · simp only [decodeTable, hlen, Outcome.of, Outcome.done_bind, Outcome.bind_eq_unfinished,
          Outcome.pure_eq, reduceCtorEq, and_false, exists_false, or_false, Spins]
        rw [← not_iff_not, not_forall, hends]
        simp only [forall_comm (α := ℕ), hround]
        constructor
        · exact fun h q hq => ⟨fun hc => h ⟨len, next, rfl, q, hq, .inl hc⟩,
            fun hmore hall => h ⟨len, next, rfl, q, hq, .inr ⟨hmore, hall []⟩⟩⟩
        · rintro h ⟨len', next', heq, q, hq, hc | ⟨hmore, hs⟩⟩
          · cases heq
            exact (h q hq).1 hc
          · cases heq
            exact (h q hq).2 hmore fun _ => hs
      · by_cases hq : ∀ n, decodeRound env data (decodeTable env data n depth) isArray (q, []) =
            .unfinished
        · exact .inr fun n t => (hround q t).2 ((hround q []).1 hq) n
        · refine .inl fun t => ?_
          by_contra hall
          push Not at hall
          exact hq ((hround q []).2 ((hround q t).1 hall))

/-- The decoder ends if and only if no table that it enters leads back to where its loop was. -/
theorem terminates_iff (env : Env) (data : Bytes) (depth : ℕ) (pos : ℤ) :
    Terminates env data depth pos ↔ ¬ Spins env data depth false pos := by
  rw [spins_iff, not_forall]
  rfl

/-- No table spins whose elements all end behind where they begin. -/
theorem not_spins_of_forward
    (h : ∀ depth isArray endPos p q,
      Goes env data (Returns env data depth) isArray endPos p q → p < q)
    (depth : ℕ) (isArray : Bool) (pos : ℤ) : ¬ Spins env data depth isArray pos := by
  induction depth generalizing isArray pos with
  | zero => exact id
  | succ depth ih =>
    rintro ⟨len, next, -, p, -, hc | ⟨-, key, keyEnd, a, -, -, hs⟩⟩
    · have hlt : TransGen (· < ·) p p :=
        TransGen.mono (h depth isArray (wrap (pos + len))) p p hc
      rw [transGen_eq_self] at hlt
      exact lt_irrefl p hlt
    · exact ih a keyEnd hs

theorem terminates_of_forward
    (h : ∀ depth isArray endPos p q,
      Goes env data (Returns env data depth) isArray endPos p q → p < q)
    (depth : ℕ) (pos : ℤ) : Terminates env data depth pos := by
  obtain ⟨n, hn⟩ := not_forall.1 fun hall =>
    not_spins_of_forward h depth false pos (spins_iff.2 hall)
  exact ⟨n, hn⟩

end Table

section Spinning

/-- A document of 100 bytes, it says, whose first element is a string of length -7. -/
def spinningBytes : Bytes := [0x64, 0, 0, 0, 0x02, 0x61, 0, 0xF9, 0xFF, 0xFF, 0xFF]

/-- Numbers that are integers. A table has a value at each number up to its border. -/
def integerEnv : Env where
  str2d _ := none
  floatSucc bits := bits
  border fields := ((List.range fields.length).takeWhile fun i =>
    (lookup fields (.integer (Int64.ofNat (i + 1)))).isSome).length
  numberText _ := []
  numberText_le _ := Nat.zero_le _

/-- The decoder reads that string again and again. -/
theorem negative_length_spins : ¬ Terminates integerEnv spinningBytes 100 1 := by
  rintro ⟨n, hn⟩
  refine hn (spins_iff.1 ?_ n)
  have hgoes : Goes integerEnv spinningBytes (Returns integerEnv spinningBytes 99) false
      (wrap (1 + 100)) 5 5 :=
    ⟨by decide, [0x61], 8, by decide, ⟨-7, 12, by decide, by decide⟩, rfl⟩
  exact ⟨100, 5, by decide, 5, .refl, .inl (.single hgoes)⟩

end Spinning

end Bson

end SkynetCpp
