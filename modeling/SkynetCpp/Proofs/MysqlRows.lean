import SkynetCpp.Lib.Outcome
import SkynetCpp.MysqlRows
import SkynetCpp.Proofs.Mysql

/-!
# When a binary row is read as it is

A column that is read right leaves the position behind it, but for `INT24`, which leaves a byte
that is 0 or 255. From there on, every column that is read right leaves as many bytes as there were,
and all of them 0 or 255: an integer of the right value has the same bytes, and a length that begins
with such a byte is 0. So the position is never at the end of the row again (`readRight_iff`).
-/

namespace SkynetCpp

open Lib LuaString MysqlBinary

namespace Mysql

variable {data : Bytes} {pos : ℤ} {sg : Bool}

section Floats

theorem widen_lt {e m : ℕ} (he : e < 256) (hm : m < 2 ^ 23) :
    (widen e m).1 < 2 ^ 11 ∧ (widen e m).2 < 2 ^ 52 := by
  unfold widen
  split_ifs with h255 hpos hzero
  · omega
  · omega
  · omega
  · have hlog : m.log2 < 23 := (Nat.log2_lt hzero).2 hm
    have hlt : m < 2 ^ (m.log2 + 1) := Nat.lt_log2_self
    refine ⟨by simp only []; omega, ?_⟩
    have hpow : 2 ^ m.log2 * 2 ^ (52 - m.log2) = 2 ^ 52 := by
      rw [← pow_add, Nat.add_sub_cancel' (by omega)]
    calc (m - 2 ^ m.log2) * 2 ^ (52 - m.log2) < 2 ^ m.log2 * 2 ^ (52 - m.log2) :=
          Nat.mul_lt_mul_of_pos_right (by rw [pow_succ] at hlt; omega) (by positivity)
      _ = 2 ^ 52 := hpow

/-- The exponents of the four cases are different. -/
theorem widen_inj {e m e' m' : ℕ} (he : e < 256) (hm : m < 2 ^ 23) (he' : e' < 256)
    (hm' : m' < 2 ^ 23) (h : widen e m = widen e' m') : e = e' ∧ m = m' := by
  have hlog (n : ℕ) (hn : n ≠ 0) (hlt : n < 2 ^ 23) : n.log2 < 23 := (Nat.log2_lt hn).2 hlt
  unfold widen at h
  split_ifs at h with h1 h2 h3 h4 h5 h6 h7 h8 h9 h10 h11 h12 <;> rw [Prod.mk.injEq] at h
  all_goals first
    | omega
    | (have hbit := hlog m (by assumption) hm; omega)
    | (have hbit := hlog m' (by assumption) hm'; omega)
    | skip
  obtain ⟨hk, hfrac⟩ := h
  have hk : m'.log2 = m.log2 := by omega
  rw [hk] at hfrac
  have hsub := Nat.eq_of_mul_eq_mul_right (by positivity) hfrac
  have hle := Nat.log2_self_le (n := m) (by assumption)
  have hle' := Nat.log2_self_le (n := m') (by assumption)
  rw [hk] at hle'
  omega

theorem toNat_doubleOfFloat {x : UInt32} {w : ℕ × ℕ}
    (hw : widen (x.toNat / 2 ^ 23 % 2 ^ 8) (x.toNat % 2 ^ 23) = w) :
    w.1 < 2 ^ 11 ∧ w.2 < 2 ^ 52 ∧
      (doubleOfFloat x).toNat = x.toNat / 2 ^ 31 * 2 ^ 63 + w.1 * 2 ^ 52 + w.2 := by
  have hx := x.toNat_lt
  obtain ⟨h1, h2⟩ := hw ▸ widen_lt (Nat.mod_lt (x.toNat / 2 ^ 23) (show 0 < 2 ^ 8 by omega))
    (Nat.mod_lt x.toNat (show 0 < 2 ^ 23 by omega))
  refine ⟨h1, h2, ?_⟩
  rw [doubleOfFloat, hw]
  exact (UInt64.toNat_ofNat' ..).trans (Nat.mod_eq_of_lt (by omega))

theorem doubleOfFloat_inj {x y : UInt32} (h : doubleOfFloat x = doubleOfFloat y) : x = y := by
  have hx := x.toNat_lt
  have hy := y.toNat_lt
  obtain ⟨u, hu⟩ : ∃ u, widen (x.toNat / 2 ^ 23 % 2 ^ 8) (x.toNat % 2 ^ 23) = u := ⟨_, rfl⟩
  obtain ⟨v, hv⟩ : ∃ v, widen (y.toNat / 2 ^ 23 % 2 ^ 8) (y.toNat % 2 ^ 23) = v := ⟨_, rfl⟩
  obtain ⟨hx1, hx2, hxn⟩ := toNat_doubleOfFloat hu
  obtain ⟨hy1, hy2, hyn⟩ := toNat_doubleOfFloat hv
  rw [h, hyn] at hxn
  obtain rfl : u = v := Prod.ext (by omega) (by omega)
  obtain ⟨he, hm⟩ := widen_inj (by omega) (by omega) (by omega) (by omega) (hu.trans hv.symm)
  apply UInt32.toNat_inj.1
  omega

end Floats

section Fixed

variable {k : ℕ} {r s : Bytes} {n : ℤ}

theorem unpackBytes_left (h : Left data pos s) (hk : k ≤ s.length) :
    unpackBytes k data pos = some (s.take k, pos + k) := by
  rw [← List.take_append_drop k s] at h
  exact h.at.unpackBytes (by rw [List.length_take, min_eq_left hk])

/-- What `getInt` makes of `k` bytes. -/
def intValue (isSigned : Bool) (r : Bytes) : Value :=
  if !isSigned then ofBits (UInt64.ofNat (ofLe r))
  else .integer (Int64.ofInt (signed (8 * r.length) (ofLe r)))

theorem getInt_left (h : Left data pos s) (hk : k ≤ s.length) :
    getInt k data pos sg = .ok (intValue sg (s.take k), pos + k) := by
  have hlen : (s.take k).length = k := by rw [List.length_take, min_eq_left hk]
  cases sg with
  | true => simp [getInt, unpackInt, unpackBytes_left h hk, orRaise, intValue, hlen]
  | false => simp [getInt, unpackUnsigned, unpackBytes_left h hk, orRaise, intValue]

theorem getFloat_left (h : Left data pos s) (hk : 4 ≤ s.length) : getFloat data pos sg
    = .ok (.float (doubleOfFloat (UInt32.ofNat (ofLe (s.take 4)))), pos + (4 : ℕ)) := by
  simp [getFloat, unpackBytes_left h hk, orRaise]

theorem getDouble_left (h : Left data pos s) (hk : 8 ≤ s.length) : getDouble data pos sg
    = .ok (.float (UInt64.ofNat (ofLe (s.take 8))), pos + (8 : ℕ)) := by
  simp [getDouble, unpackBytes_left h hk, orRaise]

theorem emod_of_ofInt {a b : ℤ} (h : Int64.ofInt a = Int64.ofInt b) :
    a % 2 ^ 64 = b % 2 ^ 64 := by
  have hbmod := (Int64.ofInt_eq_iff_bmod_eq_toInt a (Int64.ofInt b)).1 h
  rw [Int64.toInt_ofInt] at hbmod
  have hemod : a.bmod (2 ^ 64) % (2 ^ 64 : ℕ) = b.bmod (2 ^ 64) % (2 ^ 64 : ℕ) :=
    congrArg (· % ((2 ^ 64 : ℕ) : ℤ)) hbmod
  rwa [Int.bmod_emod, Int.bmod_emod] at hemod

theorem signed_emod_self (w n : ℕ) : signed w n % 2 ^ w = (n : ℤ) % 2 ^ w := by
  unfold signed
  split_ifs
  · rfl
  · exact Int.sub_emod_right ..

/-- The bytes are those of the integer that they are read as. -/
theorem eq_le_of_intValue (hr : r.length ≤ 8)
    (h : intValue sg r = .integer (Int64.ofInt n)) :
    r = le r.length (n % 2 ^ (8 * r.length)).toNat := by
  have hlt : ofLe r < 2 ^ (8 * r.length) := by
    have h := ofLe_lt r
    rwa [show (256 : ℕ) = 2 ^ 8 by rfl, ← pow_mul] at h
  have hdvd : (2 ^ (8 * r.length) : ℤ) ∣ 2 ^ 64 := pow_dvd_pow 2 (by omega)
  have hmod : ((ofLe r : ℕ) : ℤ) % 2 ^ (8 * r.length) = n % 2 ^ (8 * r.length) := by
    cases sg with
    | true =>
      have heq := emod_of_ofInt (Value.integer.inj h)
      rw [← signed_emod_self, ← Int.emod_emod_of_dvd _ hdvd, heq, Int.emod_emod_of_dvd _ hdvd]
    | false =>
      have heq : Int64.ofInt (ofLe r : ℕ) = Int64.ofInt n := by
        rw [Int64.ofInt_eq_ofNat]
        exact Value.integer.inj h
      rw [← Int.emod_emod_of_dvd _ hdvd, emod_of_ofInt heq, Int.emod_emod_of_dvd _ hdvd]
  rw [← hmod, Int.emod_eq_of_lt (by omega) (by exact_mod_cast hlt), Int.toNat_natCast, le_ofLe]

/-- An integer is read from its bytes. -/
theorem intValue_le {w : ℕ}
    (hn : if sg then -2 ^ (8 * w) ≤ 2 * n ∧ 2 * n < 2 ^ (8 * w) else 0 ≤ n ∧ n < 2 ^ (8 * w)) :
    intValue sg (le w (n % 2 ^ (8 * w)).toNat) = .integer (Int64.ofInt n) := by
  have hpos : (0 : ℤ) < 2 ^ (8 * w) := by positivity
  have hlt : (n % 2 ^ (8 * w)).toNat < 256 ^ w := by
    rw [show (256 : ℕ) = 2 ^ 8 by rfl, ← pow_mul, Int.toNat_lt (Int.emod_nonneg n hpos.ne')]
    push_cast
    exact Int.emod_lt_of_pos n hpos
  cases sg with
  | true =>
    rw [if_pos rfl] at hn
    simp only [intValue, length_le, ofLe_le_of_lt hlt, signed_emod hn.1 hn.2, Bool.not_true,
      Bool.false_eq_true, if_false]
  | false =>
    rw [if_neg Bool.false_ne_true] at hn
    have hcast : ((n.toNat : ℕ) : ℤ) = n := Int.toNat_of_nonneg hn.1
    rw [Int.emod_eq_of_lt hn.1 hn.2] at hlt ⊢
    rw [intValue, ofLe_le_of_lt hlt, ← hcast, Int64.ofInt_eq_ofNat]
    rfl

end Fixed

section Behind

variable {k : ℕ} {q b rest : Bytes} {n : ℤ} {done : Prop}

/-- These bytes can begin no length but 0. -/
def Edge (q : Bytes) : Prop := ∀ x ∈ q, x = 0 ∨ x = 255

/-- The position is so many bytes before the rest; there are none of them if `done`. -/
def Behind (data : Bytes) (pos : ℤ) (rest : Bytes) (done : Prop) : Prop :=
  ∃ q, Left data pos (q ++ rest) ∧ Edge q ∧ (q = [] ↔ done)

/-- The bytes that are read instead of the first ones of `b` are the same. -/
theorem behind_of_take (h : Left data pos (q ++ (b ++ rest))) (hq : Edge q) (hk : k ≤ b.length)
    (htake : (q ++ b).take k = b.take k) (hdrop : Edge (b.drop k)) :
    Behind data (pos + k) rest (q = [] ∧ k = b.length) := by
  have hsplit : q ++ (b ++ rest) = (q ++ b).take k ++ ((q ++ b).drop k ++ rest) := by
    rw [← List.append_assoc, ← List.append_assoc, List.take_append_drop]
  have hlen : ((q ++ b).take k).length = k := by
    rw [List.length_take, List.length_append]
    omega
  have hperm : (q ++ b.drop k).Perm ((q ++ b).drop k) := by
    have hall : (b.take k ++ (q ++ b).drop k).Perm (b.take k ++ (q ++ b.drop k)) := by
      rw [← htake, List.take_append_drop]
      calc q ++ b = q ++ (b.take k ++ b.drop k) := by rw [List.take_append_drop]
        _ = q ++ b.take k ++ b.drop k := (List.append_assoc ..).symm
        List.Perm _ (b.take k ++ q ++ b.drop k) := List.perm_append_comm.append_right _
        _ = (q ++ b).take k ++ (q ++ b.drop k) := by rw [htake, List.append_assoc]
    exact ((List.perm_append_left_iff _).1 hall).symm
  have hright := (hsplit ▸ h).right
  rw [hlen] at hright
  refine ⟨_, hright, fun x hx => ?_, ?_⟩
  · rcases List.mem_append.1 (hperm.mem_iff.2 hx) with hx | hx
    · exact hq x hx
    · exact hdrop x hx
  · rw [← List.length_eq_zero_iff, ← hperm.length_eq, List.length_append, List.length_drop,
      Nat.add_eq_zero_iff, List.length_eq_zero_iff]
    exact and_congr_right fun _ => by omega

/-- What a parser reads is the next `k` bytes. -/
theorem take_front (hk : k ≤ b.length) : (q ++ (b ++ rest)).take k = (q ++ b).take k := by
  rw [← List.append_assoc, List.take_append_of_le_length]
  rw [List.length_append]
  omega

end Behind

section Ints

variable {q rest : Bytes} {n : ℤ} {type w : ℕ} {v : Value} {pos' : ℤ}

/-- How many bytes the client takes for an integer. -/
def readWidth (type w : ℕ) : ℕ := if type = 0x09 then 3 else w

theorem intParser (h : intWidth type = some w) :
    binaryParser type = some (getInt (readWidth type w)) ∧ w ≤ 8
      ∧ (type = 0x09 → w = 4) ∧ (type ≠ 0x09 → intBits type = 8 * w) := by
  unfold intWidth at h
  split at h <;> cases h <;> refine ⟨rfl, by omega, by omega, fun h => ?_⟩ <;>
    first | rfl | exact absurd rfl h

theorem readWidth_le (h : intWidth type = some w) : readWidth type w ≤ w := by
  have := (intParser h).2.2.1
  unfold readWidth
  split_ifs <;> omega

theorem readWidth_eq (h : intWidth type = some w) : readWidth type w = w ↔ type ≠ 0x09 := by
  have := (intParser h).2.2.1
  unfold readWidth
  split_ifs <;> omega

/-- The byte of an `INT24` that the client does not read. -/
theorem edge_int24 (sg : Bool)
    (hn : if sg then -2 ^ 24 ≤ 2 * n ∧ 2 * n < 2 ^ 24 else 0 ≤ n ∧ n < 2 ^ 24) :
    Edge ((le 4 (n % 2 ^ 32).toNat).drop 3) := by
  intro x hx
  have hx : x = UInt8.ofNat ((n % 2 ^ 32).toNat / 256 / 256 / 256) := by
    simpa [le] using hx
  have hcases : (n % 2 ^ 32).toNat / 256 / 256 / 256 = 0
      ∨ (n % 2 ^ 32).toNat / 256 / 256 / 256 = 255 := by
    split_ifs at hn <;> omega
  rcases hcases with h | h <;> rw [hx, h]
  · exact .inl rfl
  · exact .inr rfl

theorem behind_int (h : Left data pos (q ++ ((Cell.int n).encode type ++ rest))) (hq : Edge q)
    (hfits : (Cell.int n).Fits type (!sg)) (hw : intWidth type = some w)
    (hread : getInt (readWidth type w) data pos sg = .ok (v, pos'))
    (hv : v = cellValue type (.int n)) :
    Behind data pos' rest (q = [] ∧ type ≠ 0x09) := by
  obtain ⟨-, hw8, h9, -⟩ := intParser hw
  have hk := readWidth_le hw
  have hencode : (Cell.int n).encode type = le w (n % 2 ^ (8 * w)).toNat := by
    rw [Cell.encode, hw]
    rfl
  rw [hencode] at h
  have hklen : readWidth type w ≤ (le w (n % 2 ^ (8 * w)).toNat).length := by rwa [length_le]
  rw [getInt_left h (by simp only [List.length_append]; omega), take_front hklen] at hread
  obtain ⟨hvalue, rfl⟩ := Prod.mk.inj (Except.ok.inj hread)
  have hlen : ((q ++ le w (n % 2 ^ (8 * w)).toNat).take (readWidth type w)).length
      = readWidth type w := by
    rw [List.length_take, List.length_append]
    omega
  have htake := eq_le_of_intValue (by rw [hlen]; omega) (hvalue.trans hv)
  rw [hlen] at htake
  have hdvd : (2 ^ (8 * readWidth type w) : ℤ) ∣ 2 ^ (8 * w) := pow_dvd_pow 2 (by omega)
  have hmod : (n % 2 ^ (8 * readWidth type w)).toNat
      = (n % 2 ^ (8 * w)).toNat % 256 ^ readWidth type w := by
    have hpos : (0 : ℤ) < 2 ^ (8 * w) := by positivity
    obtain ⟨m, hm⟩ := Int.eq_ofNat_of_zero_le (Int.emod_nonneg n hpos.ne')
    rw [← Int.emod_emod_of_dvd n hdvd, hm, show (256 : ℕ) = 2 ^ 8 by rfl, ← pow_mul]
    rfl
  rw [hmod, le_mod, ← take_le hk] at htake
  refine (behind_of_take h hq hklen htake ?_).imp fun q' hq' => ⟨hq'.1, hq'.2.1, hq'.2.2.trans ?_⟩
  · by_cases ht : type = 0x09
    · obtain rfl := h9 ht
      rw [readWidth, if_pos ht]
      refine edge_int24 sg ?_
      subst ht
      cases sg <;> exact hfits.2
    · rw [readWidth, if_neg ht, List.drop_eq_nil_of_le (by rw [length_le])]
      exact fun x hx => absurd hx List.not_mem_nil
  · rw [length_le, readWidth_eq hw]

end Ints

section Others

variable {q rest s : Bytes} {v : Value} {pos' : ℤ} {t : Temporal} {type : ℕ}

/-- The bytes that are read have the right number. -/
theorem behind_bytes {k n : ℕ} (h : Left data pos (q ++ (le k n ++ rest))) (hq : Edge q)
    (hn : ofLe ((q ++ le k n).take k) = n) : Behind data (pos + k) rest (q = []) := by
  have hlen : ((q ++ le k n).take k).length = k := by
    rw [List.length_take, List.length_append, length_le]
    omega
  have htake : (q ++ le k n).take k = (le k n).take k := by
    rw [← le_ofLe ((q ++ le k n).take k), hlen, hn, take_le le_rfl]
  refine (behind_of_take h hq (length_le k n).ge htake ?_).imp fun q' hq' =>
    ⟨hq'.1, hq'.2.1, hq'.2.2.trans (and_iff_left (length_le k n).symm)⟩
  rw [List.drop_eq_nil_of_le (length_le k n).le]
  exact fun x hx => absurd hx List.not_mem_nil

theorem length_front (k n : ℕ) : k ≤ (q ++ (le k n ++ rest)).length := by
  simp only [List.length_append, length_le]
  omega

theorem behind_float {bits : UInt32} (h : Left data pos (q ++ (le 4 bits.toNat ++ rest)))
    (hq : Edge q) (hread : getFloat data pos sg = .ok (.float (doubleOfFloat bits), pos')) :
    Behind data pos' rest (q = []) := by
  rw [getFloat_left h (length_front 4 _), take_front (length_le 4 _).ge] at hread
  obtain ⟨hvalue, rfl⟩ := Prod.mk.inj (Except.ok.inj hread)
  have hbits := congrArg UInt32.toNat (doubleOfFloat_inj (Value.float.inj hvalue))
  have hlt := ofLe_lt ((q ++ le 4 bits.toNat).take 4)
  rw [List.length_take, List.length_append, length_le, min_eq_left (by omega)] at hlt
  rw [UInt32.toNat_ofNat', Nat.mod_eq_of_lt (show _ < 2 ^ 32 from hlt)] at hbits
  exact behind_bytes h hq hbits

theorem behind_double {bits : UInt64} (h : Left data pos (q ++ (le 8 bits.toNat ++ rest)))
    (hq : Edge q) (hread : getDouble data pos sg = .ok (.float bits, pos')) :
    Behind data pos' rest (q = []) := by
  rw [getDouble_left h (length_front 8 _), take_front (length_le 8 _).ge] at hread
  obtain ⟨hvalue, rfl⟩ := Prod.mk.inj (Except.ok.inj hread)
  have hbits := congrArg UInt64.toNat (Value.float.inj hvalue)
  have hlt := ofLe_lt ((q ++ le 8 bits.toNat).take 8)
  rw [List.length_take, List.length_append, length_le, min_eq_left (by omega)] at hlt
  rw [UInt64.toNat_ofNat', Nat.mod_eq_of_lt (show _ < 2 ^ 64 from hlt)] at hbits
  exact behind_bytes h hq hbits

theorem length_byte {x : UInt8} {n : Int64} (h : Left data pos (x :: s)) (hx : x.toNat ≤ 250)
    (hn : Int64.ofNat x.toNat = n) : fromLengthCodedBin data pos = .ok (.integer n, pos + 1) := by
  rw [fromLengthCodedBin, (h.at (a := [x])).byte, ← hn]
  exact if_pos hx

theorem length_zero (h : Left data pos (0 :: s)) :
    fromLengthCodedBin data pos = .ok (.integer 0, pos + 1) := length_byte h (by decide) rfl

theorem length_false (h : Left data pos (255 :: s)) :
    fromLengthCodedBin data pos = .ok (.boolean false, pos + 1) := by
  rw [fromLengthCodedBin, (h.at (a := [255])).byte]
  rfl

/-- A length of 0 is taken for another one. -/
theorem behind_zero (h : Left data pos (0 :: q ++ ([0] ++ rest))) (hq : Edge (0 :: q)) :
    Behind data (pos + 1) rest False := by
  refine ⟨q ++ [0], ?_, fun x hx => hq x ?_, by simp⟩
  · rw [List.append_assoc]
    exact h.tail
  · simpa [or_comm] using hx

/-- An empty string, or none. -/
theorem behind_string (h : Left data pos (q ++ (lenencStr s ++ rest))) (hq : Edge q)
    (hne : q ≠ []) (hread : getString data pos sg = .ok (.string s, pos')) :
    Behind data pos' rest False := by
  obtain ⟨x, q, rfl⟩ := List.exists_cons_of_ne_nil hne
  rcases hq x List.mem_cons_self with rfl | rfl
  · have hempty : sub data (pos + 1) (pos + 1 + (0 : Int64).toInt - 1) = [] :=
      At.sub (Left.at (a := []) (b := q ++ (lenencStr s ++ rest)) (h.tail)) rfl
    rw [getString, fromLengthCodedStr, length_zero h] at hread
    obtain ⟨hvalue, rfl⟩ := Prod.mk.inj (Except.ok.inj hread)
    obtain rfl : s = [] := by rw [← Value.string.inj hvalue, hempty]
    have hpos : pos + 1 + (0 : Int64).toInt = pos + 1 := Int.add_zero _
    rw [hpos]
    exact behind_zero h hq
  · rw [getString, fromLengthCodedStr, length_false h] at hread
    cases hread

/-- A number that is not 0 has a digit that is not 0. -/
theorem exists_digit {n : ℕ} (w : ℕ) (hn : 0 < n) :
    ∃ x ∈ padded w n, isDigit x = true ∧ x ≠ 48 := by
  obtain ⟨x, s, hs, hx⟩ := head_numeral hn
  exact ⟨x, by rw [padded, hs]; simp, hx⟩

theorem zero_of_text (ht : type ≠ 0x0a)
    (h : temporalText type t = ascii "0000-00-00 00:00:00") : t.Zero := by
  have hno : ∀ x ∈ ascii "0000-00-00 00:00:00", ¬ (isDigit x && x ≠ 48) = true :=
    List.any_eq_false.1 rfl
  have hzero (w n : ℕ) (hsub : ∀ x ∈ padded w n, x ∈ temporalText type t) : n = 0 := by
    by_contra hn
    obtain ⟨x, hx, hdigit⟩ := exists_digit w (Nat.pos_of_ne_zero hn)
    exact hno x (h ▸ hsub x hx) (by simpa using hdigit)
  have htext : temporalText type t = dateText t.year t.month t.day ++ ascii " "
      ++ timeText t.hour t.minute t.second
      ++ if t.micro = 0 then [] else ascii "." ++ padded 6 t.micro := if_neg ht
  refine ⟨hzero 4 t.year ?_, hzero 2 t.month ?_, hzero 2 t.day ?_, hzero 2 t.hour ?_,
    hzero 2 t.minute ?_, hzero 2 t.second ?_, ?_⟩
  all_goals first
    | (intro x hx
       rw [htext]
       simp only [dateText, timeText, List.mem_append, hx, true_or, or_true])
    | skip
  by_contra hmicro
  refine hmicro (hzero 6 t.micro fun x hx => ?_)
  rw [htext, if_neg hmicro]
  simp only [List.mem_append, hx, or_true]

end Others

section Temporal

variable {q rest : Bytes} {v : Value} {pos' : ℤ} {t : Temporal} {type : ℕ}

/-- The sizes and the values of fields that stand one after the other. -/
theorem unpackFields_left (fields : List (ℕ × ℕ))
    (h : Left data pos (fields.flatMap (fun f => le f.1 f.2) ++ rest))
    (hfits : ∀ f ∈ fields, f.1 ≤ 8 ∧ f.2 < 256 ^ f.1) :
    unpackFields data (fields.map Prod.fst) pos = some (fields.map Prod.snd,
      pos + (fields.flatMap fun f => le f.1 f.2).length) := by
  induction fields generalizing pos with
  | nil => simp [unpackFields]
  | cons f fields ih =>
    obtain ⟨⟨hk, hn⟩, hfits⟩ := List.forall_mem_cons.1 hfits
    rw [List.flatMap_cons, List.append_assoc] at h
    have htail := ih h.right hfits
    have hnat : (UInt64.ofNat f.2).toNat = f.2 := by
      have hpow : 256 ^ f.1 ≤ 256 ^ 8 := Nat.pow_le_pow_right (by omega) hk
      rw [UInt64.toNat_ofNat', Nat.mod_eq_of_lt (by omega)]
    rw [length_le] at htail
    simp only [List.map_cons, unpackFields, h.at.unpackUnsigned hn, Option.bind_eq_bind,
      Option.bind_some, htail, hnat, Option.pure_def, List.flatMap_cons, List.length_append,
      length_le]
    push_cast
    rw [Int.add_assoc]

/-- What `getDatetime` does after the length. -/
theorem getDatetime_of_length {len : Int64} {p : ℤ}
    (h : fromLengthCodedBin data pos = .ok (.integer len, p)) : getDatetime data pos sg
      = if len = 7 then do
          match ← orRaise (unpackFields data [2, 1, 1, 1, 1, 1] p) with
          | ([year, month, day, hour, minute, second], p) =>
            let date := dateText year month day
            return (.string (date ++ ascii " " ++ timeText hour minute second), p)
          | _ => .error .argument
        else if len = 4 then do
          match ← orRaise (unpackFields data [2, 1, 1] p) with
          | ([year, month, day], p) =>
            return (.string (dateText year month day ++ ascii " 00:00:00"), p)
          | _ => .error .argument
        else .ok (.string (ascii "0000-00-00 00:00:00"), p + len.toInt) := by
  rw [getDatetime, h]
  rfl

theorem getDate_of_length {len : Int64} {p : ℤ}
    (h : fromLengthCodedBin data pos = .ok (.integer len, p)) : getDate data pos sg
      = if len = 4 then do
          match ← orRaise (unpackFields data [2, 1, 1] p) with
          | ([year, month, day], p) => return (.string (dateText year month day), p)
          | _ => .error .argument
        else .error (.message (ascii "unsupported date format, len=" ++ intNumeral len.toInt)) := by
  rw [getDate, h]
  rfl

theorem unpack_date {p : ℤ} (h : Left data p (t.date ++ rest)) (hfits : t.Fits) :
    unpackFields data [2, 1, 1] p = some ([t.year, t.month, t.day], p + (4 : ℕ)) := by
  obtain ⟨h1, h2, h3, -⟩ := hfits
  have hfields := unpackFields_left [(2, t.year), (1, t.month), (1, t.day)]
    (by simpa [Temporal.date] using h)
    (by
      simp only [List.forall_mem_cons]
      exact ⟨⟨by omega, h1⟩, ⟨by omega, h2⟩, ⟨by omega, h3⟩, by simp⟩)
  simpa using hfields

theorem unpack_datetime {p : ℤ} (h : Left data p (t.date ++ t.time ++ rest)) (hfits : t.Fits) :
    unpackFields data [2, 1, 1, 1, 1, 1] p
      = some ([t.year, t.month, t.day, t.hour, t.minute, t.second], p + (7 : ℕ)) := by
  obtain ⟨h1, h2, h3, h4, h5, h6, -⟩ := hfits
  have hfields := unpackFields_left [(2, t.year), (1, t.month), (1, t.day),
    (1, t.hour), (1, t.minute), (1, t.second)]
    (by simpa [Temporal.date, Temporal.time] using h)
    (by
      simp only [List.forall_mem_cons]
      exact ⟨⟨by omega, h1⟩, ⟨by omega, h2⟩, ⟨by omega, h3⟩, ⟨by omega, h4⟩, ⟨by omega, h5⟩,
        ⟨by omega, h6⟩, by simp⟩)
  simpa using hfields

/-- The text of a date and a time without a fraction. -/
theorem datetimeText (ht : type ≠ 0x0a) (hmicro : t.micro = 0) : temporalText type t
    = dateText t.year t.month t.day ++ ascii " " ++ timeText t.hour t.minute t.second := by
  rw [temporalText, if_neg ht, if_pos hmicro, List.append_nil]

theorem getDatetime_readable (h : Left data pos (t.encode ++ rest)) (hfits : t.Fits)
    (ht : type ≠ 0x0a) (hmicro : t.micro = 0) : getDatetime data pos sg
      = .ok (.string (temporalText type t), pos + t.encode.length) := by
  rw [datetimeText ht hmicro]
  unfold Temporal.encode at h ⊢
  split_ifs at h ⊢ with hzero hmidnight
  · obtain ⟨hy, hm, hd, hh, hmi, hs, -⟩ := hzero
    rw [getDatetime_of_length (length_zero h), if_neg (by decide), if_neg (by decide), hy, hm, hd,
      hh, hmi, hs]
    have hzeros : dateText 0 0 0 ++ ascii " " ++ timeText 0 0 0
        = ascii "0000-00-00 00:00:00" := rfl
    rw [hzeros]
    exact congrArg (fun p => Except.ok (_, p)) (Int.add_zero _)
  · obtain ⟨hh, hmi, hs, -⟩ := hmidnight
    have hmidnight : timeText 0 0 0 = ascii "00:00:00" := rfl
    rw [getDatetime_of_length (length_byte (n := 4) h (by decide) rfl), if_neg (by decide),
      if_pos rfl, unpack_date h.tail hfits, hh, hmi, hs, hmidnight]
    have hspace : ascii " 00:00:00" = ascii " " ++ ascii "00:00:00" := rfl
    simp only [orRaise, Temporal.date, pure, Except.pure, bind, Except.bind, hspace,
      List.append_assoc, List.length_cons, List.length_append, length_le]
    congr 2
    omega
  · rw [getDatetime_of_length (length_byte (n := 7) h (by decide) rfl), if_pos rfl,
      unpack_datetime h.tail hfits]
    simp only [orRaise, Temporal.date, Temporal.time, pure, Except.pure, bind, Except.bind,
      List.length_cons, List.length_append, length_le]
    congr 2
    omega

theorem getDate_readable (h : Left data pos (t.encode ++ rest)) (hfits : t.Fits)
    (hmidnight : t.Midnight) (hzero : ¬ t.Zero) : getDate data pos sg
      = .ok (.string (temporalText 0x0a t), pos + t.encode.length) := by
  unfold Temporal.encode at h ⊢
  rw [if_neg hzero, if_pos hmidnight] at h ⊢
  rw [getDate_of_length (length_byte (n := 4) h (by decide) rfl), if_pos rfl,
    unpack_date h.tail hfits, temporalText, if_pos rfl]
  simp only [orRaise, Temporal.date, pure, Except.pure, bind, Except.bind, List.length_cons,
    List.length_append, length_le]
  congr 2
  omega

theorem behind_datetime (h : Left data pos (q ++ (t.encode ++ rest))) (hq : Edge q)
    (hfits : t.Fits) (ht : type ≠ 0x0a)
    (hread : getDatetime data pos sg = .ok (.string (temporalText type t), pos')) :
    Behind data pos' rest (q = [] ∧ t.micro = 0) := by
  cases q with
  | nil =>
    by_cases hmicro : t.micro = 0
    · rw [getDatetime_readable h hfits ht hmicro] at hread
      obtain ⟨-, rfl⟩ := Prod.mk.inj (Except.ok.inj hread)
      exact ⟨[], Left.right (a := t.encode) h, hq, by simp [hmicro]⟩
    · have hzero : ¬ t.Zero := fun hzero => hmicro hzero.2.2.2.2.2.2
      have hmidnight : ¬ t.Midnight := fun hmidnight => hmicro hmidnight.2.2.2
      rw [List.nil_append, Temporal.encode, if_neg hzero, if_neg hmidnight, if_neg hmicro] at h
      rw [getDatetime_of_length (length_byte (n := 11) h (by decide) rfl), if_neg (by decide),
        if_neg (by decide)] at hread
      obtain ⟨hvalue, -⟩ := Prod.mk.inj (Except.ok.inj hread)
      exact absurd (zero_of_text ht (Value.string.inj hvalue).symm) hzero
  | cons x q =>
    rcases hq x List.mem_cons_self with rfl | rfl
    · rw [getDatetime_of_length (length_zero h), if_neg (by decide), if_neg (by decide)] at hread
      obtain ⟨hvalue, rfl⟩ := Prod.mk.inj (Except.ok.inj hread)
      have hzero := zero_of_text ht (Value.string.inj hvalue).symm
      have hpos : pos + 1 + (0 : Int64).toInt = pos + 1 := Int.add_zero _
      rw [Temporal.encode, if_pos hzero] at h
      rw [hpos]
      exact (behind_zero h hq).imp fun q' hq' => ⟨hq'.1, hq'.2.1, hq'.2.2.trans (by simp)⟩
    · rw [getDatetime, length_false h] at hread
      cases hread

theorem behind_date (h : Left data pos (q ++ (t.encode ++ rest))) (hq : Edge q)
    (hfits : t.Fits) (hmidnight : t.Midnight)
    (hread : getDate data pos sg = .ok (v, pos')) :
    Behind data pos' rest (q = [] ∧ ¬ t.Zero) := by
  cases q with
  | nil =>
    by_cases hzero : t.Zero
    · rw [List.nil_append, Temporal.encode, if_pos hzero] at h
      rw [getDate_of_length (length_zero h), if_neg (by decide)] at hread
      cases hread
    · rw [getDate_readable h hfits hmidnight hzero] at hread
      obtain ⟨-, rfl⟩ := Prod.mk.inj (Except.ok.inj hread)
      exact ⟨[], Left.right (a := t.encode) h, hq, by simp [hzero]⟩
  | cons x q =>
    rcases hq x List.mem_cons_self with rfl | rfl
    · rw [getDate_of_length (length_zero h), if_neg (by decide)] at hread
      cases hread
    · rw [getDate, length_false h] at hread
      cases hread

end Temporal

section Cells

variable {q rest s : Bytes} {v : Value} {pos' : ℤ} {c : Cell} {type : ℕ}
  {parser : Bytes → ℤ → Bool → Except Error (Value × ℤ)}

theorem getString_left (h : Left data pos (lenencStr s ++ rest)) (hs : s.length < 2 ^ 63) :
    getString data pos sg = .ok (.string s, pos + (lenencStr s).length) := by
  rw [lenencStr, List.append_assoc] at h
  have hright := h.right
  have hlen : (Int64.ofNat s.length).toInt = s.length := Int64.toInt_ofNat_of_lt hs
  rw [getString, fromLengthCodedStr, fromLengthCodedBin_at h.at (by omega)]
  simp only [bind, Except.bind, pure, Except.pure, hlen]
  rw [hright.at.sub rfl, lenencStr, List.length_append]
  push_cast
  rw [Int.add_assoc]

theorem stringParser
    (h : type ∈ [0x0f, 0x10, 0xf5, 0xf9, 0xfa, 0xfb, 0xfc, 0xfd, 0xfe]) :
    binaryParser type = some getString := by
  simp only [List.mem_cons, List.not_mem_nil, or_false] at h
  rcases h with rfl | rfl | rfl | rfl | rfl | rfl | rfl | rfl | rfl <;> rfl

/-- A cell is read, unless it is one of those that are not. -/
theorem read_readable (h : Left data pos (c.encode type ++ rest)) (hfits : c.Fits type (!sg))
    (hlen : (c.encode type).length < 2 ^ 63) (hc : Readable type c) :
    ∃ parser, binaryParser type = some parser
      ∧ parser data pos sg = .ok (cellValue type c, pos + (c.encode type).length) := by
  cases c with
  | int n =>
    obtain ⟨w, hw⟩ := Option.isSome_iff_exists.1 hfits.1
    obtain ⟨hparser, -, -, hbits⟩ := intParser hw
    rw [(readWidth_eq hw).2 hc.1] at hparser
    have hencode : (Cell.int n).encode type = le w (n % 2 ^ (8 * w)).toNat := by
      rw [Cell.encode, hw]
      rfl
    have hrange := hfits.2
    rw [hbits hc.1] at hrange
    rw [hencode] at h ⊢
    refine ⟨_, hparser, ?_⟩
    rw [getInt_left h (by rw [List.length_append, length_le]; omega), length_le, cellValue,
      List.take_append_of_le_length (length_le w _).ge, take_le le_rfl, intValue_le]
    cases sg <;> exact hrange
  | float bits =>
    obtain rfl : type = 0x04 := hfits
    refine ⟨_, rfl, ?_⟩
    have hlt : ofLe (le 4 bits.toNat) = bits.toNat := ofLe_le_of_lt bits.toNat_lt
    rw [Cell.encode] at h ⊢
    rw [getFloat_left h (length_front (q := []) 4 _), length_le, cellValue,
      List.take_append_of_le_length (length_le 4 _).ge, take_le le_rfl, hlt, UInt32.ofNat_toNat]
  | double bits =>
    obtain rfl : type = 0x05 := hfits
    refine ⟨_, rfl, ?_⟩
    have hlt : ofLe (le 8 bits.toNat) = bits.toNat := ofLe_le_of_lt bits.toNat_lt
    rw [Cell.encode] at h ⊢
    rw [getDouble_left h (length_front (q := []) 8 _), length_le, cellValue,
      List.take_append_of_le_length (length_le 8 _).ge, take_le le_rfl, hlt, UInt64.ofNat_toNat]
  | temporal t =>
    obtain ⟨hplain, hzero⟩ := hc
    obtain ⟨ht, rfl | rfl | ⟨rfl, hmidnight⟩⟩ := hfits
    · exact ⟨_, rfl, getDatetime_readable h ht (by decide) hplain⟩
    · exact ⟨_, rfl, getDatetime_readable h ht (by decide) hplain⟩
    · exact ⟨_, rfl, getDate_readable h ht hmidnight fun h => hzero ⟨rfl, h⟩⟩
  | string s =>
    have hs : s.length < 2 ^ 63 := by
      rw [Cell.encode, lenencStr, List.length_append] at hlen
      omega
    exact ⟨_, stringParser hfits, getString_left h hs⟩

/-- What a cell that is read right leaves. -/
theorem behind_of_right (h : Left data pos (q ++ (c.encode type ++ rest))) (hq : Edge q)
    (hfits : c.Fits type (!sg)) (hlen : (c.encode type).length < 2 ^ 63)
    (hparser : binaryParser type = some parser) (hread : parser data pos sg = .ok (v, pos'))
    (hv : v = cellValue type c) : Behind data pos' rest (q = [] ∧ Readable type c) := by
  cases c with
  | int n =>
    obtain ⟨w, hw⟩ := Option.isSome_iff_exists.1 hfits.1
    obtain rfl := Option.some.inj ((intParser hw).1.symm.trans hparser)
    exact (behind_int h hq hfits hw hread hv).imp fun q' hq' =>
      ⟨hq'.1, hq'.2.1, hq'.2.2.trans (by simp [Readable, Plain, ZeroDate])⟩
  | float bits =>
    obtain rfl : type = 0x04 := hfits
    obtain rfl := Option.some.inj hparser
    subst hv
    exact (behind_float h hq hread).imp fun q' hq' =>
      ⟨hq'.1, hq'.2.1, hq'.2.2.trans (by simp [Readable, Plain, ZeroDate])⟩
  | double bits =>
    obtain rfl : type = 0x05 := hfits
    obtain rfl := Option.some.inj hparser
    subst hv
    exact (behind_double h hq hread).imp fun q' hq' =>
      ⟨hq'.1, hq'.2.1, hq'.2.2.trans (by simp [Readable, Plain, ZeroDate])⟩
  | temporal t =>
    subst hv
    obtain ⟨ht, hcases⟩ := hfits
    by_cases hdate : type = 0x0a
    · subst hdate
      obtain rfl := Option.some.inj hparser
      have hmidnight : t.Midnight := by simpa using hcases
      exact (behind_date h hq ht hmidnight hread).imp fun q' hq' =>
        ⟨hq'.1, hq'.2.1, hq'.2.2.trans (by simp [Readable, Plain, ZeroDate, hmidnight.2.2.2])⟩
    · have hget : parser = getDatetime := by
        rcases hcases with rfl | rfl | ⟨rfl, -⟩
        · exact (Option.some.inj hparser).symm
        · exact (Option.some.inj hparser).symm
        · exact absurd rfl hdate
      subst hget
      exact (behind_datetime h hq ht hdate hread).imp fun q' hq' =>
        ⟨hq'.1, hq'.2.1, hq'.2.2.trans (by simp [Readable, Plain, ZeroDate, hdate])⟩
  | string s =>
    obtain rfl := Option.some.inj ((stringParser hfits).symm.trans hparser)
    subst hv
    cases q with
    | nil =>
      have hs : s.length < 2 ^ 63 := by
        rw [Cell.encode, lenencStr, List.length_append] at hlen
        omega
      rw [getString_left h hs] at hread
      obtain ⟨-, rfl⟩ := Prod.mk.inj (Except.ok.inj hread)
      exact ⟨[], Left.right (a := lenencStr s) h, hq, by simp [Readable, Plain, ZeroDate]⟩
    | cons x q =>
      exact (behind_string h hq (List.cons_ne_nil x q) hread).imp fun q' hq' =>
        ⟨hq'.1, hq'.2.1, hq'.2.2.trans (by simp)⟩

/-- A zero date, where it is reached. -/
theorem getDate_zero (sg : Bool) (h : Left data pos (c.encode type ++ rest)) (hc : ZeroDate type c) :
    binaryParser type = some getDate ∧ getDate data pos sg
      = .error (.message (ascii "unsupported date format, len=0")) := by
  cases c with
  | temporal t =>
    obtain ⟨rfl, hzero⟩ := hc
    rw [Cell.encode, Temporal.encode, if_pos hzero] at h
    have htext : ascii "unsupported date format, len=" ++ intNumeral (0 : Int64).toInt
        = ascii "unsupported date format, len=0" := rfl
    refine ⟨rfl, ?_⟩
    rw [getDate_of_length (length_zero h), if_neg (by decide), htext]
  | int | float | double | string => exact hc.elim

end Cells

section Nulls

theorem and_bit (n j : ℕ) : decide (n &&& (1 <<< j) ≠ 0) = n.testBit j := by
  have hbit (i : ℕ) : (n &&& (1 <<< j)).testBit i = (n.testBit i && decide (j = i)) := by
    rw [Nat.testBit_and, Nat.shiftLeft_eq, Nat.one_mul, Nat.testBit_two_pow]
  by_cases hn : n.testBit j
  · have hne : n &&& (1 <<< j) ≠ 0 := fun h => by simpa [h, hn] using hbit j
    simp [hne, hn]
  · have hzero : n &&& (1 <<< j) = 0 := Nat.eq_of_testBit_eq fun i => by
      rw [hbit, Nat.zero_testBit]
      by_cases hi : j = i
      · simp [← hi, hn]
      · simp [hi]
    simp [hzero, hn]

/-- The bits of a bitmap, one after the other. -/
theorem bits_bitmap (f : ℕ → Bool) (len : ℕ) :
    ((bitmap f len).flatMap fun byte =>
      (List.range 8).map fun j => decide (byte.toNat &&& (1 <<< j) ≠ 0))
      = (List.range (8 * len)).map f := by
  induction len with
  | zero => rfl
  | succ len ih =>
    have hlast : (List.range 8).map (fun j => decide ((bitmapByte f len).toNat &&& (1 <<< j) ≠ 0))
        = (List.range 8).map fun j => f (8 * len + j) := by
      refine List.map_congr_left fun j hj => ?_
      rw [and_bit, testBit_bitmapByte f len (List.mem_range.1 hj)]
    have hbitmap : bitmap f (len + 1) = bitmap f len ++ [bitmapByte f len] := by
      simp [bitmap, List.range_succ]
    rw [hbitmap, List.flatMap_append, ih, List.flatMap_singleton, hlast, Nat.mul_succ,
      List.range_add, List.map_append, List.map_map]
    rfl

/-- `null_fields` says which columns are NULL. -/
theorem nullFields_encodeRow (types : List ℕ) (cells : List (Option Cell)) :
    ∃ nulls, nullFields (encodeRow types cells) ((cells.length + 9) / 8) = .ok nulls
      ∧ ∀ i < cells.length, nulls.getD i false = (cells[i]?).any Option.isNone := by
  obtain ⟨f, hf⟩ : ∃ f, f = fun i => decide (2 ≤ i) && (cells[i - 2]?).any Option.isNone :=
    ⟨_, rfl⟩
  obtain ⟨len, hlen⟩ : ∃ len, len = (cells.length + 9) / 8 := ⟨_, rfl⟩
  have hbyte : ∀ i ∈ List.range len,
      byte (encodeRow types cells) (i + 2 : ℕ) = some (bitmapByte f i) := by
    intro i hi
    have hi := List.mem_range.1 hi
    have hget : (encodeRow types cells)[i + 1]? = some (bitmapByte f i) := by
      simp [encodeRow, ← hf, ← hlen, bitmap, List.getElem?_append_left, hi]
    have hlt : i + 1 < (encodeRow types cells).length := (List.getElem?_eq_some_iff.1 hget).1
    rw [byte, posrelatI_succ, getendpos_of_le (n := i + 2) hlt, if_neg (by omega)]
    exact hget
  refine ⟨((List.range (8 * len)).map f).drop 2, ?_, fun i hi => ?_⟩
  · rw [← hlen, nullFields, mapM_some hbyte, orRaise]
    exact congrArg (fun bits : List Bool => Except.ok (bits.drop 2)) (bits_bitmap f len)
  · have hrange : 2 + i < 8 * len := by omega
    rw [List.getD_eq_getElem?_getD, List.getElem?_drop, List.getElem?_map,
      List.getElem?_range hrange, Option.map_some, Option.getD_some, hf]
    simp

end Nulls

section Columns

variable {q : Bytes} {nulls : List Bool} {compact : Bool} {cols : List Col}
  {cells : List (Option Cell)} {i : ℕ}

/-- What was bound was read. -/
theorem bind_eq_ok {α β : Type} {x : Except Error α} {f : α → Except Error β} {b : β}
    (h : x >>= f = .ok b) : ∃ a, x = .ok a ∧ f a = .ok b := by
  cases x with
  | error e => cases h
  | ok a => exact ⟨a, rfl, h⟩

theorem encodeCells_cons (type : ℕ) (types : List ℕ) (cell : Option Cell) :
    encodeCells (type :: types) (cell :: cells)
      = (cell.map (Cell.encode type)).getD [] ++ encodeCells types cells := rfl

theorem nulls_tail {cell : Option Cell} (h : ∀ j < (cell :: cells).length,
      nulls.getD (i + j) false = ((cell :: cells)[j]?).any Option.isNone) :
    ∀ j < cells.length, nulls.getD (i + 1 + j) false = (cells[j]?).any Option.isNone := by
  intro j hj
  rw [Nat.add_assoc, Nat.add_comm 1]
  exact h (j + 1) (Nat.succ_lt_succ hj)

theorem parse_readable (h : Left data pos (encodeCells (cols.map Col.type) cells))
    (hfits : FitsRow cols cells)
    (hlen : (encodeCells (cols.map Col.type) cells).length < 2 ^ 63)
    (hnulls : ∀ j < cells.length, nulls.getD (i + j) false = (cells[j]?).any Option.isNone)
    (hreads : EachCell Readable cols cells) :
    parseColumns data nulls compact i cols pos = .ok (expectedFrom compact i cols cells,
      pos + (encodeCells (cols.map Col.type) cells).length) := by
  induction hfits generalizing pos i with
  | nil => simp [parseColumns, encodeCells, expectedFrom, pure, Except.pure]
  | @cons col cell cols cells hcell hfits ih =>
    obtain ⟨hc, htails⟩ := List.forall₂_cons.1 hreads
    rw [List.map_cons, encodeCells_cons] at h hlen ⊢
    rw [List.length_append] at hlen
    cases cell with
    | none =>
      have hhead : nulls.getD i false = true := hnulls 0 (Nat.succ_pos _)
      rw [parseColumns, if_pos hhead, ih h (by omega) (nulls_tail hnulls) htails, expectedFrom]
      simp
    | some c =>
      have hhead : nulls.getD i false = false := hnulls 0 (Nat.succ_pos _)
      simp only [Option.map_some, Option.getD_some] at h hlen ⊢
      obtain ⟨parser, hparser, hparse⟩ := read_readable h (hcell c rfl) (by omega) (hc c rfl)
      have hrow := ih h.right (by omega) (nulls_tail hnulls) htails
      rw [parseColumns, hhead, if_neg Bool.false_ne_true, hparser, expectedFrom]
      simp only [hparse, hrow, bind, Except.bind, pure, Except.pure, List.length_append]
      push_cast
      rw [Int.add_assoc]

/-- The columns before the first zero date are read right. -/
theorem parse_zeroDate (h : Left data pos (encodeCells (cols.map Col.type) cells))
    (hfits : FitsRow cols cells)
    (hlen : (encodeCells (cols.map Col.type) cells).length < 2 ^ 63)
    (hnulls : ∀ j < cells.length, nulls.getD (i + j) false = (cells[j]?).any Option.isNone)
    (hplain : EachCell Plain cols cells)
    (hzero : ¬ EachCell (fun type c => ¬ ZeroDate type c) cols cells) :
    parseColumns data nulls compact i cols pos
      = .error (.message (ascii "unsupported date format, len=0")) := by
  induction hfits generalizing pos i with
  | nil => exact absurd .nil hzero
  | @cons col cell cols cells hcell hfits ih =>
    obtain ⟨hc, htails⟩ := List.forall₂_cons.1 hplain
    rw [List.map_cons, encodeCells_cons] at h hlen
    rw [List.length_append] at hlen
    cases cell with
    | none =>
      have hhead : nulls.getD i false = true := hnulls 0 (Nat.succ_pos _)
      rw [parseColumns, if_pos hhead]
      exact ih h (by omega) (nulls_tail hnulls) htails fun h => hzero (.cons (by simp) h)
    | some c =>
      have hhead : nulls.getD i false = false := hnulls 0 (Nat.succ_pos _)
      simp only [Option.map_some, Option.getD_some] at h hlen
      by_cases hdate : ZeroDate col.type c
      · obtain ⟨hparser, hparse⟩ := getDate_zero col.isSigned h hdate
        rw [parseColumns, hhead, if_neg Bool.false_ne_true, hparser]
        simp only [hparse, bind, Except.bind]
      · obtain ⟨parser, hparser, hparse⟩ :=
          read_readable h (hcell c rfl) (by omega) ⟨hc c rfl, hdate⟩
        have hrow := ih (i := i + 1) h.right (by omega) (nulls_tail hnulls) htails fun h =>
          hzero (.cons (by simpa using hdate) h)
        rw [parseColumns, hhead, if_neg Bool.false_ne_true, hparser]
        simp only [hparse, hrow, bind, Except.bind]

/-- What is left of the row when every column was read right. -/
theorem behind_columns {pos' : ℤ}
    (h : Left data pos (q ++ encodeCells (cols.map Col.type) cells)) (hq : Edge q)
    (hfits : FitsRow cols cells)
    (hlen : (encodeCells (cols.map Col.type) cells).length < 2 ^ 63)
    (hnulls : ∀ j < cells.length, nulls.getD (i + j) false = (cells[j]?).any Option.isNone)
    (hread : parseColumns data nulls compact i cols pos
      = .ok (expectedFrom compact i cols cells, pos')) :
    Behind data pos' [] (q = [] ∧ EachCell Readable cols cells) := by
  induction hfits generalizing pos q i with
  | nil =>
    obtain ⟨-, rfl⟩ := Prod.mk.inj (Except.ok.inj hread)
    exact ⟨q, h, hq, (and_iff_left List.Forall₂.nil).symm⟩
  | @cons col cell cols cells hcell hfits ih =>
    rw [List.map_cons, encodeCells_cons] at h hlen
    rw [List.length_append] at hlen
    cases cell with
    | none =>
      have hhead : nulls.getD i false = true := hnulls 0 (Nat.succ_pos _)
      rw [parseColumns, if_pos hhead] at hread
      refine (ih h hq (by omega) (nulls_tail hnulls) hread).imp fun q' hq' =>
        ⟨hq'.1, hq'.2.1, hq'.2.2.trans (and_congr_right fun _ => ?_)⟩
      exact (List.forall₂_cons.trans (and_iff_right (by simp))).symm
    | some c =>
      have hhead : nulls.getD i false = false := hnulls 0 (Nat.succ_pos _)
      simp only [Option.map_some, Option.getD_some] at h hlen
      rw [parseColumns, hhead, if_neg Bool.false_ne_true, expectedFrom] at hread
      split at hread
      · cases hread
      · rename_i parser hparser
        obtain ⟨⟨v, pos₁⟩, hparse, hread⟩ := bind_eq_ok hread
        obtain ⟨⟨row, pos₂⟩, hrow, hread⟩ := bind_eq_ok hread
        obtain ⟨hcons, rfl⟩ := Prod.mk.inj (Except.ok.inj hread)
        obtain ⟨hhead, rfl⟩ := List.cons.inj hcons
        obtain ⟨q₁, hleft, hedge, hnil⟩ := behind_of_right h hq (hcell c rfl) (by omega) hparser
          hparse (Prod.mk.inj hhead).2
        refine (ih hleft hedge (by omega) (nulls_tail hnulls) hrow).imp fun q' hq' =>
          ⟨hq'.1, hq'.2.1, hq'.2.2.trans ?_⟩
        rw [hnil, and_assoc]
        refine and_congr_right fun _ => (List.forall₂_cons.trans (and_congr_left fun _ => ?_)).symm
        simp

/-- Behind the bitmap there are the values. -/
theorem left_encodeRow (types : List ℕ) (cells : List (Option Cell)) :
    Left (encodeRow types cells) (2 + (cells.length + 9) / 8 : ℕ) (encodeCells types cells) := by
  refine ⟨_, rfl, ?_⟩
  rw [List.length_cons, length_bitmap, Nat.add_assoc, Nat.add_comm 2]

theorem parseRow_encodeRow (hfits : FitsRow cols cells) (compact : Bool) :
    ∃ nulls, (∀ i < cells.length, nulls.getD (0 + i) false = (cells[i]?).any Option.isNone)
      ∧ parseRow (encodeRow (cols.map Col.type) cells) cols compact
        = parseColumns (encodeRow (cols.map Col.type) cells) nulls compact 0 cols
          (2 + (cells.length + 9) / 8 : ℕ) := by
  obtain ⟨nulls, hnulls, hget⟩ := nullFields_encodeRow (cols.map Col.type) cells
  refine ⟨nulls, fun i hi => by rw [Nat.zero_add, hget i hi], ?_⟩
  rw [parseRow, hfits.length_eq]
  simp only [hnulls, bind, Except.bind]

end Columns

section Rows

variable {cols : List Col} {cells : List (Option Cell)} {compact : Bool}

theorem encodeCells_length_lt {types : List ℕ} (h : (encodeRow types cells).length < 2 ^ 63) :
    (encodeCells types cells).length < 2 ^ 63 := by
  rw [encodeRow, List.length_append] at h
  omega

/-- A row is read right if and only if no cell is an `INT24`, a fraction of a second or a zero
`DATE`. -/
theorem readRight_iff (hfits : FitsRow cols cells)
    (hsize : (encodeRow (cols.map Col.type) cells).length < 2 ^ 63) :
    ReadRight cols cells compact ↔ EachCell Readable cols cells := by
  obtain ⟨nulls, hnulls, hparse⟩ := parseRow_encodeRow hfits compact
  have hleft := left_encodeRow (cols.map Col.type) cells
  have hlen := encodeCells_length_lt hsize
  rw [ReadRight, hparse]
  constructor
  · intro hread
    obtain ⟨q, hend, -, hnil⟩ := behind_columns (q := []) hleft (by simp [Edge]) hfits hlen hnulls
      hread
    have hpos := hend.pos_add
    rw [List.append_nil] at hpos
    exact (hnil.1 (List.length_eq_zero_iff.1 (by omega))).2
  · intro hreads
    rw [parse_readable hleft hfits hlen hnulls hreads, hleft.pos_add]

/-- Without an `INT24` and fractions of a second, a row is read right, but a zero `DATE` raises. -/
theorem row_decodes (cols : List Col) (cells : List (Option Cell)) (compact : Bool)
    (hfits : FitsRow cols cells)
    (hsize : (encodeRow (cols.map Col.type) cells).length < 2 ^ 63)
    (hplain : EachCell Plain cols cells) :
    (EachCell (fun type c => ¬ ZeroDate type c) cols cells → ReadRight cols cells compact)
      ∧ (¬ EachCell (fun type c => ¬ ZeroDate type c) cols cells →
        parseRow (encodeRow (cols.map Col.type) cells) cols compact
          = .error (.message (ascii "unsupported date format, len=0"))) := by
  obtain ⟨nulls, hnulls, hparse⟩ := parseRow_encodeRow hfits compact
  have hleft := left_encodeRow (cols.map Col.type) cells
  have hlen := encodeCells_length_lt hsize
  refine ⟨fun hzero => (readRight_iff hfits hsize).2 ?_, fun hzero => ?_⟩
  · exact List.Forall₂.mp (fun _ _ hp hz c hc => ⟨hp c hc, hz c hc⟩) hplain hzero
  · rw [hparse]
    exact parse_zeroDate hleft hfits hlen hnulls hplain hzero

/-- NULL, a time and a string; and a zero date. -/
theorem row_decodes_mixed :
    ReadRight [⟨ascii "n", 0x03, true⟩, ⟨ascii "t", 0x0c, false⟩, ⟨ascii "s", 0x0f, false⟩]
        [none, some (.temporal ⟨2017, 9, 8, 20, 8, 9, 0⟩), some (.string (ascii "ab"))] false
      ∧ parseRow (encodeRow [0x0a] [some (.temporal ⟨0, 0, 0, 0, 0, 0, 0⟩)])
        [⟨ascii "d", 0x0a, false⟩] false
          = .error (.message (ascii "unsupported date format, len=0")) :=
  ⟨(row_decodes [⟨ascii "n", 0x03, true⟩, ⟨ascii "t", 0x0c, false⟩, ⟨ascii "s", 0x0f, false⟩]
      [none, some (.temporal ⟨2017, 9, 8, 20, 8, 9, 0⟩), some (.string (ascii "ab"))] false
      (by simp [FitsRow, Cell.Fits, Temporal.Fits]) (by decide)
      (by simp [EachCell, Plain])).1 (by simp [EachCell, ZeroDate]),
    (row_decodes [⟨ascii "d", 0x0a, false⟩] [some (.temporal ⟨0, 0, 0, 0, 0, 0, 0⟩)] false
      (by simp [FitsRow, Cell.Fits, Temporal.Fits, Temporal.Midnight]) (by decide)
      (by simp [EachCell, Plain])).2
      (by simp [EachCell, ZeroDate, Temporal.Zero, Temporal.Midnight])⟩

/-- A zero `DATE` has the length 0, which is legal. -/
theorem not_decodes_zeroDate : ¬ ∀ (cols : List Col) (cells : List (Option Cell)) (compact : Bool),
    FitsRow cols cells → (encodeRow (cols.map Col.type) cells).length < 2 ^ 24 - 1 →
    ReadRight cols cells compact := by
  intro h
  have hread := h [⟨ascii "d", 0x0a, false⟩] [some (.temporal ⟨0, 0, 0, 0, 0, 0, 0⟩)] false
    (by simp [FitsRow, Cell.Fits, Temporal.Fits, Temporal.Midnight]) (by decide)
  have hraised : (parseRow (encodeRow [0x0a] [some (.temporal ⟨0, 0, 0, 0, 0, 0, 0⟩)])
      [⟨ascii "d", 0x0a, false⟩] false).isOk = false := rfl
  rw [ReadRight, List.map_singleton] at hread
  rw [hread] at hraised
  exact absurd hraised (by simp [Except.isOk, Except.toBool])

end Rows

end Mysql

end SkynetCpp
