import SkynetCpp.LuaString

/-!
# Fields of a Lua string

A string made of fields with a separator between them is taken apart again at the positions the
code computes: `find` from the start of a field without the separator gives the position of the
separator, and `sub` between two such positions gives the field. The text of an integer of 64 bits
is read as that integer.
-/

namespace SkynetCpp

open Lib

namespace LuaString

theorem posrelatI_succ (n len : ℕ) : posrelatI (n + 1 : ℕ) len = n + 1 := by
  simp [posrelatI]

theorem getendpos_of_le {n len : ℕ} (h : n ≤ len) : getendpos n len = n := by
  unfold getendpos
  rw [if_neg (by omega), if_pos (by omega)]
  rfl

theorem getendpos_neg_one (len : ℕ) : getendpos (-1) len = len := by
  unfold getendpos
  split_ifs <;> omega

/-- The part of a string between two others. -/
theorem sub_field (pre w rest : Bytes) :
    sub (pre ++ (w ++ rest)) (pre.length + 1 : ℕ) (pre.length + w.length : ℕ) = w := by
  simp only [sub]
  rw [posrelatI_succ, getendpos_of_le (by simp), Nat.add_sub_cancel, List.drop_left,
    show pre.length + w.length + 1 - (pre.length + 1) = w.length by omega, List.take_left]

theorem sub_rest (pre w : Bytes) : sub (pre ++ w) (pre.length + 1 : ℕ) (-1) = w := by
  simp only [sub]
  rw [posrelatI_succ, getendpos_neg_one, Nat.add_sub_cancel, List.drop_left,
    List.take_of_length_le]
  simp

theorem find_from (pre s sep : Bytes) :
    find (pre ++ s) sep (pre.length + 1 : ℕ)
      = (Socket.find sep s).map (· + (pre.length + 1)) := by
  simp only [find]
  rw [posrelatI_succ, Nat.add_sub_cancel, if_neg (by simp), List.drop_left]

section At

/-- These bytes stand at `pos`. -/
def At (data : Bytes) (pos : ℤ) (bytes : Bytes) : Prop :=
  ∃ pre post, data = pre ++ (bytes ++ post) ∧ pos = (pre.length + 1 : ℕ)

variable {data s a b : Bytes} {pos : ℤ}

theorem at_drop (data : Bytes) {n k : ℕ} (h : n + k ≤ data.length) :
    At data (n + 1 : ℕ) ((data.drop n).take k) := by
  refine ⟨data.take n, (data.drop n).drop k, ?_, ?_⟩
  · rw [List.take_append_drop, List.take_append_drop]
  · rw [List.length_take, min_eq_left (by omega)]

theorem At.left (h : At data pos (a ++ b)) : At data pos a := by
  obtain ⟨pre, post, rfl, rfl⟩ := h
  exact ⟨pre, b ++ post, by simp, rfl⟩

theorem At.right (h : At data pos (a ++ b)) : At data (pos + a.length) b := by
  obtain ⟨pre, post, rfl, rfl⟩ := h
  exact ⟨pre ++ a, post, by simp, by simp; omega⟩

theorem At.range (h : At data pos s) : 1 ≤ pos ∧ pos + s.length ≤ data.length + 1 := by
  obtain ⟨pre, post, rfl, rfl⟩ := h
  simp
  omega

theorem At.byte {c : UInt8} (h : At data pos (c :: s)) : byte data pos = some c := by
  obtain ⟨pre, post, rfl, rfl⟩ := h
  simp only [LuaString.byte]
  rw [posrelatI_succ, getendpos_of_le (by simp), if_neg (by omega)]
  simp

theorem At.sub (h : At data pos s) {last : ℤ} (hlast : last = pos + s.length - 1) :
    sub data pos last = s := by
  obtain ⟨pre, post, rfl, rfl⟩ := h
  rw [show last = (pre.length + s.length : ℕ) by omega]
  exact sub_field pre s post

theorem At.unpackBytes (h : At data pos s) {k : ℕ} (hk : s.length = k) :
    unpackBytes k data pos = some (s, pos + k) := by
  obtain ⟨pre, post, rfl, rfl⟩ := h
  simp only [LuaString.unpackBytes]
  rw [posrelatI_succ, Nat.add_sub_cancel, if_neg (by simp; omega), List.drop_left,
    ← hk, List.take_left]
  congr 2
  push_cast
  omega

theorem At.unpackInt {k : ℕ} {m : ℤ} (h : At data pos (le k (m % 2 ^ (8 * k)).toNat))
    (h0 : -2 ^ (8 * k) ≤ 2 * m) (h1 : 2 * m < 2 ^ (8 * k)) :
    unpackInt k data pos = some (m, pos + k) := by
  have hpos : (0 : ℤ) < 2 ^ (8 * k) := by positivity
  have hlt : (m % 2 ^ (8 * k)).toNat < 256 ^ k := by
    rw [show (256 : ℕ) = 2 ^ 8 by rfl, ← pow_mul, Int.toNat_lt (Int.emod_nonneg m hpos.ne')]
    push_cast
    exact Int.emod_lt_of_pos m hpos
  rw [LuaString.unpackInt, h.unpackBytes (length_le _ _), Option.map_some]
  simp only [ofLe_le_of_lt hlt, signed_emod h0 h1]

/-- A length. -/
theorem At.unpackLength {m : ℕ} (h : At data pos (le 4 m)) (hm : m < 2 ^ 31) :
    LuaString.unpackInt 4 data pos = some ((m : ℤ), pos + 4) := by
  have hmod : ((m : ℤ) % 2 ^ (8 * 4)).toNat = m := by omega
  exact At.unpackInt (by rwa [hmod]) (by omega) (by omega)

theorem At.unpackInt64 {m : Int64} (h : At data pos (le 8 (m.toInt % 2 ^ 64).toNat)) :
    LuaString.unpackInt 8 data pos = some (m.toInt, pos + 8) := by
  have h0 := m.minValue_le_toInt
  have h1 := m.toInt_le
  have hmin : Int64.minValue.toInt = -2 ^ 63 := rfl
  have hmax : Int64.maxValue.toInt = 2 ^ 63 - 1 := rfl
  exact At.unpackInt h (by omega) (by omega)

theorem At.unpackUnsigned {k m : ℕ} (h : At data pos (le k m)) (hm : m < 256 ^ k) :
    unpackUnsigned k data pos = some (UInt64.ofNat m, pos + k) := by
  rw [LuaString.unpackUnsigned, h.unpackBytes (length_le _ _), Option.map_some]
  simp only [ofLe_le_of_lt hm]

/-- From `pos` on there are these bytes and no others. -/
def Left (data : Bytes) (pos : ℤ) (bytes : Bytes) : Prop :=
  ∃ pre, data = pre ++ bytes ∧ pos = (pre.length + 1 : ℕ)

theorem Left.at (h : Left data pos (a ++ b)) : At data pos a := by
  obtain ⟨pre, rfl, rfl⟩ := h
  exact ⟨pre, b, rfl, rfl⟩

theorem Left.right (h : Left data pos (a ++ b)) : Left data (pos + a.length) b := by
  obtain ⟨pre, rfl, rfl⟩ := h
  exact ⟨pre ++ a, by simp, by simp; omega⟩

theorem Left.tail {x : UInt8} (h : Left data pos (x :: s)) : Left data (pos + 1) s :=
  Left.right (a := [x]) h

theorem Left.pos_add (h : Left data pos s) : pos + s.length = (data.length + 1 : ℕ) := by
  obtain ⟨pre, rfl, rfl⟩ := h
  simp
  omega

end At

/-- One byte is found where it stands first. -/
theorem find_byte {c : UInt8} {w : Bytes} (hw : ∀ b ∈ w, b ≠ c) (rest : Bytes) :
    Socket.find [c] (w ++ c :: rest) = some w.length := by
  induction w with
  | nil => simp [Socket.find, List.isPrefixOf]
  | cons b w ih =>
    obtain ⟨hb, hw⟩ := List.forall_mem_cons.1 hw
    rw [List.cons_append, Socket.find, ih hw]
    simp [List.isPrefixOf, Ne.symm hb]

theorem find_byte_none {c : UInt8} {w : Bytes} (hw : ∀ b ∈ w, b ≠ c) :
    Socket.find [c] w = none := by
  induction w with
  | nil => rfl
  | cons b w ih =>
    obtain ⟨hb, hw⟩ := List.forall_mem_cons.1 hw
    rw [Socket.find, ih hw]
    simp [List.isPrefixOf, Ne.symm hb]

section Words

theorem wordsFrom_append {w : Bytes} (hw : ∀ b ∈ w, isSpace b = false) (word s : Bytes) :
    wordsFrom word (w ++ s) = wordsFrom (word ++ w) s := by
  induction w generalizing word with
  | nil => rw [List.append_nil, List.nil_append]
  | cons b w ih =>
    obtain ⟨hb, hw⟩ := List.forall_mem_cons.1 hw
    rw [List.cons_append, wordsFrom, hb, if_neg Bool.false_ne_true, ih hw, List.append_assoc,
      List.singleton_append]

/-- A word that a blank ends. -/
theorem words_cons {w : Bytes} (hn : w ≠ []) (hw : ∀ b ∈ w, isSpace b = false) (s : Bytes) :
    words (w ++ 32 :: s) = w :: words s := by
  rw [words, wordsFrom_append hw, List.nil_append, wordsFrom, if_pos (by decide), if_neg hn,
    List.singleton_append, words]

theorem words_last {w : Bytes} (hn : w ≠ []) (hw : ∀ b ∈ w, isSpace b = false) :
    words w = [w] := by
  rw [← List.append_nil w, words, wordsFrom_append hw, List.nil_append, wordsFrom, if_neg hn,
    List.append_nil]

end Words

section Numbers

theorem isSpace_of_isDigit {b : UInt8} (h : isDigit b = true) : isSpace b = false := by
  simp only [isDigit, Bool.and_eq_true, decide_eq_true_eq] at h
  have hb : b ≠ 32 := by
    rintro rfl
    exact absurd h.1 (by decide)
  simp only [isSpace, hb, decide_false, Bool.false_or, Bool.and_eq_false_imp, decide_eq_true_eq,
    decide_eq_false_iff_not]
  omega

theorem isSpace_of_mem_intNumeral {n : ℤ} {b : UInt8} (hb : b ∈ intNumeral n) :
    isSpace b = false := by
  cases n with
  | ofNat n => exact isSpace_of_isDigit (isDigit_of_mem_numeral hb)
  | negSucc n =>
    rcases List.mem_cons.1 hb with rfl | hb
    · decide
    · exact isSpace_of_isDigit (isDigit_of_mem_numeral hb)

theorem intNumeral_ne_nil (n : ℤ) : intNumeral n ≠ [] := by
  cases n with
  | ofNat n => exact numeral_ne_nil n
  | negSucc n => exact List.cons_ne_nil _ _

theorem ne_zero_of_mem_intNumeral {n : ℤ} {b : UInt8} (hb : b ∈ intNumeral n) : b ≠ 0 := by
  have digit_ne : ∀ m, b ∈ numeral m → b ≠ 0 := by
    rintro m hm rfl
    exact absurd (isDigit_of_mem_numeral hm) (by decide)
  cases n with
  | ofNat n => exact digit_ne n hb
  | negSucc n =>
    rcases List.mem_cons.1 hb with rfl | hb
    · decide
    · exact digit_ne _ hb

/-- The loop over the digits of a number that does not overflow. -/
theorem decimal_numeral {neg : Bool} {n : ℕ} (hn : n < 2 ^ 63 + neg.toNat) (empty : Bool)
    (s : Bytes) : decimal neg 0 empty (numeral n ++ s) = decimal neg n false s := by
  induction n using digit_induction generalizing s with
  | one d hd =>
    rw [numeral_of_lt hd, List.singleton_append, decimal, if_pos (isDigit_digit hd),
      toNat_digit hd, if_neg (fun h => absurd h.1 (by decide))]
    congr 1
    omega
  | more m d hm hd ih =>
    have hfit : ¬ (MAXBY10 ≤ m ∧ (MAXBY10 < m ∨ MAXLASTD + neg.toNat < 48 + d - 48)) := by
      have := Bool.toNat_le neg
      rw [MAXBY10, MAXLASTD]
      omega
    rw [numeral_append hm hd, List.append_assoc, ih (by omega), List.singleton_append, decimal,
      if_pos (isDigit_digit hd), toNat_digit hd, if_neg hfit]
    congr 1
    omega

theorem decimal_of_numeral {neg : Bool} {n : ℕ} (hn : n < 2 ^ 63 + neg.toNat) :
    decimal neg 0 true (numeral n) = some ⟨n, false, []⟩ := by
  have := decimal_numeral hn true []
  rwa [List.append_nil, decimal] at this

/-- What `l_str2int` makes of the digits after a sign. -/
theorem str2int_signed {s : Bytes} (neg : Bool) {n : ℕ}
    (hs : isneg (s.dropWhile isSpace) = (neg, numeral n)) (hn : n < 2 ^ 63 + neg.toNat) :
    str2int s = some (Int64.ofInt (if neg then -(n : ℤ) else n)) := by
  unfold str2int
  rw [hs]
  simp only []
  split
  · rename_i rest h
    exact absurd (isDigit_of_mem_numeral (n := n) (b := 120) (by simp [h])) (by decide)
  · rename_i rest h
    exact absurd (isDigit_of_mem_numeral (n := n) (b := 88) (by simp [h])) (by decide)
  · rw [decimal_of_numeral hn]
    simp

/-- An integer's text does not begin with a blank. -/
theorem dropWhile_intNumeral (n : ℤ) : (intNumeral n).dropWhile isSpace = intNumeral n := by
  rcases h : intNumeral n with _ | ⟨b, s⟩
  · rfl
  · rw [List.dropWhile_cons, isSpace_of_mem_intNumeral (h ▸ List.mem_cons_self)]
    simp

theorem isneg_numeral (n : ℕ) : isneg (numeral n) = (false, numeral n) := by
  unfold isneg
  split
  · rename_i rest h
    exact absurd (isDigit_of_mem_numeral (n := n) (b := 45) (by simp [h])) (by decide)
  · rename_i rest h
    exact absurd (isDigit_of_mem_numeral (n := n) (b := 43) (by simp [h])) (by decide)
  · rfl

theorem str2int_intNumeral {n : ℤ} (h0 : -2 ^ 63 ≤ n) (h1 : n < 2 ^ 63) :
    str2int (intNumeral n) = some (Int64.ofInt n) := by
  cases n with
  | ofNat n =>
    rw [str2int_signed false (n := n)]
    · rfl
    · rw [dropWhile_intNumeral, intNumeral, isneg_numeral]
    · simp at h1 ⊢
      omega
  | negSucc n =>
    rw [str2int_signed true (n := n + 1)]
    · rfl
    · rw [dropWhile_intNumeral, intNumeral, isneg]
    · simp only [Bool.toNat_true]
      omega

theorem tonumber_intNumeral (str2d : Bytes → Option UInt64) {n : ℤ} (h0 : -2 ^ 63 ≤ n)
    (h1 : n < 2 ^ 63) : tonumber str2d (intNumeral n) = .integer (Int64.ofInt n) := by
  unfold tonumber
  rw [if_neg, str2int_intNumeral h0 h1]
  intro h
  exact ne_zero_of_mem_intNumeral (List.contains_iff_mem.1 h) rfl

end Numbers

end LuaString

end SkynetCpp
