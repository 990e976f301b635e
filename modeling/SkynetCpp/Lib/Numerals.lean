import Mathlib.Data.Int.Notation
import Mathlib.Data.Nat.Notation

/-!
# Decimal numerals

The decimal text of a number as bytes, and a reader that takes the digits a text begins with. A
number is one digit or a smaller positive number with a digit appended (`digit_induction`): every
reader that goes from left to right is followed along that.
-/

namespace Lib

/-- The ASCII digit of `d`. -/
def digit (d : ℕ) : UInt8 := UInt8.ofNat (48 + d)

def isDigit (b : UInt8) : Bool := 48 ≤ b.toNat && b.toNat ≤ 57

/-- The decimal text of `n`. -/
def numeral (n : ℕ) : List UInt8 := (Nat.toDigits 10 n).map fun c => UInt8.ofNat c.toNat

/-- That of an integer. -/
def intNumeral : ℤ → List UInt8
  | .ofNat n => numeral n
  | .negSucc n => 45 :: numeral (n + 1)

/-- `a` with the digits appended that `s` begins with, and the rest of `s`. -/
def readDigits (a : ℕ) : List UInt8 → ℕ × List UInt8
  | [] => (a, [])
  | b :: s => if isDigit b then readDigits (10 * a + (b.toNat - 48)) s else (a, b :: s)

theorem toNat_digit {d : ℕ} (hd : d < 10) : (digit d).toNat = 48 + d := by
  rw [digit, UInt8.toNat_ofNat']
  omega

theorem isDigit_digit {d : ℕ} (hd : d < 10) : isDigit (digit d) = true := by
  have := toNat_digit hd
  simp only [isDigit, Bool.and_eq_true, decide_eq_true_eq]
  omega

theorem numeral_of_lt {d : ℕ} (hd : d < 10) : numeral d = [digit d] := by
  rw [numeral, Nat.toDigits_of_lt_base hd, List.map_singleton, Nat.toNat_digitChar_of_lt_ten hd,
    digit]

theorem numeral_append {n d : ℕ} (hn : 0 < n) (hd : d < 10) :
    numeral (10 * n + d) = numeral n ++ [digit d] := by
  rw [← numeral_of_lt hd, numeral, numeral, numeral, ← List.map_append,
    Nat.toDigits_append_toDigits (by decide) hn hd]

theorem digit_induction {P : ℕ → Prop} (one : ∀ d < 10, P d)
    (more : ∀ n d, 0 < n → d < 10 → P n → P (10 * n + d)) (n : ℕ) : P n := by
  induction n using Nat.strongRecOn with
  | ind n ih =>
    rcases Nat.lt_or_ge n 10 with h | h
    · exact one n h
    · have hn : 10 * (n / 10) + n % 10 = n := by omega
      rw [← hn]
      exact more _ _ (by omega) (by omega) (ih _ (by omega))

theorem isDigit_of_mem_numeral {n : ℕ} {b : UInt8} (hb : b ∈ numeral n) : isDigit b = true := by
  induction n using digit_induction generalizing b with
  | one d hd =>
    rw [numeral_of_lt hd, List.mem_singleton] at hb
    rw [hb, isDigit_digit hd]
  | more n d hn hd ih =>
    rw [numeral_append hn hd, List.mem_append, List.mem_singleton] at hb
    rcases hb with hb | rfl
    · exact ih hb
    · exact isDigit_digit hd

theorem numeral_ne_nil (n : ℕ) : numeral n ≠ [] := by
  simp [numeral, Nat.toDigits_ne_nil]

/-- A numeral of several digits begins with a digit other than zero. -/
theorem head_numeral {n : ℕ} (hn : 0 < n) :
    ∃ b s, numeral n = b :: s ∧ isDigit b = true ∧ b ≠ 48 := by
  induction n using digit_induction with
  | one d hd =>
    refine ⟨_, _, numeral_of_lt hd, isDigit_digit hd, fun h => ?_⟩
    have := congrArg UInt8.toNat h
    rw [toNat_digit hd] at this
    simp at this
    omega
  | more n d hn' hd ih =>
    obtain ⟨b, s, hs, hb⟩ := ih hn'
    exact ⟨b, s ++ [digit d], by rw [numeral_append hn' hd, hs, List.cons_append], hb⟩

theorem readDigits_numeral (n : ℕ) (s : List UInt8) :
    readDigits 0 (numeral n ++ s) = readDigits n s := by
  induction n using digit_induction generalizing s with
  | one d hd =>
    rw [numeral_of_lt hd, List.singleton_append, readDigits, if_pos (isDigit_digit hd),
      toNat_digit hd]
    congr 1
    omega
  | more n d hn hd ih =>
    rw [numeral_append hn hd, List.append_assoc, ih, List.singleton_append, readDigits,
      if_pos (isDigit_digit hd), toNat_digit hd]
    congr 1
    omega

theorem readDigits_of_not {b : UInt8} (hb : isDigit b = false) (a : ℕ) (s : List UInt8) :
    readDigits a (b :: s) = (a, b :: s) := by
  rw [readDigits, hb, if_neg Bool.false_ne_true]

end Lib
