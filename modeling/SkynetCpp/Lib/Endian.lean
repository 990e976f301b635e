import Mathlib.Algebra.Order.Group.Nat
import Mathlib.Data.Int.Notation
import Mathlib.Tactic.Positivity

/-!
# Integers as bytes

`le k n` is the last `k` bytes of `n`, least significant first, and `ofLe` reads them back; `be` and
`ofBe` have the most significant one first.
`signed w` is the two's complement of `w` bits.
-/

namespace Lib

/-- The low `k` bytes of `n`, least significant first. -/
def le : ℕ → ℕ → List UInt8
  | 0, _ => []
  | k + 1, n => UInt8.ofNat n :: le k (n / 256)

/-- The number with these bytes, least significant first. -/
def ofLe : List UInt8 → ℕ
  | [] => 0
  | b :: bs => b.toNat + 256 * ofLe bs

@[simp] theorem length_le (k n : ℕ) : (le k n).length = k := by
  induction k generalizing n with
  | zero => rfl
  | succ k ih => rw [le, List.length_cons, ih]

theorem ofLe_le (k n : ℕ) : ofLe (le k n) = n % 256 ^ k := by
  induction k generalizing n with
  | zero => simp [le, ofLe, Nat.mod_one]
  | succ k ih =>
    rw [le, ofLe, ih, pow_succ', Nat.mod_mul]
    congr 1

theorem ofLe_le_of_lt {k n : ℕ} (h : n < 256 ^ k) : ofLe (le k n) = n := by
  rw [ofLe_le, Nat.mod_eq_of_lt h]

theorem le_mod (k n : ℕ) : le k (n % 256 ^ k) = le k n := by
  induction k generalizing n with
  | zero => rfl
  | succ k ih =>
    have hhigh : n % 256 ^ (k + 1) / 256 = n / 256 % 256 ^ k := by
      rw [pow_succ', Nat.mod_mul_right_div_self]
    have hlow : UInt8.ofNat (n % 256 ^ (k + 1)) = UInt8.ofNat n := by
      apply UInt8.toNat_inj.1
      rw [UInt8.toNat_ofNat', UInt8.toNat_ofNat', pow_succ', Nat.mod_mul_right_mod]
    rw [le, le, hhigh, hlow, ih]

theorem ofLe_lt (bs : List UInt8) : ofLe bs < 256 ^ bs.length := by
  induction bs with
  | nil => simp [ofLe]
  | cons b bs ih =>
    have := b.toNat_lt
    rw [ofLe, List.length_cons, pow_succ]
    omega

/-- Bytes are their number's. -/
theorem le_ofLe (bs : List UInt8) : le bs.length (ofLe bs) = bs := by
  induction bs with
  | nil => rfl
  | cons b bs ih =>
    have hb := b.toNat_lt
    have hdiv : (b.toNat + 256 * ofLe bs) / 256 = ofLe bs := by omega
    have hmod : UInt8.ofNat (b.toNat + 256 * ofLe bs) = b := by
      apply UInt8.toNat_inj.1
      rw [UInt8.toNat_ofNat']
      omega
    rw [List.length_cons, le, ofLe, hdiv, hmod, ih]

/-- The first bytes are those of the number. -/
theorem take_le {k w : ℕ} (h : k ≤ w) (n : ℕ) : (le w n).take k = le k n := by
  induction w generalizing k n with
  | zero => rw [Nat.le_zero.1 h]; rfl
  | succ w ih =>
    cases k with
    | zero => rfl
    | succ k => rw [le, le, List.take_succ_cons, ih (by omega)]

/-- The low `k` bytes of `n`, most significant first. -/
def be (k n : ℕ) : List UInt8 := (le k n).reverse

def ofBe (bs : List UInt8) : ℕ := ofLe bs.reverse

@[simp] theorem length_be (k n : ℕ) : (be k n).length = k := by
  rw [be, List.length_reverse, length_le]

theorem ofBe_lt (bs : List UInt8) : ofBe bs < 256 ^ bs.length := by
  have h := ofLe_lt bs.reverse
  rwa [List.length_reverse] at h

/-- The two's complement reading of the `w`-bit number `n`. -/
def signed (w n : ℕ) : ℤ := if 2 * n < 2 ^ w then n else n - 2 ^ w

/-- The value of a `w`-bit signed integer that `v` is converted to. -/
def toSigned (w : ℕ) (v : ℤ) : ℤ := signed w (v % 2 ^ w).toNat

theorem toSigned_of_range {w : ℕ} {v : ℤ} (h0 : -(2 ^ w : ℤ) ≤ 2 * v) (h1 : 2 * v < 2 ^ w) :
    toSigned w v = v := by
  unfold toSigned signed
  have hw : (0 : ℤ) < 2 ^ w := by positivity
  rcases lt_or_ge v 0 with hv | hv
  · have hmod : v % 2 ^ w = v + 2 ^ w := by
      rw [← Int.add_emod_right, Int.emod_eq_of_lt (by omega) (by omega)]
    have hnat : ((v % 2 ^ w).toNat : ℤ) = v + 2 ^ w := by
      rw [Int.toNat_of_nonneg (by omega), hmod]
    have hge : ¬ 2 * (v % 2 ^ w).toNat < 2 ^ w := by
      intro hlt
      have : (2 * (v % 2 ^ w).toNat : ℤ) < 2 ^ w := by exact_mod_cast hlt
      omega
    rw [if_neg hge, hnat]
    omega
  · have hmod : v % 2 ^ w = v := Int.emod_eq_of_lt hv (by omega)
    have hnat : ((v % 2 ^ w).toNat : ℤ) = v := by rw [Int.toNat_of_nonneg (by omega), hmod]
    have hlt : 2 * (v % 2 ^ w).toNat < 2 ^ w := by
      have : (2 * (v % 2 ^ w).toNat : ℤ) < 2 ^ w := by omega
      exact_mod_cast this
    rw [if_pos hlt, hnat]

theorem signed_emod {w : ℕ} {v : ℤ} (h0 : -(2 ^ w : ℤ) ≤ 2 * v) (h1 : 2 * v < 2 ^ w) :
    signed w (v % 2 ^ w).toNat = v :=
  toSigned_of_range h0 h1

theorem toSigned_range (w : ℕ) (v : ℤ) :
    -(2 ^ w : ℤ) ≤ 2 * toSigned w v ∧ 2 * toSigned w v < 2 ^ w := by
  unfold toSigned signed
  have h2 : (0 : ℤ) < 2 ^ w := by positivity
  have h0 := Int.emod_nonneg v h2.ne'
  have h1 := Int.emod_lt_of_pos v h2
  have hnat : ((v % 2 ^ w).toNat : ℤ) = v % 2 ^ w := Int.toNat_of_nonneg h0
  split_ifs with h
  · have : (2 * (v % 2 ^ w).toNat : ℤ) < 2 ^ w := by exact_mod_cast h
    omega
  · have : (2 ^ w : ℤ) ≤ 2 * (v % 2 ^ w).toNat := by exact_mod_cast not_lt.1 h
    omega

end Lib
