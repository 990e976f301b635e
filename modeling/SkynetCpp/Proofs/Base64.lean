import SkynetCpp.Crypt
import SkynetCpp.Lib.Base64

/-!
# Base 64

The encoder keeps three bytes in one number and takes six bits at a time out of it, which are the
groups of the standard. The decoder puts the four numbers of a group together again; what it leaves
out before it counts the groups is what stands for nothing.
-/

namespace SkynetCpp

open Lib

namespace Crypt

section Groups

theorem group_bytes (a b c : UInt8) :
    (a.toNat <<< 16) ||| (b.toNat <<< 8) ||| c.toNat = Base64.join a b c := by
  have hb := b.toNat_lt
  have hc := c.toNat_lt
  have h1 := Nat.shiftLeft_add_eq_or_of_lt (b := c.toNat) (i := 8) (by omega) b.toNat
  have h2 := Nat.shiftLeft_add_eq_or_of_lt (b := b.toNat * 256 + c.toNat) (i := 16) (by omega)
    a.toNat
  rw [Nat.or_assoc, ← h1, Nat.shiftLeft_eq b.toNat, ← h2, Nat.shiftLeft_eq, Base64.join]
  omega

/-- The number that four groups of six bits make. -/
theorem group_sextets {b c d : ℕ} (a : ℕ) (hb : b < 64) (hc : c < 64) (hd : d < 64) :
    (a <<< 18) ||| (b <<< 12) ||| (c <<< 6) ||| d = a * 262144 + b * 4096 + c * 64 + d := by
  have h1 := Nat.shiftLeft_add_eq_or_of_lt (b := d) (i := 6) (by omega) c
  have h2 := Nat.shiftLeft_add_eq_or_of_lt (b := c * 64 + d) (i := 12) (by omega) b
  have h3 := Nat.shiftLeft_add_eq_or_of_lt (b := b * 4096 + (c * 64 + d)) (i := 18) (by omega) a
  rw [Nat.or_assoc, Nat.or_assoc, ← h1, Nat.shiftLeft_eq c, ← h2, Nat.shiftLeft_eq b, ← h3,
    Nat.shiftLeft_eq]
  omega

theorem b64char_eq {n : ℕ} (hn : n < 64) : b64char n = [Base64.character n] := by
  have h : ∀ n < 64, b64char n = [Base64.character n] := by decide +kernel
  exact h n hn

theorem b64lookup_character {n : ℕ} (hn : n < 64) :
    b64lookup (some (Base64.character n)) = n := by
  have h : ∀ n < 64, b64lookup (some (Base64.character n)) = n := by decide +kernel
  exact h n hn

theorem character_ne_pad {n : ℕ} (hn : n < 64) : some (Base64.character n) ≠ some 61 := by
  have h : ∀ n < 64, some (Base64.character n) ≠ some 61 := by decide
  exact h n hn

/-- Where a character stands in the alphabet. -/
def place (n : ℕ) : ℕ :=
  if n = 43 then 62 else if n = 47 then 63 else if n < 58 then n + 4
  else if n < 91 then n - 65 else n - 71

/-- The class of the pattern is the alphabet with the pad. -/
theorem isB64_iff (b : UInt8) : isB64 b = true ↔ Base64.IsCharacter b := by
  constructor
  · intro hb
    have h : ∀ n < 256, isB64 (UInt8.ofNat n) = true → UInt8.ofNat n = Base64.pad
        ∨ place n < 64 ∧ UInt8.ofNat n = Base64.character (place n) := by decide +kernel
    have h := h b.toNat b.toNat_lt
    rw [UInt8.ofNat_toNat] at h
    exact (h hb).imp_right fun h => ⟨place b.toNat, h⟩
  · rintro (rfl | ⟨n, hn, rfl⟩)
    · rfl
    · have h : ∀ n < 64, isB64 (Base64.character n) = true := by decide
      exact h n hn

end Groups

section Encode

theorem encodeGroup_eq (a b c : UInt8) (len : ℕ) :
    encodeGroup a b c len
      = [Base64.character (Base64.join a b c / 262144),
          Base64.character (Base64.join a b c / 4096 % 64)]
        ++ (if 1 < len then [Base64.character (Base64.join a b c / 64 % 64)] else [Base64.pad])
        ++ (if 2 < len then [Base64.character (Base64.join a b c % 64)] else [Base64.pad]) := by
  have hlt := Base64.join_lt a b c
  have h12 := Nat.and_two_pow_sub_one_eq_mod (Base64.join a b c >>> 12) 6
  have h6 := Nat.and_two_pow_sub_one_eq_mod (Base64.join a b c >>> 6) 6
  have h0 := Nat.and_two_pow_sub_one_eq_mod (Base64.join a b c) 6
  simp only [Nat.reducePow, Nat.reduceSub, Nat.shiftRight_eq_div_pow] at h12 h6 h0
  simp only [encodeGroup, group_bytes, Nat.shiftRight_eq_div_pow, Nat.reducePow, h12, h6, h0]
  rw [b64char_eq (by omega), b64char_eq (by omega), b64char_eq (by omega), b64char_eq (by omega)]
  rfl

theorem base64encode_eq (x : Bytes) : base64encode x = Base64.encode x := by
  induction x using base64encode.induct with
  | case1 => rfl
  | case2 a => 
    rw [base64encode, encodeGroup_eq, Base64.encode_one]
    rfl
  | case3 a b =>
    rw [base64encode, encodeGroup_eq, Base64.encode_two]
    rfl
  | case4 a b c rest ih =>
    rw [base64encode, encodeGroup_eq, Base64.encode_three, ih]
    rfl

end Encode

section Decode

variable (a b c : UInt8)

/-- The four numbers of a group make the number of its bytes again. -/
theorem group_join :
    ((Base64.join a b c / 262144) <<< 18) ||| ((Base64.join a b c / 4096 % 64) <<< 12)
        ||| ((Base64.join a b c / 64 % 64) <<< 6) ||| (Base64.join a b c % 64)
      = Base64.join a b c := by
  have hlt := Base64.join_lt a b c
  rw [group_sextets _ (by omega) (by omega) (by omega)]
  omega

theorem join_bytes :
    UInt8.ofNat ((Base64.join a b c >>> 16) &&& 0xFF) = a
      ∧ UInt8.ofNat ((Base64.join a b c >>> 8) &&& 0xFF) = b
      ∧ UInt8.ofNat (Base64.join a b c &&& 0xFF) = c := by
  have ha := a.toNat_lt
  have hb := b.toNat_lt
  have hc := c.toNat_lt
  have hand (n : ℕ) : n &&& 0xFF = n % 256 := Nat.and_two_pow_sub_one_eq_mod n 8
  have h16 : Base64.join a b c / 2 ^ 16 % 256 = a.toNat := by
    rw [Base64.join]
    omega
  have h8 : Base64.join a b c / 2 ^ 8 % 256 = b.toNat := by
    rw [Base64.join]
    omega
  have h0 : Base64.join a b c % 256 = c.toNat := by
    rw [Base64.join]
    omega
  rw [hand, hand, hand, Nat.shiftRight_eq_div_pow, Nat.shiftRight_eq_div_pow, h16, h8, h0]
  exact ⟨UInt8.ofNat_toNat, UInt8.ofNat_toNat, UInt8.ofNat_toNat⟩

theorem b64lookup_pad : b64lookup (some Base64.pad) = 0 := rfl

theorem decodeGroup_three :
    decodeGroup (Base64.character (Base64.join a b c / 262144))
      (some (Base64.character (Base64.join a b c / 4096 % 64)))
      (some (Base64.character (Base64.join a b c / 64 % 64)))
      (some (Base64.character (Base64.join a b c % 64))) = [a, b, c] := by
  have hlt := Base64.join_lt a b c
  obtain ⟨ha, hb, hc⟩ := join_bytes a b c
  simp only [decodeGroup]
  rw [b64lookup_character (by omega), b64lookup_character (by omega),
    b64lookup_character (by omega), b64lookup_character (by omega), group_join, ha, hb, hc,
    if_pos (character_ne_pad (by omega)), if_pos (character_ne_pad (by omega))]
  rfl

theorem decodeGroup_two :
    decodeGroup (Base64.character (Base64.join a b 0 / 262144))
      (some (Base64.character (Base64.join a b 0 / 4096 % 64)))
      (some (Base64.character (Base64.join a b 0 / 64 % 64))) (some Base64.pad) = [a, b] := by
  have hlt := Base64.join_lt a b 0
  have hlast : Base64.join a b 0 % 64 = 0 := by
    rw [Base64.join, UInt8.toNat_zero]
    omega
  have hgroup := group_join a b 0
  obtain ⟨ha, hb, -⟩ := join_bytes a b 0
  rw [hlast] at hgroup
  simp only [decodeGroup]
  rw [b64lookup_character (by omega), b64lookup_character (by omega),
    b64lookup_character (by omega), b64lookup_pad, hgroup, ha, hb,
    if_pos (character_ne_pad (by omega))]
  rfl

theorem decodeGroup_one :
    decodeGroup (Base64.character (Base64.join a 0 0 / 262144))
      (some (Base64.character (Base64.join a 0 0 / 4096 % 64))) (some Base64.pad)
      (some Base64.pad) = [a] := by
  have hlt := Base64.join_lt a 0 0
  have hlast : Base64.join a 0 0 % 64 = 0 ∧ Base64.join a 0 0 / 64 % 64 = 0 := by
    rw [Base64.join, UInt8.toNat_zero]
    omega
  have hgroup := group_join a 0 0
  rw [hlast.1, hlast.2] at hgroup
  simp only [decodeGroup]
  rw [b64lookup_character (by omega), b64lookup_character (by omega), b64lookup_pad, hgroup,
    (join_bytes a 0 0).1]
  rfl

theorem decodeGroups_encode (x : Bytes) : decodeGroups (Base64.encode x) = x := by
  induction x using base64encode.induct with
  | case1 => rfl
  | case2 a =>
    rw [Base64.encode_one, decodeGroups, decodeGroup_one]
    rfl
  | case3 a b =>
    rw [Base64.encode_two, decodeGroups, decodeGroup_two]
    rfl
  | case4 a b c rest ih =>
    rw [Base64.encode_three, decodeGroups, decodeGroup_three, ih]
    rfl

/-- The text is the one of the standard, and it is read back whatever stands between its
characters that is none. -/
theorem base64_round_trip :
    (∀ x, base64encode x = Base64.encode x)
      ∧ ∀ x text, Base64.Inserted (base64encode x) text → base64decode text = x := by
  refine ⟨base64encode_eq, fun x text h => ?_⟩
  rw [base64encode_eq] at h
  have hfilter := h.filter Base64.isCharacter_encode
  have hclass : text.filter isB64 = text.filter fun b => Base64.IsCharacter b := by
    refine List.filter_congr fun b _ => ?_
    rw [Bool.eq_iff_iff, isB64_iff, decide_eq_true_iff]
  rw [base64decode, hclass, hfilter, decodeGroups_encode]

/-- A newline, a blank and a dash between the characters. -/
theorem base64_round_trip_noise :
    base64decode (ascii "Zm9\nv Ym-E=") = ascii "fooba" := by
  have htext : base64encode (ascii "fooba") = [90, 109, 57, 118, 89, 109, 69, 61] :=
    rfl
  have hnoisy : ascii "Zm9\nv Ym-E=" = [90, 109, 57, 10, 118, 32, 89, 109, 45, 69, 61] :=
    rfl
  refine base64_round_trip.2 (ascii "fooba") _ ?_
  rw [htext, hnoisy]
  exact .keep _ <| .keep _ <| .keep _ <| .insert (by decide) <| .keep _ <|
    .insert (by decide) <| .keep _ <| .keep _ <| .insert (by decide) <|
    .keep _ <| .keep _ .nil

end Decode

end Crypt

end SkynetCpp
