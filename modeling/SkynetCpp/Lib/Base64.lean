import Mathlib.Data.List.Induction
import Mathlib.Data.Nat.Bitwise
import Mathlib.Tactic.Ring

/-!
# Base 64

The encoding of RFC 4648: the bits of the bytes, most significant first, are cut into groups of six,
the last one filled with zeros; each group stands for a character of the alphabet; and the text is
filled with `=` to a multiple of four characters. Three bytes are four groups (`encode_three`).
-/

namespace Lib

namespace Base64

/-- The bits of a number, most significant first. -/
def bits : ℕ → ℕ → List Bool
  | 0, _ => []
  | w + 1, n => n.testBit w :: bits w n

/-- The number with these bits, most significant first. -/
def ofBits (bs : List Bool) : ℕ := bs.foldl (fun n b => 2 * n + b.toNat) 0

/-- The groups of six bits. -/
def sextets : List Bool → List (List Bool)
  | [] => []
  | a :: b :: c :: d :: e :: f :: rest => [a, b, c, d, e, f] :: sextets rest
  | bs => [bs ++ List.replicate (6 - bs.length) false]

/-- The alphabet, as the table of the RFC has it. -/
def character (n : ℕ) : UInt8 :=
  if n < 26 then UInt8.ofNat (65 + n)
  else if n < 52 then UInt8.ofNat (97 + (n - 26))
  else if n < 62 then UInt8.ofNat (48 + (n - 52))
  else if n = 62 then 43
  else 47

/-- `=` -/
def pad : UInt8 := 61

def dataBits (data : List UInt8) : List Bool := data.flatMap fun b => bits 8 b.toNat

def encode (data : List UInt8) : List UInt8 :=
  let text := (sextets (dataBits data)).map fun bs => character (ofBits bs)
  text ++ List.replicate ((4 - text.length % 4) % 4) pad

/-- A character of the alphabet, or the pad. -/
def IsCharacter (b : UInt8) : Prop := b = pad ∨ ∃ n < 64, b = character n

instance : DecidablePred IsCharacter := fun b => by
  unfold IsCharacter
  infer_instance

/-- The second text is the first with other bytes between its characters. -/
inductive Inserted : List UInt8 → List UInt8 → Prop
  | nil : Inserted [] []
  | keep {s t : List UInt8} (b : UInt8) : Inserted s t → Inserted (b :: s) (b :: t)
  | insert {s t : List UInt8} {b : UInt8} : ¬ IsCharacter b → Inserted s t → Inserted s (b :: t)

/-- The number that three bytes make. -/
def join (a b c : UInt8) : ℕ := a.toNat * 65536 + b.toNat * 256 + c.toNat

theorem length_bits (w n : ℕ) : (bits w n).length = w := by
  induction w with
  | zero => rfl
  | succ w ih => rw [bits, List.length_cons, ih]

theorem ofBits_append_singleton (bs : List Bool) (b : Bool) :
    ofBits (bs ++ [b]) = 2 * ofBits bs + b.toNat := by
  rw [ofBits, List.foldl_append]
  rfl

theorem ofBits_append (bs cs : List Bool) :
    ofBits (bs ++ cs) = ofBits bs * 2 ^ cs.length + ofBits cs := by
  induction cs using List.reverseRecOn with
  | nil => simp [ofBits]
  | append_singleton cs c ih =>
    rw [← List.append_assoc, ofBits_append_singleton, ofBits_append_singleton, ih,
      List.length_append, List.length_singleton, pow_succ]
    ring

theorem ofBits_bits (w n : ℕ) : ofBits (bits w n) = n % 2 ^ w := by
  induction w with
  | zero => simp [bits, ofBits, Nat.mod_one]
  | succ w ih =>
    rw [bits, ← List.singleton_append, ofBits_append, ih, length_bits, Nat.mod_pow_succ]
    simp only [ofBits, List.foldl_cons, List.foldl_nil, Nat.toNat_testBit]
    ring

theorem sextets_three (a b c : UInt8) (rest : List UInt8) :
    sextets (dataBits (a :: b :: c :: rest))
      = bits 6 (a.toNat / 2 ^ 2) :: (bits 2 a.toNat ++ bits 4 (b.toNat / 2 ^ 4))
        :: (bits 4 b.toNat ++ bits 2 (c.toNat / 2 ^ 6)) :: bits 6 c.toNat
        :: sextets (dataBits rest) := by
  simp only [dataBits, List.flatMap_cons, bits, List.cons_append, List.nil_append, sextets,
    Nat.testBit_div_two_pow]

theorem sextets_two (a b : UInt8) : sextets (dataBits [a, b])
    = [bits 6 (a.toNat / 2 ^ 2), bits 2 a.toNat ++ bits 4 (b.toNat / 2 ^ 4),
      bits 4 b.toNat ++ bits 2 ((0 : UInt8).toNat / 2 ^ 6)] := by
  simp only [dataBits, List.flatMap_cons, List.flatMap_nil, bits, List.cons_append,
    List.nil_append, sextets, Nat.testBit_div_two_pow]
  rfl

theorem sextets_one (a : UInt8) : sextets (dataBits [a])
    = [bits 6 (a.toNat / 2 ^ 2), bits 2 a.toNat ++ bits 4 ((0 : UInt8).toNat / 2 ^ 4)] := by
  simp only [dataBits, List.flatMap_cons, List.flatMap_nil, bits, List.cons_append,
    List.nil_append, sextets, Nat.testBit_div_two_pow]
  rfl

section Join

variable (a b c : UInt8)

theorem ofBits_first : ofBits (bits 6 (a.toNat / 2 ^ 2)) = join a b c / 262144 := by
  have ha := a.toNat_lt
  have hb := b.toNat_lt
  have hc := c.toNat_lt
  rw [ofBits_bits, join]
  omega

theorem ofBits_second :
    ofBits (bits 2 a.toNat ++ bits 4 (b.toNat / 2 ^ 4)) = join a b c / 4096 % 64 := by
  have hb := b.toNat_lt
  have hc := c.toNat_lt
  rw [ofBits_append, ofBits_bits, ofBits_bits, length_bits, join]
  omega

theorem ofBits_third :
    ofBits (bits 4 b.toNat ++ bits 2 (c.toNat / 2 ^ 6)) = join a b c / 64 % 64 := by
  have hc := c.toNat_lt
  rw [ofBits_append, ofBits_bits, ofBits_bits, length_bits, join]
  omega

theorem ofBits_fourth : ofBits (bits 6 c.toNat) = join a b c % 64 := by
  rw [ofBits_bits, join]
  omega

end Join

theorem encode_three (a b c : UInt8) (rest : List UInt8) :
    encode (a :: b :: c :: rest)
      = character (join a b c / 262144) :: character (join a b c / 4096 % 64)
        :: character (join a b c / 64 % 64) :: character (join a b c % 64) :: encode rest := by
  simp only [encode, sextets_three, ofBits_first a b c, ofBits_second a b c, ofBits_third a b c,
    ofBits_fourth a b c, List.map_cons, List.length_cons, List.cons_append, Nat.add_assoc,
    Nat.reduceAdd, Nat.add_mod_right]

theorem encode_two (a b : UInt8) : encode [a, b]
    = [character (join a b 0 / 262144), character (join a b 0 / 4096 % 64),
      character (join a b 0 / 64 % 64), pad] := by
  simp only [encode, sextets_two, ofBits_first a b 0, ofBits_second a b 0, ofBits_third a b 0,
    List.map_cons, List.map_nil]
  rfl

theorem encode_one (a : UInt8) : encode [a]
    = [character (join a 0 0 / 262144), character (join a 0 0 / 4096 % 64), pad, pad] := by
  simp only [encode, sextets_one, ofBits_first a 0 0, ofBits_second a 0 0, List.map_cons,
    List.map_nil]
  rfl

theorem join_lt (a b c : UInt8) : join a b c < 2 ^ 24 := by
  have ha := a.toNat_lt
  have hb := b.toNat_lt
  have hc := c.toNat_lt
  rw [join]
  omega

theorem ofBits_lt (bs : List Bool) : ofBits bs < 2 ^ bs.length := by
  induction bs using List.reverseRecOn with
  | nil => simp [ofBits]
  | append_singleton bs b ih =>
    have := b.toNat_lt
    rw [ofBits_append_singleton, List.length_append, List.length_singleton, pow_succ]
    omega

theorem length_of_mem_sextets {l : List Bool} : ∀ bs ∈ sextets l, bs.length = 6 := by
  induction l using sextets.induct with
  | case1 => simp [sextets]
  | case2 a b c d e f rest ih =>
    intro bs hbs
    rw [sextets] at hbs
    rcases List.mem_cons.1 hbs with rfl | hbs
    · rfl
    · exact ih bs hbs
  | case3 l hnil hsix =>
    intro bs hbs
    have hlt : l.length < 6 := by
      by_contra hge
      obtain ⟨a, b, c, d, e, f, rest, rfl⟩ : ∃ a b c d e f rest,
          l = a :: b :: c :: d :: e :: f :: rest := by
        match l, hge with
        | a :: b :: c :: d :: e :: f :: rest, _ => exact ⟨a, b, c, d, e, f, rest, rfl⟩
        | [], h | [_], h | [_, _], h | [_, _, _], h | [_, _, _, _], h | [_, _, _, _, _], h =>
          simp at h
      exact hsix _ _ _ _ _ _ _ rfl
    rw [sextets.eq_3 l hnil hsix, List.mem_singleton] at hbs
    rw [hbs, List.length_append, List.length_replicate]
    omega

theorem isCharacter_encode {data : List UInt8} : ∀ b ∈ encode data, IsCharacter b := by
  intro b hb
  rcases List.mem_append.1 hb with hb | hb
  · obtain ⟨bs, hbs, rfl⟩ := List.mem_map.1 hb
    have hlt := ofBits_lt bs
    rw [length_of_mem_sextets bs hbs] at hlt
    exact .inr ⟨ofBits bs, hlt, rfl⟩
  · exact .inl (List.eq_of_mem_replicate hb)

/-- Leaving out what stands for nothing gives the text again. -/
theorem Inserted.filter {s t : List UInt8} (h : Inserted s t) (hs : ∀ b ∈ s, IsCharacter b) :
    t.filter (fun b => IsCharacter b) = s := by
  induction h with
  | nil => rfl
  | keep b h ih =>
    obtain ⟨hb, hs⟩ := List.forall_mem_cons.1 hs
    rw [List.filter_cons_of_pos (by simpa using hb), ih hs]
  | insert hb h ih => rw [List.filter_cons_of_neg (by simpa using hb), ih hs]

end Base64

end Lib
