import SkynetCpp.Crypt
import SkynetCpp.Lib.Outcome
import SkynetCpp.Lib.Sha1
import SkynetCpp.Proofs.LuaString

/-!
# The hash of crypt.lua is SHA-1

An integer of Lua that keeps a word is the word, zero extended. `uint32` cuts what was added up back
to a word, so a round of the code is a round of the standard, and so are the schedule, the blocks
and the keyed hash.
-/

namespace SkynetCpp

open Lib LuaString

namespace Crypt

section Words

theorem uint32_eq (n : UInt64) : uint32 n = n.toUInt32.toUInt64 := by
  apply UInt64.toNat_inj.1
  have h := Nat.and_two_pow_sub_one_eq_mod n.toNat 32
  simpa [uint32] using h

theorem uint32_toUInt64 (x : UInt32) : uint32 x.toUInt64 = x.toUInt64 := by
  rw [uint32_eq, UInt32.toUInt32_toUInt64]

theorem rotl_eq {n : UInt32} (x : UInt32) (h0 : 0 < n) (hn : n < 32) :
    rotl x.toUInt64 n.toUInt64 = (Sha1.rotl n x).toUInt64 := by
  have hlt : n.toUInt64 < 32 := UInt32.toUInt64_lt.2 hn
  have hpos : 0 < n.toNat := UInt32.lt_iff_toNat_lt.1 h0
  have hle : n.toNat < 32 := UInt32.lt_iff_toNat_lt.1 hn
  have hright : x.toUInt64 >>> (32 - n.toUInt64) = (x >>> (32 - n)).toUInt64 := by
    rw [UInt32.toUInt64_shiftRight]
    congr 1
    apply UInt64.toNat_inj.1
    rw [UInt64.toNat_sub_of_le _ _ (UInt64.le_of_lt hlt), UInt64.toNat_mod, UInt32.toNat_toUInt64,
      UInt32.toNat_toUInt64, UInt32.toNat_sub_of_le _ _ (UInt32.le_of_lt hn)]
    simp only [UInt64.reduceToNat, UInt32.reduceToNat]
    omega
  simp only [rotl, uint32_toUInt64]
  rw [uint32_eq, UInt64.toUInt32_or, UInt64.toUInt32_shiftLeft _ _ hlt, hright,
    UInt32.toUInt32_toUInt64, UInt32.toUInt32_toUInt64, UInt32.toUInt32_toUInt64, Sha1.rotl]

/-- The two terms have no bit in common. -/
theorem ch_or (x y z : UInt32) : (x &&& y) ||| (~~~x &&& z) = Sha1.ch x y z := by
  apply UInt32.toBitVec_inj.1
  apply BitVec.eq_of_getLsbD_eq
  intro i hi
  simp only [Sha1.ch, UInt32.toBitVec_or, UInt32.toBitVec_and, UInt32.toBitVec_xor,
    UInt32.toBitVec_not, BitVec.getLsbD_or, BitVec.getLsbD_and, BitVec.getLsbD_xor,
    BitVec.getLsbD_not, hi, decide_true, Bool.true_and]
  cases x.toBitVec.getLsbD i <;> simp

theorem maj_or (x y z : UInt32) : (x &&& y) ||| (x &&& z) ||| (y &&& z) = Sha1.maj x y z := by
  apply UInt32.toBitVec_inj.1
  apply BitVec.eq_of_getLsbD_eq
  intro i hi
  simp only [Sha1.maj, UInt32.toBitVec_or, UInt32.toBitVec_and, UInt32.toBitVec_xor,
    BitVec.getLsbD_or, BitVec.getLsbD_and, BitVec.getLsbD_xor]
  cases x.toBitVec.getLsbD i <;> cases y.toBitVec.getLsbD i <;> simp

theorem toUInt32_f (j : ℕ) (b c d : UInt32) :
    (f j b.toUInt64 c.toUInt64 d.toUInt64).toUInt32 = Sha1.f j b c d := by
  have h19 : j ≤ 19 ↔ j < 20 := by omega
  have h39 : j ≤ 39 ↔ j < 40 := by omega
  have h59 : j ≤ 59 ↔ j < 60 := by omega
  simp only [f, Sha1.f, h19, h39, h59]
  split_ifs
  · simp only [UInt64.toUInt32_or, UInt64.toUInt32_and, UInt64.toUInt32_not,
      UInt32.toUInt32_toUInt64, ch_or]
  · simp only [UInt64.toUInt32_xor, UInt32.toUInt32_toUInt64, Sha1.parity]
  · simp only [UInt64.toUInt32_or, UInt64.toUInt32_and, UInt32.toUInt32_toUInt64, maj_or]
  · simp only [UInt64.toUInt32_xor, UInt32.toUInt32_toUInt64, Sha1.parity]

theorem toUInt32_k (j : ℕ) : (k j).toUInt32 = Sha1.k j := by
  have h19 : j ≤ 19 ↔ j < 20 := by omega
  have h39 : j ≤ 39 ↔ j < 40 := by omega
  have h59 : j ≤ 59 ↔ j < 60 := by omega
  simp only [k, Sha1.k, h19, h39, h59]
  split_ifs <;> rfl

end Words

section Blocks

/-- The words of the standard as the code has them. -/
def Hash.ofWords (h : Sha1.Words) : Hash :=
  ⟨h.a.toUInt64, h.b.toUInt64, h.c.toUInt64, h.d.toUInt64, h.e.toUInt64⟩

theorem round_eq {w : List UInt64} {u : ℕ → UInt32} {j : ℕ} (hw : w[j]? = some (u j).toUInt64)
    (v : Sha1.Words) : round w (.ofWords v) j = some (.ofWords (Sha1.round u v j)) := by
  have h5 : rotl v.a.toUInt64 (5 : UInt32).toUInt64 = (Sha1.rotl 5 v.a).toUInt64 :=
    rotl_eq v.a (by decide) (by decide)
  have h30 : rotl v.b.toUInt64 (30 : UInt32).toUInt64 = (Sha1.rotl 30 v.b).toUInt64 :=
    rotl_eq v.b (by decide) (by decide)
  rw [UInt32.toUInt64_ofNat (by decide)] at h5 h30
  simp only [round, hw, Hash.ofWords, Sha1.round, h5, h30, uint32_eq, UInt64.toUInt32_add,
    UInt32.toUInt32_toUInt64, toUInt32_f, toUInt32_k, Option.bind_eq_bind, Option.bind_some,
    Option.pure_def]

theorem blockWords_eq {msg : Bytes} {i : ℕ} (hi : 64 * i + 64 ≤ msg.length) :
    blockWords msg (1 + 64 * i)
      = some ((List.range 16).map fun t => (Sha1.schedule (Sha1.block msg i) t).toUInt64) := by
  refine mapM_some fun j hj => ?_
  have hj : j < 16 := List.mem_range.1 hj
  have hpos : 1 + 64 * i + j * 4 = 64 * i + 4 * j + 1 := by omega
  have hat := at_drop msg (n := 64 * i + 4 * j) (k := 4) (by omega)
  have hdrop : ((Sha1.block msg i).drop (4 * j)).take 4 = (msg.drop (64 * i + 4 * j)).take 4 := by
    rw [Sha1.block, List.drop_take, List.take_take, List.drop_drop, min_eq_left (by omega)]
  have hlen : ((msg.drop (64 * i + 4 * j)).take 4).length = 4 := by
    rw [List.length_take, List.length_drop, min_eq_left (by omega)]
  have hlt : ofBe ((msg.drop (64 * i + 4 * j)).take 4) < UInt32.size := by
    have h := ofBe_lt ((msg.drop (64 * i + 4 * j)).take 4)
    rwa [hlen] at h
  rw [hpos, unpackBigUnsigned, hat.unpackBytes hlen, Sha1.schedule, if_pos hj, Sha1.word, hdrop,
    UInt32.toUInt64_ofNat' hlt]
  rfl

/-- `w` after the word `n - 1`. -/
def scheduled (block : Bytes) (n : ℕ) : List UInt64 :=
  (List.range n).map fun t => (Sha1.schedule block t).toUInt64

theorem scheduled_get {block : Bytes} {n t : ℕ} (h : t < n) :
    (scheduled block n)[t]? = some (Sha1.schedule block t).toUInt64 := by
  simp [scheduled, h]

theorem extend_eq {block : Bytes} {n : ℕ} (hn : 16 ≤ n) :
    extend (scheduled block n) n = some (scheduled block (n + 1)) := by
  have h1 (x : UInt32) : rotl x.toUInt64 (1 : UInt32).toUInt64 = (Sha1.rotl 1 x).toUInt64 :=
    rotl_eq x (by decide) (by decide)
  rw [UInt32.toUInt64_ofNat (by decide)] at h1
  have hw : Sha1.schedule block n = Sha1.rotl 1 (Sha1.schedule block (n - 3)
      ^^^ Sha1.schedule block (n - 8) ^^^ Sha1.schedule block (n - 14)
      ^^^ Sha1.schedule block (n - 16)) := by
    rw [Sha1.schedule, if_neg (by omega)]
  have hn1 : scheduled block (n + 1) = scheduled block n ++ [(Sha1.schedule block n).toUInt64] := by
    simp [scheduled, List.range_succ]
  rw [hn1, hw, ← h1, extend, scheduled_get (by omega), scheduled_get (by omega),
    scheduled_get (by omega), scheduled_get (by omega)]
  rfl

theorem extend_all (block : Bytes) (m : ℕ) :
    (List.range' 16 m).foldlM extend (scheduled block 16) = some (scheduled block (16 + m)) := by
  induction m with
  | zero => rfl
  | succ m ih =>
    rw [List.range'_concat, List.foldlM_append, ih, one_mul]
    simp only [Option.bind_eq_bind, Option.bind_some, List.foldlM_cons, List.foldlM_nil,
      extend_eq (Nat.le_add_right 16 m), Option.pure_def]
    rfl

theorem processBlock_eq {msg : Bytes} {i : ℕ} (hi : 64 * i + 64 ≤ msg.length) (h : Sha1.Words) :
    processBlock msg (.ofWords h) (1 + 64 * i)
      = some (.ofWords (Sha1.compress h (Sha1.block msg i))) := by
  have hrounds := foldlM_some (f := round (scheduled (Sha1.block msg i) 80))
    (g := Sha1.round (Sha1.schedule (Sha1.block msg i))) (l := List.range 80)
    (fun v j hj => round_eq (scheduled_get (List.mem_range.1 hj)) v) h
  have hwords : (List.range' 16 64).foldlM extend (scheduled (Sha1.block msg i) 16) = _ :=
    extend_all _ 64
  rw [processBlock, blockWords_eq hi]
  simp only [Option.bind_eq_bind, Option.bind_some]
  rw [← scheduled, hwords, Option.bind_some, hrounds]
  simp only [Option.bind_some, Hash.ofWords, uint32_eq, UInt64.toUInt32_add,
    UInt32.toUInt32_toUInt64, Sha1.compress, Option.pure_def]

end Blocks

section Hash

theorem pad_eq (msg : Bytes) : pad msg = some (Sha1.padded msg) := by
  have hzeros : ((56 - ((msg ++ [0x80]).length % 64 : ℕ) : ℤ) % 64).toNat
      = Sha1.zeros msg.length := by
    rw [List.length_append, List.length_singleton]
    exact Sha1.zeros_eq (by omega) (by omega)
  have hlen : be 8 (UInt64.ofNat (msg.length * 8)).toNat = be 8 (8 * msg.length) := by
    rw [UInt64.toNat_ofNat', mul_comm, be, be]
    congr 1
    exact le_mod 8 (8 * msg.length)
  rw [pad, packBigUnsigned, packUnsigned, if_neg (by omega)]
  simp only [hzeros, Option.map_some, ← be.eq_1, hlen, Option.bind_eq_bind, Option.bind_some,
    Option.pure_def, Sha1.padded]

theorem packBig_eq (x : UInt32) : packBigUnsigned 4 x.toUInt64 = some (be 4 x.toNat) := by
  have := x.toNat_lt
  rw [packBigUnsigned, packUnsigned, UInt32.toNat_toUInt64, if_neg (by omega)]
  rfl

theorem sha1_eq (msg : Bytes) : sha1 msg = some (Sha1.hash msg) := by
  have hmod := Sha1.length_padded_mod msg
  have hcount : ((Sha1.padded msg).length + 63) / 64 = (Sha1.padded msg).length / 64 := by omega
  have hblocks := foldlM_some (e := Hash.ofWords)
    (f := fun h n => processBlock (Sha1.padded msg) h (1 + 64 * n))
    (g := fun h n => Sha1.compress h (Sha1.block (Sha1.padded msg) n))
    (l := List.range ((Sha1.padded msg).length / 64)) (fun h n hn => by
      have := List.mem_range.1 hn
      exact processBlock_eq (by omega) h) Sha1.initial
  have hinitial : initial = .ofWords Sha1.initial := by decide
  rw [sha1, pad_eq]
  simp only [Option.bind_eq_bind, Option.bind_some, hcount, hinitial]
  rw [hblocks]
  simp only [Option.bind_some, Hash.ofWords, packBig_eq, Option.pure_def, Sha1.hash, Sha1.digest]

theorem length_hash (msg : Bytes) : (Sha1.hash msg).length = 20 := by
  simp only [Sha1.hash, Sha1.digest, List.length_append, length_be]

/-- The key, xor a byte that is repeated. -/
theorem keyPad_eq {key : Bytes} (hkey : key.length = 64) (x : UInt8) :
    ((List.range 64).mapM fun i => (byte key (i + 1 : ℕ)).map (· ^^^ x))
      = some (key.map (· ^^^ x)) := by
  have hbyte : ∀ i ∈ List.range 64,
      (byte key (i + 1 : ℕ)).map (· ^^^ x) = some (key.getD i 0 ^^^ x) := by
    intro i hi
    have hi : i < key.length := hkey ▸ List.mem_range.1 hi
    have hat := at_drop key (n := i) (k := 1) (by omega)
    rw [List.drop_eq_getElem_cons hi, List.take_succ_cons] at hat
    rw [hat.byte]
    simp [hi]
  rw [mapM_some hbyte]
  congr 1
  refine List.ext_getElem (by simp [hkey]) fun i hi _ => ?_
  have hi : i < key.length := by simpa [hkey] using hi
  simp [hi]

theorem hmacSha1_eq (key msg : Bytes) : hmacSha1 key msg = some (hmac Sha1.hash 64 key msg) := by
  have hkey : (if 64 < key.length then sha1 key else some key)
      = some (if 64 < key.length then Sha1.hash key else key) := by
    split_ifs
    · exact sha1_eq key
    · rfl
  set short := if 64 < key.length then Sha1.hash key else key with hshort
  have hlen : short.length ≤ 64 := by
    rw [hshort]
    split_ifs with h
    · rw [length_hash]
      omega
    · omega
  have hpadded : (if short.length < 64 then short ++ List.replicate (64 - short.length) 0 else short)
      = short ++ List.replicate (64 - short.length) 0 := by
    split_ifs with h
    · rfl
    · rw [Nat.sub_eq_zero_of_le (by omega), List.replicate_zero, List.append_nil]
  have hfull : (short ++ List.replicate (64 - short.length) 0).length = 64 := by
    rw [List.length_append, List.length_replicate]
    omega
  rw [hmacSha1, hkey]
  simp only [Option.bind_eq_bind, Option.bind_some, hpadded, keyPad_eq hfull, sha1_eq, hmac,
    ← hshort]

/-- The hash is SHA-1, and the keyed hash is HMAC over it with blocks of 64 bytes. -/
theorem hashes_eq_standard :
    (∀ msg, sha1 msg = some (Sha1.hash msg))
      ∧ ∀ key msg, hmacSha1 key msg = some (hmac Sha1.hash 64 key msg) :=
  ⟨sha1_eq, hmacSha1_eq⟩

end Hash

end Crypt

end SkynetCpp
