import SkynetCpp.Lib.Framing
import SkynetCpp.Netpack

/-!
# Frames do not depend on chunks

`netpack.filter` drains a framing (`lfilter_eq`), and `netpack.unpack` takes its messages one by one
(`lunpack_eq`).
-/

namespace SkynetCpp

namespace Netpack

open Lib

variable {buf payload rest : Bytes} {payloads : List Bytes} {pos n : ℕ}

section Header

theorem header_eq (hi lo : UInt8) : hi.toNat <<< 8 ||| lo.toNat = hi.toNat * 256 + lo.toNat := by
  have hlo : lo.toNat < 2 ^ 8 := lo.toNat_lt
  rw [← Nat.shiftLeft_add_eq_or_of_lt hlo, Nat.shiftLeft_eq]

theorem header_lt (hi lo : UInt8) : hi.toNat <<< 8 ||| lo.toNat ≤ 0xFFFF := by
  have hhi : hi.toNat < 2 ^ 8 := hi.toNat_lt
  have hlo : lo.toNat < 2 ^ 8 := lo.toNat_lt
  rw [header_eq]
  omega

/-- The two bytes of a length. -/
theorem header_ofNat {len : ℕ} (h : len ≤ 0xFFFF) :
    (UInt8.ofNat (len >>> 8)).toNat <<< 8 ||| (UInt8.ofNat len).toNat = len := by
  rw [header_eq, UInt8.toNat_ofNat', UInt8.toNat_ofNat', Nat.shiftRight_eq_div_pow]
  omega

theorem ofNat_header (hi lo : UInt8) :
    UInt8.ofNat ((hi.toNat <<< 8 ||| lo.toNat) >>> 8) = hi ∧
      UInt8.ofNat (hi.toNat <<< 8 ||| lo.toNat) = lo := by
  have hhi : hi.toNat < 2 ^ 8 := hi.toNat_lt
  have hlo : lo.toNat < 2 ^ 8 := lo.toNat_lt
  rw [header_eq, Nat.shiftRight_eq_div_pow]
  constructor
  · rw [← UInt8.toNat_inj, UInt8.toNat_ofNat']
    omega
  · rw [← UInt8.toNat_inj, UInt8.toNat_ofNat']
    omega

end Header

section Frames

/-- What `lpack` returns. -/
def frame (payload : Bytes) : Bytes :=
  UInt8.ofNat (payload.length >>> 8) :: UInt8.ofNat payload.length :: payload

theorem lpack_eq (h : payload.length ≤ 0xFFFF) : lpack payload = .ok (frame payload) := by
  unfold lpack
  rw [if_neg (Nat.not_lt.2 h)]
  rfl

theorem mapM_lpack (h : ∀ p ∈ payloads, p.length ≤ 0xFFFF) :
    payloads.mapM lpack = .ok (payloads.map frame) := by
  induction payloads with
  | nil => rfl
  | cons p payloads ih =>
    rw [List.mapM_cons, lpack_eq (h p List.mem_cons_self),
      ih fun q hq => h q (List.mem_cons_of_mem _ hq)]
    rfl

/-- The first frame. -/
def next (buf : Bytes) : Option (Bytes × Bytes) :=
  if buf.length < 2 then none
  else if buf.length < 2 + payloadLen buf 0 then none
  else some ((buf.drop 2).take (payloadLen buf 0), buf.drop (2 + payloadLen buf 0))

theorem next_cons (hi lo : UInt8) (body : Bytes) : next (hi :: lo :: body) =
    if body.length < hi.toNat <<< 8 ||| lo.toNat then none
    else some (body.take (hi.toNat <<< 8 ||| lo.toNat),
      body.drop (hi.toNat <<< 8 ||| lo.toNat)) := by
  have hlen : payloadLen (hi :: lo :: body) 0 = hi.toNat <<< 8 ||| lo.toNat := rfl
  unfold next
  rw [hlen, if_neg (by simp only [List.length_cons]; omega)]
  simp only [List.length_cons, Nat.add_comm 2, Nat.add_lt_add_iff_right]
  rfl

/-- There is a frame only where its header and its payload are. -/
theorem next_eq_some (h : next buf = some (payload, rest)) :
    payload.length ≤ 0xFFFF ∧ buf = frame payload ++ rest := by
  rcases buf with _ | ⟨hi, _ | ⟨lo, body⟩⟩
  · cases h
  · cases h
  · rw [next_cons] at h
    split_ifs at h with hlen
    obtain ⟨rfl, rfl⟩ := Prod.mk.inj (Option.some.inj h)
    have hpayload : (body.take (hi.toNat <<< 8 ||| lo.toNat)).length
        = hi.toNat <<< 8 ||| lo.toNat := by
      rw [List.length_take, Nat.min_eq_left (Nat.not_lt.1 hlen)]
    obtain ⟨hhi, hlo⟩ := ofNat_header hi lo
    refine ⟨Nat.le_trans (Nat.le_of_eq hpayload) (header_lt hi lo), ?_⟩
    unfold frame
    rw [hpayload, hhi, hlo, List.cons_append, List.cons_append, List.take_append_drop]

theorem next_frame (h : payload.length ≤ 0xFFFF) (rest : Bytes) :
    next (frame payload ++ rest) = some (payload, rest) := by
  unfold frame
  rw [List.cons_append, List.cons_append, next_cons, header_ofNat h, if_neg (by simp),
    List.take_left, List.drop_left]

def framing : Framing UInt8 Bytes where
  next := next
  shorter h := by
    obtain ⟨-, rfl⟩ := next_eq_some h
    simp only [frame, List.length_append, List.length_cons]
    omega
  append c h := by
    obtain ⟨hlen, rfl⟩ := next_eq_some h
    rw [List.append_assoc, next_frame hlen]

end Frames

section Filter

theorem payloadLen_drop : payloadLen (buf.drop pos) 0 = payloadLen buf pos := by
  simp only [payloadLen, List.getD_eq_getElem?_getD, List.getElem?_drop, Nat.add_zero,
    Nat.zero_add]

/-- The first frame from `pos` on. -/
theorem next_drop (buf : Bytes) (pos : ℕ) : next (buf.drop pos) =
    if buf.length < pos + 2 then none
    else if buf.length < pos + 2 + payloadLen buf pos then none
    else some ((buf.drop (pos + 2)).take (payloadLen buf pos),
      buf.drop (pos + 2 + payloadLen buf pos)) := by
  unfold next
  rw [payloadLen_drop, List.length_drop, List.drop_drop, List.drop_drop, ← Nat.add_assoc]
  have hhead : buf.length - pos < 2 ↔ buf.length < pos + 2 := by omega
  have hbody : buf.length - pos < 2 + payloadLen buf pos ↔
      buf.length < pos + 2 + payloadLen buf pos := by omega
  simp only [hhead, hbody]

theorem filterLoop_eq (buf : Bytes) (n pos : ℕ) :
    (filterLoop buf n pos).1 = (framing.drainLoop n (buf.drop pos)).1 ∧
      buf.drop (filterLoop buf n pos).2 = (framing.drainLoop n (buf.drop pos)).2 := by
  induction n generalizing pos with
  | zero => exact ⟨rfl, rfl⟩
  | succ n ih =>
    have hnext := next_drop buf pos
    change framing.next _ = _ at hnext
    simp only [filterLoop, Framing.drainLoop, hnext]
    by_cases hhead : pos + 2 ≤ buf.length
    · rw [if_pos hhead, if_neg (Nat.not_lt.2 hhead)]
      by_cases hbody : buf.length < pos + 2 + payloadLen buf pos
      · rw [if_pos hbody, if_pos hbody]
        exact ⟨rfl, rfl⟩
      · rw [if_neg hbody, if_neg hbody]
        obtain ⟨h1, h2⟩ := ih (pos + 2 + payloadLen buf pos)
        exact ⟨congrArg (List.cons _) h1, h2⟩
    · rw [if_neg hhead, if_pos (Nat.not_le.1 hhead)]
      exact ⟨rfl, rfl⟩

theorem lfilter_eq (buf newData : Bytes) :
    lfilter buf newData = framing.drain (buf ++ newData) := by
  obtain ⟨h1, h2⟩ := filterLoop_eq (buf ++ newData) (buf ++ newData).length 0
  rw [List.drop_zero] at h1 h2
  refine Prod.ext h1 (Eq.trans ?_ h2)
  change (if _ then _ else _) = _
  split_ifs with hlt
  · rfl
  · exact (List.drop_eq_nil_of_le (Nat.not_lt.1 hlt)).symm

theorem filterChunks_eq (buf : Bytes) (chunks : List Bytes) :
    filterChunks buf chunks = framing.feed buf chunks := by
  induction chunks generalizing buf with
  | nil => rfl
  | cons chunk chunks ih =>
    simp only [filterChunks, Framing.feed, lfilter_eq, ih]

end Filter

section Unpack

theorem emod_toSigned (w : ℕ) (v : ℤ) : toSigned w v % 2 ^ w = v % 2 ^ w := by
  have h2 : (2 : ℤ) ^ w ≠ 0 := by positivity
  have hnat : ((v % 2 ^ w).toNat : ℤ) = v % 2 ^ w := Int.toNat_of_nonneg (Int.emod_nonneg v h2)
  unfold toSigned signed
  split_ifs
  · rw [hnat, Int.emod_emod_of_dvd _ (Int.dvd_refl _)]
  · rw [hnat, Int.sub_emod_right, Int.emod_emod_of_dvd _ (Int.dvd_refl _)]

/-- The offset of a byte of the buffer, or the one behind it, and back. -/
theorem toSigned_offset (h : pos < 2 ^ 31) : toSigned 32 (toSigned 32 (pos + 1 : ℕ) - 1) = pos := by
  have hmod : (toSigned 32 (pos + 1 : ℕ) - 1) % 2 ^ 32 = (pos : ℤ) % 2 ^ 32 := by
    rw [Int.sub_emod, emod_toSigned, ← Int.sub_emod]
    simp
  rw [← toSigned_of_range (w := 32) (v := pos) (by omega) (by omega), toSigned, hmod, toSigned]

theorem lunpack_eq (hbuf : buf.length < 2 ^ 31) (hpos : pos ≤ buf.length) :
    lunpack buf (toSigned 32 (pos + 1 : ℕ)) = (framing.next (buf.drop pos)).map fun r =>
      (toSigned 32 (buf.length - r.2.length + 1 : ℕ), r.1) := by
  have hidem : toSigned 32 (toSigned 32 (pos + 1 : ℕ)) = toSigned 32 (pos + 1 : ℕ) := by
    obtain ⟨h0, h1⟩ := toSigned_range 32 (pos + 1 : ℕ)
    exact toSigned_of_range h0 h1
  unfold lunpack
  rw [hidem, toSigned_offset (by omega)]
  change _ = (next (buf.drop pos)).map _
  rw [next_drop]
  simp only [Int.toNat_natCast, Nat.cast_le]
  split_ifs <;> first | rfl | omega | skip
  simp only [Option.map_some, List.length_drop, Option.some.injEq, Prod.mk.injEq, and_true]
  congr 1
  omega

theorem unpackFrom_eq (hbuf : buf.length < 2 ^ 31) (hpos : pos ≤ buf.length)
    (hn : buf.length - pos < n) :
    unpackFrom buf n (toSigned 32 (pos + 1 : ℕ)) = some (framing.drain (buf.drop pos)).1 := by
  induction n generalizing pos with
  | zero => omega
  | succ n ih =>
    unfold unpackFrom
    rw [lunpack_eq hbuf hpos]
    rcases hnext : framing.next (buf.drop pos) with _ | ⟨payload, rest⟩
    · rw [framing.drain_none hnext]
      rfl
    · obtain ⟨-, heq⟩ := next_eq_some hnext
      have hlen := congrArg List.length heq
      simp only [List.length_drop, List.length_append, frame, List.length_cons] at hlen
      have hrest : buf.drop (buf.length - rest.length) = rest := by
        have hdrop : buf.drop (buf.length - rest.length)
            = (buf.drop pos).drop ((buf.drop pos).length - rest.length) := by
          rw [List.drop_drop, List.length_drop]
          congr 1
          omega
        rw [hdrop, heq, List.length_append, Nat.add_sub_cancel, List.drop_left]
      have htail := ih (Nat.sub_le buf.length rest.length) (by omega)
      rw [hrest] at htail
      rw [framing.drain_some hnext]
      simp only [Option.map_some, htail]

end Unpack

end Netpack

end SkynetCpp
