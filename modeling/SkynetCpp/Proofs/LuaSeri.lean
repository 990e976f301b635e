import SkynetCpp.LuaSeri

/-!
# Packing and unpacking

What `luaseri_pack` writes, `luaseri_unpack` reads back, and it is the same values
(`roundTrips_of_bordersFit`). It rests on the array size of every table, an `int` that `lua_rawlen`
is cast to: not negative, or of no low bits, for these are all that a small array size leaves in
the cookie. A sparse table can have a border of `2^31 + 1`, and loses its contents
(`lost_sparse_table`).
-/

namespace SkynetCpp

open Lib

namespace LuaSeri

/-- A value that can be packed, with tables at most `depth` deep. -/
def Packable : ℕ → Value → Prop
  | _, .string s => s.length < 2 ^ 32
  | _, .other _ => False
  | 0, .table _ _ => False
  | depth + 1, .table fields rawlen =>
    (∀ p ∈ fields, Packable depth p.1 ∧ Packable depth p.2) ∧ Fields.WellFormed fields
      ∧ Fields.IsBorder fields rawlen
  | _, _ => True

/-- Every table's border, as an `int`, leaves nothing in the cookie that is not its array size. -/
def BordersFit : ℕ → Value → Prop
  | depth + 1, .table fields rawlen =>
    (0 ≤ toSigned 32 rawlen ∨ toSigned 32 rawlen % 32 = 0)
      ∧ ∀ p ∈ fields, BordersFit depth p.1 ∧ BordersFit depth p.2
  | _, _ => True

/-- `unpack(pack(...))` gives back the values. -/
def RoundTrips (values : List Value) : Prop :=
  ∃ bytes, luaseriPack values = .ok bytes ∧ (bytes.length < 2 ^ 31 →
    ∃ values', luaseriUnpack bytes = .ok values' ∧ List.Forall₂ Value.Same values values')

section WriteBlock

theorem seri_extend (wb : WriteBlock) : seri wb.extend = seri wb := by
  unfold WriteBlock.extend
  split_ifs
  · simp [seri]
  · rfl

theorem room_extend (wb : WriteBlock) : 0 < BLOCK_SIZE - wb.extend.current.length := by
  unfold WriteBlock.extend
  split_ifs with h
  · simp [BLOCK_SIZE]
  · omega

theorem seri_pushLoop (n : ℕ) (wb : WriteBlock) (data : Bytes) (h : data.length ≤ n) :
    seri (wb.pushLoop n data) = seri wb ++ data := by
  induction n generalizing wb data with
  | zero =>
    rw [List.length_eq_zero_iff.1 (Nat.le_zero.1 h)]
    simp [WriteBlock.pushLoop]
  | succ n ih =>
    unfold WriteBlock.pushLoop
    split_ifs with h0
    · rw [List.length_eq_zero_iff.1 h0, List.append_nil]
    · have hroom := room_extend wb
      rw [ih _ _ (by rw [List.length_drop]; omega)]
      rw [← seri_extend wb]
      simp only [seri, List.flatten_append, List.flatten_cons, List.flatten_nil, List.append_nil,
        List.append_assoc, List.take_append_drop]

/-- The blocks hold what was pushed. -/
theorem seri_foldl_push (pushes : List Bytes) (wb : WriteBlock) :
    seri (pushes.foldl WriteBlock.push wb) = seri wb ++ pushes.flatten := by
  induction pushes generalizing wb with
  | nil => simp
  | cons data pushes ih =>
    rw [List.foldl_cons, ih, WriteBlock.push, seri_pushLoop _ _ _ le_rfl, List.append_assoc,
      List.flatten_cons]

end WriteBlock

section Scalars

theorem read_append {a rest : Bytes} {k : ℕ} (h : a.length = k) :
    read (a ++ rest) k = (some a, rest) := by
  subst h
  simp [read]

theorem read_cons (t : UInt8) (rest : Bytes) : read (t :: rest) 1 = (some [t], rest) := by
  simp [read]

theorem toNat_combineType {t : ℕ} (ht : t < 8) (v : ℤ) :
    (combineType t v).toNat = t + 8 * (v % 32).toNat := by
  have hv : (v * 8 % 256).toNat = 2 ^ 3 * (v % 32).toNat := by omega
  rw [combineType, hv, Nat.or_comm, ← Nat.two_pow_add_eq_or_of_lt (by omega : t < 2 ^ 3)]
  rw [UInt8.toNat_ofNat']
  have : (v % 32).toNat < 32 := by omega
  omega

theorem combineType_mod {t : ℕ} (ht : t < 8) (v : ℤ) : (combineType t v).toNat % 8 = t := by
  rw [toNat_combineType ht]
  omega

theorem combineType_div {t : ℕ} (ht : t < 8) (v : ℤ) :
    (combineType t v).toNat / 8 = (v % 32).toNat := by
  rw [toNat_combineType ht]
  omega

theorem combineType_cookie {t c : ℕ} (ht : t < 8) (hc : c < 32) :
    (combineType t c).toNat / 8 = c := by
  rw [combineType_div ht]
  omega

theorem readInt_le {k n : ℕ} (hn : n < 256 ^ k) (conv : ℕ → ℤ) (rest : Bytes) :
    readInt (le k n ++ rest) k conv = (conv n, rest) := by
  rw [readInt, read_append (length_le k n)]
  simp only [ofLe_le_of_lt hn]

theorem rbWord_le (w : UInt64) (rest : Bytes) : rbWord (le 8 w.toNat ++ rest) = (w, rest) := by
  rw [rbWord, read_append (length_le 8 _)]
  have : w.toNat < 256 ^ 8 := w.toNat_lt
  simp only [ofLe_le_of_lt this, UInt64.ofNat_toNat]

theorem flatten_pair (t : UInt8) (data : Bytes) : [[t], data].flatten = t :: data := by simp

theorem rbInteger_byte (rb : Bytes) : rbInteger rb TYPE_NUMBER_BYTE = readInt rb 1 (↑) := rfl

theorem rbInteger_word (rb : Bytes) : rbInteger rb TYPE_NUMBER_WORD = readInt rb 2 (↑) := rfl

theorem rbInteger_dword (rb : Bytes) :
    rbInteger rb TYPE_NUMBER_DWORD = readInt rb 4 (signed 32) := rfl

theorem rbInteger_qword (rb : Bytes) :
    rbInteger rb TYPE_NUMBER_QWORD = readInt rb 8 (signed 64) := rfl

/-- An integer is read back from its head and what follows. -/
theorem wbInteger_read {v : ℤ} (h0 : -(2 ^ 63) ≤ v) (h1 : v < 2 ^ 63) :
    ∃ t tail, (wbInteger v).flatten = t :: tail ∧ t.toNat % 8 = TYPE_NUMBER
      ∧ t.toNat / 8 ≠ TYPE_NUMBER_DOUBLE
      ∧ ∀ rest, rbInteger (tail ++ rest) (t.toNat / 8) = (v, rest) := by
  have ht : TYPE_NUMBER < 8 := by decide
  unfold wbInteger
  split_ifs with hz hq hn hb hw
  · refine ⟨_, [], rfl, combineType_mod ht _, ?_, fun rest => ?_⟩
    · rw [combineType_cookie ht (by decide)]; decide
    · rw [combineType_cookie ht (by decide), hz]; rfl
  · refine ⟨_, le 8 (v % 2 ^ 64).toNat, flatten_pair _ _, combineType_mod ht _, ?_, fun rest => ?_⟩
    · rw [combineType_cookie ht (by decide)]; decide
    · rw [combineType_cookie ht (by decide), rbInteger_qword, readInt_le (by omega),
        signed_emod (by omega) (by omega)]
  · refine ⟨_, le 4 (v % 2 ^ 32).toNat, flatten_pair _ _, combineType_mod ht _, ?_, fun rest => ?_⟩
    · rw [combineType_cookie ht (by decide)]; decide
    · rw [combineType_cookie ht (by decide), rbInteger_dword, readInt_le (by omega)]
      exact congrArg (·, rest) (not_not.1 hq).symm
  · refine ⟨_, le 1 v.toNat, flatten_pair _ _, combineType_mod ht _, ?_, fun rest => ?_⟩
    · rw [combineType_cookie ht (by decide)]; decide
    · rw [combineType_cookie ht (by decide), rbInteger_byte, readInt_le (by omega),
        Int.toNat_of_nonneg (not_lt.1 hn)]
  · refine ⟨_, le 2 v.toNat, flatten_pair _ _, combineType_mod ht _, ?_, fun rest => ?_⟩
    · rw [combineType_cookie ht (by decide)]; decide
    · rw [combineType_cookie ht (by decide), rbInteger_word, readInt_le (by omega),
        Int.toNat_of_nonneg (not_lt.1 hn)]
  · have hrange := toSigned_range 32 v
    rw [← not_not.1 hq] at hrange
    refine ⟨_, le 4 v.toNat, flatten_pair _ _, combineType_mod ht _, ?_, fun rest => ?_⟩
    · rw [combineType_cookie ht (by decide)]; decide
    · rw [combineType_cookie ht (by decide), rbInteger_dword, readInt_le (by omega),
        signed, if_pos (by omega), Int.toNat_of_nonneg (not_lt.1 hn)]

/-- The decoder, at the head of these bytes, reads `v` and stops at their end. -/
def Reads (v : Value) (bytes : Bytes) : Prop :=
  ∃ t tail v', bytes = t :: tail ∧ (t.toNat % 8 = TYPE_NIL → v = .nil) ∧ v.Same v' ∧
    ∀ fuel rest, 2 * (tail ++ rest).length + 2 ≤ fuel →
      unpackTagged fuel t.toNat (tail ++ rest) = .ok (v', rest)

/-- A scalar is read without recursion. -/
theorem reads_scalar {v : Value} {t : UInt8} {tail : Bytes} (hv : ∀ fields n, v ≠ .table fields n)
    (ht : t.toNat % 8 = TYPE_NIL → v = .nil)
    (h : ∀ fuel rest, unpackTagged (fuel + 1) t.toNat (tail ++ rest) = .ok (v, rest)) :
    Reads v (t :: tail) := by
  refine ⟨t, tail, v, rfl, ht, .scalar hv, fun fuel rest hf => ?_⟩
  obtain ⟨fuel, rfl⟩ : ∃ f, fuel = f + 1 := ⟨fuel - 1, by omega⟩
  exact h fuel rest

theorem reads_nil : Reads .nil wbNil.flatten :=
  reads_scalar (fun _ _ => nofun) (fun _ => rfl) fun _ _ => rfl

theorem reads_boolean (b : Bool) : Reads (.boolean b) (wbBoolean b).flatten := by
  cases b <;>
    exact reads_scalar (fun _ _ => nofun) (fun h => absurd h (by decide)) fun _ _ => rfl

theorem reads_integer (n : Int64) : Reads (.integer n) (wbInteger n.toInt).flatten := by
  obtain ⟨t, tail, heq, hmod, hdiv, hread⟩ :=
    wbInteger_read (Int64.le_toInt n) (Int64.toInt_lt n)
  rw [heq]
  refine reads_scalar (fun _ _ => nofun) (fun h => ?_) fun fuel rest => ?_
  · rw [hmod] at h
    cases h
  · simp only [unpackTagged, hmod, hread rest, if_neg hdiv]
    simp [TYPE_NUMBER, TYPE_NIL, TYPE_BOOLEAN]

theorem reads_float (bits : UInt64) : Reads (.float bits) (wbDouble bits).flatten := by
  rw [wbDouble, flatten_pair]
  have ht : TYPE_NUMBER < 8 := by decide
  refine reads_scalar (fun _ _ => nofun) (fun h => ?_) fun fuel rest => ?_
  · rw [combineType_mod ht] at h
    cases h
  · simp only [unpackTagged, combineType_mod ht, rbWord_le,
      combineType_cookie ht (by decide : TYPE_NUMBER_DOUBLE < 32)]
    simp [TYPE_NUMBER, TYPE_NIL, TYPE_BOOLEAN]

theorem reads_lightuserdata (p : UInt64) : Reads (.lightuserdata p) (wbPointer p).flatten := by
  rw [wbPointer, flatten_pair]
  have ht : TYPE_USERDATA < 8 := by decide
  refine reads_scalar (fun _ _ => nofun) (fun h => ?_) fun fuel rest => ?_
  · rw [combineType_mod ht] at h
    cases h
  · simp only [unpackTagged, combineType_mod ht, rbWord_le]
    simp [TYPE_NUMBER, TYPE_NIL, TYPE_BOOLEAN, TYPE_USERDATA]

theorem rbString_append (s rest : Bytes) : rbString (s ++ rest) s.length = (.string s, rest) := by
  rw [rbString, read_append rfl]

theorem reads_short {s : Bytes} (h : s.length < MAX_COOKIE) :
    Reads (.string s) (combineType TYPE_SHORT_STRING s.length :: s) := by
  have ht : TYPE_SHORT_STRING < 8 := by decide
  refine reads_scalar (fun _ _ => nofun) (fun h => ?_) fun fuel rest => ?_
  · rw [combineType_mod ht] at h
    cases h
  · simp only [unpackTagged, combineType_mod ht, combineType_cookie ht h, rbString_append]
    simp [TYPE_NUMBER, TYPE_NIL, TYPE_BOOLEAN, TYPE_USERDATA, TYPE_SHORT_STRING]

/-- A long string, its length in `k` bytes. -/
theorem reads_long {s : Bytes} {c k : ℕ} (hc : c < 32) (hk : (if c = 2 then 2 else 4) = k)
    (h : s.length < 256 ^ k) :
    Reads (.string s) (combineType TYPE_LONG_STRING c :: (le k s.length ++ s)) := by
  have ht : TYPE_LONG_STRING < 8 := by decide
  refine reads_scalar (fun _ _ => nofun) (fun h => ?_) fun fuel rest => ?_
  · rw [combineType_mod ht] at h
    cases h
  · simp only [unpackTagged, combineType_mod ht, combineType_cookie ht hc, hk, List.append_assoc,
      readInt_le h, Int.toNat_natCast, rbString_append]
    simp [TYPE_NUMBER, TYPE_NIL, TYPE_BOOLEAN, TYPE_USERDATA, TYPE_SHORT_STRING, TYPE_LONG_STRING]

theorem reads_string {s : Bytes} (hs : s.length < 2 ^ 32) :
    Reads (.string s) (wbString s).flatten := by
  unfold wbString
  simp only []
  split_ifs with h1 h2 h3
  · rw [flatten_pair]
    exact reads_short h1
  · rw [List.length_eq_zero_iff.1 (Nat.le_zero.1 (not_lt.1 h2))]
    exact reads_short (s := []) (by decide)
  · have := reads_long (c := 2) (k := 2) (s := s) (by decide) rfl (by omega)
    simpa using this
  · have := reads_long (c := 4) (k := 4) (s := s) (by decide) rfl (by omega)
    simpa using this

/-- The array size of a table head: what the cookie, or the integer behind it, says. -/
theorem wbArraySize_read {a : ℤ} (h0 : -(2 ^ 31) ≤ a) (h1 : a < 2 ^ 31)
    (hfit : 0 ≤ a ∨ a % 32 = 0) :
    ∃ t tail, (wbArraySize a).flatten = t :: tail ∧ t.toNat % 8 = TYPE_TABLE
      ∧ ∀ rest, ∃ a', rbArraySize (tail ++ rest) (t.toNat / 8) = (a', rest) ∧ a'.toNat = a.toNat := by
  have ht : TYPE_TABLE < 8 := by decide
  have hmax : (MAX_COOKIE : ℤ) - 1 = (31 : ℕ) := rfl
  unfold wbArraySize
  split_ifs with h
  · obtain ⟨t, tail, heq, -, -, hread⟩ := wbInteger_read (v := a) (by omega) (by omega)
    refine ⟨combineType TYPE_TABLE (MAX_COOKIE - 1), t :: tail, ?_, combineType_mod ht _,
      fun rest => ⟨a, ?_, rfl⟩⟩
    · rw [List.flatten_cons, heq]
      rfl
    · rw [hmax, combineType_cookie ht (by decide), rbArraySize,
        if_pos (show 31 = MAX_COOKIE - 1 from rfl), List.cons_append, read_cons]
      simp only [ofLe, Nat.mul_zero, Nat.add_zero, hread rest]
      rw [toSigned_of_range (by omega) (by omega)]
  · refine ⟨combineType TYPE_TABLE a, [], rfl, combineType_mod ht _, fun rest =>
      ⟨(a % 32).toNat, ?_, ?_⟩⟩
    · rw [combineType_div ht, rbArraySize, if_neg, List.nil_append]
      have : (MAX_COOKIE : ℕ) - 1 = 31 := rfl
      omega
    · omega

end Scalars

section Tables

open Value

theorem keyEq_comm (k l : Value) : keyEq k l = keyEq l k := by
  cases k <;> cases l <;> simp [keyEq, eq_comm]

theorem keyEq_table_left (fields : Fields) (n : ℕ) (k : Value) :
    keyEq (.table fields n) k = false := by
  cases k <;> rfl

theorem keyEq_of_same {k k' l l' : Value} (hk : k.Same k') (hl : l.Same l') :
    keyEq k' l' = keyEq k l := by
  cases hk with
  | table _ _ _ => rw [keyEq_table_left, keyEq_table_left]
  | scalar _ =>
    cases hl with
    | table _ _ _ =>
      rw [keyEq_comm, keyEq_table_left, keyEq_comm, keyEq_table_left]
    | scalar _ => rfl

theorem eq_nil_of_isNil {v : Value} (h : v.isNil = true) : v = .nil := by
  cases v with
  | nil => rfl
  | _ => cases h

theorem isNil_of_same {v v' : Value} (h : v.Same v') : v'.isNil = v.isNil := by
  cases h <;> rfl

/-- A new key with a value is added at the end. -/
theorem rawset_new {qs fs : Fields} {k k' v v' : Value} (hqs : Fields.Same qs fs) (hk : k.Same k')
    (hv : v.Same v') (hkey : k.isNil = false ∧ k.normKey = k ∧ ∀ bits, k = .float bits →
      isNaN bits = false) (hnew : ∀ p ∈ qs, keyEq p.1 k = false) :
    fs.rawset k' v' = .ok (if v.isNil then fs else fs ++ [(k', v')]) := by
  have hput : Fields.rawset.put fs k'.normKey v' = if v.isNil then fs else fs ++ [(k', v')] := by
    have hnorm : k'.normKey = k' := by
      cases hk with
      | scalar _ => exact hkey.2.1
      | table _ _ _ => rfl
    have hrest : (fs.filter fun p => !keyEq p.1 k') = fs := by
      refine List.filter_eq_self.2 fun p hp => ?_
      obtain ⟨q, hq, hl, -⟩ := hqs.exists_mem hp
      rw [Bool.not_eq_true', keyEq_of_same hl hk]
      exact hnew q hq
    simp only [Fields.rawset.put, hnorm, hrest, isNil_of_same hv]
  cases k' with
  | nil => exact absurd (isNil_of_same hk) (by rw [hkey.1]; decide)
  | float bits =>
    cases hk
    rw [Fields.rawset, hkey.2.2 bits rfl]
    exact congrArg Except.ok hput
  | _ => exact congrArg Except.ok hput

/-- `unpack_one` reads what can be read. -/
theorem Reads.unpackOne {v : Value} {bytes : Bytes} (h : Reads v bytes) :
    ∃ v', v.Same v' ∧ ∀ fuel rest, 2 * (bytes ++ rest).length + 1 ≤ fuel →
      LuaSeri.unpackOne fuel (bytes ++ rest) = .ok (v', rest) := by
  obtain ⟨t, tail, v', rfl, -, hsame, hread⟩ := h
  refine ⟨v', hsame, fun fuel rest hf => ?_⟩
  rw [List.cons_append, List.length_cons] at hf
  obtain ⟨fuel, rfl⟩ : ∃ f, fuel = f + 1 := ⟨fuel - 1, by omega⟩
  rw [LuaSeri.unpackOne, List.cons_append, read_cons]
  simp only [ofLe, Nat.mul_zero, Nat.add_zero]
  exact hread fuel rest (by omega)

/-- The pairs of an array part with the values `xs` for the keys from `i` on. -/
def arrayFields : ℕ → List Value → Fields
  | _, [] => []
  | i, x :: xs =>
    if x.isNil then arrayFields (i + 1) xs
    else (.integer (Int64.ofNat i), x) :: arrayFields (i + 1) xs

theorem keyEq_integer {i j : ℕ} (hi : i < 2 ^ 63) (hj : j < 2 ^ 63) (h : i ≠ j) :
    keyEq (.integer (Int64.ofNat i)) (.integer (Int64.ofNat j)) = false := by
  have hne : Int64.ofNat i ≠ Int64.ofNat j := by
    intro heq
    have := congrArg Int64.toInt heq
    rw [Int64.toInt_ofNat_of_lt hi, Int64.toInt_ofNat_of_lt hj] at this
    exact h (by exact_mod_cast this)
  simpa [keyEq] using hne

/-- The array part is read back, its nils left out. -/
theorem rbArray_read {xs : List Value} {bss : List Bytes} (h : List.Forall₂ Reads xs bss) :
    ∀ (i : ℕ) (qs fs : Fields), Fields.Same qs fs →
      (∀ p ∈ qs, ∀ j, i ≤ j → j < i + xs.length →
        keyEq p.1 (.integer (Int64.ofNat j)) = false) → i + xs.length ≤ 2 ^ 63 →
      ∃ fs', Fields.Same (qs ++ arrayFields i xs) fs' ∧
        ∀ fuel rest, 2 * (bss.flatten ++ rest).length + 1 ≤ fuel →
          rbArray (unpackOne fuel) xs.length i fs (bss.flatten ++ rest) = .ok (fs', rest) := by
  induction h with
  | nil => exact fun i qs fs hqs _ _ => ⟨fs, by rwa [arrayFields, List.append_nil], fun _ _ _ => rfl⟩
  | @cons x bs xs bss hx _ ih =>
    intro i qs fs hqs hnew hlen
    rw [List.length_cons] at hnew hlen
    obtain ⟨x', hsame, hread⟩ := hx.unpackOne
    have hset := rawset_new (k := .integer (Int64.ofNat i)) hqs (.scalar fun _ _ => nofun) hsame
      ⟨rfl, rfl, fun _ => nofun⟩ fun p hp => hnew p hp i le_rfl (by omega)
    have hfields : qs ++ arrayFields i (x :: xs)
        = (if x.isNil then qs else qs ++ [(.integer (Int64.ofNat i), x)])
          ++ arrayFields (i + 1) xs := by
      rw [arrayFields]
      split_ifs <;> simp
    have hqs' : Fields.Same (if x.isNil then qs else qs ++ [(.integer (Int64.ofNat i), x)])
        (if x.isNil then fs else fs ++ [(.integer (Int64.ofNat i), x')]) := by
      split_ifs
      · exact hqs
      · exact List.rel_append hqs (.cons ⟨.scalar fun _ _ => nofun, hsame⟩ .nil)
    have hnew' : ∀ p ∈ (if x.isNil then qs else qs ++ [(.integer (Int64.ofNat i), x)]), ∀ j,
        i + 1 ≤ j → j < i + 1 + xs.length → keyEq p.1 (.integer (Int64.ofNat j)) = false := by
      intro p hp j hj hj'
      have hold : p ∈ qs → keyEq p.1 (.integer (Int64.ofNat j)) = false :=
        fun hp => hnew p hp j (by omega) (by omega)
      split_ifs at hp
      · exact hold hp
      · rcases List.mem_append.1 hp with hp | hp
        · exact hold hp
        · rw [List.mem_singleton.1 hp]
          exact keyEq_integer (by omega) (by omega) (by omega)
    obtain ⟨fs', hfs', hloop⟩ := ih (i + 1) _ _ hqs' hnew' (by omega)
    refine ⟨fs', hfields ▸ hfs', fun fuel rest hf => ?_⟩
    rw [List.flatten_cons, List.append_assoc] at hf ⊢
    rw [List.length_cons, rbArray, hread fuel _ hf]
    simp only [bind, Except.bind, hset]
    exact hloop fuel rest (by rw [List.length_append] at hf; omega)

/-- The bytes of a pair: its key, then its value. -/
def PairReads (p : Value × Value) (bytes : Bytes) : Prop :=
  ∃ key value, bytes = key ++ value ∧ Reads p.1 key ∧ Reads p.2 value

/-- The hash part is read back, up to the nil that ends it. -/
theorem rbHash_read {hs : Fields} {bss : List Bytes} (h : List.Forall₂ PairReads hs bss) :
    ∀ qs fs : Fields, Fields.Same qs fs → (qs ++ hs).Pairwise (fun p p' => keyEq p.1 p'.1 = false) →
      (∀ p ∈ hs, p.1.isNil = false ∧ p.1.normKey = p.1
        ∧ ∀ bits, p.1 = .float bits → isNaN bits = false) → (∀ p ∈ hs, p.2.isNil = false) →
      ∃ fs', Fields.Same (qs ++ hs) fs' ∧
        ∀ fuel rest, 2 * (bss.flatten ++ 0 :: rest).length + 1 ≤ fuel →
          rbHash fuel fs (bss.flatten ++ 0 :: rest) = .ok (fs', rest) := by
  induction h with
  | nil =>
    refine fun qs fs hqs _ _ _ => ⟨fs, by rwa [List.append_nil], fun fuel rest hf => ?_⟩
    obtain ⟨fuel, rfl⟩ : ∃ f, fuel = f + 1 := ⟨fuel - 1, by omega⟩
    rw [rbHash, List.flatten_nil, List.nil_append, read_cons]
    rfl
  | @cons p bs hs bss hp _ ih =>
    intro qs fs hqs hdist hkeys hvals
    obtain ⟨key, value, rfl, hkey, hvalue⟩ := hp
    obtain ⟨t, tail, k', rfl, hnil, hk, hreadKey⟩ := hkey
    obtain ⟨v', hv, hreadValue⟩ := hvalue.unpackOne
    have hnew : ∀ q ∈ qs, keyEq q.1 p.1 = false := fun q hq =>
      (List.pairwise_append.1 hdist).2.2 q hq p List.mem_cons_self
    have hset := rawset_new hqs hk hv (hkeys p List.mem_cons_self) hnew
    rw [hvals p List.mem_cons_self, if_neg Bool.false_ne_true] at hset
    have hqs' : Fields.Same (qs ++ [p]) (fs ++ [(k', v')]) :=
      List.rel_append hqs (.cons ⟨hk, hv⟩ .nil)
    obtain ⟨fs', hfs', hloop⟩ := ih (qs ++ [p]) _ hqs' (by rwa [List.append_assoc])
      (fun q hq => hkeys q (List.mem_cons_of_mem _ hq))
      (fun q hq => hvals q (List.mem_cons_of_mem _ hq))
    refine ⟨fs', by rwa [List.append_assoc] at hfs', fun fuel rest hf => ?_⟩
    rw [List.flatten_cons, List.append_assoc, List.append_assoc] at hf ⊢
    rw [List.cons_append, List.length_cons] at hf
    obtain ⟨fuel, rfl⟩ : ∃ f, fuel = f + 1 := ⟨fuel - 1, by omega⟩
    have htype : ¬ ofLe [t] % 8 = TYPE_NIL := by
      intro h
      have := (hkeys p List.mem_cons_self).1
      rw [hnil (by simpa [ofLe] using h)] at this
      cases this
    rw [rbHash, List.cons_append, read_cons]
    simp only [if_neg htype]
    simp only [ofLe, Nat.mul_zero, Nat.add_zero, bind, Except.bind]
    rw [hreadKey fuel _ (by omega)]
    simp only []
    rw [hreadValue fuel _ (by rw [List.length_append] at hf; omega)]
    simp only [hset]
    exact hloop fuel rest (by simp only [List.length_append] at hf ⊢; omega)

theorem mem_arrayFields {p : Value × Value} {xs : List Value} {i : ℕ} :
    p ∈ arrayFields i xs ↔
      ∃ j x, xs[j]? = some x ∧ x.isNil = false ∧ p = (.integer (Int64.ofNat (i + j)), x) := by
  induction xs generalizing i with
  | nil => simp [arrayFields]
  | cons x xs ih =>
    have hstep : (∃ j y, (x :: xs)[j]? = some y ∧ y.isNil = false
          ∧ p = (.integer (Int64.ofNat (i + j)), y))
        ↔ (x.isNil = false ∧ p = (.integer (Int64.ofNat i), x)) ∨ p ∈ arrayFields (i + 1) xs := by
      rw [ih]
      constructor
      · rintro ⟨j, y, hj, hy, hp⟩
        cases j with
        | zero =>
          rw [List.getElem?_cons_zero, Option.some.injEq] at hj
          subst hj
          exact .inl ⟨hy, hp⟩
        | succ j => exact .inr ⟨j, y, by simpa using hj, hy, by rw [hp]; congr 3; omega⟩
      · rintro (⟨hx, hp⟩ | ⟨j, y, hj, hy, hp⟩)
        · exact ⟨0, x, rfl, hx, hp⟩
        · exact ⟨j + 1, y, by simpa using hj, hy, by rw [hp]; congr 3; omega⟩
    rw [hstep, arrayFields]
    split_ifs with hx
    · simp [hx]
    · simp only [Bool.not_eq_true] at hx
      simp [hx]

theorem nodup_arrayFields {xs : List Value} {i : ℕ} (h : i + xs.length ≤ 2 ^ 63) :
    (arrayFields i xs).Nodup := by
  induction xs generalizing i with
  | nil => exact List.nodup_nil
  | cons x xs ih =>
    rw [List.length_cons] at h
    rw [arrayFields]
    split_ifs
    · exact ih (by omega)
    · refine List.nodup_cons.2 ⟨fun hm => ?_, ih (by omega)⟩
      obtain ⟨j, y, hj, -, hp⟩ := mem_arrayFields.1 hm
      have hlt : j < xs.length := (List.getElem?_eq_some_iff.1 hj).1
      have hkey := keyEq_integer (i := i) (j := i + 1 + j) (by omega) (by omega) (by omega)
      rw [← (Prod.mk.inj hp).1] at hkey
      simp [keyEq] at hkey

/-- A key is found where it is stored. -/
theorem rawget_of_mem {fields : Fields} (h : Fields.WellFormed fields) {k v : Value}
    (hm : (k, v) ∈ fields) (hk : keyEq k k = true) : fields.rawget k = v := by
  unfold Fields.rawget
  have hd := h.distinct
  clear h
  induction fields with
  | nil => cases hm
  | cons p fields ih =>
    rw [List.find?_cons]
    rcases List.mem_cons.1 hm with rfl | hm'
    · rw [hk]
    · have := (List.pairwise_cons.1 hd).1 _ hm'
      simp only at this
      rw [this]
      exact ih hm' (List.pairwise_cons.1 hd).2

theorem mem_of_rawgeti {fields : Fields} {i : ℕ} (h : (fields.rawgeti i).isNil = false) :
    (Value.integer (Int64.ofNat i), fields.rawgeti i) ∈ fields := by
  unfold Fields.rawgeti Fields.rawget at h ⊢
  cases hf : fields.find? fun p => keyEq p.1 (.integer (Int64.ofNat i)) with
  | none =>
    rw [hf] at h
    cases h
  | some p =>
    obtain ⟨k, v⟩ := p
    have hk := List.find?_some hf
    have hm := List.mem_of_find?_eq_some hf
    cases k <;> simp [keyEq] at hk
    subst hk
    exact hm

/-- The array part and the hash part are the table. -/
theorem perm_parts {fields : Fields} (h : Fields.WellFormed fields) {a : ℤ} (ha : a < 2 ^ 31) :
    fields.Perm (arrayFields 1 ((List.range a.toNat).map fun i => fields.rawgeti (i + 1))
      ++ fields.filter fun p => !inArray a p.1) := by
  have harr : (arrayFields 1 ((List.range a.toNat).map fun i => fields.rawgeti (i + 1))).Perm
      (fields.filter fun p => inArray a p.1) := by
    rw [List.perm_ext_iff_of_nodup]
    · rintro ⟨k, v⟩
      rw [mem_arrayFields, List.mem_filter]
      constructor
      · rintro ⟨j, x, hj, hx, hp⟩
        obtain ⟨rfl, rfl⟩ := Prod.mk.inj hp
        obtain ⟨j', hj', hx'⟩ := List.getElem?_map .. ▸ hj |> Option.map_eq_some_iff.1
        obtain ⟨hlt, rfl⟩ := List.getElem?_eq_some_iff.1 hj'
        rw [List.length_range] at hlt
        rw [List.getElem_range] at hx'
        subst hx'
        rw [Nat.add_comm 1 j]
        refine ⟨mem_of_rawgeti hx, ?_⟩
        simp only [inArray, Int64.toInt_ofNat_of_lt (show j + 1 < 2 ^ 63 by omega)]
        simp only [Bool.and_eq_true, decide_eq_true_eq]
        omega
      · rintro ⟨hm, hin⟩
        cases k with
        | integer n =>
          simp only [inArray, Bool.and_eq_true, decide_eq_true_eq] at hin
          have hn : Int64.ofNat (1 + (n.toInt.toNat - 1)) = n := by
            rw [← Int64.toInt_inj, Int64.toInt_ofNat_of_lt (by omega)]
            omega
          have hv : fields.rawgeti (n.toInt.toNat - 1 + 1) = v := by
            rw [Fields.rawgeti, Nat.add_comm, hn]
            exact rawget_of_mem h hm (by simp [keyEq])
          refine ⟨n.toInt.toNat - 1, v, ?_, h.values _ hm, by rw [hn]⟩
          rw [List.getElem?_map, List.getElem?_range (by omega), Option.map_some, hv]
        | _ => cases hin
    · exact nodup_arrayFields (by rw [List.length_map, List.length_range]; omega)
    · refine (h.distinct.filter _).imp_of_mem fun {p p'} hp hp' hk heq => ?_
      subst heq
      rw [List.mem_filter] at hp
      cases hk1 : p.1 <;> rw [hk1] at hp hk <;> simp_all [inArray, keyEq]
  exact ((harr.append_right _).trans (List.filter_append_perm _ _)).symm

/-- What each element is packed to, one after the other. -/
theorem mapM_reads {α : Type} {f : α → Except String (List Bytes)} {R : α → Bytes → Prop}
    {xs : List α} (h : ∀ x ∈ xs, ∃ ps, f x = .ok ps ∧ R x ps.flatten) :
    ∃ pss, xs.mapM f = .ok pss ∧ List.Forall₂ R xs (pss.map List.flatten) := by
  induction xs with
  | nil => exact ⟨[], rfl, .nil⟩
  | cons x xs ih =>
    obtain ⟨ps, hps, hR⟩ := h x List.mem_cons_self
    obtain ⟨pss, hpss, hRs⟩ := ih fun y hy => h y (List.mem_cons_of_mem _ hy)
    refine ⟨ps :: pss, ?_, .cons hR hRs⟩
    rw [List.mapM_cons, hps, hpss]
    rfl

theorem flatten_flatten_map {pss : List (List Bytes)} :
    pss.flatten.flatten = (pss.map List.flatten).flatten := by
  induction pss with
  | nil => rfl
  | cons ps pss ih => rw [List.flatten_cons, List.flatten_append, ih, List.map_cons,
      List.flatten_cons]

/-- A scalar is packed at any depth. -/
theorem packOne_scalar {levels : ℕ} {v : Value} (hv : Packable levels v)
    (hs : ∀ fields n, v ≠ .table fields n) :
    ∃ ps, packOne levels v = .ok ps ∧ Reads v ps.flatten := by
  cases v with
  | nil => exact ⟨_, by cases levels <;> rfl, reads_nil⟩
  | boolean b => exact ⟨_, by cases levels <;> rfl, reads_boolean b⟩
  | integer n => exact ⟨_, by cases levels <;> rfl, reads_integer n⟩
  | float bits => exact ⟨_, by cases levels <;> rfl, reads_float bits⟩
  | lightuserdata p => exact ⟨_, by cases levels <;> rfl, reads_lightuserdata p⟩
  | string s => exact ⟨_, by cases levels <;> rfl, reads_string (by cases levels <;> exact hv)⟩
  | table fields rawlen => exact absurd rfl (hs fields rawlen)
  | other typename => exact absurd hv (by cases levels <;> exact id)

theorem packable_nil (levels : ℕ) : Packable levels .nil ∧ BordersFit levels .nil := by
  cases levels <;> exact ⟨trivial, trivial⟩

/-- The decoder, at the head of a table, reads its array part and its hash part. -/
theorem reads_table {fields : Fields} {rawlen : ℕ} {arr hash : List Bytes}
    (hw : Fields.WellFormed fields)
    (hfit : 0 ≤ toSigned 32 rawlen ∨ toSigned 32 rawlen % 32 = 0)
    (harr : List.Forall₂ Reads ((List.range (toSigned 32 rawlen).toNat).map fun i =>
      fields.rawgeti (i + 1)) arr)
    (hhash : List.Forall₂ PairReads (fields.filter fun p => !inArray (toSigned 32 rawlen) p.1)
      hash) :
    Reads (.table fields rawlen) ((wbArraySize (toSigned 32 rawlen)).flatten
      ++ (arr.flatten ++ (hash.flatten ++ [0]))) := by
  have hrange := toSigned_range 32 rawlen
  set a := toSigned 32 rawlen with ha
  obtain ⟨t, tail, heq, hmod, hread⟩ := wbArraySize_read (a := a) (by omega) (by omega) hfit
  have hperm := perm_parts hw (a := a) (by omega)
  set xs := (List.range a.toNat).map fun i => fields.rawgeti (i + 1) with hxs
  have hlen : xs.length = a.toNat := by rw [hxs, List.length_map, List.length_range]
  obtain ⟨fs, hfs, harray⟩ := rbArray_read harr 1 [] [] .nil
    (fun _ hp => absurd hp List.not_mem_nil) (by omega)
  have hdist := hperm.pairwise hw.distinct fun {p p'} h => by rwa [keyEq_comm]
  obtain ⟨fs', hfs', hloop⟩ := rbHash_read hhash _ fs hfs hdist
    (fun p hp => hw.keys p (List.mem_of_mem_filter hp))
    (fun p hp => hw.values p (List.mem_of_mem_filter hp))
  refine ⟨t, tail ++ (arr.flatten ++ (hash.flatten ++ [0])), .table fs' 0, by rw [heq]; rfl,
    fun h => ?_, Value.same_table hperm hfs', fun fuel rest hf => ?_⟩
  · rw [hmod] at h
    cases h
  · obtain ⟨fuel, rfl⟩ : ∃ f, fuel = f + 1 := ⟨fuel - 1, by omega⟩
    simp only [List.append_assoc, List.length_append, List.length_cons,
      List.cons_append, List.nil_append] at hf ⊢
    obtain ⟨a', hsize, ha'⟩ := hread (arr.flatten ++ (hash.flatten ++ 0 :: rest))
    rw [unpackTagged]
    simp only [hmod, hsize]
    rw [if_neg (by decide), if_neg (by decide), if_neg (by decide), if_neg (by decide),
      if_neg (by decide), if_neg (by decide), if_pos trivial, ha', ← hlen]
    simp only [bind, Except.bind]
    rw [harray fuel _ (by simp only [List.length_append, List.length_cons]; omega)]
    simp only []
    rw [hloop fuel _ (by simp only [List.length_append, List.length_cons]; omega)]
    rfl

/-- `pack_one` writes what `unpack_one` reads. -/
theorem packOne_reads (levels : ℕ) (v : Value) (hv : Packable levels v) (hb : BordersFit levels v) :
    ∃ ps, packOne levels v = .ok ps ∧ Reads v ps.flatten := by
  induction levels generalizing v with
  | zero =>
    refine packOne_scalar hv fun fields n h => ?_
    subst h
    exact hv
  | succ levels ih =>
    by_cases hs : ∀ fields n, v ≠ .table fields n
    · exact packOne_scalar hv hs
    · obtain ⟨fields, rawlen, rfl⟩ : ∃ fields rawlen, v = .table fields rawlen := by
        cases v with
        | table fields rawlen => exact ⟨fields, rawlen, rfl⟩
        | _ => exact absurd (fun _ _ => nofun) hs
      obtain ⟨hin, hw, -⟩ := hv
      obtain ⟨hfit, hbin⟩ := hb
      have hmem : ∀ p ∈ fields, (∃ ps, packOne levels p.1 = .ok ps ∧ Reads p.1 ps.flatten)
          ∧ ∃ ps, packOne levels p.2 = .ok ps ∧ Reads p.2 ps.flatten := fun p hp =>
        ⟨ih _ (hin p hp).1 (hbin p hp).1, ih _ (hin p hp).2 (hbin p hp).2⟩
      have hentry : ∀ x ∈ (List.range (toSigned 32 rawlen).toNat).map
            (fun i => Fields.rawgeti fields (i + 1)),
          ∃ ps, packOne levels x = .ok ps ∧ Reads x ps.flatten := by
        intro x hx
        obtain ⟨i, -, rfl⟩ := List.mem_map.1 hx
        cases hnil : (Fields.rawgeti fields (i + 1)).isNil with
        | true =>
          rw [eq_nil_of_isNil hnil]
          exact ih _ (packable_nil levels).1 (packable_nil levels).2
        | false => exact (hmem _ (mem_of_rawgeti hnil)).2
      have hpair : ∀ p ∈ fields.filter (fun p => !inArray (toSigned 32 rawlen) p.1),
          ∃ ps, packPair (packOne levels) p = .ok ps ∧ PairReads p ps.flatten := by
        intro p hp
        obtain ⟨⟨key, hkey, hrk⟩, value, hvalue, hrv⟩ := hmem p (List.mem_of_mem_filter hp)
        refine ⟨key ++ value, ?_, _, _, List.flatten_append, hrk, hrv⟩
        simp only [packPair, hkey, hvalue]
        rfl
      obtain ⟨arr, harr, hra⟩ := mapM_reads hentry
      obtain ⟨hash, hhash, hrh⟩ := mapM_reads hpair
      refine ⟨wbArraySize (toSigned 32 rawlen) ++ arr.flatten ++ hash.flatten ++ wbNil, ?_, ?_⟩
      · rw [packOne]
        simp only [bind, Except.bind] at hhash ⊢
        rw [harr]
        simp only [hhash]
        rfl
      · have := reads_table hw hfit hra hrh
        simp only [List.flatten_append, List.append_assoc, flatten_flatten_map]
        exact this

end Tables

section RoundTrip

theorem unpackLoop_reads {vs : List Value} {bss : List Bytes} (h : List.Forall₂ Reads vs bss) :
    ∃ vs', List.Forall₂ Value.Same vs vs' ∧ ∀ fuel, bss.flatten.length ≤ fuel →
      unpackLoop fuel bss.flatten = .ok vs' := by
  induction h with
  | nil => exact ⟨[], .nil, fun fuel _ => by cases fuel <;> rfl⟩
  | @cons v bs vs bss hv _ ih =>
    obtain ⟨vs', hsame, hloop⟩ := ih
    obtain ⟨t, tail, -, hbs, -⟩ := id hv
    obtain ⟨v', hv', hread⟩ := hv.unpackOne
    refine ⟨v' :: vs', .cons hv' hsame, fun fuel hf => ?_⟩
    rw [List.flatten_cons, List.length_append] at hf
    have hpos : 0 < bs.length := by rw [hbs]; simp
    obtain ⟨fuel, rfl⟩ : ∃ f, fuel = f + 1 := ⟨fuel - 1, by omega⟩
    rw [unpackLoop, List.flatten_cons, if_neg (by rw [List.length_append]; omega)]
    simp only [bind, Except.bind]
    rw [hread _ _ le_rfl]
    simp only [hloop fuel (by omega)]
    rfl

/-- Values with tables at most 31 deep come back, if no border is beyond an `int`. -/
theorem roundTrips_of_bordersFit {values : List Value} (h : ∀ v ∈ values, Packable 31 v)
    (hfit : ∀ v ∈ values, BordersFit 31 v) : RoundTrips values := by
  obtain ⟨pss, hpack, hreads⟩ := mapM_reads (R := Reads) fun v hv =>
    packOne_reads (MAX_DEPTH - 1) v (h v hv) (hfit v hv)
  have hseri : seri (pss.flatten.foldl WriteBlock.push {}) = (pss.map List.flatten).flatten := by
    rw [seri_foldl_push, flatten_flatten_map]
    rfl
  refine ⟨(pss.map List.flatten).flatten, ?_, fun hlen => ?_⟩
  · rw [luaseriPack, hpack, ← hseri]
    rfl
  · obtain ⟨vs', hsame, hloop⟩ := unpackLoop_reads hreads
    refine ⟨vs', ?_, hsame⟩
    have hsz : toSigned 32 ((pss.map List.flatten).flatten.length : ℤ)
        = (pss.map List.flatten).flatten.length := toSigned_of_range (by omega) (by omega)
    simp only [luaseriUnpack, hsz, Int.toNat_natCast, List.take_length]
    rw [if_neg (by omega)]
    exact hloop _ le_rfl

/-- A table with a hole: an array part of 3, and a string key with a table under it. -/
def smallTable : Value :=
  .table [(.integer 1, .float 0x3ff8000000000000), (.integer 3, .integer (-70000)),
    (.string [0x6b], .table [(.boolean false, .string [])] 0)] 3

theorem packable_smallTable : Packable 31 smallTable := by
  have hinner : Fields.WellFormed [(Value.boolean false, Value.string [])] :=
    ⟨by simp [Value.isNil, Value.normKey], by simp [Value.isNil], by simp⟩
  refine ⟨?_, ⟨by simp [Value.isNil, Value.normKey], by simp [Value.isNil], ?_⟩, ?_⟩
  · simp [Packable, hinner]
    exact ⟨by decide, .inl rfl, fun _ => by decide⟩
  · simp [Value.keyEq]
  · exact ⟨by decide, .inr (by decide), fun _ => by decide⟩

theorem roundTrips_smallTable : RoundTrips [.nil, smallTable] := by
  refine roundTrips_of_bordersFit (fun v hv => ?_) fun v hv => ?_
  · rcases List.mem_pair.1 hv with rfl | rfl
    · trivial
    · exact packable_smallTable
  · rcases List.mem_pair.1 hv with rfl | rfl
    · trivial
    · have hzero : toSigned 32 0 = 0 := by decide
      exact ⟨.inl (by decide), by simp [BordersFit, hzero]⟩

end RoundTrip

section Sparse

/-- A table in which `lua_rawlen` finds `2^31 + 1`: it doubles from 1 to `2^32`, that is free, and
the search down from there ends at the one key above `2^31`. -/
def sparseKeys : List Int64 :=
  (List.range 32).map (fun i => Int64.ofNat (2 ^ i)) ++ [Int64.ofNat (2 ^ 31 + 1)]

def sparseTable : Value :=
  .table (sparseKeys.map fun n => (.integer n, .boolean true)) (2 ^ 31 + 1)

/-- Integer keys, each once, are keys of a table. -/
theorem wellFormed_of_integers {keys : List Int64} (h : keys.Nodup) {v : Value}
    (hv : v.isNil = false) : Fields.WellFormed (keys.map fun n => (.integer n, v)) where
  keys p hp := by
    obtain ⟨n, -, rfl⟩ := List.mem_map.1 hp
    exact ⟨rfl, rfl, fun _ => nofun⟩
  values p hp := by
    obtain ⟨n, -, rfl⟩ := List.mem_map.1 hp
    exact hv
  distinct := by
    rw [List.pairwise_map]
    exact h.imp fun hne => by simpa [Value.keyEq] using hne

theorem packable_sparseTable : Packable 31 sparseTable := by
  refine ⟨fun p hp => ?_, wellFormed_of_integers (by decide) rfl, ?_⟩
  · obtain ⟨n, -, rfl⟩ := List.mem_map.1 hp
    exact ⟨trivial, trivial⟩
  · exact ⟨by decide, .inr rfl, fun _ => rfl⟩

/-- What comes back is a table, of one pair. -/
def comesBackAsOnePair (values : List Value) : Bool :=
  match luaseriPack values with
  | .ok bytes =>
    bytes.length < 2 ^ 31 &&
      match luaseriUnpack bytes with
      | .ok [.table [_] _] => true
      | _ => false
  | .error _ => false

theorem not_roundTrips_sparseTable : ¬ RoundTrips [sparseTable] := by
  rintro ⟨bytes, hpack, hun⟩
  have hback : comesBackAsOnePair [sparseTable] = true := by decide +kernel
  simp only [comesBackAsOnePair, hpack, Bool.and_eq_true, decide_eq_true_eq] at hback
  obtain ⟨values', hok, hsame⟩ := hun hback.1
  rw [hok] at hback
  rcases hsame with _ | ⟨hs, hnil⟩
  cases hnil
  rcases hs with hs | ⟨hp, hk, -⟩
  · exact hs _ _ rfl
  · rename_i fields fields'' n
    have h33 : fields''.length = 33 := by
      have := hk.length_eq
      rw [List.length_map, List.length_map, ← hp.length_eq, List.length_map] at this
      exact this.symm
    rcases fields'' with _ | ⟨p, _ | ⟨p', ps⟩⟩ <;> simp at h33 hback

/-- The round trip fails for a table whose border is `2^31 + 1`: the array size that is left in the
cookie is 1. -/
theorem lost_sparse_table :
    ¬ ∀ values : List Value, (∀ v ∈ values, Packable 31 v) → RoundTrips values := by
  intro h
  refine not_roundTrips_sparseTable (h _ fun v hv => ?_)
  rw [List.mem_singleton.1 hv]
  exact packable_sparseTable

end Sparse

end LuaSeri

end SkynetCpp
