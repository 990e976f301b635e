import SkynetCpp.BsonLayout

/-!
# What the BSON encoder writes

The encoder goes over the entries of a table: the fields of a document, or the elements of an array
at the numbers from zero on. By induction on the value, it raises on a value that is `Refused`,
writes the value's bytes if no table is taken for a wrapper, and fewer bytes otherwise
(`encodeElement_cases`).
-/

namespace SkynetCpp

open Lib LuaString

namespace Bson

variable {env : Env} {fields : Fields} {n : ℕ}

section Lookup

theorem eq_of_keyEq {a b : SkynetCpp.Value} (h : SkynetCpp.Value.keyEq a b = true) : a = b := by
  cases a <;> cases b <;> simp_all [SkynetCpp.Value.keyEq]

theorem keyEq_string {k : SkynetCpp.Value} {s : Bytes} :
    SkynetCpp.Value.keyEq k (.string s) = true ↔ k = .string s :=
  ⟨eq_of_keyEq, fun h => by subst h; simp [SkynetCpp.Value.keyEq]⟩

theorem keyEq_integer (n : Int64) :
    SkynetCpp.Value.keyEq (.integer n) (.integer n) = true := by
  simp [SkynetCpp.Value.keyEq]

theorem lookup_map {β γ : Type} (f : β → γ) (fields : List (SkynetCpp.Value × β))
    (k : SkynetCpp.Value) :
    lookup (fields.map fun p => (p.1, f p.2)) k = (lookup fields k).map f := by
  simp [lookup, List.find?_map, Function.comp_def]

theorem mem_of_lookup {β : Type} {fields : List (SkynetCpp.Value × β)} {k : SkynetCpp.Value}
    {v : β} (h : lookup fields k = some v) : (k, v) ∈ fields := by
  obtain ⟨p, hp, rfl⟩ := Option.map_eq_some_iff.1 h
  have hk : p.1 = k := eq_of_keyEq (by simpa using List.find?_some hp)
  exact hk ▸ List.mem_of_find?_eq_some hp

theorem lookup_of_mem {β : Type} {fields : List (SkynetCpp.Value × β)}
    (hnd : (fields.map Prod.fst).Nodup) {p : SkynetCpp.Value × β} (hp : p ∈ fields)
    (hk : SkynetCpp.Value.keyEq p.1 p.1 = true) : lookup fields p.1 = some p.2 := by
  induction fields with
  | nil => cases hp
  | cons q fields ih =>
    rw [List.map_cons, List.nodup_cons] at hnd
    rcases List.mem_cons.1 hp with rfl | hp
    · simp [lookup, hk]
    · have hne : ¬ SkynetCpp.Value.keyEq q.1 p.1 = true := fun h =>
        hnd.1 (eq_of_keyEq h ▸ List.mem_map_of_mem hp)
      have hfind : (q :: fields).find? (fun q' => SkynetCpp.Value.keyEq q'.1 p.1)
          = fields.find? (fun q' => SkynetCpp.Value.keyEq q'.1 p.1) := by
        rw [List.find?_cons, Bool.eq_false_iff.2 hne]
      rw [lookup, hfind]
      exact ih hnd.2 hp

end Lookup

section Values

mutual

@[elab_as_elim]
theorem Value.induction {P : Value → Prop}
    (scalar : ∀ v, (∀ fields n, v ≠ .table fields n) → P v)
    (table : ∀ fields n, (∀ p ∈ fields, P p.2) → P (.table fields n)) : ∀ v, P v
  | .table fields n => table fields n (Value.induction_fields scalar table fields)
  | .nil => scalar _ nofun
  | .boolean _ => scalar _ nofun
  | .integer _ => scalar _ nofun
  | .float _ => scalar _ nofun
  | .string _ => scalar _ nofun
  | .null => scalar _ nofun
  | .minkey => scalar _ nofun
  | .maxkey => scalar _ nofun
  | .int64 _ => scalar _ nofun
  | .objectid _ => scalar _ nofun

theorem Value.induction_fields {P : Value → Prop}
    (scalar : ∀ v, (∀ fields n, v ≠ .table fields n) → P v)
    (table : ∀ fields n, (∀ p ∈ fields, P p.2) → P (.table fields n)) :
    ∀ fields : Fields, ∀ p ∈ fields, P p.2
  | [], _, hp => nomatch hp
  | (_, v) :: fields, _, hp => by
    rcases List.mem_cons.1 hp with rfl | hp
    · exact Value.induction scalar table v
    · exact Value.induction_fields scalar table fields _ hp

end

theorem Throughout.head {p : Value → Prop} {v : Value} (h : Throughout p v) : p v := by
  cases h <;> assumption

theorem Throughout.mem {p : Value → Prop} (h : Throughout p (.table fields n))
    {q : SkynetCpp.Value × Value} (hq : q ∈ fields) : Throughout p q.2 := by
  cases h with
  | scalar hs => exact (hs _ _ rfl).elim
  | table _ hall => exact hall q hq

theorem IsDocument.mem (h : IsDocument (.table fields n)) {p : SkynetCpp.Value × Value}
    (hp : p ∈ fields) : IsDocument p.2 := by
  cases h with
  | scalar _ hs => exact (hs _ _ rfl).elim
  | document _ _ hall => exact hall p hp
  | array _ _ hall => exact hall p hp

/-- The values that are refused are mistaken for wrappers. -/
theorem Refused.not_throughout {v : Value} (h : Refused env v) : ¬ Throughout Unmistaken v := by
  induction h with
  | int64 ht => exact fun h => h.head.1 ht
  | objectid ht => exact fun h => h.head.2 ht
  | within _ hp _ ih => exact fun h => ih (h.mem hp)

end Values

section Entries

/-- The keys and the values that the encoder goes over. -/
def entries (env : Env) (fields : Fields) (n : ℕ) : List (Bytes × Value) :=
  if 0 < n then (List.range n).map fun i =>
    (numeral i, (lookup fields (.integer (Int64.ofNat (i + 1)))).getD .nil)
  else fields.map fun p => (tostring env p.1, p.2)

def entryBytes (env : Env) (e : Bytes × Value) : Bytes := element e.1 (layout env e.2)

def encodeEntries (env : Env) (es : List (Bytes × Value)) : Option Bytes :=
  (es.mapM fun e => encodeElement env e.2 e.1).map List.flatten

theorem layouts_eq (env : Env) (fields : Fields) :
    layouts env fields = fields.map fun p => (p.1, layout env p.2) := by
  induction fields with
  | nil => rfl
  | cons p fields ih => rw [layouts, ih, List.map_cons]

theorem encoders_eq (env : Env) (fields : Fields) :
    encoders env fields = fields.map fun p => (p.1, encodeElement env p.2) := by
  induction fields with
  | nil => rfl
  | cons p fields ih => rw [encoders, ih, List.map_cons]

/-- The type of a table. -/
def tableByte (n : ℕ) : UInt8 := if 0 < n then 0x04 else 0x03

theorem layout_table (env : Env) (fields : Fields) (n : ℕ) :
    layout env (.table fields n)
      = (tableByte n, framed ((entries env fields n).flatMap (entryBytes env))) := by
  rw [layout, layouts_eq]
  unfold entries tableByte
  split_ifs
  · rw [arrayPart, List.flatMap_map]
    congr 2
    refine List.flatMap_congr fun i _ => ?_
    rw [entryBytes, lookup_map]
    cases lookup fields (.integer (Int64.ofNat (i + 1))) <;> rfl
  · rw [documentPart, List.flatMap_map, List.flatMap_map]
    rfl

theorem encodeArray_eq (env : Env) (fields : Fields) (hn : 0 < n) :
    encodeArray (encoders env fields) n
      = (encodeEntries env (entries env fields n)).bind fun es => encodeBody (es ++ [0]) := by
  rw [encodeArray, encoders_eq, encodeEntries, entries, if_pos hn, List.mapM_map, Option.bind_map]
  congr 2
  funext i
  simp only [Function.comp_apply, lookup_map]
  cases lookup fields (.integer (Int64.ofNat (i + 1))) <;> rfl

theorem encode_eq (env : Env) (fields : Fields) :
    encode env fields
      = (encodeEntries env (entries env fields 0)).bind fun es => encodeBody (es ++ [0]) := by
  rw [encode, encodeDocument, encoders_eq, encodeEntries, entries, if_neg (by decide),
    List.mapM_map, List.mapM_map, Option.bind_map]
  rfl

variable (env) in
theorem encode_table (hu : Unmistaken (.table fields n))
    (hn : 0 < n → ∀ p ∈ fields, arrayKey n p.1 = true) (key : Bytes) :
    encodeElement env (.table fields n) key
      = ((encodeEntries env (entries env fields n)).bind fun es => encodeBody (es ++ [0])).map
          fun body => tableByte n :: encodeCstring key ++ body := by
  rw [encodeElement, if_neg (hu.1 ∘ eq_of_keyEq), if_neg (hu.2 ∘ eq_of_keyEq)]
  unfold tableByte
  by_cases h0 : 0 < n
  · rw [if_pos ⟨h0, List.all_eq_true.2 (hn h0)⟩, if_pos h0, encodeArray_eq env fields h0]
    cases (encodeEntries env (entries env fields n)).bind fun es => encodeBody (es ++ [0]) <;> rfl
  · obtain rfl : n = 0 := by omega
    rw [if_neg (h0 ∘ And.left), if_neg h0, ← encode_eq, encode]
    cases encodeDocument env (encoders env fields) <;> rfl

theorem IsDocument.arrayKey (h : IsDocument (.table fields n)) (hn : 0 < n) :
    ∀ p ∈ fields, arrayKey n p.1 = true := by
  intro p hp
  cases h with
  | scalar _ hs => exact (hs _ _ rfl).elim
  | document => exact absurd hn (lt_irrefl 0)
  | array hlt hperm =>
    obtain ⟨i, hi, heq⟩ := List.mem_map.1 (hperm.subset (List.mem_map_of_mem hp))
    have hi := List.mem_range.1 hi
    have := Int64.toInt_ofNat_of_lt (n := i + 1) (by omega)
    rw [← heq, Bson.arrayKey, this]
    simp
    omega

/-- The numbers of the elements of an array, as its keys. -/
theorem nodup_arrayKeys {m : ℕ} (hm : m < 2 ^ 63) :
    ((List.range m).map fun i => SkynetCpp.Value.integer (Int64.ofNat (i + 1))).Nodup := by
  refine List.Nodup.map_on (fun i hi j hj heq => ?_) List.nodup_range
  rw [List.mem_range] at hi hj
  have h := congrArg Int64.toInt (SkynetCpp.Value.integer.inj heq)
  rw [Int64.toInt_ofNat_of_lt (by omega), Int64.toInt_ofNat_of_lt (by omega)] at h
  omega

/-- An array has a value at each of its numbers, and no others. -/
theorem lookup_array (hlt : fields.length < 2 ^ 63)
    (hperm : (fields.map Prod.fst).Perm
      ((List.range fields.length).map fun i => .integer (Int64.ofNat (i + 1)))) :
    (∀ i < fields.length, ∃ v, lookup fields (.integer (Int64.ofNat (i + 1))) = some v) ∧
      ∀ p ∈ fields, ∃ i < fields.length, .integer (Int64.ofNat (i + 1)) = p.1 ∧
        lookup fields (.integer (Int64.ofNat (i + 1))) = some p.2 := by
  have hnd := hperm.nodup_iff.2 (nodup_arrayKeys hlt)
  constructor
  · intro i hi
    obtain ⟨p, hp, heq⟩ := List.mem_map.1 (hperm.symm.subset
      (List.mem_map.2 ⟨i, List.mem_range.2 hi, rfl⟩))
    exact ⟨p.2, heq ▸ lookup_of_mem hnd hp (heq ▸ keyEq_integer _)⟩
  · intro p hp
    obtain ⟨i, hi, heq⟩ := List.mem_map.1 (hperm.subset (List.mem_map_of_mem hp))
    exact ⟨i, List.mem_range.1 hi, heq, heq ▸ lookup_of_mem hnd hp (heq ▸ keyEq_integer _)⟩

variable (env) in
/-- The values of the entries are those of the table. -/
theorem IsDocument.entries_values (h : IsDocument (.table fields n)) (v : Value) :
    (∃ e ∈ entries env fields n, e.2 = v) ↔ ∃ p ∈ fields, p.2 = v := by
  cases h with
  | scalar _ hs => exact (hs _ _ rfl).elim
  | document => simp [entries]
  | array hlt hperm =>
    obtain ⟨hall, honly⟩ := lookup_array hlt hperm
    rcases Nat.eq_zero_or_pos fields.length with h0 | h0
    · rw [List.length_eq_zero_iff.1 h0]
      simp [entries]
    · simp only [entries, if_pos h0, List.mem_map, List.mem_range, exists_exists_and_eq_and]
      constructor
      · rintro ⟨i, hi, rfl⟩
        obtain ⟨v, hv⟩ := hall i hi
        exact ⟨_, mem_of_lookup hv, by rw [hv]; rfl⟩
      · rintro ⟨p, hp, rfl⟩
        obtain ⟨i, hi, -, hv⟩ := honly p hp
        exact ⟨i, hi, by rw [hv]; rfl⟩

end Entries

section Sizes

theorem length_element (key : Bytes) (part : Part) :
    (element key part).length = key.length + 2 + part.2.length := by
  simp [element]
  omega

theorem length_framed (elements : Bytes) : (framed elements).length = elements.length + 5 := by
  simp [framed]
  omega

theorem length_entry_le (env : Env) {es : List (Bytes × Value)} {e : Bytes × Value} (he : e ∈ es) :
    (entryBytes env e).length ≤ (es.flatMap (entryBytes env)).length :=
  (List.sublist_flatten_of_mem (List.mem_map_of_mem he)).length_le

theorem packInt_of_range {k : ℕ} {m : ℤ} (h0 : -2 ^ (8 * k) ≤ 2 * m) (h1 : 2 * m < 2 ^ (8 * k)) :
    packInt k m = some (le k (m % 2 ^ (8 * k)).toNat) := if_pos ⟨h0, h1⟩

theorem packInt_int64 (m : Int64) : packInt 8 m.toInt = some (le 8 (m.toInt % 2 ^ 64).toNat) := by
  have h0 := m.minValue_le_toInt
  have h1 := m.toInt_le
  have hmin : Int64.minValue.toInt = -2 ^ 63 := rfl
  have hmax : Int64.maxValue.toInt = 2 ^ 63 - 1 := rfl
  exact packInt_of_range (by omega) (by omega)

/-- A length that fits. -/
theorem packInt_length {m : ℕ} (hm : m < 2 ^ 31) : packInt 4 m = some (le 4 m) := by
  rw [packInt_of_range (by omega) (by omega)]
  congr 2
  omega

theorem encodeBody_eq {es : Bytes} (h : (framed es).length < 2 ^ 31) :
    encodeBody (es ++ [0]) = some (framed es) := by
  rw [length_framed] at h
  have := packInt_length (m := es.length + 5) h
  simp only [encodeBody, List.length_append, List.length_cons, List.length_nil]
  push_cast at this ⊢
  rw [add_assoc, show (1 : ℤ) + 4 = 5 by rfl, this]
  simp [framed]

theorem length_intNumeral_le (m : Int64) : (intNumeral m.toInt).length ≤ 20 := by
  have numeral_le : ∀ {k}, k < 10 ^ 19 → (numeral k).length ≤ 19 := fun hk => by
    rw [numeral, List.length_map]
    exact (Nat.length_toDigits_le_iff (by decide) (by decide)).2 hk
  have h0 := m.minValue_le_toInt
  have h1 := m.toInt_le
  have hmin : Int64.minValue.toInt = -2 ^ 63 := rfl
  have hmax : Int64.maxValue.toInt = 2 ^ 63 - 1 := rfl
  rcases hm : m.toInt with k | k <;> rw [hm] at h0 h1
  · exact (numeral_le (by rw [Int.ofNat_eq_natCast] at h1; omega)).trans (by decide)
  · exact Nat.succ_le_succ (numeral_le (by omega))

end Sizes

section Cases

/-- The encoder raises on a value that is refused. It writes the bytes of another if no table in it
is taken for a wrapper, and fewer bytes if one is. -/
def Treated (env : Env) (v : Value) (key : Bytes) : Prop :=
  (Refused env v ∧ encodeElement env v key = none) ∨
    (¬ Refused env v ∧ ∃ b, encodeElement env v key = some b ∧
      (Throughout Unmistaken v → b = element key (layout env v)) ∧
      (¬ Throughout Unmistaken v → b.length < (element key (layout env v)).length))

theorem encodeInteger_eq (key : Bytes) (m : Int64) :
    encodeInteger key m.toInt = some (element key (integerPart m.toInt)) := by
  unfold encodeInteger integerPart
  by_cases h : -2147483648 ≤ m.toInt ∧ m.toInt ≤ 2147483647
  · rw [if_pos h, if_pos (by omega), packInt_of_range (by omega) (by omega)]
    rfl
  · rw [if_neg h, if_neg (by omega), packInt_int64]
    rfl

theorem encodeElement_scalar {v : Value} (hs : ∀ fields n, v ≠ .table fields n)
    (hlen : (layout env v).2.length < 2 ^ 31) (key : Bytes) :
    encodeElement env v key = some (element key (layout env v)) := by
  cases v with
  | table fields n => exact (hs _ _ rfl).elim
  | integer m => exact encodeInteger_eq key m
  | float bits =>
    rw [encodeElement, layout]
    cases SkynetCpp.Value.floatToInteger bits with
    | some m => exact encodeInteger_eq key m
    | none => rfl
  | string s =>
    have := packInt_length (m := s.length + 1) (by simp [layout] at hlen; omega)
    push_cast at this
    rw [encodeElement, this]
    simp [element, layout, encodeCstring]
  | int64 m =>
    rw [encodeElement, packInt_int64]
    rfl
  | boolean b => simp [encodeElement, element, layout, encodeCstring]
  | nil | null | minkey | maxkey | objectid => simp [encodeElement, encodeNil, element, layout,
      encodeCstring]

theorem treated_scalar {v : Value} (hs : ∀ fields n, v ≠ .table fields n)
    (hlen : (layout env v).2.length < 2 ^ 31) (key : Bytes) : Treated env v key := by
  have hu : Throughout Unmistaken v := .scalar hs (by
    cases v with
    | table fields n => exact (hs _ _ rfl).elim
    | _ => trivial)
  exact .inr ⟨fun h => h.not_throughout hu, _, encodeElement_scalar hs hlen key, fun _ => rfl,
    fun h => (h hu).elim⟩

theorem entries_treated {es : List (Bytes × Value)} (h : ∀ e ∈ es, Treated env e.2 e.1) :
    ((∃ e ∈ es, Refused env e.2) ∧ encodeEntries env es = none) ∨
      ((∀ e ∈ es, ¬ Refused env e.2) ∧ ∃ b, encodeEntries env es = some b ∧
        ((∀ e ∈ es, Throughout Unmistaken e.2) → b = es.flatMap (entryBytes env)) ∧
        (¬ (∀ e ∈ es, Throughout Unmistaken e.2) →
          b.length < (es.flatMap (entryBytes env)).length)) := by
  induction es with
  | nil => exact .inr ⟨nofun, [], rfl, fun _ => rfl, fun h => (h nofun).elim⟩
  | cons e es ih =>
    obtain ⟨he, hes⟩ := List.forall_mem_cons.1 h
    unfold encodeEntries at ih ⊢
    rw [List.mapM_cons]
    rcases he with ⟨href, henc⟩ | ⟨hnref, b, henc, heq, hlt⟩
    · exact .inl ⟨⟨e, List.mem_cons_self, href⟩, by rw [henc]; rfl⟩
    rcases ih hes with ⟨⟨e', he', href⟩, hrest⟩ | ⟨hnrefs, b', hrest, heq', hlt'⟩
    · refine .inl ⟨⟨e', List.mem_cons_of_mem _ he', href⟩, ?_⟩
      rw [henc]
      cases hm : es.mapM fun e => encodeElement env e.2 e.1 with
      | none => rfl
      | some parts => rw [hm] at hrest; cases hrest
    · obtain ⟨parts, hm, rfl⟩ := Option.map_eq_some_iff.1 hrest
      refine .inr ⟨List.forall_mem_cons.2 ⟨hnref, hnrefs⟩, b ++ parts.flatten,
        by rw [henc, hm]; rfl, fun hall => ?_, fun hnot => ?_⟩
      · obtain ⟨h1, h2⟩ := List.forall_mem_cons.1 hall
        rw [List.flatMap_cons, heq h1, heq' h2, entryBytes]
      · rw [List.flatMap_cons, List.length_append, List.length_append, entryBytes]
        by_cases h1 : Throughout Unmistaken e.2
        · have h2 : ¬ ∀ e ∈ es, Throughout Unmistaken e.2 := fun h2 =>
            hnot (List.forall_mem_cons.2 ⟨h1, h2⟩)
          have := hlt' h2
          rw [heq h1]
          omega
        · have hb := hlt h1
          have hb' : parts.flatten.length ≤ (es.flatMap (entryBytes env)).length := by
            by_cases h2 : ∀ e ∈ es, Throughout Unmistaken e.2
            · rw [heq' h2]
            · exact (hlt' h2).le
          omega

/-- The same of the part of a table. -/
theorem table_treated (hdoc : IsDocument (.table fields n))
    (hlen : (layout env (.table fields n)).2.length < 2 ^ 31)
    (ih : ∀ p ∈ fields, ∀ key, Treated env p.2 key) {x : Option Bytes}
    (hx : x = (encodeEntries env (entries env fields n)).bind fun es => encodeBody (es ++ [0])) :
    ((∃ p ∈ fields, Refused env p.2) ∧ x = none) ∨
      ((∀ p ∈ fields, ¬ Refused env p.2) ∧ ∃ b, x = some b ∧
        ((∀ p ∈ fields, Throughout Unmistaken p.2) → b = (layout env (.table fields n)).2) ∧
        (¬ (∀ p ∈ fields, Throughout Unmistaken p.2) →
          b.length < (layout env (.table fields n)).2.length)) := by
  have hvalues := hdoc.entries_values env
  have hall (P : Value → Prop) : (∀ p ∈ fields, P p.2) ↔ ∀ e ∈ entries env fields n, P e.2 :=
    ⟨fun h e he => by
      obtain ⟨p, hp, heq⟩ := (hvalues e.2).1 ⟨e, he, rfl⟩
      exact heq ▸ h p hp,
    fun h p hp => by
      obtain ⟨e, he, heq⟩ := (hvalues p.2).2 ⟨p, hp, rfl⟩
      exact heq ▸ h e he⟩
  rw [layout_table] at hlen ⊢
  have htreated : ∀ e ∈ entries env fields n, Treated env e.2 e.1 := fun e he => by
    obtain ⟨p, hp, heq⟩ := (hvalues e.2).1 ⟨e, he, rfl⟩
    exact heq ▸ ih p hp e.1
  rcases entries_treated htreated with ⟨⟨e, he, href⟩, hnone⟩ | ⟨hnref, b, hsome, heq, hlt⟩
  · obtain ⟨p, hp, hv⟩ := (hvalues e.2).1 ⟨e, he, rfl⟩
    exact .inl ⟨⟨p, hp, hv ▸ href⟩, by rw [hx, hnone]; rfl⟩
  · rw [← hall] at heq hlt
    have hb : b.length ≤ ((entries env fields n).flatMap (entryBytes env)).length := by
      by_cases h : ∀ p ∈ fields, Throughout Unmistaken p.2
      · rw [heq h]
      · exact (hlt h).le
    have hbody : encodeBody (b ++ [0]) = some (framed b) :=
      encodeBody_eq (by rw [length_framed] at hlen ⊢; omega)
    refine .inr ⟨(hall fun v => ¬ Refused env v).2 hnref, framed b,
      by rw [hx, hsome, Option.bind_some, hbody], fun h => by rw [heq h], fun h => ?_⟩
    rw [length_framed, length_framed]
    exact Nat.add_lt_add_right (hlt h) 5

theorem treated_unmistaken (hdoc : IsDocument (.table fields n))
    (hlen : (layout env (.table fields n)).2.length < 2 ^ 31)
    (ih : ∀ p ∈ fields, ∀ key, Treated env p.2 key) (hu : Unmistaken (.table fields n))
    (key : Bytes) : Treated env (.table fields n) key := by
  have henc := encode_table env hu hdoc.arrayKey key
  have hthrough : Throughout Unmistaken (.table fields n) ↔
      ∀ p ∈ fields, Throughout Unmistaken p.2 := ⟨fun h p hp => h.mem hp, .table hu⟩
  rcases table_treated hdoc hlen ih rfl with ⟨⟨p, hp, href⟩, hnone⟩ | ⟨hnref, b, hsome, heq, hlt⟩
  · exact .inl ⟨.within hu hp href, by rw [henc, hnone]; rfl⟩
  · refine .inr ⟨fun href => ?_, _, by rw [henc, hsome]; rfl, fun h => ?_, fun h => ?_⟩
    · cases href with
      | int64 ht => exact hu.1 ht
      | objectid ht => exact hu.2 ht
      | within _ hp href => exact hnref _ hp href
    · rw [heq (hthrough.1 h), element, layout_table]
      rfl
    · have := hlt (h ∘ hthrough.2)
      rw [length_element]
      simp [encodeCstring]
      omega

theorem mem_of_field {name : String} {s : Bytes} (h : field fields name = .string s) :
    (SkynetCpp.Value.string (ascii name), Value.string s) ∈ fields := by
  refine mem_of_lookup ?_
  unfold field scalar at h
  split at h <;> cases h
  assumption

/-- A field that is a string is an entry of a document. -/
theorem length_field_le (env : Env) {name : String} {s : Bytes}
    (h : field fields name = .string s) :
    (ascii name).length + s.length + 7
      ≤ ((entries env fields 0).flatMap (entryBytes env)).length := by
  have he : (ascii name, Value.string s) ∈ entries env fields 0 :=
    List.mem_map.2 ⟨_, mem_of_field h, rfl⟩
  have hle := length_entry_le env he
  rw [entryBytes, length_element, layout] at hle
  simp only [List.length_append, length_le, List.length_cons, List.length_nil] at hle
  omega

/-- Only a document is taken for a wrapper. -/
theorem IsDocument.eq_zero (h : IsDocument (.table fields n)) {name : String} {s : Bytes}
    (hf : field fields name = .string s) : n = 0 := by
  cases h with
  | scalar _ hs => exact (hs _ _ rfl).elim
  | document => rfl
  | array _ hperm =>
    obtain ⟨i, -, hi⟩ := List.mem_map.1 (hperm.subset (List.mem_map_of_mem (mem_of_field hf)))
    cases hi

/-- What it writes for a table that is taken for a wrapper is shorter than the table. -/
theorem treated_of_short {key b : Bytes} (henc : encodeElement env (.table fields n) key = some b)
    (hu : ¬ Unmistaken (.table fields n)) (href : ¬ Refused env (.table fields n))
    (hlt : b.length < key.length + 2 + (layout env (.table fields n)).2.length) :
    Treated env (.table fields n) key :=
  .inr ⟨href, b, henc, fun h => (hu h.head).elim, fun _ => by rwa [length_element]⟩

theorem treated_int64 (hdoc : IsDocument (.table fields n)) (ht : TakenFor fields "int64")
    (key : Bytes) : Treated env (.table fields n) key := by
  obtain rfl := hdoc.eq_zero ht
  have henc : encodeElement env (.table fields 0) key
      = (checkinteger env.str2d (field fields "value")).bind fun m =>
          (packInt 8 m.toInt).bind fun bytes => some (0x12 :: encodeCstring key ++ bytes) := by
    rw [encodeElement, if_pos (keyEq_string.2 ht)]
    rfl
  cases hm : checkinteger env.str2d (field fields "value") with
  | none => exact .inl ⟨.int64 ht hm, by rw [henc, hm]; rfl⟩
  | some m =>
    rw [hm, Option.bind_some, packInt_int64, Option.bind_some] at henc
    refine treated_of_short henc (fun hu => hu.1 ht) (fun href => ?_) ?_
    · cases href with
      | int64 _ hnone => rw [hm] at hnone; cases hnone
      | objectid ht' => exact absurd (SkynetCpp.Value.string.inj (ht.symm.trans ht')) (by decide)
      | within hu => exact hu.1 ht
    · have hle := length_field_le env ht
      rw [show (ascii "__bson_type").length = 11 by decide] at hle
      rw [layout_table, length_framed]
      simp only [encodeCstring, List.length_append, List.length_cons, List.length_nil, length_le]
      omega

/-- A number is shorter than the field that says what the table is, and a string than its own. -/
theorem length_concat_lt {bytes : Bytes} (ht : TakenFor fields "objectid")
    (h : concat env (field fields "bytes") = some bytes) :
    bytes.length < ((entries env fields 0).flatMap (entryBytes env)).length + 5 := by
  have hle := length_field_le env ht
  rw [show (ascii "__bson_type").length = 11 by decide,
    show (ascii "objectid").length = 8 by decide] at hle
  have hshort : bytes.length ≤ 30 →
      bytes.length < ((entries env fields 0).flatMap (entryBytes env)).length + 5 := by omega
  cases hf : field fields "bytes" with
  | nil => rw [hf] at h; cases h
  | string s =>
    rw [hf] at h
    cases h
    have hs := length_field_le env hf
    rw [tostring]
    omega
  | integer m =>
    rw [hf] at h
    cases h
    exact hshort ((length_intNumeral_le m).trans (by decide))
  | boolean | float | lightuserdata | table | other =>
    rw [hf] at h
    cases h
    exact hshort (env.numberText_le _)

theorem treated_objectid (hdoc : IsDocument (.table fields n)) (ht : TakenFor fields "objectid")
    (key : Bytes) : Treated env (.table fields n) key := by
  obtain rfl := hdoc.eq_zero ht
  have hne : ascii "objectid" ≠ ascii "int64" := by decide
  have henc : encodeElement env (.table fields 0) key
      = (concat env (field fields "bytes")).bind fun bytes =>
          some (0x07 :: encodeCstring key ++ bytes) := by
    rw [encodeElement, if_neg, if_pos (keyEq_string.2 ht)]
    · rfl
    · exact fun h => hne (SkynetCpp.Value.string.inj (ht.symm.trans (eq_of_keyEq h)))
  cases hb : concat env (field fields "bytes") with
  | none => exact .inl ⟨.objectid ht hb, by rw [henc, hb]; rfl⟩
  | some bytes =>
    rw [hb, Option.bind_some] at henc
    refine treated_of_short henc (fun hu => hu.2 ht) (fun href => ?_) ?_
    · cases href with
      | int64 ht' => exact hne (SkynetCpp.Value.string.inj (ht.symm.trans ht'))
      | objectid _ hnone => rw [hb] at hnone; cases hnone
      | within hu => exact hu.2 ht
    · have hle := length_concat_lt ht hb
      rw [layout_table, length_framed]
      simp only [encodeCstring, List.length_append, List.length_cons, List.length_nil]
      omega

theorem IsDocument.length_value_lt (h : IsDocument (.table fields n))
    (hlen : (layout env (.table fields n)).2.length < 2 ^ 31) {p : SkynetCpp.Value × Value}
    (hp : p ∈ fields) : (layout env p.2).2.length < 2 ^ 31 := by
  obtain ⟨e, he, heq⟩ := (h.entries_values env p.2).2 ⟨p, hp, rfl⟩
  have hle := length_entry_le env he
  rw [layout_table, length_framed] at hlen
  rw [entryBytes, length_element, heq] at hle
  omega

theorem treated {v : Value} (hdoc : IsDocument v) (hlen : (layout env v).2.length < 2 ^ 31)
    (key : Bytes) : Treated env v key := by
  induction v using Value.induction generalizing key with
  | scalar v hs => exact treated_scalar hs hlen key
  | table fields n ih =>
    by_cases h64 : TakenFor fields "int64"
    · exact treated_int64 hdoc h64 key
    by_cases hoid : TakenFor fields "objectid"
    · exact treated_objectid hdoc hoid key
    exact treated_unmistaken hdoc hlen (fun p hp => ih p hp (hdoc.mem hp)
      (hdoc.length_value_lt hlen hp)) ⟨h64, hoid⟩ key

/-- `bson.encode` raises on a document with a value that is refused. It writes the bytes of another
if no table in it is taken for a wrapper, and fewer bytes if one is. -/
theorem encode_cases {doc : Fields} (hdoc : IsDocument (.table doc 0))
    (hlen : (bytesOf env doc).length < 2 ^ 31) :
    ((∃ p ∈ doc, Refused env p.2) ∧ encode env doc = none) ∨
      ((∀ p ∈ doc, ¬ Refused env p.2) ∧ ∃ b, encode env doc = some b ∧
        ((∀ p ∈ doc, Throughout Unmistaken p.2) → b = bytesOf env doc) ∧
        (¬ (∀ p ∈ doc, Throughout Unmistaken p.2) → b.length < (bytesOf env doc).length)) :=
  table_treated hdoc hlen (fun _ hp key => treated (hdoc.mem hp) (hdoc.length_value_lt hlen hp) key)
    (encode_eq env doc)

end Cases

end Bson

end SkynetCpp
