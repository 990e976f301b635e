import SkynetCpp.Paths

/-!
# When a path is collapsed to itself

Cleaned of its separators a path is the pieces between them, with one separator before each but the
first, and before that one if there was one (`normalize_eq`). The loop over the parts walks from the
root along the pieces, and the result is read as the place that this leads to, unless the prefix is
all that is left: then the clean-up takes away the separator that makes it a root.
-/

namespace SkynetCpp

open Lib

namespace Paths

variable {s path : Bytes} {b : UInt8}

section Normalize

/-- The pieces with a separator between two. -/
def joined (s : Bytes) : Bytes := [47].intercalate (pieces isSep s)

/-- It begins with a separator, and there is something else. -/
def Leads (s : Bytes) : Prop := s.head?.any isSep = true ∧ pieces isSep s ≠ []

instance (s : Bytes) : Decidable (Leads s) := inferInstanceAs (Decidable (_ ∧ _))

/-- `\` is replaced by `/`. -/
def slashed (b : UInt8) : UInt8 := if b = 92 then 47 else b

theorem slashed_of_not (h : isSep b = false) : slashed b = b ∧ b ≠ 47 := by
  have h' : ¬ (b = 47 ∨ b = 92) := by simpa [isSep] using h
  exact ⟨if_neg fun h => h' (.inr h), fun h => h' (.inl h)⟩

theorem slashed_of_sep (h : isSep b = true) : slashed b = 47 := by
  have h' : b = 47 ∨ b = 92 := by simpa [isSep] using h
  rcases h' with rfl | rfl <;> rfl

theorem normalize_def (s : Bytes) :
    normalizeSeparators s = stripTrailing (squeeze (s.map slashed)) := rfl

theorem strip_cons {t : Bytes} (ht : t ≠ []) : stripTrailing (b :: t) = b :: stripTrailing t := by
  obtain ⟨c, t, rfl⟩ := List.exists_cons_of_ne_nil ht
  unfold stripTrailing
  rw [List.getLast?_cons_cons]
  split_ifs <;> rfl

theorem squeeze_ne_nil {t : Bytes} (ht : t ≠ []) : squeeze t ≠ [] := by
  induction t with
  | nil => exact absurd rfl ht
  | cons b t ih =>
    rw [squeeze]
    split_ifs with h
    · exact ih fun ht => by rw [ht] at h; exact absurd h.2 nofun
    · exact List.cons_ne_nil _ _

theorem normalize_nil : normalizeSeparators [] = [] := rfl

/-- What is not a separator stays. -/
theorem normalize_cons (h : isSep b = false) :
    normalizeSeparators (b :: s) = b :: normalizeSeparators s := by
  obtain ⟨hb, hne⟩ := slashed_of_not h
  rw [normalize_def, List.map_cons, hb, squeeze, if_neg fun h => hne h.1]
  cases s with
  | nil =>
    rw [List.map_nil, squeeze, normalize_nil, stripTrailing, List.getLast?_singleton,
      if_neg fun h => hne (Option.some.inj h)]
  | cons c s => exact strip_cons (squeeze_ne_nil (List.cons_ne_nil _ _))

theorem normalize_sep (h : isSep b = true) : normalizeSeparators (b :: s)
    = if s = [] then [] else if s.head?.any isSep then normalizeSeparators s
      else 47 :: normalizeSeparators s := by
  cases s with
  | nil =>
    rw [if_pos rfl, normalize_def, List.map_singleton, slashed_of_sep h]
    rfl
  | cons c s =>
    rw [if_neg (List.cons_ne_nil c s), normalize_def, List.map_cons, slashed_of_sep h, squeeze,
      List.map_cons, List.head?_cons]
    by_cases hc : isSep c = true
    · rw [slashed_of_sep hc, if_pos ⟨rfl, rfl⟩, List.head?_cons, Option.any_some, if_pos hc,
        normalize_def, List.map_cons, slashed_of_sep hc]
    · have hc : isSep c = false := by simpa using hc
      obtain ⟨hc', hne⟩ := slashed_of_not hc
      rw [hc', if_neg fun h => hne (Option.some.inj h.2), List.head?_cons, Option.any_some, hc,
        if_neg Bool.false_ne_true, normalize_def, List.map_cons, hc']
      exact strip_cons (squeeze_ne_nil (List.cons_ne_nil _ _))

theorem leads_cons (h : isSep b = true) : Leads (b :: s) ↔ pieces isSep s ≠ [] := by
  rw [Leads, pieces_cons_sep h]
  exact and_iff_right h

theorem not_leads_cons (h : isSep b = false) : ¬ Leads (b :: s) :=
  fun hleads => absurd hleads.1 (by simp [h])

theorem joined_sep (h : isSep b = true) : joined (b :: s) = joined s := by
  rw [joined, pieces_cons_sep h, joined]

/-- A piece goes on up to the next separator. -/
theorem joined_cons (h : isSep b = false) :
    joined (b :: s) = b :: (if Leads s then 47 :: joined s else joined s) := by
  cases s with
  | nil =>
    rw [joined, pieces_piece (List.cons_ne_nil _ _) (by simpa using h)]
    rfl
  | cons c s =>
    by_cases hc : isSep c = true
    · have hpieces : pieces isSep (b :: c :: s) = [b] :: pieces isSep s := by
        rw [show b :: c :: s = [b] ++ c :: s by rfl, pieces_append_cons _ _ hc,
          pieces_piece (List.cons_ne_nil _ _) (by simpa using h), List.singleton_append]
      rw [joined_sep hc, joined, joined, hpieces]
      simp only [leads_cons hc]
      cases pieces isSep s with
      | nil => simp
      | cons w ws => simp [List.intercalate_cons_cons]
    · have hc : isSep c = false := by simpa using hc
      obtain ⟨w, ws, hw, hbw⟩ := pieces_cons_cons (s := s) h hc
      rw [if_neg (not_leads_cons hc), joined, joined, hbw, hw]
      cases ws <;> simp [List.intercalate_cons_cons]

theorem head_of_pieces_nil (h : s.head?.any isSep = false) (hp : pieces isSep s = []) :
    s = [] := by
  cases s with
  | nil => rfl
  | cons b s =>
    have hb : isSep b = false := h
    cases s with
    | nil =>
      rw [pieces_piece (List.cons_ne_nil _ _) (by simpa using hb)] at hp
      cases hp
    | cons c s =>
      by_cases hc : isSep c = true
      · rw [show b :: c :: s = [b] ++ c :: s by rfl, pieces_append_cons _ _ hc,
          pieces_piece (List.cons_ne_nil _ _) (by simpa using hb)] at hp
        cases hp
      · obtain ⟨w, ws, -, hbw⟩ := pieces_cons_cons (s := s) hb (by simpa using hc)
        rw [hbw] at hp
        cases hp

/-- A cleaned path. -/
theorem normalize_eq (s : Bytes) :
    normalizeSeparators s = if Leads s then 47 :: joined s else joined s := by
  induction s with
  | nil => rfl
  | cons b s ih =>
    by_cases hb : isSep b = true
    · rw [normalize_sep hb, joined_sep hb, ih]
      simp only [leads_cons hb]
      by_cases hp : pieces isSep s = []
      · have hjoined : joined s = [] := by rw [joined, hp]; rfl
        have hleads : ¬ Leads s := fun h => h.2 hp
        rw [if_neg hleads, if_neg (not_not.2 hp), hjoined]
        split_ifs with hnil hhead
        · rfl
        · rfl
        · exact absurd (head_of_pieces_nil (by simpa using hhead) hp) hnil
      · rw [if_pos hp, if_neg fun h => hp (by rw [h]; rfl)]
        by_cases hhead : s.head?.any isSep = true
        · rw [if_pos hhead, if_pos ⟨hhead, hp⟩]
        · rw [if_neg hhead, if_neg fun h => hhead h.1]
    · have hb : isSep b = false := by simpa using hb
      rw [normalize_cons hb, ih, joined_cons hb, if_neg (not_leads_cons hb)]

end Normalize

section Collapse

/-- The pieces of a path are pieces for the code too. -/
theorem pieces_joined (s : Bytes) : pieces (· == 47) (joined s) = pieces isSep s := by
  refine pieces_intercalate rfl fun w hw => ?_
  obtain ⟨hne, hsep⟩ := mem_pieces hw
  exact ⟨hne, fun c hc => by simpa using (slashed_of_not (hsep c hc)).2⟩

theorem head_joined (s : Bytes) : (joined s).head?.any isSep = false := by
  rw [joined]
  cases hp : pieces isSep s with
  | nil => rfl
  | cons w ws =>
    obtain ⟨hne, hsep⟩ := mem_pieces (hp ▸ List.mem_cons_self : w ∈ pieces isSep s)
    obtain ⟨b, w, rfl⟩ := List.exists_cons_of_ne_nil hne
    have hb := hsep b List.mem_cons_self
    cases ws <;> simpa [List.intercalate_cons_cons] using hb

theorem isSep_of_isAlpha (h : isAlpha b = true) : isSep b = false := by
  have h' : (65 ≤ b.toNat ∧ b.toNat ≤ 90) ∨ (97 ≤ b.toNat ∧ b.toNat ≤ 122) := by
    simpa [isAlpha, UInt8.le_iff_toNat_le] using h
  by_contra hsep
  have hsep : isSep b = true := by simpa using hsep
  have hcases : b = 47 ∨ b = 92 := by simpa [isSep] using hsep
  rcases hcases with rfl | rfl <;> simp at h'

theorem hasDrive_iff : hasDrive path = true ↔ ∃ a s, path = a :: 58 :: s ∧ isAlpha a = true := by
  rcases path with _ | ⟨a, _ | ⟨c, s⟩⟩
  · simp [hasDrive]
  · simp [hasDrive]
  · simp [hasDrive, and_comm]

/-- The prefix that the code takes off a cleaned path. -/
def prefixOf (path : Bytes) : Bytes :=
  (if hasDrive path then path.take 2 else []) ++ if Leads (behindDrive path) then [47] else []

theorem head_clean (s : Bytes) : (normalizeSeparators s).head? = some 47 ↔ Leads s := by
  have hhead := head_joined s
  rw [normalize_eq]
  split_ifs with h
  · simp [h]
  · refine iff_of_false (fun h => ?_) h
    rw [h] at hhead
    cases hhead

theorem hasDrive_cons (b : UInt8) (s : Bytes) :
    hasDrive (b :: s) = (isAlpha b && s.head? == some 58) := by
  cases s <;> simp [hasDrive]

theorem hasDrive_of_sep (h : isSep b = true) : hasDrive (b :: s) = false := by
  rw [hasDrive_cons]
  by_cases ha : isAlpha b = true
  · rw [isSep_of_isAlpha ha] at h
    cases h
  · simp [ha]

/-- A cleaned path begins like the path, or with a separator. -/
theorem head_clean_append {t : Bytes} (ht : t = [] ∨ t.head? = some 47) :
    (normalizeSeparators s ++ t).head? = s.head? ∧ s.head?.any isSep = false
      ∨ ((normalizeSeparators s ++ t).head? = none ∨ (normalizeSeparators s ++ t).head? = some 47)
        ∧ (s = [] ∨ s.head?.any isSep = true) := by
  cases s with
  | nil =>
    refine .inr ⟨?_, .inl rfl⟩
    rw [normalize_nil, List.nil_append]
    exact ht.imp_left fun h => by rw [h]; rfl
  | cons b s =>
    by_cases hb : isSep b = true
    · refine .inr ⟨?_, .inr hb⟩
      rw [normalize_eq]
      split_ifs with hleads
      · exact .inr rfl
      · have hjoined : joined (b :: s) = [] := by
          rw [joined, pieces_cons_sep hb, not_not.1 fun h => hleads ((leads_cons hb).2 h)]
          rfl
        rw [hjoined, List.nil_append]
        exact ht.imp_left fun h => by rw [h]; rfl
    · have hb : isSep b = false := by simpa using hb
      refine .inl ⟨?_, hb⟩
      rw [normalize_cons hb]
      rfl

theorem hasDrive_clean_append (path : Bytes) {t : Bytes} (ht : t = [] ∨ t.head? = some 47) :
    hasDrive (normalizeSeparators path ++ t) = hasDrive path := by
  cases path with
  | nil =>
    rcases ht with rfl | ht
    · rfl
    · obtain ⟨t, rfl⟩ := List.head?_eq_some_iff.1 ht
      exact hasDrive_of_sep rfl
  | cons b s =>
    by_cases hb : isSep b = true
    · rw [hasDrive_of_sep hb]
      rcases head_clean_append (s := b :: s) ht with ⟨-, h⟩ | ⟨hnone | hsep, -⟩
      · rw [show Option.any isSep (b :: s).head? = isSep b by rfl, hb] at h
        cases h
      · rw [List.head?_eq_none_iff.1 hnone]
        rfl
      · obtain ⟨u, hu⟩ := List.head?_eq_some_iff.1 hsep
        rw [hu]
        exact hasDrive_of_sep rfl
    · rw [normalize_cons (by simpa using hb), List.cons_append, hasDrive_cons, hasDrive_cons]
      rcases head_clean_append (s := s) ht with ⟨h, -⟩ | ⟨hclean, hs⟩
      · rw [h]
      · have hclean : ((normalizeSeparators s ++ t).head? == some 58) = false := by
          rcases hclean with h | h <;> rw [h] <;> rfl
        have hs : (s.head? == some 58) = false := by
          rcases hs with rfl | hs
          · rfl
          · cases s with
            | nil => rfl
            | cons c s =>
              rw [List.head?_cons, Option.any_some] at hs
              simp only [List.head?_cons, beq_eq_false_iff_ne, ne_eq, Option.some.injEq]
              rintro rfl
              cases hs
        rw [hclean, hs]

theorem hasDrive_clean (path : Bytes) : hasDrive (normalizeSeparators path) = hasDrive path := by
  simpa using hasDrive_clean_append path (.inl rfl)

theorem splitPrefix_clean (path : Bytes) :
    splitPrefix (normalizeSeparators path) = (prefixOf path, joined (behindDrive path)) := by
  by_cases hdrive : hasDrive path = true
  · obtain ⟨a, s, rfl, ha⟩ := hasDrive_iff.1 hdrive
    have hclean : normalizeSeparators (a :: 58 :: s) = a :: 58 :: normalizeSeparators s := by
      rw [normalize_cons (isSep_of_isAlpha ha), normalize_cons rfl]
    have hnew : hasDrive (a :: 58 :: normalizeSeparators s) = true := by simp [hasDrive, ha]
    have hbehind : behindDrive (a :: 58 :: s) = s := if_pos hdrive
    rw [splitPrefix, hclean, if_pos hnew, prefixOf, if_pos hdrive, hbehind]
    simp only [List.take_succ_cons, List.take_zero, List.drop_succ_cons, List.drop_zero,
      head_clean]
    rw [normalize_eq]
    split_ifs <;> rfl
  · have hbehind : behindDrive path = path := if_neg hdrive
    rw [splitPrefix, hasDrive_clean, if_neg hdrive, prefixOf, if_neg hdrive, hbehind]
    simp only [head_clean]
    rw [normalize_eq]
    split_ifs <;> rfl

end Collapse

section Parts

variable {p : Place Bytes} {pre part : Bytes} {rooted : Bool}

/-- The parts that lead to a place. -/
def partsOf (p : Place Bytes) : List Bytes := List.replicate p.ups (ascii "..") ++ p.names

/-- A place that the loop can be at. -/
structure Sensible (rooted : Bool) (p : Place Bytes) : Prop where
  names : ∀ n ∈ p.names, n ≠ ascii ".."
  ups : rooted = true → p.ups = 0

theorem moveOf_up : moveOf (ascii "..") = some .up := by
  rw [moveOf, if_neg (by decide), if_pos rfl]

theorem moveOf_name (h1 : part ≠ ascii ".") (h2 : part ≠ ascii "..") :
    moveOf part = some (.name part) := by
  rw [moveOf, if_neg h1, if_neg h2]

/-- A round of the loop is a move. -/
theorem addPart_partsOf (hpre : pre = [] ↔ rooted = false) (hp : Sensible rooted p)
    (part : Bytes) : addPart pre (partsOf p) part
      = partsOf ((moveOf part).elim p (p.move rooted)) := by
  by_cases hdot : part = ascii "."
  · rw [addPart, if_pos hdot, moveOf, if_pos hdot]
    rfl
  · by_cases hup : part = ascii ".."
    · subst hup
      rw [addPart, if_neg hdot, if_pos rfl, moveOf_up, Option.elim_some, Place.move]
      rcases List.eq_nil_or_concat p.names with hnil | ⟨names, n, hn⟩
      · have hlast : ¬ (0 < (partsOf p).length ∧ (partsOf p).getLast? ≠ some (ascii "..")) := by
          rw [partsOf, hnil, List.append_nil]
          rintro ⟨hlen, hlast⟩
          rw [List.length_replicate] at hlen
          exact hlast (by rw [List.getLast?_replicate, if_neg (by omega)])
        rw [if_neg hlast, hnil]
        cases rooted with
        | true => simp [hpre, partsOf]
        | false => simp [hpre, partsOf, hnil, List.replicate_succ']
      · rw [List.concat_eq_append] at hn
        have hlast : (partsOf p).getLast? = some n := by simp [partsOf, hn]
        have hne : n ≠ ascii ".." := hp.names n (by simp [hn])
        have hlen : 0 < (partsOf p).length := List.length_pos_of_mem (List.mem_of_getLast? hlast)
        rw [if_pos ⟨hlen, by simp [hlast, hne]⟩, hn]
        simp [partsOf, hn, List.dropLast_append_of_ne_nil]
    · rw [addPart, if_neg hdot, if_neg hup, moveOf_name hdot hup]
      simp [partsOf, Place.move]

theorem Sensible.move (hp : Sensible rooted p) (part : Bytes) :
    Sensible rooted ((moveOf part).elim p (p.move rooted)) := by
  unfold moveOf
  split_ifs with hdot hup
  · exact hp
  · rw [Option.elim_some, Place.move]
    split_ifs with hnames hroot
    · exact hp
    · exact ⟨hp.names, fun h => absurd h hroot⟩
    · exact ⟨fun n hn => hp.names n (List.dropLast_subset _ hn), hp.ups⟩
  · refine ⟨fun n hn => ?_, hp.ups⟩
    rcases List.mem_append.1 hn with hn | hn
    · exact hp.names n hn
    · rwa [List.mem_singleton.1 hn]

/-- The loop walks along the parts. -/
theorem foldl_addPart (hpre : pre = [] ↔ rooted = false) (hp : Sensible rooted p)
    (parts : List Bytes) : parts.foldl (addPart pre) (partsOf p)
      = partsOf (p.walk rooted (parts.filterMap moveOf)) := by
  induction parts generalizing p with
  | nil => rfl
  | cons part parts ih =>
    rw [List.foldl_cons, addPart_partsOf hpre hp, ih (hp.move part), List.filterMap_cons]
    cases moveOf part <;> rfl

theorem rootOf_none : rootOf path = none ↔ hasDrive path = false ∧ path.head?.any isSep = false := by
  rw [rootOf]
  split_ifs with hdrive hsep
  · obtain ⟨a, s, rfl, -⟩ := hasDrive_iff.1 hdrive
    simp [hdrive]
  · simp [hsep]
  · simp [hdrive, hsep]

/-- The result: the prefix, and what leads to the place. -/
theorem collapse_eq (path : Bytes) :
    collapsePath path = joinParts (prefixOf path) (partsOf (locate path).place) := by
  rw [collapsePath, splitPrefix_clean]
  simp only [pieces_joined]
  congr 1
  rw [show ([] : List Bytes) = partsOf .here from rfl, locate, Location.walk]
  by_cases hpieces : pieces isSep (behindDrive path) = []
  · rw [movesOf, hpieces]
    rfl
  · refine foldl_addPart ?_ ⟨fun n hn => absurd hn List.not_mem_nil, fun _ => rfl⟩ _
    rw [Option.isSome_eq_false_iff, Option.isNone_iff_eq_none, rootOf_none, prefixOf,
      List.append_eq_nil_iff]
    by_cases hdrive : hasDrive path = true
    · obtain ⟨a, s, rfl, -⟩ := hasDrive_iff.1 hdrive
      simp [hdrive]
    · rw [show behindDrive path = path from if_neg hdrive] at hpieces ⊢
      simp [hdrive, Leads, hpieces]

end Parts

section Render

variable {loc : Location} {t : Bytes}

/-- A part is a piece of a path. -/
def Piece (n : Bytes) : Prop := n ≠ [] ∧ ∀ c ∈ n, isSep c = false

/-- A location that a path has. -/
structure Proper (loc : Location) : Prop where
  names : ∀ n ∈ loc.place.names, Piece n ∧ n ≠ ascii "." ∧ n ≠ ascii ".."
  ups : loc.root ≠ none → loc.place.ups = 0
  letter : ∀ a, loc.root = some (.drive a) → isAlpha a = true

theorem moveOf_eq_name {part n : Bytes} (h : moveOf part = some (.name n)) :
    part = n ∧ n ≠ ascii "." ∧ n ≠ ascii ".." := by
  unfold moveOf at h
  split_ifs at h with hdot hup
  · cases h
  · obtain rfl := Move.name.inj (Option.some.inj h)
    exact ⟨rfl, hdot, hup⟩

theorem locate_proper (path : Bytes) : Proper (locate path) where
  names := by
    intro n hn
    rcases Place.mem_names_walk hn with hn | hn
    · exact absurd hn List.not_mem_nil
    · obtain ⟨part, hpart, hmove⟩ := List.mem_filterMap.1 hn
      obtain ⟨rfl, hne⟩ := moveOf_eq_name hmove
      exact ⟨mem_pieces hpart, hne⟩
  ups := by
    intro hroot
    obtain ⟨r, hr⟩ := Option.ne_none_iff_exists'.1 hroot
    rw [locate, Location.walk, show rootOf path = some r from hr]
    exact Place.ups_walk_rooted _ _
  letter := by
    intro a hroot
    have hroot : rootOf path = some (.drive a) := hroot
    rw [rootOf] at hroot
    split_ifs at hroot with hdrive
    · obtain ⟨c, s, rfl, hc⟩ := hasDrive_iff.1 hdrive
      cases hroot
      exact hc
    · cases hroot

theorem partsOf_pieces (h : Proper loc) : ∀ n ∈ partsOf loc.place, Piece n := by
  intro n hn
  rcases List.mem_append.1 hn with hn | hn
  · rw [(List.mem_replicate.1 hn).2]
    have hsep : (ascii "..").any isSep = false := rfl
    exact ⟨by decide, fun c hc => Bool.eq_false_iff.2 (List.any_eq_false.1 hsep c hc)⟩
  · exact (h.names n hn).1

theorem partsOf_ne_nil : partsOf loc.place ≠ [] ↔ loc.Inside := by
  simp only [partsOf, ne_eq, List.append_eq_nil_iff, List.replicate_eq_nil_iff, Location.Inside]
  tauto

/-- The parts with separators between them. -/
def bodyOf (loc : Location) : Bytes := [47].intercalate (partsOf loc.place)

theorem bodyOf_cons (h : loc.Inside) : ∃ n ns t, partsOf loc.place = n :: ns ∧ bodyOf loc = n ++ t
    ∧ (t = [] ∨ t.head? = some 47) := by
  obtain ⟨n, ns, hparts⟩ := List.exists_cons_of_ne_nil (partsOf_ne_nil.2 h)
  cases ns with
  | nil => exact ⟨n, [], [], hparts, by simp [bodyOf, hparts], .inl rfl⟩
  | cons m ns =>
    refine ⟨n, m :: ns, 47 :: [47].intercalate (m :: ns), hparts, ?_, .inr rfl⟩
    rw [bodyOf, hparts, List.intercalate_cons_cons, List.append_assoc, List.singleton_append]

theorem head_bodyOf (hp : Proper loc) (h : loc.Inside) :
    bodyOf loc ≠ [] ∧ (bodyOf loc).head?.any isSep = false := by
  obtain ⟨n, ns, t, hparts, hbody, -⟩ := bodyOf_cons h
  obtain ⟨hne, hsep⟩ := partsOf_pieces hp n (hparts ▸ List.mem_cons_self)
  obtain ⟨b, n, rfl⟩ := List.exists_cons_of_ne_nil hne
  rw [hbody]
  exact ⟨List.cons_ne_nil _ _, hsep b List.mem_cons_self⟩

theorem pieces_bodyOf (hp : Proper loc) : pieces isSep (bodyOf loc) = partsOf loc.place :=
  pieces_intercalate rfl fun n hn => partsOf_pieces hp n hn

theorem hasDrive_append (hn : path ≠ []) (ht : t = [] ∨ t.head? = some 47) :
    hasDrive (path ++ t) = hasDrive path := by
  obtain ⟨b, s, rfl⟩ := List.exists_cons_of_ne_nil hn
  rw [List.cons_append, hasDrive_cons, hasDrive_cons]
  cases s with
  | nil =>
    rcases ht with rfl | ht
    · rfl
    · rw [List.nil_append, ht]
      rfl
  | cons c s => rfl

theorem hasDrive_bodyOf (hp : Proper loc) (h : loc.Inside) (hroot : loc.root = none) :
    hasDrive (bodyOf loc) = true ↔ loc.DriveLike := by
  obtain ⟨n, ns, t, hparts, hbody, ht⟩ := bodyOf_cons h
  have hne := (partsOf_pieces hp n (hparts ▸ List.mem_cons_self)).1
  rw [hbody, hasDrive_append hne ht, Location.DriveLike, and_iff_right hroot]
  cases hups : loc.place.ups with
  | zero =>
    have hnames : loc.place.names = n :: ns := by simpa [partsOf, hups] using hparts
    simp [hnames]
  | succ k =>
    have hn : n = ascii ".." := by
      rw [partsOf, hups, List.replicate_succ, List.cons_append] at hparts
      exact (List.cons.inj hparts).1.symm
    rw [hn]
    exact iff_of_false (by decide) fun h => absurd h.1 (Nat.succ_ne_zero k)

/-- The path of a location. -/
def render (loc : Location) : Bytes :=
  match loc.root with
  | none => bodyOf loc
  | some .slash => 47 :: bodyOf loc
  | some (.drive a) => a :: 58 :: 47 :: bodyOf loc

/-- What is read of a rendered path. -/
theorem parse_render (hp : Proper loc) (h : loc.Inside) (hdrive : ¬ loc.DriveLike) :
    rootOf (render loc) = loc.root ∧ pieces isSep (behindDrive (render loc)) = partsOf loc.place
      ∧ (behindDrive (render loc) = bodyOf loc ∧ loc.root = none
        ∨ behindDrive (render loc) = 47 :: bodyOf loc ∧ loc.root ≠ none) := by
  obtain ⟨hne, hhead⟩ := head_bodyOf hp h
  unfold render
  split
  · rename_i hroot
    have hno : hasDrive (bodyOf loc) = false := by
      simpa using mt (hasDrive_bodyOf hp h hroot).1 hdrive
    have hbehind : behindDrive (bodyOf loc) = bodyOf loc := if_neg (by simp [hno])
    rw [hbehind, hroot]
    exact ⟨rootOf_none.2 ⟨hno, hhead⟩, pieces_bodyOf hp, .inl ⟨rfl, rfl⟩⟩
  · rename_i hroot
    have hno : hasDrive (47 :: bodyOf loc) = false := hasDrive_of_sep rfl
    have hbehind : behindDrive (47 :: bodyOf loc) = 47 :: bodyOf loc := if_neg (by simp [hno])
    rw [hbehind, hroot]
    refine ⟨by simp [rootOf, hno, isSep], ?_, .inr ⟨rfl, nofun⟩⟩
    rw [pieces_cons_sep rfl, pieces_bodyOf hp]
  · rename_i a hroot
    have hyes : hasDrive (a :: 58 :: 47 :: bodyOf loc) = true := by
      simp [hasDrive, hp.letter a hroot]
    have hbehind : behindDrive (a :: 58 :: 47 :: bodyOf loc) = 47 :: bodyOf loc := if_pos hyes
    rw [hbehind, hroot]
    refine ⟨by simp [rootOf, hyes], ?_, .inr ⟨rfl, nofun⟩⟩
    rw [pieces_cons_sep rfl, pieces_bodyOf hp]

theorem filterMap_partsOf (hp : Proper loc) :
    (partsOf loc.place).filterMap moveOf = loc.place.moves := by
  have hnames : loc.place.names.filterMap moveOf = loc.place.names.map .name := by
    rw [← List.filterMap_eq_map]
    exact List.filterMap_congr fun n hn => moveOf_name (hp.names n hn).2.1 (hp.names n hn).2.2
  rw [partsOf, List.filterMap_append, hnames, List.filterMap_replicate, moveOf_up]
  rfl

theorem locate_render (hp : Proper loc) (h : loc.Inside) (hdrive : ¬ loc.DriveLike) :
    locate (render loc) = loc := by
  obtain ⟨hroot, hpieces, -⟩ := parse_render hp h hdrive
  rw [locate, Location.walk, movesOf, hroot, hpieces, filterMap_partsOf hp,
    Place.walk_moves fun h => hp.ups (Option.isSome_iff_ne_none.1 h)]

theorem componentsOf_render (hp : Proper loc) (h : loc.Inside) (hdrive : ¬ loc.DriveLike) :
    componentsOf (render loc) = partsOf loc.place := by
  obtain ⟨hne, hhead⟩ := head_bodyOf hp h
  have hsplit : (bodyOf loc).splitOnP isSep = partsOf loc.place :=
    splitOnP_intercalate rfl (partsOf_ne_nil.2 h) fun n hn => (partsOf_pieces hp n hn).2
  obtain ⟨-, -, ⟨hbehind, -⟩ | ⟨hbehind, -⟩⟩ := parse_render hp h hdrive
  · simp [componentsOf, hbehind, hhead, hne, hsplit]
  · simp [componentsOf, hbehind, isSep, hne, ← hsplit]

end Render

section Sound

theorem pieces_of_inside (h : (locate path).Inside) : pieces isSep (behindDrive path) ≠ [] := by
  intro hnil
  have hplace : (locate path).place = .here := by
    rw [locate, Location.walk, movesOf, hnil]
    rfl
  rw [Location.Inside, hplace] at h
  exact h.elim (fun h => h rfl) fun h => h rfl

theorem joinParts_of_ne {pre : Bytes} {loc : Location} (hp : Proper loc) (h : loc.Inside) :
    joinParts pre (partsOf loc.place)
      = if pre = [] ∨ pre.getLast? = some 47 then pre ++ bodyOf loc
        else pre ++ 47 :: bodyOf loc := by
  have hne : (ascii "/").intercalate (partsOf loc.place) = bodyOf loc := rfl
  obtain ⟨hbody, -⟩ := head_bodyOf hp h
  rw [joinParts, hne, if_pos hbody, if_neg hbody]
  by_cases hpre : pre = []
  · simp [hpre]
  · rw [if_neg hpre, show ascii "/" = [47] from rfl, List.append_assoc, List.singleton_append]
    simp [hpre]

/-- What is left of a path that leads on. -/
theorem collapse_inside (h : (locate path).Inside) :
    collapsePath path = render (locate path) := by
  have hpieces := pieces_of_inside h
  rw [collapse_eq, joinParts_of_ne (locate_proper path) h, render]
  by_cases hdrive : hasDrive path = true
  · obtain ⟨a, s, rfl, ha⟩ := hasDrive_iff.1 hdrive
    have hroot : (locate (a :: 58 :: s)).root = some (.drive a) := by
      simp [locate, Location.walk, rootOf, hdrive]
    rw [hroot, prefixOf, if_pos hdrive]
    by_cases hleads : Leads (behindDrive (a :: 58 :: s)) <;> simp [hleads]
  · have hbehind : behindDrive path = path := if_neg hdrive
    rw [hbehind] at hpieces
    rw [prefixOf, if_neg hdrive, hbehind, List.nil_append]
    by_cases hsep : path.head?.any isSep = true
    · have hroot : (locate path).root = some .slash := by
        simp [locate, Location.walk, rootOf, hdrive, hsep]
      have hleads : Leads path := ⟨hsep, hpieces⟩
      simp [hroot, hleads]
    · have hroot : (locate path).root = none := by
        simp [locate, Location.walk, rootOf, hdrive, hsep]
      have hleads : ¬ Leads path := fun h => hsep h.1
      simp [hroot, hleads]

/-- What is left of a path that does not. -/
theorem collapse_outside (h : ¬ (locate path).Inside) :
    collapsePath path = if prefixOf path = [] then ascii "." else prefixOf path := by
  have hparts : partsOf (locate path).place = [] := by
    simpa using mt partsOf_ne_nil.1 h
  rw [collapse_eq, hparts, joinParts]
  rfl

theorem clean_render {loc : Location} (hp : Proper loc) (h : loc.Inside)
    (hdrive : ¬ loc.DriveLike) : Clean (render loc) := by
  have hcomps := componentsOf_render hp h hdrive
  obtain ⟨hroot, -⟩ := parse_render hp h hdrive
  rw [Clean, hcomps, hroot]
  refine ⟨fun c hc => ⟨(partsOf_pieces hp c hc).1, ?_⟩, loc.place.ups, loc.place.names, rfl,
    fun hup => (hp.names _ hup).2.2 rfl, fun hsome => hp.ups (Option.isSome_iff_ne_none.1 hsome)⟩
  rcases List.mem_append.1 hc with hc | hc
  · rw [(List.mem_replicate.1 hc).2]
    decide
  · exact (hp.names c hc).2.1

theorem absolute_render {loc : Location} (hp : Proper loc) (h : loc.Inside)
    (hdrive : ¬ loc.DriveLike) : Absolute (render loc) ↔ loc.root ≠ none := by
  obtain ⟨-, hhead⟩ := head_bodyOf hp h
  obtain ⟨-, -, ⟨hbehind, hroot⟩ | ⟨hbehind, hroot⟩⟩ := parse_render hp h hdrive
  · simp [Absolute, hbehind, hhead, hroot]
  · simp [Absolute, hbehind, hroot, isSep]

/-- A location that is neither a root nor here, and not like a drive, is its own path. -/
theorem collapse_render {loc : Location} (hp : Proper loc) (h : loc.Inside)
    (hdrive : ¬ loc.DriveLike) : collapsePath (render loc) = render loc := by
  have hloc := locate_render hp h hdrive
  rw [collapse_inside (by rwa [hloc]), hloc]

theorem onDrive_root (h : OnDrive path) : (locate path).root ≠ none := by
  obtain ⟨a, s, rfl, -⟩ := hasDrive_iff.1 h.1
  simp [locate, Location.walk, rootOf, h.1]

theorem root_of_absolute (h : Absolute path) : (locate path).root ≠ none := by
  intro hroot
  obtain ⟨hdrive, hsep⟩ := rootOf_none.1 hroot
  rw [Absolute, show behindDrive path = path from if_neg (by simp [hdrive]), hsep] at h
  cases h

theorem here_of_outside {loc : Location} (h : ¬ loc.Inside) : loc.place = .here := by
  obtain ⟨hups, hnames⟩ := not_or.1 h
  obtain ⟨root, ups, names⟩ := loc
  obtain rfl : ups = 0 := not_not.1 hups
  obtain rfl : names = [] := not_not.1 hnames
  rfl

theorem not_driveLike {loc : Location} (h : ¬ loc.Inside) : ¬ loc.DriveLike := by
  rintro ⟨-, -, hdrive⟩
  rw [here_of_outside h] at hdrive
  cases hdrive

section Letter

variable {a : UInt8}

theorem prefixOf_drive (ha : isAlpha a = true) (s : Bytes) :
    prefixOf (a :: 58 :: s) = a :: 58 :: if Leads s then [47] else [] := by
  have hdrive : hasDrive (a :: 58 :: s) = true := by simp [hasDrive, ha]
  rw [prefixOf, if_pos hdrive, show behindDrive (a :: 58 :: s) = s from if_pos hdrive]
  rfl

theorem locate_drive (ha : isAlpha a = true) (s : Bytes) : locate (a :: 58 :: s)
    = Location.walk ⟨some (.drive a), .here⟩ ((pieces isSep s).filterMap moveOf) := by
  have hdrive : hasDrive (a :: 58 :: s) = true := by simp [hasDrive, ha]
  rw [locate, rootOf, if_pos hdrive, movesOf,
    show behindDrive (a :: 58 :: s) = s from if_pos hdrive]
  rfl

theorem collapse_drive (ha : isAlpha a = true) (hs : pieces isSep s = []) :
    collapsePath (a :: 58 :: s) = [a, 58] := by
  have houtside : ¬ (locate (a :: 58 :: s)).Inside := by
    rw [locate_drive ha, hs]
    exact fun h => h.elim (fun h => h rfl) fun h => h rfl
  have hleads : ¬ Leads s := fun h => h.2 hs
  rw [collapse_outside houtside, prefixOf_drive ha, if_neg hleads, if_neg (List.cons_ne_nil _ _)]

theorem absolute_drive (ha : isAlpha a = true) (s : Bytes) :
    Absolute (a :: 58 :: s) ↔ s.head?.any isSep = true := by
  have hdrive : hasDrive (a :: 58 :: s) = true := by simp [hasDrive, ha]
  rw [Absolute, show behindDrive (a :: 58 :: s) = s from if_pos hdrive]

end Letter

/-- A path that is a root or here is what it is to be if it is a letter without a separator. -/
theorem collapseSound_outside (h : ¬ (locate path).Inside) :
    CollapseSound path ↔ OnDrive path := by
  have hcollapse := collapse_outside h
  by_cases hdrive : hasDrive path = true
  · obtain ⟨a, s, rfl, ha⟩ := hasDrive_iff.1 hdrive
    rw [prefixOf_drive ha, if_neg (List.cons_ne_nil _ _)] at hcollapse
    rw [OnDrive, and_iff_right hdrive]
    constructor
    · intro hsound habs
      by_cases hleads : Leads s
      · have hidem := hsound.idempotent
        rw [hcollapse, if_pos hleads, collapse_drive ha (by rw [pieces_cons_sep rfl, pieces_nil])]
          at hidem
        cases hidem
      · have habs := hsound.absolute habs
        rw [hcollapse, if_neg hleads, absolute_drive ha] at habs
        cases habs
    · intro hnot
      rw [absolute_drive ha] at hnot
      have hleads : ¬ Leads s := fun h => hnot h.1
      rw [if_neg hleads] at hcollapse
      have hdrive' : hasDrive [a, 58] = true := by simp [hasDrive, ha]
      have hcomps : componentsOf [a, 58] = [] := by
        rw [componentsOf, show behindDrive [a, 58] = [] from if_pos hdrive']
        rfl
      refine ⟨?_, fun habs => absurd ((absolute_drive ha s).1 habs) hnot, ?_, ?_⟩
      · rw [hcollapse]
        have hplace := here_of_outside h
        rw [locate_drive ha] at hplace ⊢
        rw [locate_drive ha, pieces_nil]
        exact congrArg (Location.mk _) hplace.symm
      · rw [hcollapse, Clean, hcomps]
        exact ⟨fun c hc => absurd hc List.not_mem_nil, 0, [], rfl, List.not_mem_nil, fun _ => rfl⟩
      · rw [hcollapse, collapse_drive ha pieces_nil]
  · refine iff_of_false (fun hsound => ?_) fun h => hdrive h.1
    rw [prefixOf, if_neg hdrive, List.nil_append] at hcollapse
    by_cases hleads : Leads (behindDrive path)
    · have hidem := hsound.idempotent
      rw [hcollapse, if_pos hleads, if_neg (List.cons_ne_nil _ _)] at hidem
      have hroot : collapsePath [47] ≠ [47] := by decide
      exact hroot hidem
    · have hclean := hsound.clean.1
      rw [hcollapse, if_neg hleads, if_pos rfl] at hclean
      exact (hclean (ascii ".") (by decide)).2 rfl

/-- When a collapsed path is what it is to be. -/
theorem collapseSound_iff (path : Bytes) : CollapseSound path
    ↔ (OnDrive path ∨ (locate path).Inside) ∧ ¬ (locate path).DriveLike := by
  have hp := locate_proper path
  by_cases h : (locate path).Inside
  · have hcollapse := collapse_inside h
    rw [and_iff_right (.inr h)]
    constructor
    · intro hsound hdrive
      have hlocated := congrArg Location.root hsound.located
      have hrender : render (locate path) = bodyOf (locate path) := by rw [render, hdrive.1]
      rw [hcollapse, hrender, hdrive.1] at hlocated
      have hno := (rootOf_none.1 hlocated).1
      rw [(hasDrive_bodyOf hp h hdrive.1).2 hdrive] at hno
      cases hno
    · intro hdrive
      refine ⟨?_, fun habs => ?_, ?_, ?_⟩
      · rw [hcollapse, locate_render hp h hdrive]
      · rw [hcollapse, absolute_render hp h hdrive]
        exact root_of_absolute habs
      · rw [hcollapse]
        exact clean_render hp h hdrive
      · rw [hcollapse, collapse_render hp h hdrive]
  · rw [collapseSound_outside h, and_iff_left (not_driveLike h), or_iff_left h]

end Sound

section Resolve

variable {base r : Bytes}

theorem pieces_clean (s : Bytes) : pieces isSep (normalizeSeparators s) = pieces isSep s := by
  have hjoined : pieces isSep (joined s) = pieces isSep s :=
    pieces_intercalate rfl fun w hw => mem_pieces hw
  rw [normalize_eq]
  split_ifs
  · rw [pieces_cons_sep rfl, hjoined]
  · exact hjoined

/-- Cleaning twice is cleaning once. -/
theorem normalize_normalize (s : Bytes) :
    normalizeSeparators (normalizeSeparators s) = normalizeSeparators s := by
  have hjoined : joined (normalizeSeparators s) = joined s := by rw [joined, pieces_clean, joined]
  have hleads : Leads (normalizeSeparators s) ↔ Leads s := by
    rw [Leads, pieces_clean]
    refine ⟨fun ⟨hhead, hpieces⟩ => ?_, fun h => ⟨?_, h.2⟩⟩
    · by_contra h
      rw [normalize_eq, if_neg h, head_joined] at hhead
      cases hhead
    · rw [(head_clean s).2 h]
      rfl
  have heq := normalize_eq (normalizeSeparators s)
  simp only [hleads, hjoined] at heq
  rw [heq, normalize_eq s]

theorem collapse_normalize (path : Bytes) :
    collapsePath (normalizeSeparators path) = collapsePath path := by
  rw [collapsePath, normalize_normalize, ← collapsePath]

/-- What a result that is sound says of its location. -/
theorem ResolveSound.cond (h : ResolveSound base path r) :
    (OnDrive r ∨ (locateFrom base path).Inside) ∧ ¬ (locateFrom base path).DriveLike := by
  have hsound : CollapseSound r := by
    refine ⟨?_, fun habs => ?_, ?_, ?_⟩
    · rw [h.idempotent]
    · rwa [h.idempotent]
    · rw [h.idempotent]
      exact h.clean
    · rw [h.idempotent, h.idempotent]
  rw [← h.located]
  exact (collapseSound_iff r).1 hsound

section Rooted

variable (hroot : rootOf path ≠ none)

include hroot

theorem locateFrom_rooted : locateFrom base path = locate path :=
  if_pos (Option.isSome_iff_ne_none.2 hroot)

theorem onDriveFrom_rooted : OnDriveFrom base path ↔ OnDrive path :=
  or_iff_left fun h => hroot h.1

theorem resolveSound_rooted :
    ResolveSound base path (collapsePath path) ↔ CollapseSound path := by
  constructor
  · intro h
    exact ⟨h.located.trans (locateFrom_rooted hroot), fun habs => h.absolute (.inl habs), h.clean,
      h.idempotent⟩
  · intro h
    refine ⟨h.located.trans (locateFrom_rooted hroot).symm, fun habs => ?_, h.clean, h.idempotent⟩
    exact h.absolute (habs.resolve_right fun h => hroot h.1)

/-- A path that is absolute. -/
theorem resolve_rooted :
    (∃ r, resolvePath base path = some r ∧ ResolveSound base path r)
      ↔ (OnDrive path ∨ (locate path).Inside) ∧ ¬ (locate path).DriveLike := by
  have hne : path ≠ [] := by
    rintro rfl
    exact hroot rfl
  rw [resolvePath, if_neg hne]
  by_cases habs : hasDrive path = true ∨ Leads path
  · have habs : isAbsolutePath (normalizeSeparators path) = true := by
      rw [isAbsolutePath, hasDrive_clean, Bool.or_eq_true, beq_iff_eq, head_clean]
      exact habs.symm
    simp only [habs, if_true, Option.some.injEq, exists_eq_left', collapse_normalize]
    rw [resolveSound_rooted hroot, collapseSound_iff]
  · obtain ⟨hdrive, hleads⟩ := not_or.1 habs
    have hbehind : behindDrive path = path := if_neg hdrive
    have hsep : path.head?.any isSep = true := by
      by_contra h
      exact hroot (rootOf_none.2 ⟨by simpa using hdrive, by simpa using h⟩)
    have houtside : ¬ (locate path).Inside := fun h =>
      hleads ⟨hsep, by simpa [hbehind] using pieces_of_inside h⟩
    have hslash : (locate path).root = some .slash := by
      simp [locate, Location.walk, rootOf, hdrive, hsep]
    refine iff_of_false ?_ fun h => h.1.elim (fun h => hdrive h.1) houtside
    rintro ⟨r, -, hsound⟩
    obtain ⟨honDrive | hinside, -⟩ := hsound.cond
    · obtain ⟨a, s, rfl, -⟩ := hasDrive_iff.1 honDrive.1
      have hlocated := congrArg Location.root hsound.located
      rw [locateFrom_rooted hroot, hslash] at hlocated
      simp [locate, Location.walk, rootOf, honDrive.1] at hlocated
    · rw [locateFrom_rooted hroot] at hinside
      exact houtside hinside

end Rooted

section Relative

variable (hroot : rootOf path = none) (hne : path ≠ [])

/-- What is collapsed of a relative path. -/
def under (base path : Bytes) : Bytes :=
  normalizeSeparators base ++ 47 :: normalizeSeparators path

theorem hasDrive_under (base path : Bytes) : hasDrive (under base path) = hasDrive base :=
  hasDrive_clean_append base (.inr rfl)

theorem behindDrive_under (base path : Bytes) : behindDrive (under base path)
    = normalizeSeparators (behindDrive base) ++ 47 :: normalizeSeparators path := by
  by_cases hdrive : hasDrive base = true
  · rw [behindDrive, hasDrive_under, if_pos hdrive]
    obtain ⟨a, s, rfl, ha⟩ := hasDrive_iff.1 hdrive
    rw [show behindDrive (a :: 58 :: s) = s from if_pos hdrive, under,
      normalize_cons (isSep_of_isAlpha ha), normalize_cons rfl]
    rfl
  · rw [behindDrive, hasDrive_under, if_neg hdrive,
      show behindDrive base = base from if_neg hdrive, under]

theorem pieces_under (base path : Bytes) : pieces isSep (behindDrive (under base path))
    = pieces isSep (behindDrive base) ++ pieces isSep path := by
  rw [behindDrive_under, pieces_append_cons _ _ rfl, pieces_clean, pieces_clean]

theorem head_under (s t : Bytes) :
    (normalizeSeparators s ++ 47 :: t).head?.any isSep = true
      ↔ s = [] ∨ s.head?.any isSep = true := by
  rcases head_clean_append (s := s) (t := 47 :: t) (.inr rfl) with ⟨hhead, hsep⟩
    | ⟨hnone | hhead, hs⟩
  · rw [hhead, hsep]
    refine iff_of_false nofun fun h => ?_
    rcases h with rfl | h
    · rw [normalize_nil] at hhead
      cases hhead
    · cases h
  · simp at hnone
  · rw [hhead]
    exact iff_of_true rfl hs

theorem rootOf_under (hbase : base ≠ []) : rootOf (under base path) = rootOf base := by
  by_cases hdrive : hasDrive base = true
  · obtain ⟨a, s, rfl, ha⟩ := hasDrive_iff.1 hdrive
    rw [rootOf, hasDrive_under, rootOf, if_pos hdrive, if_pos hdrive, under,
      normalize_cons (isSep_of_isAlpha ha)]
    rfl
  · have hhead := head_under base (normalizeSeparators path)
    rw [or_iff_right hbase] at hhead
    rw [rootOf, hasDrive_under, rootOf, if_neg hdrive, if_neg hdrive, under]
    simp only [hhead]

theorem absolute_under : Absolute (under base path)
    ↔ Absolute base ∨ behindDrive base = [] := by
  rw [Absolute, behindDrive_under, head_under, or_comm]
  rfl

include hroot

theorem resolve_under :
    resolvePath base path = if path = [] then none else some (collapsePath (under base path)) := by
  obtain ⟨hdrive, hsep⟩ := rootOf_none.1 hroot
  have hrel : isAbsolutePath (normalizeSeparators path) = false := by
    have hleads : ¬ Leads path := fun h => absurd (hsep.symm.trans h.1) Bool.false_ne_true
    rw [isAbsolutePath, hasDrive_clean, hdrive, Bool.or_false, beq_eq_false_iff_ne, ne_eq,
      head_clean]
    exact hleads
  rw [resolvePath]
  split_ifs
  · rfl
  · simp only [hrel, Bool.false_eq_true, if_false, under]
    rw [List.append_assoc]
    rfl

theorem locate_under (hbase : base ≠ []) :
    locate (under base path) = locateFrom base path := by
  have hbehind : behindDrive path = path := if_neg (by simp [(rootOf_none.1 hroot).1])
  rw [locateFrom, hroot, if_neg (by simp), locate, locate, movesOf, movesOf, movesOf, pieces_under,
    rootOf_under hbase, hbehind, List.filterMap_append, Location.walk, Location.walk,
    Location.walk, Place.walk_append]

theorem pieces_relative (hne : path ≠ []) : pieces isSep path ≠ [] := fun h =>
  hne (head_of_pieces_nil (rootOf_none.1 hroot).2 h)

theorem onDrive_under : OnDrive (under base path) ↔ OnDriveFrom base path := by
  have hno : ¬ OnDrive path := fun h =>
    absurd ((rootOf_none.1 hroot).1.symm.trans h.1) Bool.false_ne_true
  rw [OnDriveFrom, or_iff_right hno, and_iff_right hroot, OnDrive, OnDrive, hasDrive_under,
    absolute_under, not_or, and_assoc]

/-- A drive letter is all that is left only of a path that had no separator behind it. -/
theorem onDrive_of_collapse (hne : path ≠ []) (h : OnDrive (collapsePath (under base path)))
    (houtside : ¬ (locate (under base path)).Inside) : OnDrive (under base path) := by
  have hcollapse := collapse_outside houtside
  have hpieces : pieces isSep (behindDrive (under base path)) ≠ [] := by
    rw [pieces_under]
    exact fun h => pieces_relative hroot hne (List.append_eq_nil_iff.1 h).2
  by_cases hdrive : hasDrive (under base path) = true
  · refine ⟨hdrive, fun habs => h.2 ?_⟩
    obtain ⟨a, s, hs, ha⟩ := hasDrive_iff.1 hdrive
    rw [hs] at hcollapse habs hpieces hdrive ⊢
    rw [show behindDrive (a :: 58 :: s) = s from if_pos hdrive] at hpieces
    rw [absolute_drive ha] at habs
    have hleads : Leads s := ⟨habs, hpieces⟩
    rw [hcollapse, prefixOf_drive ha, if_pos hleads, if_neg (List.cons_ne_nil _ _),
      absolute_drive ha]
    rfl
  · rw [prefixOf, if_neg hdrive, List.nil_append] at hcollapse
    have hno : hasDrive (collapsePath (under base path)) = false := by
      rw [hcollapse]
      by_cases hleads : Leads (behindDrive (under base path))
      · rw [if_pos hleads]
        rfl
      · rw [if_neg hleads]
        rfl
    exact absurd (h.1.symm.trans hno) Bool.false_ne_true.symm

theorem resolve_relative (hne : path ≠ []) (hbase : base ≠ []) :
    (∃ r, resolvePath base path = some r ∧ ResolveSound base path r)
      ↔ (OnDriveFrom base path ∨ (locateFrom base path).Inside)
        ∧ ¬ (locateFrom base path).DriveLike := by
  have hlocate := locate_under hroot hbase
  simp only [resolve_under hroot, if_neg hne, Option.some.injEq, exists_eq_left']
  constructor
  · intro hsound
    refine ⟨?_, hsound.cond.2⟩
    by_cases hinside : (locateFrom base path).Inside
    · exact .inr hinside
    · have honDrive := hsound.cond.1.resolve_right hinside
      exact .inl ((onDrive_under hroot).1
        (onDrive_of_collapse hroot hne honDrive (by rwa [hlocate])))
  · intro hcond
    rw [← onDrive_under hroot, ← hlocate] at hcond
    have hsound := (collapseSound_iff _).2 hcond
    refine ⟨hsound.located.trans hlocate, fun habs => hsound.absolute ?_, hsound.clean,
      hsound.idempotent⟩
    rcases habs with habs | ⟨-, habs⟩
    · exact absurd hroot (root_of_absolute habs)
    · exact absolute_under.2 (.inl habs)

/-- Under an empty base a relative path becomes absolute. -/
theorem resolve_empty (hne : path ≠ []) :
    ¬ ∃ r, resolvePath [] path = some r ∧ ResolveSound [] path r := by
  rintro ⟨r, hr, hsound⟩
  rw [resolve_under hroot, if_neg hne, Option.some.injEq] at hr
  have hunder : under [] path = 47 :: normalizeSeparators path := rfl
  have hdrive : hasDrive (under [] path) = false := hasDrive_under [] path
  have hslash : (locate (under [] path)).root = some .slash := by
    rw [locate, Location.walk, rootOf, hdrive]
    rfl
  have hleads : Leads (under [] path) := by
    refine ⟨rfl, ?_⟩
    rw [hunder, pieces_cons_sep rfl, pieces_clean]
    exact pieces_relative hroot hne
  have hlocated := congrArg Location.root hsound.located
  have hnone : (locateFrom [] path).root = none := by
    rw [locateFrom, hroot]
    rfl
  rw [hnone, ← hr] at hlocated
  have hbehind : behindDrive (under [] path) = under [] path := if_neg (by simp [hdrive])
  by_cases hinside : (locate (under [] path)).Inside
  · have hlike : ¬ (locate (under [] path)).DriveLike := fun h =>
      absurd (hslash.symm.trans h.1) nofun
    rw [collapse_inside hinside, locate_render (locate_proper _) hinside hlike, hslash] at hlocated
    cases hlocated
  · rw [collapse_outside hinside, prefixOf, hbehind, if_pos hleads, hdrive] at hlocated
    cases hlocated

end Relative

/-- Paths are resolved and collapsed to what they denote if and only if they denote neither a root
nor the place that they are taken from, and do not begin like a drive when they are relative. -/
theorem paths_sound_iff (path : Bytes) :
    (CollapseSound path ↔ (OnDrive path ∨ (locate path).Inside) ∧ ¬ (locate path).DriveLike)
    ∧ ∀ base, path ≠ [] →
      ((∃ r, resolvePath base path = some r ∧ ResolveSound base path r)
        ↔ ((OnDriveFrom base path ∨ (locateFrom base path).Inside)
          ∧ ¬ (locateFrom base path).DriveLike) ∧ (rootOf path = none → base ≠ [])) := by
  refine ⟨collapseSound_iff path, fun base hne => ?_⟩
  by_cases hroot : rootOf path = none
  · by_cases hbase : base = []
    · subst hbase
      exact iff_of_false (resolve_empty hroot hne) fun h => h.2 hroot rfl
    · rw [resolve_relative hroot hne hbase, and_iff_left fun _ => hbase]
  · rw [resolve_rooted hroot, and_iff_left fun h => absurd h hroot, onDriveFrom_rooted hroot,
      locateFrom_rooted hroot]

/-- A relative path with both separators. -/
theorem paths_sound_dots :
    ∃ r, resolvePath (ascii "C:/srv\\app/") (ascii "..\\.//lib/") = some r
      ∧ ResolveSound (ascii "C:/srv\\app/") (ascii "..\\.//lib/") r := by
  have hnames : (locateFrom (ascii "C:/srv\\app/") (ascii "..\\.//lib/")).place.names ≠ [] := by
    decide
  have hroot : (locateFrom (ascii "C:/srv\\app/") (ascii "..\\.//lib/")).root ≠ none := by
    decide
  exact ((paths_sound_iff _).2 _ (by decide)).2
    ⟨⟨.inr (.inr hnames), fun h => hroot h.1⟩, fun _ => by decide⟩

/-- The root is taken for the base. -/
theorem not_sound_root :
    ¬ ((∀ path, CollapseSound path) ∧ ∀ base path, path ≠ [] →
      ∃ r, resolvePath base path = some r ∧ ResolveSound base path r) := by
  rintro ⟨-, hresolve⟩
  obtain ⟨r, hr, hsound⟩ := hresolve (ascii "/srv") (ascii "/") (by decide)
  have hbase : resolvePath (ascii "/srv") (ascii "/") = some (ascii "/srv") := rfl
  rw [hbase, Option.some.injEq] at hr
  subst hr
  have hnames : (locate (ascii "/srv")).place.names
      ≠ (locateFrom (ascii "/srv") (ascii "/")).place.names := by decide
  exact hnames (congrArg (fun loc => loc.place.names) hsound.located)

end Resolve

end Paths

end SkynetCpp
