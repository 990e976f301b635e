import SkynetCpp.Lib.Scripts
import SkynetCpp.LuaPack
import SkynetCpp.Proofs.LuaSeri

/-!
# What can be packed

`luaseri_pack` plays a script, which lists what is pushed, where memory is asked for and where an
error is raised (`visit`). It raises an error of its own for a value that does not fit, which is
decided level by level (`fits_table`).
-/

namespace SkynetCpp

namespace LuaPack

open Lib LuaSeri

variable {heap : Heap} {levels id : ℕ} {v w : Ref} {values : List Ref} {s s' : State} {e : String}

section Follows

theorem act_push (pushes : List Bytes) (s : State) : (Op.push pushes).act s
    = .ok () { s with wb := pushes.foldl WriteBlock.push s.wb } := rfl

theorem act_request {message : String} (h : s.memory s.requests = true) :
    (Op.request message).act s = .ok () { s with requests := s.requests + 1 } := if_pos h

theorem act_request_not {message : String} (h : s.memory s.requests = false) :
    (Op.request message).act s = .error message { s with requests := s.requests + 1 } :=
  if_neg (by simp [h])

theorem act_throw (message : String) (s : State) :
    (Op.throw message).act s = .error message s := rfl

/-- No action changes the tables or the memory. -/
theorem act_same (heap : Heap) (memory : ℕ → Bool) (op : Op) (s : State)
    (h : s.heap = heap ∧ s.memory = memory) :
    (finalState (op.act s)).heap = heap ∧ (finalState (op.act s)).memory = memory := by
  cases op with
  | push pushes => exact h
  | request message =>
    rcases hmem : s.memory s.requests with _ | _
    · rw [act_request_not hmem]
      exact h
    · rw [act_request hmem]
      exact h
  | throw message => exact h

theorem act_heap {op : Op} (h : s.heap = heap) (hact : op.act s = .ok () s') : s'.heap = heap := by
  have hsame := act_same heap s.memory op s ⟨h, rfl⟩
  rw [hact] at hsame
  exact hsame.1

/-- With these tables it plays the script. -/
abbrev Visits (heap : Heap) (m : PackM Unit) (ops : List Op) : Prop :=
  Follows Op.act (fun s => s.heap = heap) m ops fun _ s => s.heap = heap

theorem visits_act (op : Op) : Visits heap op.act [op] :=
  .action fun _ _ hs hact => act_heap hs hact

theorem follows_getTable : Follows Op.act (fun s => s.heap = heap) (getTable id) []
    fun t s => t = heap id ∧ s.heap = heap := by
  intro s hs
  subst hs
  exact ⟨_, rfl, rfl, rfl⟩

variable {pack : Ref → PackM Unit} {ops : Ref → List Op} {arraySize : ℤ}

theorem wbTableArray_follows (hpack : ∀ v, Visits heap (pack v) (ops v)) :
    Follows Op.act (fun s => s.heap = heap) (wbTableArray pack id)
      (.push (wbArraySize (toSigned 32 (heap id).rawlen)) ::
        (List.range (toSigned 32 (heap id).rawlen).toNat).flatMap fun i =>
          ops ((heap id).rawgeti (i + 1)))
      fun a s => a = toSigned 32 (heap id).rawlen ∧ s.heap = heap := by
  unfold wbTableArray
  refine follows_getTable.bind fun t => .of_and fun ht => ?_
  subst ht
  refine (visits_act (.push _)).bind fun _ => (Follows.forM fun i _ => ?_).returns _
  exact follows_getTable.bind fun t => .of_and fun ht => ht ▸ hpack _

theorem wbTableHash_visits (hpack : ∀ v, Visits heap (pack v) (ops v)) :
    Visits heap (wbTableHash pack id arraySize)
      (((heap id).fields.flatMap fun p =>
        if inArray arraySize p.1 then [] else ops p.1 ++ ops p.2) ++ [.push wbNil]) := by
  unfold wbTableHash
  refine follows_getTable.bind fun t => .of_and fun ht => ?_
  subst ht
  refine Follows.bind (J := fun _ s => s.heap = heap) (.forM fun p _ => ?_) fun _ =>
    visits_act (.push _)
  by_cases harray : inArray arraySize p.1 = true
  · rw [if_pos harray, if_pos harray]
    exact fun s hs => ⟨(), rfl, hs⟩
  · rw [if_neg harray, if_neg harray]
    exact (hpack p.1).bind fun _ => hpack p.2

theorem packOne_visits (levels : ℕ) (v : Ref) :
    Visits heap (packOne levels v) (visit heap levels v) := by
  induction levels generalizing v with
  | zero =>
    cases v with
    | table id => exact visits_act (.throw _)
    | other typename => exact visits_act (.throw _)
    | _ => exact visits_act (.push _)
  | succ levels ih =>
    cases v with
    | table id =>
      unfold packOne visit
      exact (visits_act (.request _)).bind fun _ => (wbTableArray_follows ih).bind fun a =>
        .of_and fun ha => ha ▸ wbTableHash_visits ih
    | other typename => exact visits_act (.throw _)
    | _ => exact visits_act (.push _)

theorem packAll_visits (values : List Ref) : Visits heap (values.forM (packOne levels))
    (values.flatMap (visit heap levels)) := .forM fun v _ => packOne_visits levels v

end Follows

section Fits

/-- An error of its own. -/
def Op.Throws : Op → Prop
  | .throw _ => True
  | _ => False

/-- No error is raised but for want of memory. -/
def Fits (heap : Heap) (levels : ℕ) (v : Ref) : Prop := ∀ op ∈ visit heap levels v, ¬ op.Throws

variable {t : Table} {i : ℕ} {a : ℤ}

theorem rawgeti_mem (t : Table) (i : ℕ) :
    t.rawgeti i = .nil ∨ ∃ p ∈ t.fields, t.rawgeti i = p.2 := by
  unfold Table.rawgeti
  split
  · rename_i p hp
    exact .inr ⟨p, List.mem_of_find?_eq_some hp, rfl⟩
  · exact .inl rfl

/-- A key is found where it is. -/
theorem rawgeti_of_mem {p : Ref × Ref} (hp : p ∈ t.fields) (hkey : p.1 = .integer (Int64.ofNat i)) :
    t.rawgeti i = p.2 := by
  have hfind : t.fields.find? (fun p => p.1 = .integer (Int64.ofNat i)) = some p := by
    have hd := t.distinct
    generalize t.fields = fields at hp hd ⊢
    induction fields with
    | nil => cases hp
    | cons q fields ih =>
      obtain ⟨hq, htail⟩ := List.pairwise_cons.1 hd
      rcases List.mem_cons.1 hp with rfl | hp
      · exact List.find?_cons_of_pos (by simpa using hkey)
      · rw [List.find?_cons_of_neg (by simpa [← hkey] using hq p hp)]
        exact ih hp htail
  simp only [Table.rawgeti, hfind]

/-- What the hash part leaves out is in the array part. -/
theorem inArray_rawgeti {p : Ref × Ref} (hp : p ∈ t.fields) (h : inArray a p.1 = true) :
    ∃ i ∈ List.range a.toNat, p.2 = t.rawgeti (i + 1) ∧ ∃ x, p.1 = .integer x := by
  rcases hkey : p.1 with _ | _ | x | _ | _ | _ | _ | _ <;> rw [hkey] at h <;> try cases h
  simp only [inArray, Bool.and_eq_true, decide_eq_true_eq] at h
  have hx : Int64.ofNat (x.toInt.toNat - 1 + 1) = x := by
    have := x.toInt_lt
    rw [← Int64.toInt_inj, Int64.toInt_ofNat_of_lt (by omega)]
    omega
  refine ⟨x.toInt.toNat - 1, List.mem_range.2 (by omega), ?_, x, rfl⟩
  rw [rawgeti_of_mem hp (by rw [hkey, hx])]

/-- What is no table is one action. -/
theorem visit_scalar (htable : ∀ id, v ≠ .table id) (hplain : v.Plain) :
    ∃ op, visit heap levels v = [op] ∧ ¬ op.Throws := by
  cases v with
  | table id => exact absurd rfl (htable id)
  | other typename => exact hplain.elim
  | _ => cases levels <;> exact ⟨_, rfl, id⟩

theorem fits_scalar (htable : ∀ id, v ≠ .table id) (hplain : v.Plain) : Fits heap levels v := by
  obtain ⟨op, hvisit, hop⟩ := visit_scalar htable hplain
  rw [Fits, hvisit]
  exact List.forall_mem_singleton.2 hop

theorem fits_nil : Fits heap levels .nil := fits_scalar nofun trivial

theorem visit_table : visit heap (levels + 1) (.table id) =
    (.request "stack overflow (serialize: table too deep)" ::
      .push (wbArraySize (toSigned 32 (heap id).rawlen)) ::
      (List.range (toSigned 32 (heap id).rawlen).toNat).flatMap fun i =>
        visit heap levels ((heap id).rawgeti (i + 1)))
    ++ (((heap id).fields.flatMap fun p => if inArray (toSigned 32 (heap id).rawlen) p.1 then []
        else visit heap levels p.1 ++ visit heap levels p.2)
      ++ [.push wbNil]) := rfl

theorem fits_table : Fits heap (levels + 1) (.table id) ↔
    ∀ w, heap.Holds (.table id) w → Fits heap levels w := by
  constructor
  · rintro h w ⟨p, hp, hw⟩
    by_cases harray : inArray (toSigned 32 (heap id).rawlen) p.1 = true
    · obtain ⟨i, hi, hvalue, x, hx⟩ := inArray_rawgeti hp harray
      rcases hw with rfl | rfl
      · rw [hx]
        exact fits_scalar nofun trivial
      · refine fun op hop => h op ?_
        simp only [visit_table, List.mem_append, List.mem_cons, List.mem_flatMap]
        exact .inl (.inr (.inr ⟨i, hi, hvalue ▸ hop⟩))
    · refine fun op hop => h op ?_
      simp only [visit_table, List.mem_append, List.mem_cons, List.mem_flatMap]
      refine .inr (.inl ⟨p, hp, ?_⟩)
      rw [if_neg harray, List.mem_append]
      rcases hw with rfl | rfl
      · exact .inl hop
      · exact .inr hop
  · intro h op hop
    simp only [visit_table, List.mem_append, List.mem_cons, List.mem_flatMap, List.not_mem_nil,
      or_false] at hop
    rcases hop with (rfl | rfl | ⟨i, -, hop⟩) | ⟨p, hp, hop⟩ | rfl
    · exact not_false
    · exact not_false
    · rcases rawgeti_mem (heap id) (i + 1) with hnil | ⟨p, hp, hvalue⟩
      · exact fits_nil op (hnil ▸ hop)
      · exact h p.2 ⟨p, hp, .inr rfl⟩ op (hvalue ▸ hop)
    · split_ifs at hop
      · cases hop
      · rcases List.mem_append.1 hop with hop | hop
        · exact h p.1 ⟨p, hp, .inl rfl⟩ op hop
        · exact h p.2 ⟨p, hp, .inr rfl⟩ op hop
    · exact not_false

theorem not_fits_zero : ¬ Fits heap 0 (.table id) := fun h =>
  h (.throw _) (List.mem_singleton.2 rfl) trivial

theorem not_fits_other {typename : Bytes} : ¬ Fits heap levels (.other typename) := by
  intro h
  cases levels <;> exact h (.throw _) (List.mem_singleton.2 rfl) trivial

end Fits

section Domain

theorem Fits.plain (h : Fits heap levels v) : v.Plain := by
  cases v with
  | other typename => exact absurd h not_fits_other
  | _ => trivial

theorem Fits.holds (h : Fits heap levels v) (hw : heap.Holds v w) :
    ∃ n, levels = n + 1 ∧ Fits heap n w := by
  cases v with
  | table id =>
    cases levels with
    | zero => exact absurd h not_fits_zero
    | succ levels => exact ⟨levels, rfl, fits_table.1 h w hw⟩
  | _ => exact hw.elim

theorem Fits.reach (h : Fits heap levels v) (hw : Relation.ReflTransGen heap.Holds v w) :
    ∃ n, Fits heap n w := by
  induction hw with
  | refl => exact ⟨levels, h⟩
  | tail _ hw ih =>
    obtain ⟨n, hn⟩ := ih
    obtain ⟨m, -, hm⟩ := hn.holds hw
    exact ⟨m, hm⟩

theorem Fits.chain {chain : List Ref} (h : Fits heap levels v)
    (hchain : (v :: chain).IsChain heap.Holds) (htables : ∀ w ∈ v :: chain, ∃ id, w = .table id) :
    (v :: chain).length ≤ levels := by
  induction chain generalizing v levels with
  | nil =>
    obtain ⟨id, rfl⟩ := htables v List.mem_cons_self
    cases levels with
    | zero => exact absurd h not_fits_zero
    | succ levels => simp
  | cons w chain ih =>
    obtain ⟨hw, hrest⟩ := List.isChain_cons_cons.1 hchain
    obtain ⟨n, rfl, hn⟩ := h.holds hw
    have hlen := ih hn hrest fun x hx => htables x (List.mem_cons_of_mem _ hx)
    simpa using hlen

theorem fits_of_domain (hplain : ∀ w, Relation.ReflTransGen heap.Holds v w → w.Plain)
    (hdepth : ∀ chain, (v :: chain).IsChain heap.Holds →
      (∀ w ∈ v :: chain, ∃ id, w = .table id) → (v :: chain).length ≤ levels) :
    Fits heap levels v := by
  induction levels generalizing v with
  | zero =>
    refine fits_scalar (fun id hv => ?_) (hplain v .refl)
    have hlen := hdepth [] (.singleton v) fun w hw => ⟨id, by rw [List.mem_singleton.1 hw, hv]⟩
    exact absurd hlen (by simp)
  | succ levels ih =>
    by_cases htable : ∃ id, v = .table id
    · obtain ⟨id, rfl⟩ := htable
      refine fits_table.2 fun w hw => ih (fun x hx => hplain x (.head hw hx)) ?_
      intro chain hchain hall
      have hlen := hdepth (w :: chain) (List.isChain_cons_cons.2 ⟨hw, hchain⟩)
        (List.forall_mem_cons.2 ⟨⟨id, rfl⟩, hall⟩)
      simpa using hlen
    · exact fits_scalar (fun id hv => htable ⟨id, hv⟩) (hplain v .refl)

theorem inDomain_iff : InDomain heap values ↔ ∀ v ∈ values, Fits heap 31 v := by
  constructor
  · exact fun h v hv => fits_of_domain (h.plain v hv) (h.depth v hv)
  · intro h
    refine ⟨fun v hv w hw => ?_, fun v hv chain hchain htables => (h v hv).chain hchain htables⟩
    obtain ⟨n, hn⟩ := (h v hv).reach hw
    exact hn.plain

end Domain

section Outcome

variable {ops : List Op}

/-- A script that is played to its end has no error. -/
theorem play_ok (h : play Op.act ops s = .ok () s') : ∀ op ∈ ops, ¬ op.Throws := by
  induction ops generalizing s with
  | nil => exact fun op hop => absurd hop List.not_mem_nil
  | cons op ops ih =>
    refine List.forall_mem_cons.2 ?_
    cases op with
    | push pushes =>
      rw [play_cons_ok (act_push pushes s)] at h
      exact ⟨not_false, ih h⟩
    | request message =>
      rcases hmem : s.memory s.requests with _ | _
      · rw [play_cons_error (act_request_not hmem)] at h
        cases h
      · rw [play_cons_ok (act_request hmem)] at h
        exact ⟨not_false, ih h⟩
    | throw message =>
      rw [play_cons_error (act_throw message s)] at h
      cases h

/-- An error is one of the script's, or memory was short. -/
theorem play_error (h : play Op.act ops s = .error e s') (hmet : s'.Met) :
    ∃ op ∈ ops, op.Throws := by
  induction ops generalizing s with
  | nil => cases h
  | cons op ops ih =>
    cases op with
    | push pushes =>
      rw [play_cons_ok (act_push pushes s)] at h
      obtain ⟨op, hop, hthrows⟩ := ih h
      exact ⟨op, List.mem_cons_of_mem _ hop, hthrows⟩
    | request message =>
      rcases hmem : s.memory s.requests with _ | _
      · rw [play_cons_error (act_request_not hmem)] at h
        cases h
        have hmem' := hmet s.requests (Nat.lt_succ_self _)
        exact absurd (hmem.symm.trans hmem') Bool.false_ne_true
      · rw [play_cons_ok (act_request hmem)] at h
        obtain ⟨op, hop, hthrows⟩ := ih h
        exact ⟨op, List.mem_cons_of_mem _ hop, hthrows⟩
    | throw message => exact ⟨.throw message, List.mem_cons_self, trivial⟩

theorem seri_eq (s : State) : seri s = (do
    request ("serialize: out of memory (" ++ toString (LuaSeri.seri s.wb).length ++ " bytes)")
    modify fun s' => { s' with buffer := some (LuaSeri.seri s.wb) }
    return LuaSeri.seri s.wb : PackM Bytes) s := rfl

theorem seri_met (h : s.memory s.requests = true) : seri s = .ok (LuaSeri.seri s.wb)
    { s with requests := s.requests + 1, buffer := some (LuaSeri.seri s.wb) } :=
  (seri_eq s).trans (bind_ok (act_request h))

theorem seri_not_met (h : s.memory s.requests = false) :
    ∃ e, seri s = .error e { s with requests := s.requests + 1 } :=
  ⟨_, (seri_eq s).trans (bind_error (act_request_not h))⟩

theorem luaseriPack_eq (values : List Ref) : luaseriPack values = (do
    values.forM (packOne 31)
    let buffer ← seri
    freeBlocks
    return buffer : PackM Bytes) := rfl

/-- `luaseri_pack`, in the state that a call finds. -/
theorem luaseriPack_cases (heap : Heap) (memory : ℕ → Bool) (values : List Ref) :
    (∃ e s, play Op.act (values.flatMap (visit heap 31)) { heap, memory } = .error e s ∧
      luaseriPack values { heap, memory } = .error e s) ∨
    ∃ s, play Op.act (values.flatMap (visit heap 31)) { heap, memory } = .ok () s ∧
      if s.memory s.requests = true then
        luaseriPack values { heap, memory } = .ok (LuaSeri.seri s.wb)
          { s with requests := s.requests + 1, wb := {}, buffer := some (LuaSeri.seri s.wb) }
      else ∃ e, luaseriPack values { heap, memory } =
        .error e { s with requests := s.requests + 1 } := by
  have hvisits : Visits heap (values.forM (packOne 31)) (values.flatMap (visit heap 31)) :=
    packAll_visits values
  rcases hplay : play Op.act (values.flatMap (visit heap 31)) { heap, memory } with
    ⟨⟨⟩, s⟩ | ⟨e, s⟩
  · refine .inr ⟨s, rfl, ?_⟩
    obtain ⟨⟨⟩, hok, -⟩ := hvisits.ok rfl hplay
    rw [luaseriPack_eq, bind_ok hok]
    split_ifs with hmem
    · exact bind_ok (seri_met hmem)
    · obtain ⟨e, hseri⟩ := seri_not_met (Bool.eq_false_of_not_eq_true hmem)
      exact ⟨e, bind_error hseri⟩
  · exact .inl ⟨e, s, rfl, bind_error (hvisits.error rfl hplay)⟩

/-- No action changes the tables. -/
theorem play_heap (ops : List Op) : (finalState (play Op.act ops s)).heap = s.heap :=
  (play_keeps (act_same s.heap s.memory) ⟨rfl, rfl⟩ ops).1

end Outcome

end LuaPack

end SkynetCpp
