import SkynetCpp.MongoCursor

/-!
# What a cursor leaves out

Nothing is lost: what was returned, the rest of the batch and the batches to come are all documents
in order. A reply to `getMore` that has no documents makes `hasNext` say false, whatever its id is;
so a cursor is complete if the server sends no such reply before the last.
-/

namespace SkynetCpp

open Lib

namespace Mongo

namespace State

variable {α : Type} {all : List (Reply α)} {s s' : State α} {b : Bool}

section Sound

/-- What `all` came to so far. -/
structure Sound (all : List (Reply α)) (s : State α) : Prop where
  content : s.taken ++ (s.batch.drop s.batchIdx ++ s.replies.flatMap Reply.documents)
    = all.flatMap Reply.documents
  idx_le : s.batchIdx ≤ s.batch.length
  fresh : s.started = false → s.replies = all ∧ s.batch = []
  served : s.started = true →
    s.cursorId = 0 ∧ s.replies = [] ∨ s.cursorId ≠ 0 ∧ Served s.replies
  suffix : s.started = true → s.replies <:+ all.tail

theorem sound_find (all : List (Reply α)) : Sound all (find all) where
  content := rfl
  idx_le := le_rfl
  fresh := fun _ => ⟨rfl, rfl⟩
  served := nofun
  suffix := nofun

/-- What is left after a reply. -/
theorem served_tail {r : Reply α} {replies : List (Reply α)} (h : Served (r :: replies)) :
    r.cursorId = 0 ∧ replies = [] ∨ r.cursorId ≠ 0 ∧ Served replies := by
  cases replies with
  | nil => exact .inl ⟨h, rfl⟩
  | cons r' replies => exact .inr h

theorem ne_nil_of_served {replies : List (Reply α)} (h : Served replies) : replies ≠ [] := by
  rintro rfl
  exact h

end Sound

section HasNext

theorem Sound.finish (h : Sound all s) : Sound all { s with finished := true } :=
  ⟨h.content, h.idx_le, h.fresh, h.served, h.suffix⟩

/-- The next reply comes when the batch is used up. -/
theorem Sound.fill {r : Reply α} {replies : List (Reply α)} (h : Sound all s)
    (commands : List Command) (hs : Served all) (hr : s.replies = r :: replies)
    (hdone : s.batch.drop s.batchIdx = []) :
    Sound all (({ s with started := true, replies, commands } : State α).fill r) := by
  have hcontent := h.content
  rw [hdone, hr, List.flatMap_cons, List.nil_append] at hcontent
  refine ⟨hcontent, Nat.zero_le _, nofun, fun _ => ?_, fun _ => ?_⟩
  · cases hstarted : s.started with
    | false =>
      rw [← (h.fresh hstarted).1, hr] at hs
      exact served_tail hs
    | true =>
      rcases h.served hstarted with ⟨-, hnil⟩ | ⟨-, hserved⟩
      · rw [hr] at hnil
        cases hnil
      · exact served_tail (hr ▸ hserved)
  · cases hstarted : s.started with
    | false => exact ⟨[], by rw [← (h.fresh hstarted).1, hr]; rfl⟩
    | true =>
      have hsuffix := h.suffix hstarted
      rw [hr] at hsuffix
      exact (List.suffix_cons r replies).trans hsuffix

theorem cursorStart_spec (h : Sound all s) (hs : Served all) :
    ∃ s', s.cursorStart = some s' ∧ Sound all s' ∧ s'.started = true ∧ s'.taken = s.taken := by
  cases hstarted : s.started with
  | true => exact ⟨s, if_pos hstarted, h, hstarted, rfl⟩
  | false =>
    obtain ⟨hreplies, hbatch⟩ := h.fresh hstarted
    obtain ⟨r, replies, hr⟩ := List.exists_cons_of_ne_nil (ne_nil_of_served hs)
    have hfill := h.fill (s.commands ++ [.find]) hs (hreplies.trans hr)
      (by rw [hbatch, List.drop_nil])
    refine ⟨_, ?_, hfill, rfl, rfl⟩
    simp [cursorStart, hstarted, runCommand, hreplies, hr, State.fill]

theorem hasNext_of_started (h : s.started = true) : s.hasNext
    = if s.batchIdx < s.batch.length then some (true, s)
      else if s.cursorId = 0 then some (false, { s with finished := true })
      else (s.runCommand (.getMore s.cursorId)).bind fun (r, s) =>
        if (s.fill r).batch.length = 0 then some (false, { s.fill r with finished := true })
        else some (true, s.fill r) := by
  simp [hasNext, cursorStart, h]

theorem hasNext_of_cursorStart (h : s.cursorStart = some s') (hstarted : s'.started = true) :
    s.hasNext = s'.hasNext := by
  rw [hasNext, h, hasNext, cursorStart, if_pos hstarted]

/-- The cursor after `getMore`. -/
def fetched (s : State α) (r : Reply α) (replies : List (Reply α)) : State α :=
  ({ s with replies, commands := s.commands ++ [.getMore s.cursorId] } : State α).fill r

theorem hasNext_fetch {r : Reply α} {replies : List (Reply α)} (hstarted : s.started = true)
    (hidx : ¬ s.batchIdx < s.batch.length) (hid : s.cursorId ≠ 0) (hr : s.replies = r :: replies) :
    s.hasNext = if r.documents.length = 0 then
        some (false, { s.fetched r replies with finished := true })
      else some (true, s.fetched r replies) := by
  rw [hasNext_of_started hstarted, if_neg hidx, if_neg hid, runCommand, hr, Option.bind_some]
  rfl

theorem Sound.fetched {r : Reply α} {replies : List (Reply α)} (h : Sound all s)
    (hs : Served all) (hstarted : s.started = true) (hr : s.replies = r :: replies)
    (hdone : s.batch.drop s.batchIdx = []) : Sound all (s.fetched r replies) := by
  have hfill := h.fill (s.commands ++ [.getMore s.cursorId]) hs hr hdone
  rwa [← hstarted] at hfill

/-- What `hasNext` says is whether there is a document in the batch that is there then. It says
false at the end, or for a batch without documents. -/
theorem hasNext_spec (h : Sound all s) (hs : Served all) :
    ∃ b s', s.hasNext = some (b, s') ∧ Sound all s' ∧ s'.started = true ∧ s'.taken = s.taken
      ∧ (b = true → s'.batchIdx < s'.batch.length)
      ∧ (b = false → s'.batch.drop s'.batchIdx = [] ∧ (NoEmptyBatch all → s'.cursorId = 0)) := by
  obtain ⟨t, hstart, ht, hstarted, htaken⟩ := cursorStart_spec h hs
  rw [hasNext_of_cursorStart hstart hstarted, ← htaken]
  by_cases hidx : t.batchIdx < t.batch.length
  · rw [hasNext_of_started hstarted, if_pos hidx]
    exact ⟨true, t, rfl, ht, hstarted, rfl, fun _ => hidx, nofun⟩
  have hdone : t.batch.drop t.batchIdx = [] := List.drop_eq_nil_of_le (not_lt.1 hidx)
  by_cases hid : t.cursorId = 0
  · rw [hasNext_of_started hstarted, if_neg hidx, if_pos hid]
    exact ⟨false, _, rfl, ht.finish, hstarted, rfl, nofun, fun _ => ⟨hdone, fun _ => hid⟩⟩
  obtain ⟨-, hserved⟩ := (ht.served hstarted).resolve_left fun hend => hid hend.1
  obtain ⟨r, replies, hr⟩ := List.exists_cons_of_ne_nil (ne_nil_of_served hserved)
  have hfill := ht.fetched hs hstarted hr hdone
  rw [hasNext_fetch hstarted hidx hid hr]
  by_cases hempty : r.documents.length = 0
  · refine ⟨false, _, if_pos hempty, hfill.finish, hstarted, rfl, nofun, fun _ => ⟨?_, fun hno => ?_⟩⟩
    · exact List.drop_eq_nil_of_le (le_of_eq_of_le hempty (Nat.zero_le _))
    · refine hno r ((ht.suffix hstarted).mem ?_) (List.eq_nil_of_length_eq_zero hempty)
      rw [hr]
      exact List.mem_cons_self
  · exact ⟨true, _, if_neg hempty, hfill, hstarted, rfl, fun _ => Nat.pos_of_ne_zero hempty, nofun⟩

/-- At the end everything was returned. -/
theorem Sound.taken_eq (h : Sound all s) (hstarted : s.started = true) (hid : s.cursorId = 0)
    (hdone : s.batch.drop s.batchIdx = []) : s.taken = all.flatMap Reply.documents := by
  have hcontent := h.content
  obtain ⟨-, hnil⟩ := (h.served hstarted).resolve_right fun hmore => hmore.1 hid
  rwa [hdone, hnil, List.flatMap_nil, List.append_nil, List.append_nil] at hcontent

end HasNext

section Next

theorem next_of_hasNext (h : s.hasNext = some (b, s')) : s.next
    = if b then
        some (s'.batch[s'.batchIdx]?, { s' with
          batchIdx := s'.batchIdx + 1, taken := s'.taken ++ s'.batch[s'.batchIdx]?.toList })
      else some (none, s') := by
  rw [next, h]
  rfl

theorem Sound.take (h : Sound all s) (hidx : s.batchIdx < s.batch.length) : Sound all { s with
    batchIdx := s.batchIdx + 1, taken := s.taken ++ s.batch[s.batchIdx]?.toList } := by
  refine ⟨?_, hidx, h.fresh, h.served, h.suffix⟩
  have hcontent := h.content
  rw [List.drop_eq_getElem_cons hidx] at hcontent
  simpa only [List.getElem?_eq_getElem hidx, Option.toList_some, List.append_assoc,
    List.singleton_append, List.cons_append, List.nil_append] using hcontent

theorem hasNext_of_lt (h : s.started = true) (hidx : s.batchIdx < s.batch.length) :
    s.hasNext = some (true, s) := by
  rw [hasNext_of_started h, if_pos hidx]

theorem sound_of_reachable (hs : Served all) (h : Reachable step (find all) s) : Sound all s := by
  refine h.invariant (sound_find all) fun s l s' _ hsound _ hstep => ?_
  obtain ⟨b, t, ht, htsound, -, -, hidx, -⟩ := hasNext_spec hsound hs
  cases l with
  | hasNext =>
    simp only [step, ht, Option.map_some, Option.some.injEq] at hstep
    exact hstep ▸ htsound
  | next =>
    rw [step, next_of_hasNext ht] at hstep
    cases b with
    | true =>
      simp only [if_true, Option.map_some, Option.some.injEq] at hstep
      exact hstep ▸ htsound.take (hidx rfl)
    | false =>
      simp only [Bool.false_eq_true, if_false, Option.map_some, Option.some.injEq] at hstep
      exact hstep ▸ htsound

end Next

section Enough

/-- As many rounds as there are documents left, and one that finds the end. -/
theorem toArrayLoop_spec (hs : Served all) (hno : NoEmptyBatch all) (n : ℕ) (result : List α)
    (h : Sound all s) (hn : (all.flatMap Reply.documents).length < s.taken.length + n) :
    ∃ rest s', toArrayLoop n result s = .done (result ++ rest, s')
      ∧ s.taken ++ rest = all.flatMap Reply.documents := by
  induction n generalizing s result with
  | zero =>
    rw [← h.content, List.length_append] at hn
    omega
  | succ n ih =>
    obtain ⟨b, t, ht, htsound, hstarted, htaken, hidx, hend⟩ := hasNext_spec h hs
    cases b with
    | false =>
      obtain ⟨hdone, hid⟩ := hend rfl
      refine ⟨[], t, ?_, ?_⟩
      · simp [toArrayLoop, ht, Outcome.of]
      · rw [List.append_nil, ← htaken, htsound.taken_eq hstarted (hid hno) hdone]
    | true =>
      have hlt := hidx rfl
      have hnext := next_of_hasNext (hasNext_of_lt hstarted hlt)
      obtain ⟨rest, s', hloop, hrest⟩ := ih (result ++ t.batch[t.batchIdx]?.toList)
        (htsound.take hlt) (by
          simp only [List.getElem?_eq_getElem hlt, Option.toList_some, List.length_append,
            List.length_singleton, htaken]
          omega)
      refine ⟨t.batch[t.batchIdx]?.toList ++ rest, s', ?_, ?_⟩
      · rw [toArrayLoop, ht, ← List.append_assoc, ← hloop]
        simp [hnext, Outcome.of]
      · rw [← hrest, htaken, List.append_assoc]

theorem complete_of_noEmptyBatch (hs : Served all) (hno : NoEmptyBatch all) : Complete all := by
  intro s h
  have hsound := sound_of_reachable hs h
  obtain ⟨b, t, ht, htsound, hstarted, htaken, hidx, hend⟩ := hasNext_spec hsound hs
  have hfalse : b = false →
      t.cursorId = 0 ∧ t.taken = all.flatMap Reply.documents := fun hb => by
    obtain ⟨hdone, hid⟩ := hend hb
    exact ⟨hid hno, htsound.taken_eq hstarted (hid hno) hdone⟩
  refine ⟨?_, fun s' hs' => ?_, fun s' hs' => ?_⟩
  · obtain ⟨rest, s', hloop, hrest⟩ := toArrayLoop_spec hs hno
      ((all.flatMap Reply.documents).length + 1) [] hsound (by omega)
    exact ⟨_, rest, s', hloop, hrest⟩
  · rw [ht] at hs'
    cases hs'
    exact hfalse rfl
  · rw [next_of_hasNext ht] at hs'
    cases b with
    | true => simp [hidx rfl] at hs'
    | false =>
      cases hs'
      exact hfalse rfl

/-- What `hasNext` finds in a state of a run, where the run may have to start the cursor. -/
def Met (all : List (Reply α)) (t : State α) : Prop :=
  ∃ s, Reachable step (find all) s ∧ s.hasNext = t.hasNext

theorem met_of_reachable (h : Reachable step (find all) s) : Met all s := ⟨s, h, rfl⟩

/-- The documents of the batch are taken. -/
theorem Met.drain {n : ℕ} (h : Met all s) (hsound : Sound all s) (hstarted : s.started = true)
    (hn : s.batch.length = s.batchIdx + n) : ∃ t, Met all t ∧ Sound all t ∧ t.started = true
      ∧ t.batchIdx = t.batch.length ∧ t.replies = s.replies := by
  induction n generalizing s with
  | zero => exact ⟨s, h, hsound, hstarted, hn.symm, rfl⟩
  | succ n ih =>
    have hlt : s.batchIdx < s.batch.length := by omega
    obtain ⟨r, hr, hsame⟩ := h
    have hnext := next_of_hasNext (hsame.trans (hasNext_of_lt hstarted hlt))
    have hreach := hr.tail (l := .next) trivial (by rw [step, hnext]; rfl)
    exact ih (s := { s with
      batchIdx := s.batchIdx + 1, taken := s.taken ++ s.batch[s.batchIdx]?.toList })
      (met_of_reachable hreach) (hsound.take hlt) hstarted
      (by rw [hn, Nat.add_assoc, Nat.add_comm 1])

theorem noEmptyBatch_from (hs : Served all) (hc : Complete all) (replies : List (Reply α))
    (h : Met all s) (hsound : Sound all s) (hstarted : s.started = true)
    (hreplies : s.replies = replies) : ∀ r ∈ replies, r.documents = [] → r.cursorId = 0 := by
  induction replies generalizing s with
  | nil => exact fun r hr => absurd hr List.not_mem_nil
  | cons r replies ih =>
    obtain ⟨n, hn⟩ := Nat.exists_eq_add_of_le hsound.idx_le
    obtain ⟨t, ⟨u, hu, hsame⟩, htsound, htstarted, hidx, hrep⟩ := h.drain hsound hstarted hn
    have hrep := hrep.trans hreplies
    obtain ⟨hid, -⟩ := (htsound.served htstarted).resolve_left fun hend => by
      rw [hrep] at hend
      cases hend.2
    have hfill := htsound.fetched hs htstarted hrep (List.drop_eq_nil_of_le hidx.ge)
    rw [hasNext_fetch htstarted hidx.not_lt hid hrep] at hsame
    have hhead : r.documents = [] → r.cursorId = 0 := fun hempty => by
      rw [if_pos (List.length_eq_zero_iff.2 hempty)] at hsame
      exact ((hc u hu).2.1 _ hsame).1
    refine List.forall_mem_cons.2 ⟨hhead, ?_⟩
    by_cases hempty : r.documents.length = 0
    · rcases hfill.served htstarted with ⟨-, hnil⟩ | ⟨hne, -⟩
      · intro r' hr'
        rw [show replies = [] from hnil] at hr'
        exact absurd hr' List.not_mem_nil
      · exact absurd (hhead (List.eq_nil_of_length_eq_zero hempty)) hne
    · rw [if_neg hempty] at hsame
      have hreach := hu.tail (l := .hasNext) trivial (by rw [step, hsame]; rfl)
      exact ih (met_of_reachable hreach) hfill htstarted rfl

theorem noEmptyBatch_of_complete (hs : Served all) (hc : Complete all) : NoEmptyBatch all := by
  obtain ⟨r, replies, rfl⟩ := List.exists_cons_of_ne_nil (ne_nil_of_served hs)
  have hfill := (sound_find (r :: replies)).fill [.find] hs rfl rfl
  refine noEmptyBatch_from hs hc replies ⟨_, .refl, ?_⟩ hfill rfl rfl
  exact hasNext_of_cursorStart rfl rfl

/-- A cursor is complete if and only if the server sends no batch without documents, the first one
and the last one apart. -/
theorem complete_iff_noEmptyBatch (hs : Served all) : Complete all ↔ NoEmptyBatch all :=
  ⟨noEmptyBatch_of_complete hs, complete_of_noEmptyBatch hs⟩

/-- The first batch and the last one are empty. -/
def paged : List (Reply ℕ) :=
  [some ⟨some [], some 7⟩, some ⟨some [1, 2], some 7⟩, some ⟨some [3], some 7⟩, some ⟨some [], none⟩]

theorem complete_paged : Complete paged :=
  (complete_iff_noEmptyBatch (by decide)).2 (by simp [NoEmptyBatch, paged, Reply.documents,
    Reply.cursorId])

/-- A batch between two others is empty. -/
def gap : List (Reply ℕ) :=
  [some ⟨some [1], some 7⟩, some ⟨some [], some 7⟩, some ⟨some [2], some 0⟩]

/-- `hasNext` says false when the id is 7. -/
theorem not_complete_gap : Served gap ∧ ¬ Complete gap := by
  refine ⟨by decide, fun hc => ?_⟩
  have hend := (hc (after step (find gap) [.next]) (reachable_after (by decide))).2.1 _ rfl
  exact absurd hend.1 (by decide)

end Enough

end State

end Mongo

end SkynetCpp
