import SkynetCpp.LuaAlloc

/-!
# The counter of a Lua state's memory

`mem_` is the sum of the sizes of the blocks: on the two ways out that write it, the one block of
the call has changed by what was added and taken off. So the sum that is compared with the limit is
what the blocks would come to, unless that is more than a `size_t` holds, and then there is no such
block to give.
-/

namespace SkynetCpp

open Lib

namespace LuaAlloc

namespace State

variable {s : State} {ptr new : Option ℕ} {osize nsize : UInt64}

section Total

theorem total_filter {l : List Block} {p : ℕ} {n : UInt64} (hn : (l.map Block.ptr).Nodup)
    (h : ⟨p, n⟩ ∈ l) :
    ((l.filter fun b => some b.ptr ≠ some p).map fun b => b.size.toNat).sum + n.toNat
      = (l.map fun b => b.size.toNat).sum := by
  induction l with
  | nil => cases h
  | cons b l ih =>
    obtain ⟨hb, hn⟩ := List.nodup_cons.1 hn
    rcases List.mem_cons.1 h with rfl | h
    · have hall : (l.filter fun b => some b.ptr ≠ some p) = l := by
        refine List.filter_eq_self.2 fun b' hb' => ?_
        have hne : b'.ptr ≠ p := fun heq => hb (List.mem_map.2 ⟨b', hb', heq⟩)
        simpa using hne
      rw [List.filter_cons_of_neg (by simp), hall, List.map_cons, List.sum_cons, Nat.add_comm]
    · have hne : b.ptr ≠ p := fun heq => hb (List.mem_map.2 ⟨⟨p, n⟩, h, heq.symm⟩)
      rw [List.filter_cons_of_pos (by simpa using hne), List.map_cons, List.sum_cons, List.map_cons,
        List.sum_cons, Nat.add_assoc, ih hn h]

theorem free_none (s : State) : s.free none = s := by
  simp [free]

/-- The counter is exact, and the blocks are at different places. -/
structure Accounted (s : State) : Prop where
  nodup : (s.blocks.map Block.ptr).Nodup
  mem_eq : s.mem.toNat = s.total

/-- What is held at `ptr`. -/
def held (ptr : Option ℕ) (osize : UInt64) : ℕ := if ptr.isSome then osize.toNat else 0

theorem Accounted.total_free (h : Accounted s) (hp : s.Permits ptr osize) :
    (s.free ptr).total + held ptr osize = s.total := by
  cases ptr with
  | none => rw [free_none]; rfl
  | some p => exact total_filter h.nodup hp

theorem newTotal_eq : s.newTotal ptr osize nsize = s.total - held ptr osize + nsize.toNat := rfl

/-- What the code computes as `new_mem`. -/
def newMem (s : State) (ptr : Option ℕ) (osize nsize : UInt64) : UInt64 :=
  if ptr.isSome then s.mem + nsize - osize else s.mem + nsize

theorem Accounted.osize_le (h : Accounted s) (hp : s.Permits ptr osize) (hsome : ptr.isSome) :
    osize ≤ s.mem := by
  have hfree := h.total_free hp
  rw [held, if_pos hsome] at hfree
  rw [UInt64.le_iff_toNat_le, h.mem_eq]
  omega

theorem Accounted.toNat_newMem (h : Accounted s) (hp : s.Permits ptr osize)
    (hlt : s.newTotal ptr osize nsize < 2 ^ 64) :
    (s.newMem ptr osize nsize).toNat = s.newTotal ptr osize nsize := by
  have hmem := h.mem_eq
  have hfree := h.total_free hp
  rw [newTotal_eq] at hlt ⊢
  rw [newMem]
  by_cases hsome : ptr.isSome
  · rw [held, if_pos hsome] at hfree hlt ⊢
    rw [if_pos hsome, UInt64.toNat_sub, UInt64.toNat_add, hmem]
    have := osize.toNat_lt
    omega
  · rw [held, if_neg hsome] at hfree hlt ⊢
    rw [if_neg hsome, UInt64.toNat_add, hmem]
    omega

end Total

section Call

/-- The limit is in the way. -/
def Refused (s : State) (ptr : Option ℕ) (osize nsize : UInt64) : Prop :=
  (s.memLimit ≠ 0 ∧ s.memLimit < s.newMem ptr osize nsize) ∧ (ptr = none ∨ osize < nsize)

theorem luaAlloc_refused (h : s.Refused ptr osize nsize) :
    s.luaAlloc ptr osize nsize new = (none, s) :=
  if_pos h

theorem luaAlloc_zero (h : ¬ s.Refused ptr osize 0) :
    s.luaAlloc ptr osize 0 new = (none, { s.free ptr with mem := s.newMem ptr osize 0 }) :=
  (if_neg h).trans (if_pos rfl)

theorem luaAlloc_failed (h : nsize ≠ 0) : s.luaAlloc ptr osize nsize none = (none, s) := by
  by_cases hr : s.Refused ptr osize nsize
  · exact luaAlloc_refused hr
  · exact (if_neg hr).trans (if_neg h)

theorem luaAlloc_given {p : ℕ} (h : ¬ s.Refused ptr osize nsize) (hn : nsize ≠ 0) :
    s.luaAlloc ptr osize nsize (some p)
      = (some p, { s.realloc ptr nsize p with mem := s.newMem ptr osize nsize }.report) :=
  (if_neg h).trans (if_neg hn)

theorem not_refused_of_shrink (hsome : ptr.isSome) (hle : nsize ≤ osize) :
    ¬ s.Refused ptr osize nsize := by
  rintro ⟨-, rfl | hlt⟩
  · cases hsome
  · exact absurd hlt (UInt64.not_lt.2 hle)

/-- There is no block that the sum would not hold. -/
theorem Accounted.newTotal_lt {p : ℕ} (h : Accounted s) (hp : s.Permits ptr osize)
    (hg : s.Gives ptr nsize (some p)) : s.newTotal ptr osize nsize < 2 ^ 64 := by
  have hfree := h.total_free hp
  have hlt := hg.2
  have htotal : (s.realloc ptr nsize p).total = (s.free ptr).total + nsize.toNat := by
    simp [realloc, total]
  rw [newTotal_eq]
  omega

end Call

section Steps

theorem step_eq_some {s s' : State} {l : Label} :
    step s l = some s' ↔ Enabled s l ∧ exec s l = s' := by
  unfold step
  split_ifs with h <;> simp [h]

theorem Accounted.report (h : Accounted s) : Accounted s.report := by
  unfold State.report
  split_ifs
  · exact ⟨h.nodup, h.mem_eq⟩
  · exact h

theorem Accounted.luaAlloc (h : Accounted s) (hp : s.Permits ptr osize)
    (hg : s.Gives ptr nsize new) : Accounted (s.luaAlloc ptr osize nsize new).2 := by
  have hfree := h.total_free hp
  have hnodup : ((s.free ptr).blocks.map Block.ptr).Nodup :=
    h.nodup.sublist (List.filter_sublist.map _)
  by_cases hr : s.Refused ptr osize nsize
  · rw [luaAlloc_refused hr]
    exact h
  by_cases hn : nsize = 0
  · subst hn
    have hlt : s.newTotal ptr osize 0 < 2 ^ 64 := by
      have := h.mem_eq ▸ s.mem.toNat_lt
      rw [newTotal_eq, UInt64.toNat_zero]
      omega
    rw [luaAlloc_zero hr]
    refine ⟨hnodup, ?_⟩
    rw [h.toNat_newMem hp hlt, newTotal_eq, UInt64.toNat_zero]
    exact show s.total - held ptr osize + 0 = (s.free ptr).total by omega
  cases new with
  | none =>
    rw [luaAlloc_failed hn]
    exact h
  | some p =>
    rw [luaAlloc_given hr hn]
    refine Accounted.report ⟨?_, ?_⟩
    · have hcons := List.nodup_cons.2 ⟨hg.1, hnodup⟩
      have hadd := (List.perm_append_singleton p _).nodup_iff.2 hcons
      simpa [realloc] using hadd
    · rw [h.toNat_newMem hp (h.newTotal_lt hp hg), newTotal_eq]
      have htotal : (s.realloc ptr nsize p).total = (s.free ptr).total + nsize.toNat := by
        simp [realloc, total]
      exact show _ = (s.realloc ptr nsize p).total by omega

theorem accounted_of_reachable (h : Reachable step initial s) : Accounted s := by
  have h0 : Accounted initial := { nodup := List.nodup_nil, mem_eq := rfl }
  refine h.invariant h0 fun s l s' _ hs _ hstep => ?_
  obtain ⟨hen, rfl⟩ := step_eq_some.1 hstep
  cases l with
  | alloc ptr osize nsize new => exact hs.luaAlloc hen.1 hen.2
  | setMemLimit limit => exact ⟨hs.nodup, hs.mem_eq⟩

/-- `mem_` is the sum of the sizes of the blocks, and what is taken off it is in it. What would go
beyond the limit is refused and changes nothing; a free is done, and a block that does not grow is
what the C library gives for it. -/
theorem memory_accounted (h : Reachable step initial s) (hp : s.Permits ptr osize)
    (hg : s.Gives ptr nsize new) :
    s.mem.toNat = s.total ∧ (ptr.isSome → osize ≤ s.mem)
      ∧ (s.memLimit ≠ 0 → ptr = none ∨ osize < nsize → s.memLimit.toNat < s.newTotal ptr osize nsize →
        s.luaAlloc ptr osize nsize new = (none, s))
      ∧ (ptr.isSome → nsize = 0 →
        s.luaAlloc ptr osize nsize new = (none, { s.free ptr with mem := s.mem - osize }))
      ∧ (ptr.isSome → nsize ≠ 0 → nsize ≤ osize →
        (s.luaAlloc ptr osize nsize new).1 = new) := by
  have hacc := accounted_of_reachable h
  refine ⟨hacc.mem_eq, hacc.osize_le hp, fun hlimit hgrow hbeyond => ?_, fun hsome hn => ?_,
    fun hsome hn hle => ?_⟩
  · by_cases hlt : s.newTotal ptr osize nsize < 2 ^ 64
    · refine luaAlloc_refused ⟨⟨hlimit, ?_⟩, hgrow⟩
      rw [UInt64.lt_iff_toNat_lt, hacc.toNat_newMem hp hlt]
      exact hbeyond
    · have hn : nsize ≠ 0 := by
        rintro rfl
        have := hacc.mem_eq ▸ s.mem.toNat_lt
        rw [newTotal_eq, UInt64.toNat_zero] at hlt
        omega
      cases new with
      | none => exact luaAlloc_failed hn
      | some p => exact absurd (hacc.newTotal_lt hp hg) hlt
  · subst hn
    rw [luaAlloc_zero (not_refused_of_shrink hsome UInt64.zero_le), newMem, if_pos hsome,
      UInt64.add_zero]
  · cases new with
    | none => rw [luaAlloc_failed hn]
    | some p => rw [luaAlloc_given (not_refused_of_shrink hsome hle) hn]

/-- Two blocks, and a limit that they fill. -/
def fullRun : List Label :=
  [.alloc none 8 16 (some 1), .alloc none 4 24 (some 2), .setMemLimit 40]

def full : State := after step initial fullRun

/-- The first block would grow. -/
theorem memory_accounted_full :
    full.mem.toNat = full.total ∧ ((some 1).isSome → 16 ≤ full.mem)
      ∧ (full.memLimit ≠ 0 → some 1 = none ∨ (16 : UInt64) < 17 →
        full.memLimit.toNat < full.newTotal (some 1) 16 17 →
        full.luaAlloc (some 1) 16 17 (some 3) = (none, full))
      ∧ ((some 1).isSome → (17 : UInt64) = 0 →
        full.luaAlloc (some 1) 16 17 (some 3)
          = (none, { full.free (some 1) with mem := full.mem - 16 }))
      ∧ ((some 1).isSome → (17 : UInt64) ≠ 0 → (17 : UInt64) ≤ 16 →
        (full.luaAlloc (some 1) 16 17 (some 3)).1 = some 3) :=
  memory_accounted (reachable_after (by decide)) (by decide) (by decide)

end Steps

end State

end LuaAlloc

end SkynetCpp
