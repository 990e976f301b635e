import SkynetCpp.Proofs.LuaSeri
import SkynetCpp.SeriBlocks

/-!
# The blocks hold what was pushed

The memory of a `WriteBlock` is laid out as the blocks of the abstract one, one behind the other
(`layout`): those that are full, then the current one, of which the part behind the write position
is not looked at. A round of `push` takes a layout to the layout of one more round on the abstract
blocks, and `seri` copies a layout's blocks from the first to the write position.
-/

namespace SkynetCpp

open Lib

namespace SeriBlocks

open LuaSeri (BLOCK_SIZE)

theorem memcpy_length (a rest src : Bytes) :
    memcpy (a ++ rest) a.length src = a ++ src ++ rest.drop src.length := by
  simp [memcpy, List.drop_append]

theorem modify_length {α : Type} (l r : List α) (x : α) (f : α → α) :
    (l ++ x :: r).modify l.length f = l ++ f x :: r := by
  induction l with
  | nil => simp
  | cons y l ih => simp [ih]

/-- Full blocks, each linked to the one behind it. -/
def linked (full : List Bytes) : List Block :=
  full.mapIdx fun i data => { next := some (i + 1), buffer := data }

@[simp] theorem length_linked (full : List Bytes) : (linked full).length = full.length := by
  simp [linked]

theorem linked_append_singleton (full : List Bytes) (data : Bytes) :
    linked (full ++ [data])
      = linked full ++ [{ next := some (full.length + 1), buffer := data }] := by
  simp [linked]

/-- The blocks of `a`, with `rest` behind the write position. -/
def layout (a : LuaSeri.WriteBlock) (rest : Bytes) : WriteBlock :=
  { memory := linked a.full ++ [{ buffer := a.current ++ rest }]
    head := 0
    current := a.full.length
    len := (LuaSeri.seri a).length
    ptr := a.current.length }

/-- `wb` has the blocks of `a`, each of 128 bytes. -/
def Represents (wb : WriteBlock) (a : LuaSeri.WriteBlock) : Prop :=
  (∀ data ∈ a.full, data.length = BLOCK_SIZE)
    ∧ ∃ rest, a.current.length + rest.length = BLOCK_SIZE ∧ wb = layout a rest

theorem represents_init (temp : Raw BLOCK_SIZE) : Represents (.init temp) {} :=
  ⟨nofun, temp.1, by simp [temp.2], rfl⟩

section Push

variable {wb : WriteBlock} {a : LuaSeri.WriteBlock} (malloc : ℕ → Raw BLOCK_SIZE)

theorem represents_newBlock (h : Represents wb a) (hptr : BLOCK_SIZE - wb.ptr = 0) :
    Represents (wb.newBlock malloc) { full := a.full ++ [a.current] } := by
  obtain ⟨hfull, rest, hrest, rfl⟩ := h
  have hcur : BLOCK_SIZE ≤ a.current.length := Nat.sub_eq_zero_iff_le.1 hptr
  have hnil : rest = [] := List.length_eq_zero_iff.1 (by omega)
  subst hnil
  refine ⟨?_, (malloc (a.full.length + 1)).1, by simp [(malloc _).2], ?_⟩
  · intro data hdata
    rcases List.mem_append.1 hdata with hdata | hdata
    · exact hfull data hdata
    · rw [List.mem_singleton.1 hdata]
      simpa using hrest
  · have hmod := modify_length (linked a.full)
      [{ buffer := (malloc (a.full.length + 1)).1 }] { buffer := a.current }
      fun b => { b with next := some (a.full.length + 1) }
    rw [length_linked] at hmod
    simp only [WriteBlock.newBlock, layout, linked_append_singleton, List.append_nil,
      List.append_assoc, List.length_append, length_linked, List.length_singleton,
      List.singleton_append, hmod]
    simp [LuaSeri.seri]

theorem represents_extend (h : Represents wb a) :
    Represents (if BLOCK_SIZE - wb.ptr = 0 then wb.newBlock malloc else wb) a.extend := by
  have hptr : wb.ptr = a.current.length := by
    obtain ⟨-, rest, -, rfl⟩ := h
    rfl
  unfold LuaSeri.WriteBlock.extend
  rw [← hptr]
  split_ifs with h0
  · exact represents_newBlock malloc h h0
  · exact h

/-- What a round writes fits behind the write position. -/
theorem represents_write (h : Represents wb a) {piece : Bytes}
    (hfits : (a.current ++ piece).length ≤ BLOCK_SIZE) :
    Represents
      { wb with
        memory := wb.memory.modify wb.current fun b =>
          { b with buffer := memcpy b.buffer wb.ptr piece }
        ptr := wb.ptr + piece.length
        len := wb.len + piece.length }
      { a with current := a.current ++ piece, fits := hfits } := by
  obtain ⟨hfull, rest, hrest, rfl⟩ := h
  have hmod := modify_length (linked a.full) [] { buffer := a.current ++ rest }
    fun b => { b with buffer := memcpy b.buffer a.current.length piece }
  rw [length_linked] at hmod
  rw [List.length_append] at hfits
  refine ⟨hfull, rest.drop piece.length, ?_, ?_⟩
  · simp only [List.length_append, List.length_drop]
    omega
  · simp only [layout, hmod, memcpy_length, List.length_append, LuaSeri.seri, List.flatten_append,
      List.flatten_cons, List.flatten_nil, List.append_nil, Nat.add_assoc]

theorem represents_pushRound (h : Represents wb a) (src : Bytes) {copy : ℕ}
    (hcopy : copy = min src.length (BLOCK_SIZE - a.extend.current.length))
    (hfits : (a.extend.current ++ src.take copy).length ≤ BLOCK_SIZE) :
    Represents (wb.pushRound malloc src).1
        { a.extend with current := a.extend.current ++ src.take copy, fits := hfits }
      ∧ (wb.pushRound malloc src).2 = src.drop copy := by
  have hext := represents_extend malloc h
  have hptr : (if BLOCK_SIZE - wb.ptr = 0 then wb.newBlock malloc else wb).ptr
      = a.extend.current.length := by
    obtain ⟨-, rest, -, heq⟩ := hext
    rw [heq]
    rfl
  have hpiece : (src.take copy).length = copy := by
    rw [List.length_take]
    omega
  have hmin : (if src.length < BLOCK_SIZE - a.extend.current.length then src.length
      else BLOCK_SIZE - a.extend.current.length) = copy := by
    split_ifs <;> omega
  have hwrite := represents_write hext hfits
  rw [hpiece] at hwrite
  unfold WriteBlock.pushRound
  simp only [hptr, hmin]
  exact ⟨by rw [hptr] at hwrite; exact hwrite, trivial⟩

/-- So many rounds of `push` are as many on the abstract blocks, and what they copied is at the
end of the blocks. -/
theorem represents_pushLoop (n : ℕ) (h : Represents wb a) (src : Bytes) :
    Represents (wb.pushLoop malloc n src).1 (a.pushLoop n src)
      ∧ ∃ copied, src = copied ++ (wb.pushLoop malloc n src).2
        ∧ LuaSeri.seri (a.pushLoop n src) = LuaSeri.seri a ++ copied := by
  induction n generalizing wb a src with
  | zero => exact ⟨h, [], rfl, (List.append_nil _).symm⟩
  | succ n ih =>
    by_cases h0 : src.length = 0
    · rw [WriteBlock.pushLoop, LuaSeri.WriteBlock.pushLoop, if_neg (by omega), if_pos h0]
      exact ⟨h, [], rfl, (List.append_nil _).symm⟩
    · set copy := min src.length (BLOCK_SIZE - a.extend.current.length) with hcopy
      have hfits : (a.extend.current ++ src.take copy).length ≤ BLOCK_SIZE := by
        have := a.extend.fits
        rw [List.length_append, List.length_take]
        omega
      obtain ⟨hround, hleft⟩ := represents_pushRound malloc h src hcopy hfits
      obtain ⟨hrep, copied, hsrc, hseri⟩ := ih hround (src.drop copy)
      rw [WriteBlock.pushLoop, LuaSeri.WriteBlock.pushLoop, if_pos (by omega), if_neg h0]
      simp only [hleft]
      refine ⟨hrep, src.take copy ++ copied, ?_, ?_⟩
      · rw [List.append_assoc, ← hsrc, List.take_append_drop]
      · refine hseri.trans ?_
        rw [← LuaSeri.seri_extend a, ← List.append_assoc]
        simp [LuaSeri.seri]

theorem represents_push (h : Represents wb a) (data : Bytes) :
    Represents (wb.push malloc data) (a.push data) :=
  (represents_pushLoop malloc data.length h data).1

theorem represents_foldl_push (h : Represents wb a) (pushes : List Bytes) :
    Represents (pushes.foldl (WriteBlock.push malloc) wb)
      (pushes.foldl LuaSeri.WriteBlock.push a) := by
  induction pushes generalizing wb a with
  | nil => exact h
  | cons data pushes ih => exact ih (represents_push malloc h data)

end Push

section Walk

variable {a : LuaSeri.WriteBlock} {rest : Bytes}

theorem memory_full {i : ℕ} (hi : i < a.full.length) :
    (layout a rest).memory[i]? = some { next := some (i + 1), buffer := a.full[i] } := by
  rw [layout, List.getElem?_append_left (by simpa using hi)]
  simp [linked, hi]

theorem memory_current :
    (layout a rest).memory[a.full.length]? = some { buffer := a.current ++ rest } := by
  rw [layout, List.getElem?_append_right (by simp)]
  simp

theorem bufferAt_full {i : ℕ} (hi : i < a.full.length) :
    (layout a rest).bufferAt i = a.full[i] := by
  rw [WriteBlock.bufferAt, memory_full hi]
  rfl

theorem bufferAt_current : (layout a rest).bufferAt a.full.length = a.current ++ rest := by
  rw [WriteBlock.bufferAt, memory_current]
  rfl

/-- The walk along `next` comes to all blocks in the order of memory, and ends at the current. -/
theorem addresses_layout {n i : ℕ} (hi : i ≤ a.full.length) (hn : a.full.length < i + n) :
    (layout a rest).addresses n (some i) = List.range' i (a.full.length - i) ++ [a.full.length] := by
  induction n generalizing i with
  | zero => omega
  | succ n ih =>
    rcases hi.eq_or_lt with rfl | hi
    · rw [WriteBlock.addresses, memory_current, Nat.sub_self]
      cases n <;> rfl
    · rw [WriteBlock.addresses, memory_full hi]
      have hsub : a.full.length - i = a.full.length - (i + 1) + 1 := by omega
      rw [hsub, List.range'_succ, List.cons_append]
      exact congrArg (i :: ·) (ih hi (by omega))

@[simp] theorem layout_current : (layout a rest).current = a.full.length := rfl
@[simp] theorem layout_ptr : (layout a rest).ptr = a.current.length := rfl

theorem seriLoop_full {n i : ℕ} (hi : i < a.full.length) (hsize : a.full[i].length = BLOCK_SIZE)
    {written left : Bytes} (hleft : BLOCK_SIZE ≤ left.length) :
    seriLoop (layout a rest) (n + 1) (some i) written.length left.length (written ++ left)
      = seriLoop (layout a rest) n (some (i + 1)) (written ++ a.full[i]).length
          (left.drop BLOCK_SIZE).length (written ++ a.full[i] ++ left.drop BLOCK_SIZE) := by
  have hpos : 0 < BLOCK_SIZE := by decide
  have hcopy : (if left.length < BLOCK_SIZE then left.length else BLOCK_SIZE) = BLOCK_SIZE :=
    if_neg (by omega)
  rw [seriLoop, if_pos (by omega), memory_full hi, bufferAt_full hi, layout_current,
    if_neg hi.ne]
  simp only [hcopy, Option.bind_some]
  rw [List.take_of_length_le hsize.le, memcpy_length, hsize, List.length_append, hsize,
    List.length_drop]

theorem seriLoop_current {n : ℕ} {written left : Bytes} (hleft : left.length = a.current.length) :
    seriLoop (layout a rest) (n + 2) (some a.full.length) written.length left.length
      (written ++ left) = .done (written ++ a.current) := by
  rw [seriLoop, memory_current, bufferAt_current, layout_current, layout_ptr, if_pos rfl, hleft]
  split_ifs with h0
  · simp only [Nat.lt_irrefl, if_false, List.take_left', memcpy_length]
    rw [← hleft, List.drop_length, List.append_nil]
    rfl
  · have hcur : a.current = [] := List.length_eq_zero_iff.1 (by omega)
    have hnil : left = [] := List.length_eq_zero_iff.1 (by omega)
    rw [hcur, hnil]

/-- From the block `i` on, `seri` copies what the blocks from there on hold. -/
theorem seriLoop_layout (hfull : ∀ data ∈ a.full, data.length = BLOCK_SIZE) {n i : ℕ}
    (hi : i ≤ a.full.length) (hn : a.full.length + 1 < i + n) (written left : Bytes)
    (hleft : left.length = ((a.full ++ [a.current]).drop i).flatten.length) :
    seriLoop (layout a rest) n (some i) written.length left.length (written ++ left)
      = .done (written ++ ((a.full ++ [a.current]).drop i).flatten) := by
  induction n generalizing i written left with
  | zero => omega
  | succ n ih =>
    rcases hi.eq_or_lt with rfl | hi
    · have hlast : ((a.full ++ [a.current]).drop a.full.length).flatten = a.current := by simp
      rw [hlast] at hleft ⊢
      obtain ⟨n, rfl⟩ : ∃ k, n = k + 1 := ⟨n - 1, by omega⟩
      exact seriLoop_current hleft
    · have hdrop : ((a.full ++ [a.current]).drop i).flatten
          = a.full[i] ++ ((a.full ++ [a.current]).drop (i + 1)).flatten := by
        rw [List.drop_eq_getElem_cons (by simp; omega), List.flatten_cons,
          List.getElem_append_left hi]
      have hsize := hfull _ (List.getElem_mem hi)
      rw [hdrop, List.length_append, hsize] at hleft
      rw [seriLoop_full hi hsize (by omega), hdrop, ← List.append_assoc]
      exact ih hi (by omega) _ _ (by rw [List.length_drop, hleft, Nat.add_sub_cancel_left])

end Walk

section Transparent

/-- The blocks hold `content`, all of them but the current one to the last byte, and `seri` gives
it back in a buffer of its size, or raises where there is no memory for it. -/
structure WriteBlock.Transparent (wb : WriteBlock) (content : Bytes) : Prop where
  seri : ∀ (malloc : (n : ℕ) → Option (Raw n)) (rounds : ℕ), wb.memory.length < rounds →
    SeriBlocks.seri malloc rounds wb
      = if (malloc wb.len).isSome then .done (content, content.length) else .raised
  len : wb.len = content.length
  full : ∃ earlier, wb.blocks = earlier ++ [wb.current]
    ∧ (∀ b ∈ earlier, (wb.bufferAt b).length = BLOCK_SIZE)
    ∧ (earlier.map wb.bufferAt).flatten ++ (wb.bufferAt wb.current).take wb.ptr = content
  ptr : wb.ptr ≤ BLOCK_SIZE

variable {wb : WriteBlock} {a : LuaSeri.WriteBlock}

theorem Represents.seri (h : Represents wb a) (malloc : (n : ℕ) → Option (Raw n)) {rounds : ℕ}
    (hrounds : wb.memory.length < rounds) :
    SeriBlocks.seri malloc rounds wb
      = if (malloc wb.len).isSome then .done (LuaSeri.seri a, wb.len) else .raised := by
  obtain ⟨hfull, rest, -, rfl⟩ := h
  rw [SeriBlocks.seri]
  cases hm : malloc (layout a rest).len with
  | none => rfl
  | some buffer =>
    have hmem : (layout a rest).memory.length = a.full.length + 1 := by simp [layout]
    have hloop := @seriLoop_layout a rest hfull rounds 0 (Nat.zero_le _) (by omega) []
      buffer.1 buffer.2
    rw [buffer.2] at hloop
    exact congrArg (· >>= fun buffer => pure (buffer, (layout a rest).len)) hloop

theorem Represents.transparent (h : Represents wb a) : wb.Transparent (LuaSeri.seri a) := by
  have hseri := @h.seri
  obtain ⟨hfull, rest, hrest, rfl⟩ := h
  refine ⟨fun malloc rounds hrounds => hseri malloc hrounds, rfl, ?_, by simp; omega⟩
  refine ⟨List.range' 0 a.full.length, ?_, ?_, ?_⟩
  · exact addresses_layout (Nat.zero_le _) (by simp [layout])
  · intro b hb
    rw [bufferAt_full (by simpa using hb)]
    exact hfull _ (List.getElem_mem _)
  · have hmap : (List.range' 0 a.full.length).map (layout a rest).bufferAt = a.full := by
      refine List.ext_getElem (by simp) fun i h₁ h₂ => ?_
      simp [bufferAt_full h₂]
    rw [hmap, layout_current, layout_ptr, bufferAt_current, List.take_left' rfl]
    simp [LuaSeri.seri]

/-- `free_blocks` frees each block from `malloc` once, and only the first one is left. -/
theorem freeBlocks_represents (h : Represents wb a) :
    wb.freeBlocks.2 = List.range' 1 (wb.memory.length - 1) ∧ wb.freeBlocks.1.blocks = [wb.head] := by
  obtain ⟨-, rest, -, rfl⟩ := h
  have hlen : (layout a rest).memory.length = a.full.length + 1 := by simp [layout]
  have hhead : (layout a rest).head = 0 := rfl
  rw [WriteBlock.freeBlocks, hhead, hlen, Nat.add_sub_cancel]
  constructor
  · rcases Nat.eq_zero_or_pos a.full.length with h0 | hpos
    · have hcur := @memory_current a rest
      rw [h0] at hcur
      rw [hcur, h0]
      rfl
    · rw [memory_full hpos]
      refine (addresses_layout hpos (by omega)).trans ?_
      have hsucc : a.full.length = a.full.length - 1 + 1 := by omega
      conv_rhs => rw [hsucc, List.range'_concat]
      congr 2
      omega
  · have hnext : ((layout a rest).memory.modify 0 fun b => { b with next := none })[0]?.bind
        Block.next = none := by
      rw [List.getElem?_modify_eq]
      cases (layout a rest).memory[0]? <;> rfl
    rw [WriteBlock.blocks, List.length_modify, hlen]
    simp only [WriteBlock.addresses, hnext]
    cases a.full.length <;> rfl

/-- After any chunks the blocks hold them one behind the other. In the middle of a further `push`,
after any number of rounds and also before the next one's bytes are in its new block, they hold in
addition what was copied. -/
theorem push_transparent (malloc : ℕ → Raw BLOCK_SIZE) (temp : Raw BLOCK_SIZE) (chunks : List Bytes) :
    let wb := chunks.foldl (WriteBlock.push malloc) (.init temp)
    wb.Transparent chunks.flatten ∧ ∀ data n,
      let r := wb.pushLoop malloc n data
      ∃ copied, data = copied ++ r.2 ∧ r.1.Transparent (chunks.flatten ++ copied)
        ∧ (BLOCK_SIZE - r.1.ptr = 0 →
          (r.1.newBlock malloc).Transparent (chunks.flatten ++ copied)) := by
  intro wb
  have hrep := represents_foldl_push malloc (represents_init temp) chunks
  have hseri : LuaSeri.seri (chunks.foldl LuaSeri.WriteBlock.push {}) = chunks.flatten :=
    LuaSeri.seri_foldl_push chunks {}
  refine ⟨hseri ▸ hrep.transparent, fun data n => ?_⟩
  obtain ⟨hloop, copied, hdata, hcopied⟩ := represents_pushLoop malloc n hrep data
  rw [hseri] at hcopied
  refine ⟨copied, hdata, hcopied ▸ hloop.transparent, fun hptr => ?_⟩
  have hnew := (represents_newBlock malloc hloop hptr).transparent
  rw [← hcopied]
  convert hnew using 1
  simp [LuaSeri.seri]

end Transparent

end SeriBlocks

end SkynetCpp
