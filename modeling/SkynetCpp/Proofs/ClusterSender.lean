import SkynetCpp.ClusterSender
import SkynetCpp.Proofs.ClusterCodec
import SkynetCpp.Proofs.SocketChannel
import Mathlib.Tactic.SplitIfs

/-!
# Large cluster responses

A response of at most `MULTI_PART` bytes is one packet, and arrives. A larger one is accumulated
part by part, and `cluster.concat` then reads its parts through the slot of the stack that
`luaL_addlstring` takes for its box: the first part moves the buffer to a box, the pop frees it,
and the second part is added to what is no longer there (`arrives_iff`).
-/

namespace SkynetCpp

namespace LuaBuffer

open Cluster

theorem lconcat_number (sz : ℕ) (parts : List Part) :
    lconcat (.number sz :: parts) = (do
      let b ← concatLoop (.init [.value]) parts
      if b.bytes.length ≠ sz then .ok none
      else do
        let s ← b.pushresult
        .ok (some (s, sz))) :=
  rfl

theorem concat_number (sz : ℕ) (parts : List Part) :
    concat (.number sz :: parts) = if (leadingStrings parts).flatten.length ≠ sz then none
      else some ((leadingStrings parts).flatten, sz) :=
  rfl

section Small

/-- While everything fits the array of the buffer, no box is made. -/
theorem addlstring_fits {b : Buffer} {s : Bytes} (hb : b.boxed = false)
    (hs : s.length ≤ b.size - b.bytes.length) :
    b.addlstring s = .ok { b with bytes := b.bytes ++ s } := by
  unfold Buffer.addlstring
  by_cases h0 : s.length = 0
  · rw [if_pos h0, List.length_eq_zero_iff.1 h0, List.append_nil]
  · rw [if_neg h0, Buffer.prepbuffsize, if_pos hs]
    simp [bind, Except.bind, hb]

theorem concatLoop_fits {parts : List Part} {b : Buffer} (hb : b.boxed = false)
    (hs : (leadingStrings parts).flatten.length ≤ b.size - b.bytes.length) :
    concatLoop b parts
      = .ok { b with bytes := b.bytes ++ (leadingStrings parts).flatten } := by
  induction parts generalizing b with
  | nil => simp [concatLoop, leadingStrings]
  | cons p parts ih =>
    cases p with
    | number n => simp [concatLoop, leadingStrings]
    | string s =>
      simp only [leadingStrings, List.flatten_cons, List.length_append] at hs ⊢
      have hadd : (b.push .value).addlstring s
          = .ok { b.push .value with bytes := b.bytes ++ s } :=
        addlstring_fits hb (by show s.length ≤ b.size - b.bytes.length; omega)
      have hpop : Buffer.pop { b.push .value with bytes := b.bytes ++ s }
          = { b with bytes := b.bytes ++ s } := rfl
      unfold concatLoop
      rw [hadd]
      show concatLoop (Buffer.pop { b.push .value with bytes := b.bytes ++ s }) parts = _
      rw [hpop, ih (b := { b with bytes := b.bytes ++ s }) hb ?_]
      · simp only [List.append_assoc]
      · show (leadingStrings parts).flatten.length ≤ b.size - (b.bytes ++ s).length
        rw [List.length_append]
        omega

/-- On parts that fit the array, `lconcat` is `concat`. -/
theorem lconcat_fits {sz : ℕ} {parts : List Part}
    (hs : (leadingStrings parts).flatten.length ≤ LUAL_BUFFERSIZE) :
    lconcat (.number sz :: parts) = .ok (concat (.number sz :: parts)) := by
  rw [lconcat_number, concat_number, concatLoop_fits rfl hs]
  simp only [bind, Except.bind, Buffer.init, List.nil_append, Buffer.pushresult]
  split_ifs <;> simp_all

end Small

section Sound

theorem addlstring_bytes {b b' : Buffer} {s : Bytes} (h : b.addlstring s = .ok b') :
    b'.bytes = b.bytes ++ s := by
  unfold Buffer.addlstring at h
  by_cases h0 : s.length = 0
  · rw [if_pos h0] at h
    cases h
    rw [List.length_eq_zero_iff.1 h0, List.append_nil]
  · rw [if_neg h0] at h
    have hprep : ∀ b₁, b.prepbuffsize s.length = .ok b₁ → b₁.bytes = b.bytes := by
      intro b₁ h₁
      unfold Buffer.prepbuffsize at h₁
      split_ifs at h₁
      · cases h₁
        rfl
      · split at h₁ <;> cases h₁
        rfl
      · cases h₁
        rfl
    rcases hp : b.prepbuffsize s.length with f | b₁ <;> rw [hp] at h
    · cases h
    · simp only [bind, Except.bind] at h
      split_ifs at h
      cases h
      rw [← hprep b₁ hp]

theorem pop_bytes (b : Buffer) : b.pop.bytes = b.bytes := by
  unfold Buffer.pop
  split <;> rfl

theorem concatLoop_bytes {parts : List Part} {b b' : Buffer} (h : concatLoop b parts = .ok b') :
    b'.bytes = b.bytes ++ (leadingStrings parts).flatten := by
  induction parts generalizing b with
  | nil =>
    cases h
    simp [leadingStrings]
  | cons p parts ih =>
    cases p with
    | number n =>
      cases h
      simp [leadingStrings]
    | string s =>
      unfold concatLoop at h
      rcases hadd : (b.push .value).addlstring s with f | b₁ <;> rw [hadd] at h
      · cases h
      · have hbytes := addlstring_bytes hadd
        rw [ih h, pop_bytes, hbytes, leadingStrings, List.flatten_cons, List.append_assoc]
        rfl

theorem pushresult_bytes {b : Buffer} {s : Bytes} (h : b.pushresult = .ok s) : s = b.bytes := by
  unfold Buffer.pushresult at h
  by_cases hb : b.boxed
  · rw [if_pos hb] at h
    split at h
    · by_cases hl : b.live
      · rw [if_pos hl] at h
        cases h
        rfl
      · rw [if_neg hl] at h
        cases h
    · cases h
  · rw [if_neg hb] at h
    cases h
    rfl

/-- What `lconcat` returns, if it does, is what `concat` does. -/
theorem lconcat_sound {parts : List Part} {r : Option (Bytes × ℕ)} (h : lconcat parts = .ok r) :
    r = concat parts := by
  rcases parts with _ | ⟨⟨sz⟩ | ⟨s⟩, parts⟩
  · cases h
    rfl
  · rw [lconcat_number] at h
    rw [concat_number]
    rcases hloop : concatLoop (.init [.value]) parts with f | b <;> rw [hloop] at h
    · cases h
    · have hbytes := concatLoop_bytes hloop
      simp only [Buffer.init, List.nil_append] at hbytes
      simp only [bind, Except.bind] at h
      rw [← hbytes]
      split_ifs at h ⊢ with hsz
      · cases h
        rfl
      · rcases hpush : b.pushresult with f | s <;> rw [hpush] at h
        · cases h
        · cases h
          rw [pushresult_bytes hpush]
  · cases h
    rfl

end Sound

section Large

/-- A first part that outgrows the array leaves the buffer in a box that is freed. -/
theorem addlstring_outgrows (stack : List Slot) {s : Bytes} (hs : LUAL_BUFFERSIZE < s.length) :
    (((Buffer.init stack).push .value).addlstring s).map Buffer.pop
      = .ok { stack := .placeholder :: stack, bytes := s,
              size := max (LUAL_BUFFERSIZE + LUAL_BUFFERSIZE / 2) (s.length + 1),
              boxed := true, live := false } := by
  unfold Buffer.addlstring Buffer.prepbuffsize
  have h0 : ¬ s.length = 0 := by omega
  have hroom : ¬ s.length ≤ LUAL_BUFFERSIZE := by omega
  simp [Buffer.push, Buffer.init, h0, hroom, bind, Except.bind, Except.map, Buffer.pop,
    Buffer.newSize]

/-- What is added to a buffer whose box is freed, and is not on top, is a fault. -/
theorem addlstring_freed {b : Buffer} {s : Bytes} (hb : b.boxed = true) (hl : b.live = false)
    (h0 : s ≠ []) : ∃ f, (b.push .value).addlstring s = .error f := by
  have hlen : ¬ s.length = 0 := by rwa [List.length_eq_zero_iff]
  unfold Buffer.addlstring
  rw [if_neg hlen]
  unfold Buffer.prepbuffsize
  by_cases hroom : s.length ≤ (b.push .value).size - (b.push .value).bytes.length
  · rw [if_pos hroom]
    exact ⟨.freed, by simp [bind, Except.bind, Buffer.push, hb, hl]⟩
  · rw [if_neg hroom]
    exact ⟨.notBox, by simp [bind, Except.bind, Buffer.push, hb]⟩

/-- Two parts, of which the first outgrows the array, are already too many. -/
theorem lconcat_faults (sz : ℕ) {s s' : Bytes} (parts : List Part)
    (hs : LUAL_BUFFERSIZE < s.length) (hs' : s' ≠ []) :
    ∃ f, lconcat (.number sz :: .string s :: .string s' :: parts) = .error f := by
  have hfirst := addlstring_outgrows [.value] hs
  rcases hadd : ((Buffer.init [.value]).push .value).addlstring s with f | b <;>
    rw [hadd] at hfirst
  · cases hfirst
  · have hpop : b.pop = _ := Except.ok.inj hfirst
    obtain ⟨f, hf⟩ := addlstring_freed (b := b.pop) (by rw [hpop]) (by rw [hpop]) hs'
    refine ⟨f, ?_⟩
    rw [lconcat_number]
    unfold concatLoop
    rw [hadd]
    simp only [bind, Except.bind]
    unfold concatLoop
    rw [hf]
    rfl

end Large

end LuaBuffer

namespace ClusterSender

open Cluster SocketChannel

variable {ε : Type} {session : ℕ} {co : Coroutine}

section Accumulation

/-- The parts of a session so far, of a coroutine that waits for it. -/
structure Collecting (ch : Channel Part ε) (session : ℕ) (co : Coroutine) (acc : List Part) :
    Prop where
  waiter : ch.waiter session = some co
  only : ∀ session', ch.waiter session' = some co → session' = session
  data : ch.resultData co = if acc = [] then none else some (.parts acc)

/-- The result of a coroutine that no response is for any more. -/
structure Done (ch : Channel Part ε) (co : Coroutine) (ok : Bool) (data : ResultData Part ε) :
    Prop where
  noWaiter : ∀ session', ch.waiter session' ≠ some co
  result : ch.result co = some ok
  data : ch.resultData co = some data

theorem waits_collecting {ch : Channel Part ε} (h : Waits ch session co) :
    Collecting ch session co [] :=
  ⟨h.waiter, h.only, h.clean⟩

/-- The result of a session, of the parts before the last and the last. -/
def finalData (acc : List Part) (last : Part) : ResultData Part ε :=
  if acc = [] then .data last else .parts (acc ++ [last])

theorem partsOf_acc (acc : List Part) :
    Channel.partsOf (if acc = [] then none else some (.parts acc) : Option (ResultData Part ε))
      = if acc = [] then none else some acc := by
  split_ifs <;> rfl

/-- What no response of the session is, leaves the parts. -/
theorem Collecting.spares {ch : Channel Part ε} {acc : List Part} {e : Event}
    (h : Collecting ch session co acc) (he : e.Spares session co)
    (hr : responsesOf session [e] = []) : Collecting (handle ch e) session co acc := by
  rcases e with r | ⟨session', co'⟩ | co'
  · have hne : r.session ≠ session := by
      intro hs
      simp [responsesOf, hs] at hr
    have hw : ch.waiter (decoded r).session ≠ some co := fun hw => hne (h.only _ hw)
    obtain ⟨hd, -, -⟩ := Channel.respond_of_ne hw
    refine ⟨?_, fun session' hs => ?_, ?_⟩
    · show (ch.respond (decoded r)).1.waiter session = some co
      rw [Channel.waiter_respond, if_neg fun h => hne h.2.symm]
      exact h.waiter
    · have hs : (ch.respond (decoded r)).1.waiter session' = some co := hs
      rw [Channel.waiter_respond] at hs
      split_ifs at hs
      exact h.only _ hs
    · show (ch.respond (decoded r)).1.resultData co = _
      rw [hd]
      exact h.data
  · obtain ⟨hs', hco'⟩ := he
    refine ⟨?_, fun session'' hs => ?_, h.data⟩
    · show (ch.pushResponse session' co').waiter session = some co
      rw [Channel.waiter_pushResponse, if_neg hs'.symm]
      exact h.waiter
    · have hs : (ch.pushResponse session' co').waiter session'' = some co := hs
      rw [Channel.waiter_pushResponse] at hs
      split_ifs at hs
      · exact absurd (Option.some.inj hs) hco'
      · exact h.only _ hs
  · refine ⟨h.waiter, h.only, ?_⟩
    show Function.update ch.resultData co' none co = _
    rw [Function.update_of_ne (Ne.symm he)]
    exact h.data

theorem Collecting.part {ch : Channel Part ε} {acc : List Part} {r : Response}
    (h : Collecting ch session co acc) (hs : r.session = session) (hp : r.padding = true) :
    Collecting (handle ch (.response r)) session co (acc ++ [r.data]) := by
  have hw : ch.waiter (decoded r).session = some co := by
    show ch.waiter r.session = some co
    rw [hs]
    exact h.waiter
  obtain ⟨hd, -, -⟩ := Channel.respond_padding hw hp
  have hkeep : ∀ session', (handle ch (.response r)).waiter session' = ch.waiter session' := by
    intro session'
    show (ch.respond (decoded r)).1.waiter session' = _
    rw [Channel.waiter_respond, if_neg (by simp [decoded, hp])]
  refine ⟨by rw [hkeep]; exact h.waiter, fun session' hs' => h.only _ (by rwa [← hkeep]), ?_⟩
  show (ch.respond (decoded r)).1.resultData co = _
  have hne : acc ++ [r.data] ≠ [] := by simp
  rw [hd, h.data, partsOf_acc, if_neg hne]
  split_ifs with hacc
  · rw [hacc]
    rfl
  · rfl

theorem Collecting.last {ch : Channel Part ε} {acc : List Part} {r : Response}
    (h : Collecting ch session co acc) (hs : r.session = session) (hp : r.padding = false) :
    Done (handle ch (.response r)) co r.ok (finalData acc r.data) := by
  have hw : ch.waiter (decoded r).session = some co := by
    show ch.waiter r.session = some co
    rw [hs]
    exact h.waiter
  obtain ⟨hd, hok, -⟩ := Channel.respond_last hw hp
  refine ⟨fun session' hs' => ?_, hok, ?_⟩
  · have hs' : (ch.respond (decoded r)).1.waiter session' = some co := hs'
    rw [Channel.waiter_respond] at hs'
    split_ifs at hs' with hif
    exact hif ⟨hp, (h.only _ hs').trans hs.symm⟩
  · show (ch.respond (decoded r)).1.resultData co = _
    rw [hd, h.data, partsOf_acc]
    unfold finalData
    split_ifs <;> rfl

/-- The result stays until the coroutine takes it. -/
theorem Done.spares {ch : Channel Part ε} {ok : Bool} {data : ResultData Part ε} {e : Event}
    (h : Done ch co ok data) (he : e.Spares session co) : Done (handle ch e) co ok data := by
  rcases e with r | ⟨session', co'⟩ | co'
  · obtain ⟨hd, hok, -⟩ := Channel.respond_of_ne (h.noWaiter (decoded r).session)
    refine ⟨fun session' hs => ?_, hok.trans h.result, hd.trans h.data⟩
    have hs : (ch.respond (decoded r)).1.waiter session' = some co := hs
    rw [Channel.waiter_respond] at hs
    split_ifs at hs
    exact h.noWaiter _ hs
  · refine ⟨fun session'' hs => ?_, h.result, h.data⟩
    have hs : (ch.pushResponse session' co').waiter session'' = some co := hs
    rw [Channel.waiter_pushResponse] at hs
    split_ifs at hs
    · exact he.2 (Option.some.inj hs)
    · exact h.noWaiter _ hs
  · refine ⟨h.noWaiter, ?_, ?_⟩
    · show Function.update ch.result co' none co = _
      rw [Function.update_of_ne (Ne.symm he)]
      exact h.result
    · show Function.update ch.resultData co' none co = _
      rw [Function.update_of_ne (Ne.symm he)]
      exact h.data

theorem Done.handleAll {events : List Event} {ch : Channel Part ε} {ok : Bool}
    {data : ResultData Part ε} (h : Done ch co ok data)
    (he : ∀ e ∈ events, e.Spares session co) : Done (handleAll ch events) co ok data := by
  induction events generalizing ch with
  | nil => exact h
  | cons e events ih =>
    exact ih (h.spares (he e List.mem_cons_self)) fun e' h' => he e' (List.mem_cons_of_mem _ h')

theorem responsesOf_cons (session : ℕ) (e : Event) (events : List Event) :
    responsesOf session (e :: events) = responsesOf session [e] ++ responsesOf session events := by
  unfold responsesOf
  rw [← List.filterMap_append, List.singleton_append]

/-- An event is a response of the session, or nothing to it. -/
theorem responsesOf_single (session : ℕ) (e : Event) :
    responsesOf session [e] = []
      ∨ ∃ r, e = .response r ∧ r.session = session ∧ responsesOf session [e] = [r] := by
  rcases e with r | ⟨session', co'⟩ | co'
  · by_cases hs : r.session = session
    · exact .inr ⟨r, rfl, hs, by simp [responsesOf, hs]⟩
    · exact .inl (by simp [responsesOf, hs])
  · exact .inl rfl
  · exact .inl rfl

/-- The padded responses of a session, and the one that ends it, make up its result. -/
theorem Collecting.handleAll {events : List Event} {ch : Channel Part ε} {acc : List Part}
    (h : Collecting ch session co acc) (pads : List Response) (last : Response)
    (he : ∀ e ∈ events, e.Spares session co)
    (hr : responsesOf session events = pads ++ [last])
    (hp : ∀ r ∈ pads, r.padding = true) (hlast : last.padding = false) :
    Done (handleAll ch events) co last.ok
      (finalData (acc ++ pads.map Response.data) last.data) := by
  induction events generalizing ch pads acc with
  | nil => simp [responsesOf] at hr
  | cons e events ih =>
    have hrest : ∀ e ∈ events, e.Spares session co :=
      fun e' h' => he e' (List.mem_cons_of_mem _ h')
    rw [responsesOf_cons] at hr
    rcases responsesOf_single session e with hnil | ⟨r, rfl, hs, hone⟩
    · rw [hnil, List.nil_append] at hr
      exact ih (h.spares (he e List.mem_cons_self) hnil) _ hrest hr hp
    · rw [hone, List.singleton_append] at hr
      rcases pads with _ | ⟨p, pads⟩
      · rw [List.nil_append] at hr
        obtain ⟨rfl, -⟩ := List.cons.inj hr
        rw [List.map_nil, List.append_nil]
        exact (h.last hs hlast).handleAll hrest
      · rw [List.cons_append] at hr
        obtain ⟨rfl, htail⟩ := List.cons.inj hr
        have hpart := h.part hs (hp _ List.mem_cons_self)
        have := ih hpart _ hrest htail fun r' h' => hp r' (List.mem_cons_of_mem _ h')
        rwa [List.append_assoc] at this

/-- What the coroutine returns with. -/
theorem Done.requestResult {ch : Channel Part ε} {data : ResultData Part ε}
    (h : Done ch co true data) : requestResult ch co = .ok (some data) := by
  unfold ClusterSender.requestResult Channel.collect
  simp only [h.result, h.data, if_pos]

end Accumulation

section Arrival

/-- The parts that a large response is accumulated to. -/
def accumulated (msg : Bytes) : List Part :=
  .number msg.length :: (chunks (partCount msg.length) msg).map fun c => .string c.1

/-- All chunks but the last are padded. -/
theorem chunks_padding {msg : Bytes} (h : 0 < msg.length) :
    ∃ cs c, chunks (partCount msg.length) msg = cs ++ [c] ∧ (∀ c' ∈ cs, c'.2 = true)
      ∧ c.2 = false := by
  have hp := (splits_chunks h).padding
  rcases List.eq_nil_or_concat (chunks (partCount msg.length) msg) with hnil | ⟨cs, c, hcs⟩
  · rw [hnil] at hp
    simp at hp
  · rw [List.concat_eq_append] at hcs
    refine ⟨cs, c, hcs, ?_⟩
    rw [hcs, List.map_append, List.length_append, List.length_singleton, Nat.add_sub_cancel] at hp
    obtain ⟨hpads, hlast⟩ := List.append_inj hp (by simp)
    refine ⟨fun c' hc' => ?_, List.head_eq_of_cons_eq hlast⟩
    have hmem : c'.2 ∈ cs.map Prod.snd := List.mem_map_of_mem hc'
    rw [hpads] at hmem
    exact (List.mem_replicate.1 hmem).2

theorem responses_small {msg : Bytes} (h : msg.length ≤ MULTI_PART) :
    responses session true msg
      = [{ session, ok := true, data := .string msg, padding := false }] := by
  unfold responses
  rw [if_neg fun hl => absurd hl.2 (by omega), if_pos rfl]

theorem responses_large {msg : Bytes} (h : MULTI_PART < msg.length) :
    responses session true msg
      = { session, ok := true, data := .number msg.length, padding := true }
        :: (chunks (partCount msg.length) msg).map fun c =>
          { session, ok := true, data := .string c.1, padding := c.2 } := by
  unfold responses
  rw [if_pos ⟨rfl, h⟩]

theorem result_small {ch : Channel Part ε} {events : List Event} {msg : Bytes}
    (hch : Waits ch session co) (he : ∀ e ∈ events, e.Spares session co)
    (hr : responsesOf session events = responses session true msg)
    (hm : msg.length ≤ MULTI_PART) :
    requestResult (handleAll ch events) co = .ok (some (.data (.string msg))) := by
  rw [responses_small hm] at hr
  exact ((waits_collecting hch).handleAll [] _ he hr (by simp) rfl).requestResult

theorem result_large {ch : Channel Part ε} {events : List Event} {msg : Bytes}
    (hch : Waits ch session co) (he : ∀ e ∈ events, e.Spares session co)
    (hr : responsesOf session events = responses session true msg)
    (hm : MULTI_PART < msg.length) :
    requestResult (handleAll ch events) co = .ok (some (.parts (accumulated msg))) := by
  have h0 : 0 < msg.length := by omega
  obtain ⟨cs, c, hcs, hpads, hlast⟩ := chunks_padding h0
  have hdone := (waits_collecting hch).handleAll
    ({ session, ok := true, data := .number msg.length, padding := true }
      :: cs.map fun c => { session, ok := true, data := .string c.1, padding := c.2 })
    { session, ok := true, data := .string c.1, padding := c.2 } he
    (by rw [hr, responses_large hm, hcs, List.map_append, List.map_singleton, List.cons_append])
    (by
      intro r hr
      rcases List.mem_cons.1 hr with rfl | hr
      · rfl
      · obtain ⟨c', hc', rfl⟩ := List.mem_map.1 hr
        exact hpads c' hc')
    hlast
  rw [hdone.requestResult]
  unfold finalData accumulated
  simp [hcs]

/-- The first chunk of a large message fills its packet, and the second is not empty. -/
theorem chunks_large {msg : Bytes} (h : MULTI_PART < msg.length) :
    ∃ c c' cs, chunks (partCount msg.length) msg = c :: c' :: cs ∧ c.1.length = MULTI_PART
      ∧ c'.1 ≠ [] := by
  have hM : MULTI_PART = 0x8000 := rfl
  obtain ⟨n, hn⟩ : ∃ n, partCount msg.length = n + 2 := by
    refine ⟨(msg.length - 1) / MULTI_PART - 1, ?_⟩
    unfold partCount
    rw [hM] at h ⊢
    omega
  refine ⟨_, _, _, by rw [hn]; rfl, ?_, fun hnil => ?_⟩
  · rw [List.length_take, min_eq_right h.le]
    exact min_eq_left h.le
  · have hlen := congrArg List.length hnil
    simp only [List.length_take, List.length_drop, List.length_nil] at hlen
    rw [hM] at h hlen
    omega

theorem commandReq_parts (parts : List Part) :
    commandReq (ε := ε) (.ok (some (.parts parts))) = (do
      match ← LuaBuffer.lconcat parts with
      | some (msg, _) => pure (.ret msg)
      | none => pure (.ret [])) :=
  rfl

theorem commandReq_large {msg : Bytes} (h : MULTI_PART < msg.length) :
    ∃ f, commandReq (ε := ε) (.ok (some (.parts (accumulated msg)))) = .error f := by
  obtain ⟨c, c', cs, hcs, hfull, hne⟩ := chunks_large h
  have hsize : LuaBuffer.LUAL_BUFFERSIZE < c.1.length := by
    rw [hfull]
    decide
  obtain ⟨f, hf⟩ := LuaBuffer.lconcat_faults msg.length (cs.map fun c => .string c.1) hsize hne
  refine ⟨f, ?_⟩
  unfold accumulated
  rw [commandReq_parts, hcs, List.map_cons, List.map_cons, hf]
  rfl

/-- Parts that `concat` does not take are answered with an empty message, if at all. -/
theorem commandReq_inconsistent {parts : List Part} (h : concat parts = none) :
    commandReq (ε := ε) (.ok (some (.parts parts))) = .ok (.ret [])
      ∨ ∃ f, commandReq (ε := ε) (.ok (some (.parts parts))) = .error f := by
  rw [commandReq_parts]
  rcases hl : LuaBuffer.lconcat parts with f | r
  · exact .inr ⟨f, rfl⟩
  · rw [LuaBuffer.lconcat_sound hl, h]
    exact .inl rfl

/-- The packets of a response are read as its responses. -/
theorem reads_responses {msg : Bytes} (hs : session < 2 ^ 32) (hm : msg.length < 2 ^ 31) :
    (packresponse session true msg).map (fun p => Checked.unpackresponse (p.drop 2))
      = (responses session true msg).map (fun r => .ok (some r)) := by
  have hm : msg.length < 2 ^ 32 := by omega
  have hread := congrArg (List.map (Except.ok (ε := Fault)))
    (unpackresponse_packresponse hs true hm)
  rw [List.map_map, List.map_map] at hread
  exact (List.map_congr_left fun p _ => checked_unpackresponse _).trans hread

theorem responsesOf_eq {events : List Event} {msg : Bytes} (hs : session < 2 ^ 32)
    (hm : msg.length < 2 ^ 31)
    (h : (packresponse session true msg).map (fun p => Checked.unpackresponse (p.drop 2))
      = (responsesOf session events).map (fun r => .ok (some r))) :
    responsesOf session events = responses session true msg := by
  rw [reads_responses hs hm] at h
  refine List.map_injective_iff.2 (fun r r' hr => ?_) h.symm
  simpa using hr

/-- The channel with a single request. -/
def waiting (session : ℕ) : Channel Part ε := Channel.init.pushResponse session 0

theorem waiting_waits : Waits (waiting session : Channel Part ε) session 0 where
  waiter := by
    unfold waiting
    rw [Channel.waiter_pushResponse, if_pos rfl]
  only session' h := by
    unfold waiting at h
    rw [Channel.waiter_pushResponse] at h
    split_ifs at h with hs
    · exact hs
    · cases h
  clean := rfl

theorem responsesOf_responses (session : ℕ) (msg : Bytes) :
    responsesOf session ((responses session true msg).map .response)
      = responses session true msg := by
  have hall : ∀ r ∈ responses session true msg, r.session = session := by
    intro r hr
    rcases Nat.lt_or_ge MULTI_PART msg.length with h | h
    · rw [responses_large h] at hr
      rcases List.mem_cons.1 hr with rfl | hr
      · rfl
      · obtain ⟨c, -, rfl⟩ := List.mem_map.1 hr
        rfl
    · rw [responses_small h] at hr
      rw [List.mem_singleton.1 hr]
  unfold responsesOf
  rw [List.filterMap_map]
  refine (List.filterMap_congr fun r hr => ?_).trans List.filterMap_some
  simp [hall r hr]

theorem arrives_of_small {msg : Bytes} (hs : session < 2 ^ 32) (hm : msg.length ≤ MULTI_PART) :
    Arrives ε session msg := by
  have hM : MULTI_PART = 0x8000 := rfl
  intro ch co events hch he hread
  rw [result_small hch he (responsesOf_eq hs (by omega) hread) hm]
  rfl

theorem large_faults {msg : Bytes} (hs : session < 2 ^ 32) (hl : MULTI_PART < msg.length)
    (hm : msg.length < 2 ^ 31) : ¬ Arrives ε session msg := by
  intro harr
  have hresp := responsesOf_responses session msg
  have hspares : ∀ e ∈ (responses session true msg).map Event.response, e.Spares session 0 := by
    intro e he
    obtain ⟨r, -, rfl⟩ := List.mem_map.1 he
    trivial
  have hret := harr (waiting session) 0 ((responses session true msg).map .response)
    waiting_waits hspares (by rw [hresp]; exact reads_responses hs hm)
  rw [result_large waiting_waits hspares hresp hl] at hret
  obtain ⟨f, hf⟩ := commandReq_large (ε := ε) hl
  rw [hf] at hret
  cases hret

/-- A response arrives if and only if it is one packet; and parts that are not a response are
never reported as an error. -/
theorem arrives_iff (ε : Type) :
    (∀ session msg, session < 2 ^ 32 → msg.length < 2 ^ 31 →
      (Arrives ε session msg ↔ msg.length ≤ MULTI_PART))
    ∧ ∀ parts, concat parts = none →
      commandReq (ε := ε) (.ok (some (.parts parts))) = .ok (.ret [])
        ∨ ∃ f, commandReq (ε := ε) (.ok (some (.parts parts))) = .error f := by
  refine ⟨fun session msg hs hm => ⟨fun h => ?_, arrives_of_small hs⟩,
    fun parts => commandReq_inconsistent⟩
  exact not_lt.1 fun hl => large_faults hs hl hm h

/-- A short response, and a size whose parts were lost. -/
theorem arrives_letter : Arrives String 1 (ascii "a")
    ∧ (commandReq (ε := String) (.ok (some (.parts [.number 40000]))) = .ok (.ret [])
      ∨ ∃ f, commandReq (ε := String) (.ok (some (.parts [.number 40000]))) = .error f) :=
  ⟨((arrives_iff String).1 1 (ascii "a") (by decide) (by decide)).2 (by decide),
    (arrives_iff String).2 [.number 40000] rfl⟩

/-- A response one byte too long for a packet. -/
theorem zeros_lost : ¬ Arrives String 1 (List.replicate (MULTI_PART + 1) 0) :=
  large_faults (by decide) (by rw [List.length_replicate]; exact Nat.lt_succ_self _)
    (by rw [List.length_replicate]; decide)

end Arrival

end ClusterSender

end SkynetCpp
