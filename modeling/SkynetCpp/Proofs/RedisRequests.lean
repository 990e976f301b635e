import SkynetCpp.Redis

/-!
# Requests are framed

The CR LF that ends a line is put at the beginning of the next fragment, and the last fragment is
one CR LF alone: so the fragments of any number of strings, and a CR LF after them, are a CR LF and
the encodings of the strings (`chunks_crlf`). The caches only hold what they would be filled with
(`Faithful`), whatever was composed before.
-/

namespace SkynetCpp

open Lib

namespace Redis

section Fragments

/-- The fragments of a string. -/
def chunk (s : Bytes) : Bytes := headerText s.length ++ s

theorem chunk_eq (s : Bytes) :
    chunk s = Resp.crlf ++ (36 :: (numeral s.length ++ Resp.crlf ++ s)) := by
  simp [chunk, headerText, ascii, Resp.crlf]

theorem length_upper (cmd : Bytes) : (upper cmd).length = cmd.length := List.length_map _

theorem commandText_eq (cmd : Bytes) : commandText cmd = chunk (upper cmd) := by
  rw [chunk, headerText, length_upper]
  rfl

theorem upperByte_upperByte (b : UInt8) : upperByte (upperByte b) = upperByte b := by
  unfold upperByte
  split_ifs with h h'
  · have := UInt8.toNat_sub_of_le b 32 (UInt8.le_iff_toNat_le.2 (by simp; omega))
    simp at this
    omega
  · rfl
  · rfl

theorem upper_upper (cmd : Bytes) : upper (upper cmd) = upper cmd := by
  rw [upper, upper, List.map_map]
  exact List.map_congr_left fun b _ => upperByte_upperByte b

/-- Line ends move from before a string to after it. -/
theorem chunks_crlf (l : List Bytes) :
    l.flatMap chunk ++ Resp.crlf = Resp.crlf ++ Resp.encodeAll (l.map Resp.bulk) := by
  induction l with
  | nil => simp [Resp.encodeAll]
  | cons s l ih =>
    rw [List.flatMap_cons, List.append_assoc, ih, chunk_eq, List.map_cons, Resp.encodeAll,
      Resp.encode]
    simp

/-- The count, the fragments and the last CR LF are an array. -/
theorem countText_chunks {k : ℤ} {l : List Bytes} (hk : k = l.length) :
    countText k ++ (l.flatMap chunk ++ Resp.crlf) = (Resp.array (l.map Resp.bulk)).encode := by
  rw [chunks_crlf, hk, countText, Resp.encode, List.length_map]
  simp [ascii, intNumeral]

end Fragments

section Caches

/-- Each entry is what the function of its table gives. -/
structure Caches.Faithful (c : Caches) : Prop where
  header : ∀ k s, c.header k = some s → s = headerText k
  command : ∀ cmd s, c.command cmd = some s → s = commandText cmd
  count : ∀ k s, c.count k = some s → s = countText k
  commandNp : ∀ cmd s, c.commandNp cmd = some s →
    s = ascii "*1" ++ commandText cmd ++ ascii "\r\n"

variable {c : Caches} (h : c.Faithful)

include h

theorem headerAt_spec (k : ℕ) : (c.headerAt k).1 = headerText k ∧ (c.headerAt k).2.Faithful := by
  unfold Caches.headerAt
  split
  · rename_i s hs
    exact ⟨h.header k s hs, h⟩
  · refine ⟨rfl, fun k' s hs => ?_, h.command, h.count, h.commandNp⟩
    simp only [Function.update_apply] at hs
    split_ifs at hs with hk
    · rw [hk, ← Option.some.inj hs]
    · exact h.header k' s hs

theorem commandAt_spec (cmd : Bytes) :
    (c.commandAt cmd).1 = commandText cmd ∧ (c.commandAt cmd).2.Faithful := by
  unfold Caches.commandAt
  split
  · rename_i s hs
    exact ⟨h.command cmd s hs, h⟩
  · refine ⟨rfl, h.header, fun cmd' s hs => ?_, h.count, h.commandNp⟩
    simp only [Function.update_apply] at hs
    split_ifs at hs with hk
    · rw [hk, ← Option.some.inj hs]
    · exact h.command cmd' s hs

theorem countAt_spec (k : ℤ) : (c.countAt k).1 = countText k ∧ (c.countAt k).2.Faithful := by
  unfold Caches.countAt
  split
  · rename_i s hs
    exact ⟨h.count k s hs, h⟩
  · refine ⟨rfl, h.header, h.command, fun k' s hs => ?_, h.commandNp⟩
    simp only [Function.update_apply] at hs
    split_ifs at hs with hk
    · rw [hk, ← Option.some.inj hs]
    · exact h.count k' s hs

theorem commandNpAt_spec (cmd : Bytes) :
    (c.commandNpAt cmd).1 = ascii "*1" ++ commandText cmd ++ ascii "\r\n"
      ∧ (c.commandNpAt cmd).2.Faithful := by
  obtain ⟨htext, hf⟩ := commandAt_spec h cmd
  unfold Caches.commandNpAt
  split
  · rename_i s hs
    exact ⟨h.commandNp cmd s hs, h⟩
  · refine ⟨by simp only [htext], hf.header, hf.command, hf.count, fun cmd' s hs => ?_⟩
    simp only [Function.update_apply] at hs
    split_ifs at hs with hk
    · rw [hk, ← Option.some.inj hs, htext]
    · exact hf.commandNp cmd' s hs

end Caches

section Composing

variable (tostring : Value → Bytes) {c : Caches}

theorem faithful_composeItems (item : ℤ → Value) : ∀ (n : ℕ) (i : ℤ) {c : Caches}, c.Faithful →
    (composeItems tostring item i n c).2.Faithful
  | 0, _, _, h => h
  | n + 1, i, c, h => by
    unfold composeItems
    split
    · exact faithful_composeItems item n (i + 1) h
    · exact faithful_composeItems item n (i + 1) (headerAt_spec h _).2

/-- The loop over elements none of which is nil. -/
theorem composeItems_flatten {item : ℤ → Value} : ∀ (args : List Value) (i : ℤ) {c : Caches},
    c.Faithful → (∀ v ∈ args, v.isNil = false) →
    (∀ (k : ℕ) v, args[k]? = some v → item (i + k) = v) →
    (composeItems tostring item i args.length c).1.flatten
      = (args.map tostring).flatMap chunk
  | [], _, _, _, _, _ => rfl
  | v :: args, i, c, h, hnil, hitem => by
    obtain ⟨hv, hargs⟩ := List.forall_mem_cons.1 hnil
    have hi : item i = v := by simpa using hitem 0 v rfl
    have hrest : ∀ (k : ℕ) w, args[k]? = some w → item (i + 1 + k) = w := by
      intro k w hk
      have := hitem (k + 1) w (by simpa using hk)
      rwa [show i + ((k + 1 : ℕ) : ℤ) = i + 1 + k by omega] at this
    obtain ⟨htext, hf⟩ := headerAt_spec h (tostring v).length
    have ih := composeItems_flatten args (i + 1) hf hargs hrest
    rw [List.length_cons]
    unfold composeItems
    split
    · rename_i hnone
      rw [← hi, hnone] at hv
      cases hv
    · rw [hi]
      simp only [List.flatten_cons, List.map_cons, List.flatMap_cons, htext, ih, chunk]
      simp

theorem composeValues_spec : ∀ (vs : List Value) {c : Caches}, c.Faithful →
    (composeValues tostring vs c).1.flatten = (vs.map tostring).flatMap chunk
      ∧ (composeValues tostring vs c).2.Faithful
  | [], _, h => ⟨rfl, h⟩
  | v :: vs, c, h => by
    obtain ⟨htext, hf⟩ := headerAt_spec h (tostring v).length
    obtain ⟨ih, hf'⟩ := composeValues_spec vs hf
    refine ⟨?_, hf'⟩
    simp only [composeValues, List.flatten_cons, List.map_cons, List.flatMap_cons, htext, ih, chunk]
    simp

theorem composeTable_spec (h : c.Faithful) (lines : List Bytes) (msg : List Value) :
    (composeTable tostring c lines msg).1.flatten
        = lines.flatten ++ (Resp.array (strings tostring msg)).encode
      ∧ (composeTable tostring c lines msg).2.Faithful := by
  obtain ⟨htext, hf⟩ := countAt_spec h msg.length
  obtain ⟨hvalues, hf'⟩ := composeValues_spec tostring msg hf
  refine ⟨?_, hf'⟩
  have := countText_chunks (k := msg.length) (l := msg.map tostring) (by simp)
  rw [List.map_map] at this
  simp only [composeTable, List.flatten_append, List.flatten_cons, htext, hvalues, List.flatten_nil,
    List.append_nil, List.append_assoc]
  exact congrArg _ this

theorem composePipeline_spec : ∀ (ops : List (List Value)) (lines : List Bytes) {c : Caches},
    c.Faithful → (composePipeline tostring ops c lines).1.flatten
        = lines.flatten ++ Resp.encodeAll (ops.map fun msg => .array (strings tostring msg))
      ∧ (composePipeline tostring ops c lines).2.Faithful
  | [], lines, c, h => ⟨by simp [composePipeline, Resp.encodeAll], h⟩
  | msg :: ops, lines, c, h => by
    obtain ⟨htable, hf⟩ := composeTable_spec tostring h lines msg
    obtain ⟨hrest, hf'⟩ := composePipeline_spec ops (composeTable tostring c lines msg).1 hf
    refine ⟨?_, hf'⟩
    rw [composePipeline, hrest, htable, List.map_cons, Resp.encodeAll, List.append_assoc]

theorem faithful_composeMessage (h : c.Faithful) (cmd : Bytes) (msg : Msg) :
    (composeMessage tostring c cmd msg).2.Faithful := by
  cases msg with
  | nil => exact (commandNpAt_spec h cmd).2
  | table n item =>
    have hcount := (countAt_spec h (n + 1)).2
    exact faithful_composeItems tostring item _ _ (commandAt_spec hcount cmd).2
  | scalar v => exact (headerAt_spec (commandAt_spec h cmd).2 _).2

theorem clean_strings (args : List Value) : Resp.CleanAll (strings tostring args) := by
  induction args with
  | nil => trivial
  | cons v args ih => exact ⟨trivial, ih⟩

theorem clean_commands (ops : List (List Value)) :
    Resp.CleanAll (ops.map fun msg => Resp.array (strings tostring msg)) := by
  induction ops with
  | nil => trivial
  | cons msg ops ih => exact ⟨clean_strings tostring msg, ih⟩

theorem parse_request (cmd : Bytes) (args : List Value) :
    Resp.parse (request tostring cmd args).encode = some (request tostring cmd args, []) := by
  have := Resp.parse_encode (v := request tostring cmd args) ⟨trivial, clean_strings tostring args⟩ []
  rwa [List.append_nil] at this

/-- A command and the fragments of its arguments. -/
theorem request_encode (cmd : Bytes) (args : List Value) :
    countText (args.length + 1) ++ (commandText cmd ++ ((args.map tostring).flatMap chunk
      ++ Resp.crlf)) = (request tostring cmd args).encode := by
  have := countText_chunks (k := args.length + 1) (l := upper cmd :: args.map tostring) (by simp)
  rw [List.flatMap_cons, List.append_assoc, ← commandText_eq, List.map_cons, List.map_map] at this
  exact this

theorem ofCall_plain {v : Value} (hv : Plain v) (args : List Value) :
    Msg.ofCall (v :: args) = some (.ofArgs (v :: args)) := by
  cases v with
  | nil => cases hv.1
  | table fields n => exact absurd rfl (hv.2 fields n)
  | _ => rfl

theorem Caches.Faithful.composes (h : c.Faithful) : Composes tostring c := by
  have hlist : ∀ cmd args item, (∀ v ∈ args, v.isNil = false) →
      (∀ (k : ℕ) v, args[k]? = some v → item (k + 1) = v) →
      (composeMessage tostring c cmd (.table args.length item)).1.flatten
        = (request tostring cmd args).encode := by
    intro cmd args item hnil hitem
    obtain ⟨hcount, hf⟩ := countAt_spec h (args.length + 1)
    obtain ⟨hcommand, hf'⟩ := commandAt_spec hf cmd
    have hitems := composeItems_flatten tostring args 1 hf' hnil fun k v hk => by
      rw [Int.add_comm]
      exact hitem k v hk
    rw [← request_encode]
    simp only [composeMessage, Int.toNat_natCast, List.flatten_append, List.flatten_cons, hcount,
      hcommand, hitems, List.flatten_nil, List.append_nil, List.cons_append]
    rfl
  have hnil : ∀ cmd, (composeMessage tostring c cmd .nil).1.flatten
      = (request tostring cmd []).encode := by
    intro cmd
    rw [← request_encode]
    simp only [composeMessage, (commandNpAt_spec h cmd).1, List.flatten_cons, List.flatten_nil,
      List.append_nil, List.append_assoc]
    rfl
  refine ⟨fun cmd => ?_, fun cmd v => ?_, fun cmd args item hargs hitem => ?_,
    fun cmd args hargs => ?_, fun ops _ => ?_⟩
  · rw [hnil, parse_request]
  · have hscalar : (composeMessage tostring c cmd (.scalar v)).1.flatten
        = (request tostring cmd [v]).encode := by
      obtain ⟨hcommand, hf⟩ := commandAt_spec h cmd
      obtain ⟨hheader, -⟩ := headerAt_spec hf (tostring v).length
      have htwo : countText (([v].length : ℤ) + 1) = ascii "*2" := by
        rw [List.length_singleton]
        decide
      rw [← request_encode, htwo]
      simp only [composeMessage, hcommand, hheader, List.flatten_cons, List.flatten_nil,
        List.append_nil, List.map_cons, List.map_nil, List.flatMap_cons, List.flatMap_nil, chunk,
        List.append_assoc]
      rfl
    rw [hscalar, parse_request]
  · rw [hlist cmd args item hargs hitem, parse_request]
  · have hupper : request tostring (upper cmd) args = request tostring cmd args := by
      rw [request, upper_upper, request]
    rw [← hupper]
    cases args with
    | nil => exact ⟨.nil, rfl, by rw [hnil, parse_request]⟩
    | cons v args =>
      refine ⟨.ofArgs (v :: args), ofCall_plain (hargs v List.mem_cons_self) args, ?_⟩
      rw [Msg.ofArgs, hlist _ _ _ (fun w hw => (hargs w hw).1), parse_request]
      intro k w hk
      rw [show ((k : ℤ) + 1 - 1).toNat = k by omega, List.getD_eq_getElem?_getD, hk]
      rfl
  · have := Resp.parseAll_parse_encode [] (clean_commands tostring ops)
    rw [List.length_map, List.append_nil] at this
    rw [(composePipeline_spec tostring ops [] h).1, List.flatten_nil, List.nil_append, this]

theorem faithful_step (h : c.Faithful) {l : Label} {c' : Caches} (hs : step tostring c l = some c') :
    c'.Faithful := by
  cases l with
  | message cmd msg =>
    obtain rfl := Option.some.inj hs
    exact faithful_composeMessage tostring h cmd msg
  | pipeline ops =>
    obtain rfl := Option.some.inj hs
    exact (composePipeline_spec tostring ops [] h).2
  | collect header command count commandNp =>
    obtain rfl := Option.some.inj hs
    refine ⟨fun k s hk => ?_, fun k s hk => ?_, fun k s hk => ?_, fun k s hk => ?_⟩
    all_goals
      simp only [Option.ite_none_left_eq_some] at hk
    · exact h.header k s hk.2
    · exact h.command k s hk.2
    · exact h.count k s hk.2
    · exact h.commandNp k s hk.2

/-- Whatever was composed before, the bytes of a request are that request. -/
theorem composes_of_reachable (h : Reachable (step tostring) {} c) : Composes tostring c := by
  have h0 : Caches.Faithful {} := by
    constructor <;> exact fun _ _ h => nomatch h
  have hf : c.Faithful := h.invariant h0 fun c l c' _ hf _ hs => faithful_step tostring hf hs
  exact hf.composes tostring

/-- Two requests and a collection before a third, whose argument looks like the end of a request. -/
theorem composes_again :
    let tostring : Value → Bytes := fun | .string s => s | _ => []
    let args : List Value := [.string (ascii "k"), .string (ascii "\r\n$1\r\n")]
    let c := after (step tostring) {} [.message (ascii "get") (.ofArgs [.string (ascii "k")]),
      .pipeline [args], .collect (fun k => k = 1) (fun _ => false) (fun _ => false) fun _ => true]
    Resp.parse (composeMessage tostring c (ascii "set")
        (.table 2 fun i => args.getD (i - 1).toNat .nil)).1.flatten
      = some (request tostring (ascii "set") args, []) := by
  intro tostring args c
  refine (composes_of_reachable tostring (reachable_after rfl)).list (ascii "set") args _ ?_ ?_
  · intro v hv
    rcases List.mem_pair.1 hv with rfl | rfl <;> rfl
  · intro k v hk
    simp only [show ((k : ℤ) + 1 - 1).toNat = k by omega, List.getD_eq_getElem?_getD, hk,
      Option.getD_some]

end Composing

end Redis

end SkynetCpp
