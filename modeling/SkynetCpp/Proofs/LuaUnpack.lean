import SkynetCpp.Lib.Scripts
import SkynetCpp.LuaTree

/-!
# What the decoder needs

The decoder plays the script of the trees that it reads (`unpackImpl_follows`). With all the memory
it asks for, it gets through a tree without a bad key, and stops at the first one else
(`Tree.plays`); with less, it does the same up to where it is refused.
-/

namespace SkynetCpp

namespace LuaUnpack

open Lib LuaSeri

variable {s s' : State} {e : String} {rb : Bytes} {fuel : ℕ}

/-- An action on the state. -/
inductive Op
  | push (v : Value)
  | request
  | checkstack
  | enter
  | leave
  | rawseti (i : ℕ)
  | rawset

def Op.act : Op → UnpackM Unit
  | .push v => pushValue v
  | .request => LuaUnpack.request "not enough memory"
  | .checkstack => LuaUnpack.checkstack
  | .enter => LuaUnpack.enter
  | .leave => LuaUnpack.leave
  | .rawseti i => LuaUnpack.rawseti i
  | .rawset => LuaUnpack.rawset

def leafScript : Value → List Op
  | .string str => [.request, .push (.string str)]
  | v => [.push v]

mutual

/-- The actions of the decoder at a tree. -/
def Tree.script : Tree → List Op
  | .leaf v => leafScript v
  | .table rows => .enter :: .request :: .push (.table [] 0) :: (rows.script 1 ++ [.leave])

def Rows.script : ℕ → Rows → List Op
  | _, .done => []
  | i, .item t rest => t.script ++ .rawseti i :: rest.script (i + 1)
  | i, .pair key value rest => key.script ++ (value.script ++ .rawset :: rest.script i)

end

section Lengths

theorem read_length (rb : Bytes) (sz : ℕ) : (read rb sz).2.length ≤ rb.length := by
  unfold LuaSeri.read
  split_ifs
  · exact Nat.le_refl _
  · rw [List.length_drop]
    exact Nat.sub_le _ _

/-- A byte that is read is gone. -/
theorem read_one_length {t rest : Bytes} (h : read rb 1 = (some t, rest)) :
    rest.length + 1 = rb.length := by
  unfold LuaSeri.read at h
  split_ifs at h with hlen
  · cases h
  · cases h
    rw [List.length_drop]
    omega

theorem readInt_length (rb : Bytes) (sz : ℕ) (conv : ℕ → ℤ) :
    (readInt rb sz conv).2.length ≤ rb.length := by
  have h := read_length rb sz
  unfold readInt
  generalize LuaSeri.read rb sz = r at h ⊢
  rcases r with ⟨_ | p, rest⟩ <;> exact h

theorem rbInteger_length (rb : Bytes) (cookie : ℕ) :
    (rbInteger rb cookie).2.length ≤ rb.length := by
  unfold rbInteger
  split_ifs
  · exact readInt_length ..
  · exact readInt_length ..
  · exact readInt_length ..
  · exact readInt_length ..
  · exact Nat.le_refl _

theorem rbWord_length (rb : Bytes) : (rbWord rb).2.length ≤ rb.length := by
  have h := read_length rb 8
  unfold rbWord
  generalize LuaSeri.read rb 8 = r at h ⊢
  rcases r with ⟨_ | p, rest⟩ <;> exact h

theorem rbString_length (rb : Bytes) (len : ℕ) : (rbString rb len).2.length ≤ rb.length := by
  have h := read_length rb len
  unfold rbString
  generalize LuaSeri.read rb len = r at h ⊢
  rcases r with ⟨_ | p, rest⟩ <;> exact h

theorem rbArraySize_length (rb : Bytes) (cookie : ℕ) :
    (rbArraySize rb cookie).2.length ≤ rb.length := by
  have h := read_length rb 1
  unfold rbArraySize
  split_ifs
  · generalize LuaSeri.read rb 1 = r at h ⊢
    rcases r with ⟨_ | st, rest⟩
    · exact h
    · exact (rbInteger_length rest _).trans h
  · exact Nat.le_refl _

theorem leafTagged_length {t : ℕ} (h : t % 8 ≠ TYPE_TABLE) :
    (leafTagged t rb).2.length ≤ rb.length := by
  simp only [leafTagged, LuaSeri.unpackTagged, if_neg h]
  split_ifs
  · exact Nat.le_refl _
  · exact Nat.le_refl _
  · exact rbWord_length _
  · exact rbInteger_length ..
  · exact rbWord_length _
  · exact rbString_length ..
  · exact (rbString_length ..).trans (readInt_length ..)
  · exact (rbString_length ..).trans (readInt_length ..)
  · exact Nat.le_refl _

theorem itemRows_length {tree : Bytes → Tree × Bytes} {rows : Bytes → Rows × Bytes}
    (htree : ∀ rb, (tree rb).2.length ≤ rb.length) (hrows : ∀ rb, (rows rb).2.length ≤ rb.length)
    (n : ℕ) (rb : Bytes) : (itemRows tree rows n rb).2.length ≤ rb.length := by
  induction n generalizing rb with
  | zero => exact hrows rb
  | succ n ih => exact (ih _).trans (htree rb)

/-- Nothing is put back. -/
theorem tree_length (fuel : ℕ) : (∀ t rb, (treeTagged fuel t rb).2.length ≤ rb.length) ∧
    (∀ rb, (treeOne fuel rb).2.length ≤ rb.length) ∧
    ∀ rb, (pairRows fuel rb).2.length ≤ rb.length := by
  induction fuel with
  | zero => exact ⟨fun _ _ => Nat.le_refl _, fun _ => Nat.le_refl _, fun _ => Nat.le_refl _⟩
  | succ fuel ih =>
    obtain ⟨htagged, hone, hpairs⟩ := ih
    refine ⟨fun t rb => ?_, fun rb => ?_, fun rb => ?_⟩
    · unfold treeTagged
      split_ifs with htable
      · exact (itemRows_length hone hpairs _ _).trans (rbArraySize_length ..)
      · exact leafTagged_length htable
    · have h := read_length rb 1
      unfold treeOne
      generalize LuaSeri.read rb 1 = r at h ⊢
      rcases r with ⟨_ | t, rest⟩
      · exact h
      · exact (htagged _ _).trans h
    · have h := read_length rb 1
      unfold pairRows
      generalize LuaSeri.read rb 1 = r at h ⊢
      rcases r with ⟨_ | t, rest⟩
      · exact h
      · dsimp only
        split_ifs
        · exact h
        · exact (hpairs _).trans ((hone _).trans ((htagged _ _).trans h))

end Lengths

section Follows

/-- It plays the script, from any state, and returns this. -/
abbrev Reads {α : Type} (m : UnpackM α) (ops : List Op) (a : α) : Prop :=
  Follows Op.act (fun _ => True) m ops fun b _ => b = a

theorem reads_act (op : Op) : Reads op.act [op] () := .action fun _ _ _ _ => rfl

theorem reads_pure {α : Type} (a : α) : Reads (pure a) [] a := fun _ _ => ⟨a, rfl, rfl⟩

theorem Reads.bind {α β : Type} {m : UnpackM α} {f : α → UnpackM β} {a : α} {b : β}
    {ops ops' : List Op} (h : Reads m ops a) (hf : Reads (f a) ops' b) :
    Reads (m >>= f) (ops ++ ops') b :=
  Follows.bind h fun a' s hs => by
    subst hs
    exact hf s trivial

theorem reads_push (v : Value) (rb : Bytes) :
    Reads (do pushValue v; return rb) [.push v] rb :=
  (reads_act (.push v)).bind (reads_pure rb)

theorem pushString_reads (rb : Bytes) (len : ℕ) :
    Reads (pushString rb len) (leafScript (rbString rb len).1) (rbString rb len).2 := by
  unfold pushString rbString
  rcases LuaSeri.read rb len with ⟨_ | str, rest⟩
  · exact reads_push .nil rest
  · exact (reads_act .request).bind (reads_push (.string str) rest)

theorem leafTagged_reads {t : ℕ} (h : t % 8 ≠ TYPE_TABLE) :
    Reads (unpackTagged (fuel + 1) t rb) (leafTagged t rb).1.script (leafTagged t rb).2 := by
  simp only [unpackTagged, leafTagged, LuaSeri.unpackTagged, if_neg h]
  split_ifs
  · exact reads_push _ _
  · exact reads_push _ _
  · exact reads_push _ _
  · exact reads_push _ _
  · exact reads_push _ _
  · exact pushString_reads _ _
  · exact pushString_reads _ _
  · exact pushString_reads _ _
  · exact reads_push _ _

/-- The array part, and the pairs after it. -/
theorem rbArray_reads {unpack hash : Bytes → UnpackM Bytes} {tree : Bytes → Tree × Bytes}
    {rows : Bytes → Rows × Bytes} (len : ℕ) (hlen : ∀ rb, (tree rb).2.length ≤ rb.length)
    (hunpack : ∀ rb, rb.length ≤ len → Reads (unpack rb) (tree rb).1.script (tree rb).2)
    (hhash : ∀ rb, rb.length ≤ len → ∀ i, Reads (hash rb) ((rows rb).1.script i) (rows rb).2)
    (n i : ℕ) (rb : Bytes) (hrb : rb.length ≤ len) :
    Reads (do let rb ← rbArray unpack n i rb; hash rb) ((itemRows tree rows n rb).1.script i)
      (itemRows tree rows n rb).2 := by
  induction n generalizing i rb with
  | zero => exact hhash rb hrb i
  | succ n ih =>
    have hrest := ih (i + 1) (tree rb).2 ((hlen rb).trans hrb)
    unfold rbArray
    rw [bind_assoc]
    refine (hunpack rb hrb).bind ?_
    rw [bind_assoc]
    exact (reads_act (.rawseti i)).bind hrest

/-- With fuel for two calls a byte, the decoder plays the script of the tree. -/
theorem unpack_reads (fuel : ℕ) :
    (∀ t rb, 2 * rb.length + 2 ≤ fuel → Reads (unpackTagged fuel t rb)
      (treeTagged fuel t rb).1.script (treeTagged fuel t rb).2) ∧
    (∀ rb, 2 * rb.length + 1 ≤ fuel →
      Reads (unpackOne fuel rb) (treeOne fuel rb).1.script (treeOne fuel rb).2) ∧
    ∀ rb, 2 * rb.length + 1 ≤ fuel → ∀ i,
      Reads (rbHash fuel rb) ((pairRows fuel rb).1.script i) (pairRows fuel rb).2 := by
  induction fuel with
  | zero => exact ⟨fun _ _ h => by omega, fun _ h => by omega, fun _ h => by omega⟩
  | succ fuel ih =>
    obtain ⟨htagged, hone, hhash⟩ := ih
    obtain ⟨-, hlen, -⟩ := tree_length fuel
    refine ⟨fun t rb hfuel => ?_, fun rb hfuel => ?_, fun rb hfuel i => ?_⟩
    · by_cases htable : t % 8 = TYPE_TABLE
      · have hsize := rbArraySize_length rb (t / 8)
        unfold unpackTagged treeTagged
        rw [if_pos htable]
        dsimp only
        rw [htable, if_neg (by decide), if_neg (by decide), if_neg (by decide), if_neg (by decide),
          if_neg (by decide), if_neg (by decide), if_pos rfl]
        have hrows := rbArray_reads (rbArraySize rb (t / 8)).2.length hlen
          (fun rb _ => hone rb (by omega)) (fun rb _ => hhash rb (by omega))
          (rbArraySize rb (t / 8)).1.toNat 1 (rbArraySize rb (t / 8)).2 (Nat.le_refl _)
        refine (reads_act .enter).bind ((reads_act .request).bind
          ((reads_act (.push (.table [] 0))).bind ?_))
        have hleave := hrows.bind (f := fun rb => do leave; return rb)
          ((reads_act .leave).bind (reads_pure _))
        rw [bind_assoc] at hleave
        exact hleave
      · have heq : treeTagged (fuel + 1) t rb = leafTagged t rb := by
          rw [treeTagged, if_neg htable]
        rw [heq]
        exact leafTagged_reads htable
    · unfold unpackOne treeOne
      rcases hread : LuaSeri.read rb 1 with ⟨_ | t, rest⟩
      · exact reads_push .nil rest
      · have hrest := read_one_length hread
        exact htagged _ _ (by omega)
    · unfold rbHash pairRows
      rcases hread : LuaSeri.read rb 1 with ⟨_ | t, rest⟩
      · exact reads_pure rest
      · have hrest := read_one_length hread
        dsimp only
        split_ifs
        · exact reads_pure rest
        · have hkey := (tree_length fuel).1 (ofLe t) rest
          have hvalue := hlen (treeTagged fuel (ofLe t) rest).2
          exact (htagged _ _ (by omega)).bind ((hone _ (by omega)).bind
            ((reads_act .rawset).bind (hhash _ (by omega) i)))

end Follows

section Actions

/-- All memory is there that is asked for; and what has been used so far is noted. -/
structure Ready (s : State) : Prop where
  full : ∀ n, s.memory n = true
  deepest : s.depth ≤ s.deepest
  overflow : s.overflow = false → s.stack.length ≤ s.limit

/-- The state after `slots` more slots were used, at most, `height` more calls of `rb_table`, and
`asks` requests. -/
def State.went (s : State) (stack : List Value) (slots height asks : ℕ) : State :=
  { s with
    stack
    overflow := s.overflow || decide (s.limit < s.stack.length + slots)
    deepest := max s.deepest (s.depth + height)
    requests := s.requests + asks }

/-- A script that is got through with such a stack, or is not. -/
def Does (ops : List Op) (s : State) (slots height asks : ℕ) (stops : Bool)
    (Q : List Value → Prop) : Prop :=
  match stops with
  | false => ∃ stack, Q stack ∧ play Op.act ops s = .ok () (s.went stack slots height asks)
  | true => ∃ e s', play Op.act ops s = .error e s' ∧
      s'.overflow = (s.overflow || decide (s.limit < s.stack.length + slots)) ∧
      s'.deepest = max s.deepest (s.depth + height)

variable {ops ops' : List Op} {k k' h h' a a' c : ℕ} {stops stops' : Bool}
  {Q R : List Value → Prop} {stack : List Value}

theorem Ready.went (hs : Ready s) (hstack : stack.length ≤ s.stack.length + k) :
    Ready (s.went stack k h a) where
  full := hs.full
  deepest := hs.deepest.trans (Nat.le_max_left _ _)
  overflow ho := by
    obtain ⟨-, hlt⟩ := Bool.or_eq_false_iff.1 ho
    exact hstack.trans (Nat.not_lt.1 (of_decide_eq_false hlt))

theorem or_lt (o : Bool) (limit len k k' : ℕ) :
    (o || decide (limit < len + k) || decide (limit < len + k'))
      = (o || decide (limit < len + max k k')) := by
  have hmax : limit < len + max k k' ↔ limit < len + k ∨ limit < len + k' := by omega
  rw [Bool.or_assoc, decide_eq_decide.2 hmax, Bool.decide_or]

theorem max_deepest (d n h h' : ℕ) : max (max d (n + h)) (n + h') = max d (n + max h h') := by
  omega

/-- One script after the other: `c` more slots are in use between the two. -/
theorem Does.andThen (hs : Ready s) (c : ℕ) (h₁ : Does ops s k h a stops Q)
    (hQ : ∀ stack, Q stack → stack.length = s.stack.length + c) (hc : c ≤ k)
    (h₂ : stops = false → ∀ stack, Q stack → Ready (s.went stack k h a) →
      Does ops' (s.went stack k h a) k' h' a' stops' R) :
    Does (ops ++ ops') s (max k (if stops then 0 else c + k')) (max h (if stops then 0 else h'))
      (a + a') (stops || stops') R := by
  cases stops with
  | true =>
    obtain ⟨e, s', hplay, ho, hd⟩ := h₁
    refine ⟨e, s', play_append_error hplay, ?_, ?_⟩
    · rw [if_pos rfl, Nat.max_zero, ho]
    · rw [if_pos rfl, Nat.max_zero, hd]
  | false =>
    obtain ⟨stack, hstack, hplay⟩ := h₁
    have hlen := hQ stack hstack
    have h₂ := h₂ rfl stack hstack (hs.went (by omega))
    have ho : (s.overflow || decide (s.limit < s.stack.length + k)
        || decide (s.limit < stack.length + k'))
          = (s.overflow || decide (s.limit < s.stack.length + max k (c + k'))) := by
      rw [hlen, Nat.add_assoc, or_lt]
    rw [if_neg Bool.false_ne_true, if_neg Bool.false_ne_true, Bool.false_or]
    cases stops' with
    | true =>
      obtain ⟨e, s', hplay', ho', hd'⟩ := h₂
      refine ⟨e, s', (play_append_ok hplay).trans hplay', ho'.trans ho, hd'.trans ?_⟩
      exact max_deepest ..
    | false =>
      obtain ⟨stack', hstack', hplay'⟩ := h₂
      refine ⟨stack', hstack', (play_append_ok hplay).trans (hplay'.trans ?_)⟩
      unfold State.went
      dsimp only
      rw [ho, max_deepest, Nat.add_assoc s.requests]

/-- Then a request is met, and the stack changes. -/
theorem Does.request (h₁ : Does ops s k h a stops Q) (op : Op)
    (hact : ∀ s' : State, s'.memory = s.memory → Q s'.stack → ∃ stack, R stack ∧
      op.act s' = .ok () { s' with stack, requests := s'.requests + 1 }) :
    Does (ops ++ [op]) s k h (a + 1) stops R := by
  cases stops with
  | true =>
    obtain ⟨e, s', hplay, hrest⟩ := h₁
    exact ⟨e, s', play_append_error hplay, hrest⟩
  | false =>
    obtain ⟨stack, hstack, hplay⟩ := h₁
    obtain ⟨stack', hstack', hop⟩ := hact (s.went stack k h a) rfl hstack
    exact ⟨stack', hstack', (play_append_ok hplay).trans (play_cons_ok hop)⟩

theorem Does.imp (h₁ : Does ops s k h a stops Q) (hQR : ∀ stack, Q stack → R stack) :
    Does ops s k h a stops R := by
  cases stops with
  | true => exact h₁
  | false =>
    obtain ⟨stack, hstack, hplay⟩ := h₁
    exact ⟨stack, hQR stack hstack, hplay⟩

/-- What comes after an error is not played. -/
theorem Does.stop (h₁ : Does ops s k h a true Q) (ops' : List Op) :
    Does (ops ++ ops') s k h a' true R := by
  obtain ⟨e, s', hplay, hrest⟩ := h₁
  exact ⟨e, s', play_append_error hplay, hrest⟩

/-- Then there is an error. -/
theorem Does.raise (h₁ : Does ops s k h a false Q) (op : Op)
    (hact : ∀ s' : State, Q s'.stack → ∃ e, op.act s' = .error e s') :
    Does (ops ++ [op]) s k h a' true R := by
  obtain ⟨stack, hstack, hplay⟩ := h₁
  obtain ⟨e, hop⟩ := hact (s.went stack k h a) hstack
  exact ⟨e, _, (play_append_ok hplay).trans (play_cons_error hop), rfl, rfl⟩

theorem act_request (h : s.memory s.requests = true) :
    Op.request.act s = .ok () { s with requests := s.requests + 1 } := if_pos h

theorem act_push (v : Value) (s : State) : (Op.push v).act s = .ok () { s with
    stack := v :: s.stack, overflow := s.overflow || s.limit < s.stack.length + 1 } := rfl

theorem Ready.max_deepest (hs : Ready s) : max s.deepest (s.depth + 0) = s.deepest :=
  Nat.max_eq_left hs.deepest

theorem Ready.or_overflow (hs : Ready s) :
    (s.overflow || decide (s.limit < s.stack.length + 0)) = s.overflow := by
  rcases ho : s.overflow with _ | _
  · exact decide_eq_false (Nat.not_lt.2 (hs.overflow ho))
  · rfl

theorem act_leave (s : State) : Op.leave.act s = .ok () { s with depth := s.depth - 1 } := rfl

theorem does_push (hs : Ready s) (v : Value) :
    Does [.push v] s 1 0 0 false (· = v :: s.stack) := by
  refine ⟨_, rfl, (play_cons_ok (act_push v s)).trans ?_⟩
  unfold State.went
  rw [hs.max_deepest]
  rfl

theorem does_leaf (hs : Ready s) (v : Value) :
    Does (leafScript v) s 1 0 (Tree.leaf v).asks false (· = v :: s.stack) := by
  cases v with
  | string str =>
    refine ⟨_, rfl, (play_cons_ok (act_request (hs.full _))).trans
      ((play_cons_ok (act_push _ _)).trans ?_)⟩
    unfold State.went
    rw [hs.max_deepest]
    rfl
  | _ => exact does_push hs _

/-- An assignment with a key that a table can have. -/
theorem store_ok (key value : Value) {fields : Fields} {rawlen : ℕ} (hkey : badKey key = false)
    (hs : s.memory s.requests = true) : ∃ fields', store key value fields rawlen stack s =
      .ok () { s with stack := .table fields' rawlen :: stack, requests := s.requests + 1 } := by
  have hset : ∃ fields', fields.rawset key value = .ok fields' := by
    cases key with
    | nil => cases hkey
    | float bits =>
      unfold Fields.rawset
      exact ⟨_, if_neg (by simpa [badKey] using hkey)⟩
    | _ => exact ⟨_, rfl⟩
  obtain ⟨fields', hset⟩ := hset
  refine ⟨fields', ?_⟩
  unfold store
  rw [hset]
  exact bind_ok (m := LuaUnpack.request _) (act_request hs)

theorem store_error (key value : Value) {fields : Fields} {rawlen : ℕ} (hkey : badKey key = true) :
    ∃ e, store key value fields rawlen stack s = .error e s := by
  have hset : ∃ e, fields.rawset key value = .error e := by
    cases key with
    | nil => exact ⟨_, rfl⟩
    | float bits =>
      unfold Fields.rawset
      exact ⟨_, if_pos hkey⟩
    | _ => cases hkey
  obtain ⟨e, hset⟩ := hset
  refine ⟨e, ?_⟩
  unfold store
  rw [hset]
  rfl

theorem get_state (s : State) : (EStateM.get : UnpackM State) s = .ok s s := rfl

theorem rawseti_eq {value : Value} {fields : Fields} {rawlen i : ℕ}
    (hstack : s.stack = value :: .table fields rawlen :: stack) :
    (Op.rawseti i).act s = store (.integer (Int64.ofNat i)) value fields rawlen stack s := by
  simp only [Op.act, rawseti, bind, EStateM.bind, get, getThe, MonadStateOf.get, get_state, hstack]

theorem rawset_eq {key value : Value} {fields : Fields} {rawlen : ℕ}
    (hstack : s.stack = value :: key :: .table fields rawlen :: stack) :
    Op.rawset.act s = store key value fields rawlen stack s := by
  simp only [Op.act, rawset, bind, EStateM.bind, get, getThe, MonadStateOf.get, get_state, hstack]

theorem rawseti_undefined {i : ℕ}
    (h : ¬ ∃ value fields rawlen stack, s.stack = value :: .table fields rawlen :: stack) :
    (Op.rawseti i).act s = .error "undefined" s := by
  simp only [Op.act, rawseti, bind, EStateM.bind, get, getThe, MonadStateOf.get, get_state]
  refine congrFun (g := (throw "undefined" : UnpackM Unit)) ?_ s
  split
  · rename_i hstack
    exact absurd ⟨_, _, _, _, hstack⟩ h
  · rfl

theorem rawset_undefined (h : ¬ ∃ value key fields rawlen stack,
    s.stack = value :: key :: .table fields rawlen :: stack) :
    Op.rawset.act s = .error "undefined" s := by
  simp only [Op.act, rawset, bind, EStateM.bind, get, getThe, MonadStateOf.get, get_state]
  refine congrFun (g := (throw "undefined" : UnpackM Unit)) ?_ s
  split
  · rename_i hstack
    exact absurd ⟨_, _, _, _, _, hstack⟩ h
  · rfl

end Actions

section Trees

theorem Tree.one_le_slots : ∀ t : Tree, 1 ≤ t.slots
  | .leaf _ => Nat.le_refl _
  | .table _ => Nat.le_add_right _ _

/-- The state in which `rb_table` begins with its rows. -/
def State.entered (s : State) : State :=
  { s with
    stack := .table [] 0 :: s.stack
    overflow := s.overflow || decide (s.limit < s.stack.length + 1)
    depth := s.depth + 1
    deepest := max s.deepest (s.depth + 1)
    requests := s.requests + 1 }

theorem play_entered (hs : Ready s) {ops : List Op} :
    play Op.act (.enter :: .request :: .push (.table [] 0) :: ops) s
      = play Op.act ops s.entered := by
  have henter : Op.enter.act s = .ok ()
      { s with depth := s.depth + 1, deepest := max s.deepest (s.depth + 1) } := rfl
  have hrequest := act_request
    (s := { s with depth := s.depth + 1, deepest := max s.deepest (s.depth + 1) }) (hs.full _)
  exact (play_cons_ok henter).trans ((play_cons_ok hrequest).trans (play_cons_ok (act_push _ _)))

theorem Ready.entered (hs : Ready s) : Ready s.entered where
  full := hs.full
  deepest := Nat.le_max_right _ _
  overflow ho := by
    obtain ⟨-, hlt⟩ := Bool.or_eq_false_iff.1 ho
    exact Nat.not_lt.1 (of_decide_eq_false hlt)

theorem entered_overflow (s : State) (k : ℕ) :
    (s.entered.overflow || decide (s.entered.limit < s.entered.stack.length + k))
      = (s.overflow || decide (s.limit < s.stack.length + (1 + k))) := by
  have hlen : s.entered.stack.length + k = s.stack.length + (1 + k) := by
    simp only [State.entered, List.length_cons]
    omega
  have hmax : max 1 (1 + k) = 1 + k := by omega
  have hor := or_lt s.overflow s.limit s.stack.length 1 (1 + k)
  rw [hlen]
  rw [hmax] at hor
  exact hor

theorem entered_deepest (s : State) (h : ℕ) : max s.entered.deepest (s.entered.depth + h)
    = max s.deepest (s.depth + (1 + h)) := by
  simp only [State.entered]
  omega

/-- The measure of a pair, and the rows after it. -/
theorem pair_measure (k v r : ℕ) (ks vs bad : Bool) :
    max (max k (if ks then 0 else v)) (if ks || vs || bad then 0 else r)
      = max k (if ks then 0 else max v (if vs || bad then 0 else r)) := by
  cases ks
  · exact Nat.max_assoc ..
  · simp

mutual

/-- With all the memory it asks for, the decoder gets through a tree that has no bad key. -/
theorem Tree.does : ∀ (t : Tree) {s : State}, Ready s →
    Does t.script s t.slots t.height t.asks t.stops
      fun stack => ∃ v, badKey v = t.isBadKey ∧ stack = v :: s.stack
  | .leaf v, s, hs => by
    obtain ⟨stack, hstack, hplay⟩ := does_leaf hs v
    exact ⟨stack, ⟨v, rfl, hstack⟩, hplay⟩
  | .table rows, s, hs => by
    have hrows := Rows.does rows 1 hs.entered ⟨[], rfl⟩
    unfold Does at hrows ⊢
    rw [Tree.script, play_entered hs, Tree.stops]
    generalize rows.stops = stops at hrows ⊢
    cases stops with
    | true =>
      obtain ⟨e, s', hplay, ho, hd⟩ := hrows
      exact ⟨e, s', play_append_error hplay, ho.trans (entered_overflow ..),
        hd.trans (entered_deepest ..)⟩
    | false =>
      obtain ⟨stack, ⟨fields, hstack⟩, hplay⟩ := hrows
      have hleave : Op.leave.act (s.entered.went stack (rows.measure 1) (rows.measure 0) rows.asks)
          = .ok () (s.went stack (1 + rows.measure 1) (1 + rows.measure 0) (1 + rows.asks)) := by
        rw [act_leave]
        unfold State.went
        dsimp only
        rw [entered_overflow, entered_deepest, ← Nat.add_assoc s.requests]
        rfl
      exact ⟨stack, ⟨_, rfl, hstack⟩, (play_append_ok hplay).trans (play_cons_ok hleave)⟩

/-- The rows are stored in the table on top of the stack. -/
theorem Rows.does : ∀ (rows : Rows) (i : ℕ) {s : State} {st : List Value}, Ready s →
    (∃ fields, s.stack = .table fields 0 :: st) →
    Does (rows.script i) s (rows.measure 1) (rows.measure 0) rows.asks rows.stops
      fun stack => ∃ fields, stack = .table fields 0 :: st
  | .done, i, s, st, hs, hst => by
    refine ⟨s.stack, hst, ?_⟩
    have hwent : s.went s.stack 0 0 0 = s := by
      unfold State.went
      rw [hs.max_deepest, hs.or_overflow]
      rfl
    exact congrArg _ hwent.symm
  | .item t rest, i, s, st, hs, ⟨fields, hst⟩ => by
    have hitem : Does (t.script ++ [.rawseti i]) s t.slots t.height (t.asks + 1) t.stops
        fun stack => ∃ fields, stack = .table fields 0 :: st := by
      refine (Tree.does t hs).request _ ?_
      rintro s' hmemory ⟨v, -, hstack⟩
      rw [hst] at hstack
      obtain ⟨fields', hact⟩ := store_ok (.integer (Int64.ofNat i)) v rfl
        (by rw [hmemory]; exact hs.full _)
      exact ⟨_, ⟨fields', rfl⟩, (rawseti_eq hstack).trans hact⟩
    have hall := hitem.andThen hs 0 (fun stack ⟨fields', hstack⟩ => by rw [hstack, hst]; rfl)
      (Nat.zero_le _) fun _ stack hstack hready => Rows.does rest (i + 1) hready hstack
    rw [List.append_assoc, Nat.zero_add] at hall
    exact hall
  | .pair key value rest, i, s, st, hs, ⟨fields, hst⟩ => by
    have hboth : Does (key.script ++ value.script) s
        (max key.slots (if key.stops then 0 else 1 + value.slots))
        (max key.height (if key.stops then 0 else value.height)) (key.asks + value.asks)
        (key.stops || value.stops)
        fun stack => ∃ v k, badKey k = key.isBadKey ∧ stack = v :: k :: s.stack := by
      refine (Tree.does key hs).andThen hs 1
        (fun stack ⟨v, _, hstack⟩ => by rw [hstack]; rfl) key.one_le_slots
        fun _ stack ⟨k, hk, hstack⟩ hready => ?_
      refine (Tree.does value hready).imp fun stack' ⟨v, _, hstack'⟩ => ⟨v, k, hk, ?_⟩
      rw [hstack', ← hstack]
      rfl
    have hpair : Does (key.script ++ value.script ++ [.rawset]) s
        (max key.slots (if key.stops then 0 else 1 + value.slots))
        (max key.height (if key.stops then 0 else value.height)) (key.asks + value.asks + 1)
        (key.stops || value.stops || key.isBadKey)
        fun stack => ∃ fields, stack = .table fields 0 :: st := by
      rcases hbad : key.isBadKey with _ | _
      · rw [Bool.or_false]
        refine hboth.request _ ?_
        rintro s' hmemory ⟨v, k, hk, hstack⟩
        rw [hst] at hstack
        obtain ⟨fields', hact⟩ := store_ok k v (hk.trans hbad)
          (by rw [hmemory]; exact hs.full _)
        exact ⟨_, ⟨fields', rfl⟩, (rawset_eq hstack).trans hact⟩
      · rw [Bool.or_true]
        generalize hstops : (key.stops || value.stops) = stops at hboth ⊢
        cases stops with
        | true => exact hboth.stop _
        | false =>
          refine hboth.raise _ ?_
          rintro s' ⟨v, k, hk, hstack⟩
          rw [hst] at hstack
          obtain ⟨e, hact⟩ := store_error k v (hk.trans hbad)
          exact ⟨e, (rawset_eq hstack).trans hact⟩
    have hall := hpair.andThen hs 0 (fun stack ⟨fields', hstack⟩ => by rw [hstack, hst]; rfl)
      (Nat.zero_le _) fun _ stack hstack hready => Rows.does rest i hready hstack
    have hheight : Rows.measure 0 (.pair key value rest) = max key.height (if key.stops then 0 else
        max value.height (if value.stops || key.isBadKey then 0 else rest.measure 0)) := by
      rw [Rows.measure, Nat.zero_add]
      rfl
    rw [Nat.zero_add, pair_measure, pair_measure, List.append_assoc, List.append_assoc] at hall
    rw [hheight]
    exact hall

end

end Trees

section Memory

/-- The same with all memory there. -/
def State.filled (s : State) : State := { s with memory := fun _ => true }

/-- What was noted stays, and nothing is freed. -/
structure Noted (s s' : State) : Prop where
  overflow : s.overflow = true → s'.overflow = true
  deepest : s.deepest ≤ s'.deepest
  freed : s'.freed = s.freed

theorem Noted.refl (s : State) : Noted s s := ⟨id, Nat.le_refl _, rfl⟩

theorem Noted.trans {s'' : State} (h : Noted s s') (h' : Noted s' s'') : Noted s s'' :=
  ⟨fun ho => h'.overflow (h.overflow ho), h.deepest.trans h'.deepest, h'.freed.trans h.freed⟩

/-- What an action makes of memory: it raises an error of its own, it does not ask, or it asks once
and does the rest if it gets it. -/
inductive Asks (op : Op) (s : State) : Prop
  | raises (e : String) (h : op.act s = .error e s) (hfilled : op.act s.filled = .error e s.filled)
  | never (s' : State) (h : op.act s = .ok () s') (hfilled : op.act s.filled = .ok () s'.filled)
      (hmemory : s'.memory = s.memory) (hrequests : s'.requests = s.requests) (hnoted : Noted s s')
  | once (s' : State) (h : s.memory s.requests = true → op.act s = .ok () s')
      (hnot : s.memory s.requests = false →
        ∃ e, op.act s = .error e { s with requests := s.requests + 1 })
      (hfilled : op.act s.filled = .ok () s'.filled)
      (hmemory : s'.memory = s.memory) (hrequests : s'.requests = s.requests + 1)
      (hnoted : Noted s s')

theorem request_not {message : String} (h : s.memory s.requests = false) :
    request message s = .error message { s with requests := s.requests + 1 } :=
  if_neg (by simp [h])

theorem request_met (message : String) (h : s.memory s.requests = true) :
    request message s = .ok () { s with requests := s.requests + 1 } := if_pos h

theorem asks_store {op : Op} {key value : Value} {fields : Fields} {rawlen : ℕ}
    {stack : List Value} (h : ∀ s' : State, s'.stack = s.stack →
      op.act s' = store key value fields rawlen stack s') : Asks op s := by
  have hs := h s rfl
  have hfilled := h s.filled rfl
  unfold store at hs hfilled
  rcases hset : fields.rawset key value with e | fields'
  · rw [hset] at hs hfilled
    exact .raises e hs hfilled
  · rw [hset] at hs hfilled
    refine .once { s with requests := s.requests + 1, stack := .table fields' rawlen :: stack }
      (fun hmem => hs.trans ?_) (fun hmem => ⟨"not enough memory", hs.trans ?_⟩)
      (hfilled.trans ?_) rfl rfl ⟨id, Nat.le_refl _, rfl⟩
    · exact bind_ok (m := LuaUnpack.request _) (request_met _ hmem)
    · exact bind_error (m := LuaUnpack.request _) (request_not hmem)
    · exact bind_ok (m := LuaUnpack.request _) (request_met _ rfl)

theorem asks (op : Op) (s : State) : Asks op s := by
  cases op with
  | push v =>
    exact .never _ rfl rfl rfl rfl ⟨fun h => by simp [h], Nat.le_refl _, rfl⟩
  | enter => exact .never _ rfl rfl rfl rfl ⟨id, Nat.le_max_left _ _, rfl⟩
  | leave => exact .never _ rfl rfl rfl rfl ⟨id, Nat.le_refl _, rfl⟩
  | request =>
    exact .once { s with requests := s.requests + 1 } (request_met _)
      (fun h => ⟨"not enough memory", request_not h⟩)
      (request_met (s := s.filled) "not enough memory" rfl) rfl rfl ⟨id, Nat.le_refl _, rfl⟩
  | checkstack =>
    refine .once { s with
      requests := s.requests + 1, limit := max s.limit (s.stack.length + LUA_MINSTACK) }
      (fun h => ?_) (fun h => ⟨"stack overflow", ?_⟩) ?_ rfl rfl ⟨id, Nat.le_refl _, rfl⟩
    · exact bind_ok (m := LuaUnpack.request _) (request_met _ h)
    · exact bind_error (m := LuaUnpack.request _) (request_not h)
    · exact bind_ok (m := LuaUnpack.request _) (request_met _ rfl)
  | rawseti i =>
    by_cases hstack : ∃ value fields rawlen stack, s.stack = value :: .table fields rawlen :: stack
    · obtain ⟨value, fields, rawlen, stack, hstack⟩ := hstack
      exact asks_store fun s' hs' => rawseti_eq (hs'.trans hstack)
    · exact .raises "undefined" (rawseti_undefined hstack) (rawseti_undefined hstack)
  | rawset =>
    by_cases hstack : ∃ value key fields rawlen stack,
        s.stack = value :: key :: .table fields rawlen :: stack
    · obtain ⟨value, key, fields, rawlen, stack, hstack⟩ := hstack
      exact asks_store fun s' hs' => rawset_eq (hs'.trans hstack)
    · exact .raises "undefined" (rawset_undefined hstack) (rawset_undefined hstack)

variable {ops : List Op} {t : State}

theorem act_noted (op : Op) (s s' : State) (h : Noted s s') :
    Noted s (finalState (op.act s')) := by
  rcases asks op s' with ⟨e, hop, -⟩ | ⟨s'', hop, -, -, -, hnoted⟩ |
    ⟨s'', hop, hnot, -, -, -, hnoted⟩
  · rw [hop]
    exact h
  · rw [hop]
    exact h.trans hnoted
  · rcases hmem : s'.memory s'.requests with _ | _
    · obtain ⟨e, hop⟩ := hnot hmem
      rw [hop]
      exact h.trans ⟨id, Nat.le_refl _, rfl⟩
    · rw [hop hmem]
      exact h.trans hnoted

theorem play_noted (ops : List Op) (s : State) : Noted s (finalState (play Op.act ops s)) :=
  play_keeps (act_noted · s) (.refl s) ops

/-- With less memory no more is used. -/
theorem play_filled (ops : List Op) (s : State) :
    ((finalState (play Op.act ops s)).overflow = true →
      (finalState (play Op.act ops s.filled)).overflow = true) ∧
    (finalState (play Op.act ops s)).deepest ≤ (finalState (play Op.act ops s.filled)).deepest := by
  induction ops generalizing s with
  | nil => exact ⟨id, Nat.le_refl _⟩
  | cons op ops ih =>
    rcases asks op s with ⟨e, hop, hfilled⟩ | ⟨s', hop, hfilled, -, -, -⟩ |
      ⟨s', hop, hnot, hfilled, -, -, hnoted⟩
    · rw [play_cons_error hop, play_cons_error hfilled]
      exact ⟨id, Nat.le_refl _⟩
    · rw [play_cons_ok hop, play_cons_ok hfilled]
      exact ih s'
    · rcases hmem : s.memory s.requests with _ | _
      · obtain ⟨e, hop⟩ := hnot hmem
        have hall := play_noted (op :: ops) s.filled
        rw [play_cons_error hop]
        exact ⟨hall.overflow, hall.deepest⟩
      · rw [play_cons_ok (hop hmem), play_cons_ok hfilled]
        exact ih s'

/-- A script that would be played to its end is, if its requests are met. -/
theorem play_met (h : play Op.act ops s.filled = .ok () t) :
    s.requests ≤ t.requests ∧ ((∃ s', play Op.act ops s = .ok () s') ↔
      ∀ n, s.requests ≤ n → n < t.requests → s.memory n = true) := by
  induction ops generalizing s with
  | nil =>
    cases h
    exact ⟨Nat.le_refl _, fun _ n h₁ h₂ => absurd (Nat.lt_of_le_of_lt h₁ h₂) (Nat.lt_irrefl _),
      fun _ => ⟨s, rfl⟩⟩
  | cons op ops ih =>
    rcases asks op s with ⟨e, hop, hfilled⟩ | ⟨s', hop, hfilled, hmemory, hrequests, -⟩ |
      ⟨s', hop, hnot, hfilled, hmemory, hrequests, -⟩
    · rw [play_cons_error hfilled] at h
      cases h
    · rw [play_cons_ok hfilled] at h
      rw [play_cons_ok hop, ← hmemory, ← hrequests]
      exact ih h
    · rw [play_cons_ok hfilled] at h
      obtain ⟨hle, hiff⟩ := ih h
      rw [hrequests] at hle hiff
      rw [hmemory] at hiff
      refine ⟨Nat.le_of_succ_le hle, ?_⟩
      rcases hmem : s.memory s.requests with _ | _
      · obtain ⟨e, hop⟩ := hnot hmem
        rw [play_cons_error hop]
        refine iff_of_false (fun ⟨_, hok⟩ => by cases hok) fun hall => ?_
        exact Bool.false_ne_true (hmem.symm.trans (hall _ (Nat.le_refl _) hle))
      · rw [play_cons_ok (hop hmem), hiff]
        refine ⟨fun hall n h₁ h₂ => ?_, fun hall n h₁ h₂ => hall n (Nat.le_of_succ_le h₁) h₂⟩
        rcases Nat.eq_or_lt_of_le h₁ with rfl | hlt
        · exact hmem
        · exact hall n hlt h₂

/-- A script that raises an error of its own does with any memory. -/
theorem play_raises {e : String} (h : play Op.act ops s.filled = .error e t) :
    ∃ e s', play Op.act ops s = .error e s' := by
  induction ops generalizing s with
  | nil => cases h
  | cons op ops ih =>
    rcases asks op s with ⟨e, hop, -⟩ | ⟨s', hop, hfilled, -⟩ | ⟨s', hop, hnot, hfilled, -⟩
    · exact ⟨e, s, play_cons_error hop⟩
    · rw [play_cons_ok hfilled] at h
      rw [play_cons_ok hop]
      exact ih h
    · rcases hmem : s.memory s.requests with _ | _
      · obtain ⟨e, hop⟩ := hnot hmem
        exact ⟨e, _, play_cons_error hop⟩
      · rw [play_cons_ok hfilled] at h
        rw [play_cons_ok (hop hmem)]
        exact ih h

end Memory

section Loop

/-- The actions of the loop, from value number `count` on. -/
def loopScript : ℕ → List Tree → List Op
  | _, [] => []
  | count, t :: ts =>
    (if count % 8 = 7 then [.checkstack] else []) ++ (t.script ++ loopScript (count + 1) ts)

theorem unpackLoop_reads (fuel count : ℕ) (rb : Bytes) :
    Reads (unpackLoop fuel count rb) (loopScript count (trees fuel rb)) () := by
  induction fuel generalizing count rb with
  | zero => exact reads_pure ()
  | succ fuel ih =>
    unfold unpackLoop trees
    split_ifs with hlen hcount
    · exact reads_pure ()
    · have hone := (unpack_reads (2 * rb.length + 1)).2.1 rb (Nat.le_refl _)
      have hrest := hone.bind (ih (count + 1) _)
      simp only [loopScript, if_pos hcount]
      exact (reads_act .checkstack).bind (f := fun _ => _ >>= _) hrest
    · have hone := (unpack_reads (2 * rb.length + 1)).2.1 rb (Nat.le_refl _)
      simp only [loopScript, if_neg hcount]
      exact hone.bind (ih (count + 1) _)

/-- The slots that are guaranteed at this value, if so many are before it. -/
def raised (limit count : ℕ) : ℕ := if count % 8 = 7 then max limit (count + 20) else limit

/-- The values fit, from number `count` on. -/
def FitsFrom : ℕ → ℕ → List Tree → Prop
  | _, _, [] => True
  | limit, count, t :: ts =>
    count + t.slots ≤ raised limit count ∧ t.height ≤ MAX_DEPTH ∧
      (t.stops = false → FitsFrom (raised limit count) (count + 1) ts)

/-- The state after `luaL_checkstack`, if it is due. -/
def State.checked (s : State) (count : ℕ) : State :=
  { s with
    limit := raised s.limit count
    requests := s.requests + if count % 8 = 7 then 1 else 0 }

theorem Ready.checked (hs : Ready s) (count : ℕ) : Ready (s.checked count) where
  full := hs.full
  deepest := hs.deepest
  overflow ho := by
    have hle := hs.overflow ho
    simp only [State.checked, raised]
    split_ifs
    · exact hle.trans (Nat.le_max_left _ _)
    · exact hle

theorem play_checked (hs : Ready s) {count : ℕ} (hcount : s.stack.length = count) (ops : List Op) :
    play Op.act ((if count % 8 = 7 then [.checkstack] else []) ++ ops) s
      = play Op.act ops (s.checked count) := by
  subst hcount
  unfold State.checked raised
  split_ifs
  · have hmet : Op.act .checkstack s = .ok () _ :=
      bind_ok (m := LuaUnpack.request _) (request_met _ (hs.full _))
    exact play_cons_ok hmet
  · rfl

theorem within_iff (o : Bool) (limit len k d h : ℕ) :
    ((o || decide (limit < len + k)) = false ∧ max d (0 + h) ≤ MAX_DEPTH) ↔
      o = false ∧ d ≤ MAX_DEPTH ∧ len + k ≤ limit ∧ h ≤ MAX_DEPTH := by
  rw [Bool.or_eq_false_iff, decide_eq_false_iff_not, Nat.not_lt, Nat.max_le, Nat.zero_add]
  tauto

/-- With all memory there, the loop stays within its bounds if the values fit. -/
theorem loop_within (ts : List Tree) (count : ℕ) {s : State} (hs : Ready s)
    (hcount : s.stack.length = count) (hdepth : s.depth = 0) :
    ((finalState (play Op.act (loopScript count ts) s)).overflow = false ∧
      (finalState (play Op.act (loopScript count ts) s)).deepest ≤ MAX_DEPTH) ↔
    s.overflow = false ∧ s.deepest ≤ MAX_DEPTH ∧ FitsFrom s.limit count ts := by
  induction ts generalizing count s with
  | nil => exact ⟨fun h => ⟨h.1, h.2, trivial⟩, fun h => ⟨h.1, h.2.1⟩⟩
  | cons t ts ih =>
    have hnew := hs.checked count
    have ht := Tree.does t hnew
    rw [loopScript, play_checked hs hcount, FitsFrom]
    generalize t.stops = stops at ht ⊢
    cases stops with
    | true =>
      obtain ⟨e, s', hplay, ho, hd⟩ := ht
      rw [play_append_error hplay]
      change s'.overflow = false ∧ s'.deepest ≤ MAX_DEPTH ↔ _
      rw [ho, hd]
      change (_ || decide (raised s.limit count < s.stack.length + _)) = false ∧
        max s.deepest (s.depth + _) ≤ _ ↔ _
      rw [hcount, hdepth, within_iff]
      exact and_congr_right fun _ => and_congr_right fun _ => and_congr_right fun _ =>
        ⟨fun h => ⟨h, fun hfalse => by cases hfalse⟩, fun h => h.1⟩
    | false =>
      obtain ⟨stack, ⟨v, -, hstack⟩, hplay⟩ := ht
      have hlen : stack.length = count + 1 := by rw [hstack, ← hcount]; rfl
      have hready : stack.length ≤ (s.checked count).stack.length + t.slots := by
        have hone := t.one_le_slots
        change stack.length ≤ s.stack.length + _
        omega
      rw [play_append_ok hplay, ih (count + 1) (hnew.went hready) hlen hdepth, ← and_assoc]
      change ((_ || decide (raised s.limit count < s.stack.length + _)) = false ∧
        max s.deepest (s.depth + _) ≤ _) ∧ FitsFrom (raised s.limit count) _ _ ↔ _
      rw [hcount, hdepth, within_iff]
      simp only [and_assoc, forall_const]
      rfl

theorem reached_succ {t t' : Tree} {ts : List Tree} {i : ℕ} :
    Reached (t :: ts) (i + 1) t' ↔ t.stops = false ∧ Reached ts i t' := by
  simp only [Reached, List.getElem?_cons_succ, List.take_succ_cons, List.forall_mem_cons]
  tauto

theorem raised_guaranteed (nargs count : ℕ) :
    raised (max (nargs + LUA_MINSTACK) (8 * (count / 8) + 19)) count = guaranteed nargs count := by
  unfold raised guaranteed LUA_MINSTACK
  split_ifs <;> omega

/-- The values fit from number `count` on, if each that is reached does. -/
theorem fitsFrom_iff (nargs : ℕ) (ts : List Tree) (count : ℕ) :
    FitsFrom (max (nargs + LUA_MINSTACK) (8 * (count / 8) + 19)) count ts ↔
      ∀ i t, Reached ts i t →
        count + i + t.slots ≤ guaranteed nargs (count + i) ∧ t.height ≤ MAX_DEPTH := by
  induction ts generalizing count with
  | nil =>
    refine iff_of_true trivial fun i t h => ?_
    cases h.1
  | cons t ts ih =>
    have hnext : guaranteed nargs count
        = max (nargs + LUA_MINSTACK) (8 * ((count + 1) / 8) + 19) := rfl
    rw [FitsFrom, raised_guaranteed, hnext, ih (count + 1), ← hnext]
    constructor
    · rintro ⟨hslots, hheight, hrest⟩ i t' hreached
      cases i with
      | zero =>
        obtain rfl : t = t' := Option.some.inj hreached.1
        exact ⟨hslots, hheight⟩
      | succ i =>
        obtain ⟨hstops, hreached⟩ := reached_succ.1 hreached
        have h := hrest hstops i t' hreached
        rw [Nat.add_assoc count, Nat.add_comm 1] at h
        exact h
    · intro h
      have hfirst := h 0 t ⟨rfl, fun _ ht' => by cases ht'⟩
      refine ⟨hfirst.1, hfirst.2, fun hstops i t' hreached => ?_⟩
      have hnext := h (i + 1) t' (reached_succ.2 ⟨hstops, hreached⟩)
      rw [Nat.add_comm i, ← Nat.add_assoc] at hnext
      exact hnext

end Loop

section Calls

variable {free : Bool} {nargs : ℕ} {source : Source} {memory : ℕ → Bool}

/-- The state in which the loop begins. -/
def State.cleared (nargs : ℕ) (memory : ℕ → Bool) : State where
  limit := nargs + LUA_MINSTACK
  memory := memory

theorem ready_cleared (nargs : ℕ) : Ready (.cleared nargs fun _ => true) where
  full _ := rfl
  deepest := Nat.le_refl _
  overflow _ := Nat.zero_le _

/-- A call ends as its loop does, but that it frees the buffer. -/
theorem unpackImpl_error (hblock : source.block = some rb)
    (h : play Op.act (loopScript 0 (trees rb.length rb)) (.cleared nargs memory) = .error e s) :
    unpackImpl free source (.called nargs memory) = .error e s := by
  unfold unpackImpl
  rw [hblock]
  have hloop := (unpackLoop_reads rb.length 0 rb).error trivial h
  exact bind_error (s := State.cleared nargs memory) hloop

theorem unpackImpl_ok (hblock : source.block = some rb)
    (h : play Op.act (loopScript 0 (trees rb.length rb)) (.cleared nargs memory) = .ok () s) :
    unpackImpl free source (.called nargs memory) = .ok () (match source with
      | .buffer _ => if free then { s with freed := s.freed + 1 } else s
      | .string _ => s) := by
  unfold unpackImpl
  rw [hblock]
  obtain ⟨⟨⟩, hloop, -⟩ := (unpackLoop_reads rb.length 0 rb).ok trivial h
  refine (bind_ok (s := State.cleared nargs memory) hloop).trans ?_
  cases source with
  | string str => rfl
  | buffer b => cases free <;> rfl

/-- The call uses no more slots, and goes no deeper, than its loop. -/
theorem unpackImpl_noted (free : Bool) (nargs : ℕ) (memory : ℕ → Bool)
    (hblock : source.block = some rb) :
    (finalState (unpackImpl free source (.called nargs memory))).overflow
        = (finalState (play Op.act (loopScript 0 (trees rb.length rb))
          (.cleared nargs memory))).overflow ∧
      (finalState (unpackImpl free source (.called nargs memory))).deepest
        = (finalState (play Op.act (loopScript 0 (trees rb.length rb))
          (.cleared nargs memory))).deepest := by
  rcases hplay : play Op.act (loopScript 0 (trees rb.length rb)) (.cleared nargs memory) with
    ⟨⟨⟩, s⟩ | ⟨e, s⟩
  · rw [unpackImpl_ok hblock hplay]
    cases source with
    | string str => exact ⟨rfl, rfl⟩
    | buffer b => cases free <;> exact ⟨rfl, rfl⟩
  · rw [unpackImpl_error hblock hplay]
    exact ⟨rfl, rfl⟩

end Calls

/-- The decoder keeps to the slots that are guaranteed, and to the depth of the encoder, exactly
for the blocks whose values fit. -/
theorem disciplined_iff (free : Bool) (nargs : ℕ) (source : Source) :
    Disciplined free nargs source ↔ ∃ rb, source.block = some rb ∧ Fits nargs rb := by
  have hfits : ∀ rb, Fits nargs rb ↔ FitsFrom (nargs + LUA_MINSTACK) 0 (trees rb.length rb) := by
    intro rb
    have hiff := fitsFrom_iff nargs (trees rb.length rb) 0
    have hmax : max (nargs + LUA_MINSTACK) (8 * (0 / 8) + 19) = nargs + LUA_MINSTACK :=
      Nat.max_eq_left (by unfold LUA_MINSTACK; omega)
    rw [hmax] at hiff
    simp only [Nat.zero_add] at hiff
    exact hiff.symm
  have hwithin := fun rb : Bytes =>
    loop_within (trees rb.length rb) 0 (ready_cleared nargs) rfl rfl
  constructor
  · intro h
    obtain ⟨rb, hblock⟩ := Option.isSome_iff_exists.1 h.defined
    obtain ⟨ho, hd⟩ := unpackImpl_noted free nargs (fun _ => true) hblock
    have hloop := (hwithin rb).1 ⟨ho ▸ h.slots _, hd ▸ h.depth _⟩
    exact ⟨rb, hblock, (hfits rb).2 hloop.2.2⟩
  · rintro ⟨rb, hblock, hfit⟩
    obtain ⟨hslots, hdepth⟩ := (hwithin rb).2 ⟨rfl, Nat.zero_le _, (hfits rb).1 hfit⟩
    refine ⟨by rw [hblock]; rfl, fun memory => ?_, fun memory => ?_⟩
    · obtain ⟨ho, -⟩ := unpackImpl_noted free nargs memory hblock
      obtain ⟨hfilled, -⟩ := play_filled (loopScript 0 (trees rb.length rb))
        (.cleared nargs memory)
      rw [ho]
      exact Bool.eq_false_of_not_eq_true fun htrue =>
        Bool.false_ne_true (hslots.symm.trans (hfilled htrue))
    · obtain ⟨-, hd⟩ := unpackImpl_noted free nargs memory hblock
      obtain ⟨-, hfilled⟩ := play_filled (loopScript 0 (trees rb.length rb))
        (.cleared nargs memory)
      rw [hd]
      exact hfilled.trans hdepth

/-- Arrays in arrays. -/
def nested : ℕ → Value
  | 0 => .table [] 0
  | n + 1 => .table [(.integer 1, nested n)] 1

/-- What is packed of 25 tables needs 25 slots. -/
theorem nested_overflows : ∃ bytes, LuaSeri.luaseriPack [nested 24] = .ok bytes ∧
    ¬ Disciplined false 1 (.string bytes) := by
  refine ⟨List.replicate 24 14 ++ 6 :: List.replicate 25 0, by decide +kernel, fun h => ?_⟩
  have hslots := h.slots fun _ => true
  revert hslots
  decide +kernel

end LuaUnpack

end SkynetCpp
