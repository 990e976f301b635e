import SkynetCpp.Proofs.LuaString
import SkynetCpp.Proofs.SocketStream
import SkynetCpp.Redis

/-!
# Replies are read exactly

`read_response` takes the line a reply begins with, and then what the line tells it to take: the
bytes of a bulk string and the CR LF after them, or the elements of an array, one after another. On
what a reply is encoded as it takes all of that and nothing of what follows, by induction on the
reply (`readFuel_encode`); and so does a pipeline, by induction on its replies.
-/

namespace SkynetCpp

open Lib LuaString

namespace Redis

variable (str2d : Bytes → Option UInt64) (border : Fields → ℕ)

section Taking

/-- The first CR LF is the one after a line. -/
theorem find_crlf {s : Bytes} (hs : Resp.NoCrlf s) (rest : Bytes) :
    Socket.find (ascii "\r\n") (s ++ (Resp.crlf ++ rest)) = some s.length := by
  induction s with
  | nil => rfl
  | cons b s ih =>
    rw [List.cons_append, Socket.find, ih hs.tail, if_neg, Option.map_some, List.length_cons]
    intro hpre
    obtain ⟨t, ht⟩ := List.isPrefixOf_iff_prefix.1 hpre
    rcases s with _ | ⟨c, s⟩
    · cases ht
    · rw [show ascii "\r\n" = [13, 10] by rfl] at ht
      simp only [List.cons_append, List.cons.injEq] at ht
      exact hs ⟨[], s, by rw [← ht.1, ← ht.2.1]; rfl⟩

theorem take_line {s : Bytes} (hs : Resp.NoCrlf s) (rest : Bytes) :
    take (.readline (ascii "\r\n")) (s ++ (Resp.crlf ++ rest)) = some (s, rest) := by
  simp only [take, Socket.ReadOp.takes, find_crlf hs, Option.map_some, List.take_left]
  rw [← List.drop_drop, List.drop_left]
  rfl

theorem take_read (s rest : Bytes) {n : ℕ} (hn : n = s.length) :
    take (.read n) (s ++ rest) = some (s, rest) := by
  subst hn
  simp [take, Socket.ReadOp.takes]

/-- What `socket.read` and `socket.readline` do when the bytes are there. -/
theorem perform_of_take {op : Socket.ReadOp} {s data rest : Bytes} (h : take op s = some (data, rest))
    (hop : op ≠ .readall) (conn : Socket.Connection) (co : Socket.Coroutine) :
    ({ conn with buffer := s }.perform co op)
      = ({ conn with buffer := rest }, .returns (some data)) := by
  cases op with
  | read sz =>
    simp only [take, Socket.ReadOp.takes] at h
    split_ifs at h with hsz
    · obtain ⟨rfl, rfl⟩ := Prod.mk.inj (Option.some.inj h)
      simp [Socket.Connection.perform, Socket.Connection.read, hsz]
    · cases h
  | readline sep =>
    simp only [take, Socket.ReadOp.takes] at h
    cases hf : Socket.find sep s with
    | none => simp [hf] at h
    | some pos =>
      have hlen := congrArg List.length (Socket.find_spec hf)
      simp only [List.length_append, List.length_take, List.length_drop] at hlen
      have hdrop : s.drop ((s.take pos).length + sep.length) = s.drop (pos + sep.length) := by
        rcases Nat.lt_or_ge s.length pos with hlt | hle
        · rw [List.drop_eq_nil_of_le (by simp; omega), List.drop_eq_nil_of_le (by omega)]
        · rw [List.length_take, Nat.min_eq_left hle]
      simp only [hf, Option.map_some, hdrop] at h
      obtain ⟨rfl, rfl⟩ := Prod.mk.inj (Option.some.inj h)
      simp only [Socket.Connection.perform, Socket.Connection.readline, hf]
  | readall => exact absurd rfl hop

theorem sub_tail (b : UInt8) (data : Bytes) : sub (b :: data) 2 (-1) = data :=
  sub_rest [b] data

/-- Without the CR LF at the end. -/
theorem sub_crlf (s : Bytes) : sub (s ++ Resp.crlf) 1 (-3) = s := by
  have h : getendpos (-3) (s ++ Resp.crlf).length = s.length := by
    rw [List.length_append, show Resp.crlf.length = 2 by rfl]
    unfold getendpos
    split_ifs <;> omega
  simp only [sub, h]
  simp [posrelatI]

theorem checkinteger_intNumeral {n : ℤ} (h0 : -2 ^ 63 ≤ n) (h1 : n < 2 ^ 63) :
    checkinteger str2d (.string (intNumeral n)) = some (Int64.ofInt n) := by
  unfold checkinteger
  simp only [tonumber_intNumeral str2d h0 h1]

theorem checkinteger_numeral {n : ℕ} (hn : n < 2 ^ 63) :
    ∃ k : Int64, checkinteger str2d (.string (numeral n)) = some k ∧ ¬ k < 0
      ∧ k.toNatClampNeg = n := by
  refine ⟨Int64.ofInt n, checkinteger_intNumeral str2d (n := n) (by omega) (by omega), ?_⟩
  have := Int64.toInt_ofInt_of_le (n := n) (by omega) (by omega)
  rw [Int64.lt_iff_toInt_lt, this, Int64.toNatClampNeg, this]
  simp

end Taking

section Fields

/-- A table that has no key from `i` on. -/
def Below (i : ℕ) (bulk : Fields) : Prop :=
  ∀ p ∈ bulk, ∃ j < i, p.1 = .integer (Int64.ofNat j)

theorem ofNat_inj {i j : ℕ} (hi : i < 2 ^ 63) (hj : j < 2 ^ 63)
    (h : Int64.ofNat i = Int64.ofNat j) : i = j := by
  have := congrArg Int64.toInt h
  rw [← Int64.ofInt_eq_ofNat, ← Int64.ofInt_eq_ofNat,
    Int64.toInt_ofInt_of_le (by omega) (by omega),
    Int64.toInt_ofInt_of_le (by omega) (by omega)] at this
  omega

theorem put_of_below {i : ℕ} {bulk : Fields} (hb : Below i bulk) (hi : i < 2 ^ 63) (v : Value) :
    Fields.rawset.put bulk (.integer (Int64.ofNat i)) v
      = bulk ++ if v.isNil then [] else [(.integer (Int64.ofNat i), v)] := by
  have hrest : (bulk.filter fun p => !Value.keyEq p.1 (.integer (Int64.ofNat i))) = bulk := by
    refine List.filter_eq_self.2 fun p hp => ?_
    obtain ⟨j, hj, hkey⟩ := hb p hp
    rw [hkey]
    simp only [Value.keyEq, Bool.not_eq_true', decide_eq_false_iff_not]
    intro heq
    have := ofNat_inj (by omega) hi heq
    omega
  simp only [Fields.rawset.put, hrest]
  split_ifs <;> simp

theorem Below.append {i : ℕ} {bulk : Fields} (hb : Below i bulk) (v : Value) :
    Below (i + 1) (bulk ++ if v.isNil then [] else [(.integer (Int64.ofNat i), v)]) := by
  intro p hp
  rcases List.mem_append.1 hp with hp | hp
  · obtain ⟨j, hj, hkey⟩ := hb p hp
    exact ⟨j, by omega, hkey⟩
  · split_ifs at hp
    · cases hp
    · rw [List.mem_singleton.1 hp]
      exact ⟨i, by omega, rfl⟩

end Fields

section Reading

theorem noCrlf_cons {b : UInt8} {l : Bytes} (hb : b ≠ 13) (hl : Resp.NoCrlf l) :
    Resp.NoCrlf (b :: l) := by
  rintro ⟨pre, post, h⟩
  rcases pre with _ | ⟨c, pre⟩
  · exact hb (List.cons.inj h).1.symm
  · exact hl ⟨pre, post, (List.cons.inj h).2⟩

/-- The line a reply begins with is taken. -/
theorem readFuel_line {b : UInt8} {l : Bytes} (hb : b ≠ 13) (hl : Resp.NoCrlf l) (fuel : ℕ)
    (s : Bytes) : readFuel str2d border (fuel + 1) (b :: (l ++ (Resp.crlf ++ s)))
      = redcmd str2d border (readFuel str2d border fuel) (some b) l s := by
  have htake := take_line (noCrlf_cons hb hl) s
  rw [List.cons_append] at htake
  rw [readFuel, htake]
  simp only [Option.bind_eq_bind, Option.bind_some, List.head?_cons, sub_tail]

/-- The length of null. -/
theorem checkinteger_null : checkinteger str2d (.string (intNumeral (-1))) = some (-1) :=
  checkinteger_intNumeral str2d (by decide) (by decide)

mutual

/-- A reply is read as its value, and what follows is left. -/
theorem readFuel_encode : ∀ (v : Resp) (fuel : ℕ) (rest : Bytes), v.Clean → Fits v →
    v.depth < fuel → readFuel str2d border fuel (v.encode ++ rest)
      = some { ok := ok v, value := value border v, rest }
  | _, 0, _, _, _, hd => absurd hd (Nat.not_lt_zero _)
  | .simple s, fuel + 1, rest, hc, _, _ => by
    simp only [Resp.encode, List.cons_append, List.append_assoc]
    rw [readFuel_line str2d border (by decide) hc]
    rfl
  | .error s, fuel + 1, rest, hc, _, _ => by
    simp only [Resp.encode, List.cons_append, List.append_assoc]
    rw [readFuel_line str2d border (by decide) hc]
    rfl
  | .integer n, fuel + 1, rest, _, hf, _ => by
    simp only [Resp.encode, List.cons_append, List.append_assoc]
    rw [readFuel_line str2d border (by decide) (Resp.noCrlf_intNumeral n)]
    simp [redcmd, tonumber_intNumeral str2d hf.1 hf.2, ok, value]
  | .bulk s, fuel + 1, rest, _, hf, _ => by
    obtain ⟨k, hk, hpos, hlen⟩ := checkinteger_numeral str2d hf
    simp only [Resp.encode, List.cons_append, List.append_assoc]
    rw [readFuel_line str2d border (by decide) (Resp.noCrlf_numeral s.length)]
    have htake := take_read (s ++ Resp.crlf) rest (n := k.toNatClampNeg + 2)
      (by rw [hlen, List.length_append]; rfl)
    rw [List.append_assoc] at htake
    simp [redcmd, bulkString, hk, hpos, htake, sub_crlf, ok, value]
  | .nullBulk, fuel + 1, rest, _, _, _ => by
    simp only [Resp.encode, List.cons_append, List.append_assoc]
    rw [readFuel_line str2d border (by decide) (Resp.noCrlf_intNumeral (-1))]
    simp [redcmd, bulkString, checkinteger_null, ok, value]
  | .nullArray, fuel + 1, rest, _, _, _ => by
    simp only [Resp.encode, List.cons_append, List.append_assoc]
    rw [readFuel_line str2d border (by decide) (Resp.noCrlf_intNumeral (-1))]
    simp [redcmd, array, checkinteger_null, ok, value]
  | .array items, fuel + 1, rest, hc, hf, hd => by
    obtain ⟨k, hk, hpos, hlen⟩ := checkinteger_numeral str2d hf.1
    have hd' : Resp.depthAll items < fuel := by
      rw [Resp.depth] at hd
      omega
    have hitems := readItems_encode items fuel 1 true [] rest hc hf.2 hd' (by have := hf.1; omega)
      (fun p hp => nomatch hp)
    simp only [Resp.encode, List.cons_append, List.append_assoc]
    rw [readFuel_line str2d border (by decide) (Resp.noCrlf_numeral items.length)]
    simp [redcmd, array, hk, hpos, hlen, hitems, ok, value]

theorem readItems_encode : ∀ (vs : List Resp) (fuel i : ℕ) (noerr : Bool) (bulk : Fields)
    (rest : Bytes), Resp.CleanAll vs → AllFit vs → Resp.depthAll vs < fuel →
    i + vs.length ≤ 2 ^ 63 → Below i bulk →
    readItems (readFuel str2d border fuel) i vs.length noerr bulk (Resp.encodeAll vs ++ rest)
      = some (noerr && allOk vs, bulk ++ fieldsFrom border i vs, rest)
  | [], fuel, i, noerr, bulk, rest, _, _, _, _, _ => by
    simp [readItems, Resp.encodeAll, allOk, fieldsFrom]
  | v :: vs, fuel, i, noerr, bulk, rest, hc, hf, hd, hi, hb => by
    have hd' := Nat.max_lt.1 hd
    simp only [List.length_cons] at hi
    rw [Resp.encodeAll, List.append_assoc, List.length_cons, readItems,
      readFuel_encode v fuel _ hc.1 hf.1 hd'.1]
    simp only [Option.bind_eq_bind, Option.bind_some]
    rw [put_of_below hb (by omega), readItems_encode vs fuel (i + 1) _ _ rest hc.2 hf.2 hd'.2
      (by omega) (hb.append _)]
    simp [allOk, fieldsFrom, Bool.and_assoc]

end

/-- Enough fuel for any reply. -/
theorem readResponse_encode {v : Resp} (hc : v.Clean) (hf : Fits v) (rest : Bytes) :
    readResponse str2d border (v.encode ++ rest)
      = some { ok := ok v, value := value border v, rest } := by
  refine readFuel_encode str2d border v _ rest hc hf ?_
  have := Resp.depth_lt_length v
  rw [List.length_append]
  omega

theorem pipelineInto_encode : ∀ (vs : List Resp) (resp : List (Bool × Value)) (rest : Bytes),
    Resp.CleanAll vs → AllFit vs →
    pipelineInto str2d border vs.length resp (Resp.encodeAll vs ++ rest)
      = some (resp ++ vs.map fun v => (ok v, value border v), rest)
  | [], resp, rest, _, _ => by simp [pipelineInto, Resp.encodeAll]
  | v :: vs, resp, rest, hc, hf => by
    rw [Resp.encodeAll, List.append_assoc, List.length_cons, pipelineInto,
      readResponse_encode str2d border hc.1 hf.1]
    simp [pipelineInto_encode vs _ rest hc.2 hf.2]

theorem pipelineLast_encode : ∀ (vs : List Resp) (out : Bool × Value) (rest : Bytes),
    Resp.CleanAll vs → AllFit vs →
    pipelineLast str2d border vs.length out (Resp.encodeAll vs ++ rest)
      = some ((vs.map fun v => (ok v, value border v)).getLastD out, rest)
  | [], out, rest, _, _ => by simp [pipelineLast, Resp.encodeAll]
  | v :: vs, out, rest, hc, hf => by
    rw [Resp.encodeAll, List.append_assoc, List.length_cons, pipelineLast,
      readResponse_encode str2d border hc.1 hf.1]
    simp only [Option.bind_eq_bind, Option.bind_some]
    rw [pipelineLast_encode vs _ rest hc.2 hf.2, List.map_cons, List.getLastD_cons]

end Reading

section Values

mutual

theorem ok_eq_false : ∀ v : Resp, ok v = false ↔ HasError v
  | .simple _ | .integer _ | .bulk _ | .nullBulk | .nullArray => by simp [ok, HasError]
  | .error _ => by simp [ok, HasError]
  | .array items => allOk_eq_false items

theorem allOk_eq_false : ∀ vs : List Resp, allOk vs = false ↔ AnyError vs
  | [] => by simp [allOk, AnyError]
  | v :: vs => by
    rw [allOk, AnyError, Bool.and_eq_false_iff, ok_eq_false v, allOk_eq_false vs]

end

theorem rawgeti_cons {k i : ℕ} (hk : k < 2 ^ 63) (hi : i < 2 ^ 63) (v : Value) (fields : Fields) :
    Fields.rawgeti ((.integer (Int64.ofNat k), v) :: fields) i
      = if k = i then v else Fields.rawgeti fields i := by
  unfold Fields.rawgeti Fields.rawget
  rw [List.find?_cons]
  by_cases h : k = i
  · simp [h, Value.keyEq]
  · have : ¬ Int64.ofNat k = Int64.ofNat i := fun heq => h (ofNat_inj hk hi heq)
    simp [h, Value.keyEq, this]

/-- The keys begin at `i`. -/
theorem rawgeti_fieldsFrom_lt {j : ℕ} : ∀ (vs : List Resp) (i : ℕ), j < i →
    i + vs.length ≤ 2 ^ 63 → Fields.rawgeti (fieldsFrom border i vs) j = .nil
  | [], _, _, _ => rfl
  | v :: vs, i, hj, hi => by
    rw [List.length_cons] at hi
    have ih := rawgeti_fieldsFrom_lt (j := j) vs (i + 1) (by omega) (by omega)
    rw [fieldsFrom]
    split_ifs
    · exact ih
    · rw [List.singleton_append, rawgeti_cons (k := i) (i := j) (by omega) (by omega),
        if_neg (by omega), ih]

/-- Each element is at its index. -/
theorem rawgeti_fieldsFrom {v : Resp} : ∀ (vs : List Resp) (i k : ℕ), vs[k]? = some v →
    i + vs.length ≤ 2 ^ 63 → Fields.rawgeti (fieldsFrom border i vs) (i + k) = value border v
  | [], _, _, hk, _ => by simp at hk
  | w :: vs, i, 0, hk, hi => by
    rw [List.length_cons] at hi
    obtain rfl : w = v := Option.some.inj hk
    rw [fieldsFrom]
    split_ifs with hnil
    · rw [List.nil_append, rawgeti_fieldsFrom_lt border vs (i + 1) (by omega) (by omega)]
      cases hv : value border w <;> simp_all [Value.isNil]
    · rw [List.singleton_append, rawgeti_cons (by omega) (by omega), if_pos (Nat.add_zero i).symm]
  | w :: vs, i, k + 1, hk, hi => by
    rw [List.length_cons] at hi
    have hlt := (List.getElem?_eq_some_iff.1 hk).1
    rw [List.length_cons] at hlt
    have ih := rawgeti_fieldsFrom vs (i + 1) k (by simpa using hk) (by omega)
    rw [show i + 1 + k = i + (k + 1) by omega] at ih
    rw [fieldsFrom]
    split_ifs
    · exact ih
    · rw [List.singleton_append, rawgeti_cons (by omega) (by omega), if_neg (by omega), ih]

end Values

/-- A reply is read as it was sent, up to its last byte. -/
structure ReadExactly (v : Resp) (rest : Bytes) : Prop where
  reads : readResponse str2d border (v.encode ++ rest)
    = some { ok := ok v, value := value border v, rest }
  errors : ok v = false ↔ HasError v
  elements : ∀ items, v = .array items → ∃ fields, value border v = .table fields (border fields) ∧
    ∀ k item, items[k]? = some item → Fields.rawgeti fields (k + 1) = value border item

theorem readExactly {v : Resp} (hc : v.Clean) (hf : Fits v) (rest : Bytes) :
    ReadExactly str2d border v rest := by
  refine ⟨readResponse_encode str2d border hc hf rest, ok_eq_false v, ?_⟩
  rintro items rfl
  refine ⟨_, rfl, fun k item hk => ?_⟩
  rw [Nat.add_comm]
  exact rawgeti_fieldsFrom border items 1 k hk (by have := hf.1; omega)

theorem forall_of_all : ∀ {vs : List Resp}, Resp.CleanAll vs → AllFit vs →
    ∀ v ∈ vs, v.Clean ∧ Fits v
  | v :: vs, hc, hf, w, hw => by
    rcases List.mem_cons.1 hw with rfl | hw
    · exact ⟨hc.1, hf.1⟩
    · exact forall_of_all hc.2 hf.2 w hw

/-- An array with a null and an error in it, and an integer. -/
def nestedReplies : List Resp :=
  [.array [.simple (ascii "OK"), .nullBulk, .array [.error (ascii "ERR")], .bulk (ascii "\r\n")],
    .integer (-5)]

end Redis

end SkynetCpp
