import SkynetCpp.Lib.Numerals

/-!
# RESP

The values of the Redis serialization protocol, their encoding, and a strict parser of one value:
every line ends in CR LF, a length is a decimal numeral, and a bulk string is followed by CR LF. The
parser takes what a value is encoded as, and leaves what follows (`parse_encode`).
-/

namespace Lib

inductive Resp
  | simple (s : List UInt8)
  | error (s : List UInt8)
  | integer (n : ℤ)
  | bulk (s : List UInt8)
  | nullBulk
  | nullArray
  | array (items : List Resp)

namespace Resp

def crlf : List UInt8 := [13, 10]

mutual

def encode : Resp → List UInt8
  | simple s => 43 :: (s ++ crlf)
  | error s => 45 :: (s ++ crlf)
  | integer n => 58 :: (intNumeral n ++ crlf)
  | bulk s => 36 :: (numeral s.length ++ crlf ++ s ++ crlf)
  | nullBulk => 36 :: (intNumeral (-1) ++ crlf)
  | nullArray => 42 :: (intNumeral (-1) ++ crlf)
  | array items => 42 :: (numeral items.length ++ crlf ++ encodeAll items)

def encodeAll : List Resp → List UInt8
  | [] => []
  | v :: vs => encode v ++ encodeAll vs

end

/-- There is no CR LF inside. -/
def NoCrlf (s : List UInt8) : Prop := ¬ crlf <:+: s

mutual

/-- The lines are lines. -/
def Clean : Resp → Prop
  | simple s => NoCrlf s
  | error s => NoCrlf s
  | array items => CleanAll items
  | _ => True

def CleanAll : List Resp → Prop
  | [] => True
  | v :: vs => Clean v ∧ CleanAll vs

end

mutual

/-- How deep the arrays are nested. -/
def depth : Resp → ℕ
  | array items => depthAll items + 1
  | _ => 0

def depthAll : List Resp → ℕ
  | [] => 0
  | v :: vs => max (depth v) (depthAll vs)

end

/-- The bytes up to the first CR LF, and those after it. -/
def line : List UInt8 → Option (List UInt8 × List UInt8)
  | 13 :: 10 :: s => some ([], s)
  | b :: s => (line s).map fun (l, rest) => (b :: l, rest)
  | [] => none

/-- A line that is an integer. -/
def readInt : List UInt8 → Option ℤ
  | [] => none
  | 45 :: s => if s ≠ [] ∧ (readDigits 0 s).2 = [] then some (-(readDigits 0 s).1) else none
  | s => if (readDigits 0 s).2 = [] then some (readDigits 0 s).1 else none

/-- `n` bytes that CR LF follows. -/
def counted (n : ℕ) (s : List UInt8) : Option (List UInt8 × List UInt8) :=
  if n + 2 ≤ s.length ∧ (s.drop n).take 2 = crlf then some (s.take n, s.drop (n + 2)) else none

/-- `n` values, each by `p`. -/
def parseAll (p : List UInt8 → Option (Resp × List UInt8)) :
    ℕ → List UInt8 → Option (List Resp × List UInt8)
  | 0, s => some ([], s)
  | n + 1, s => do
    let (v, s) ← p s
    let (vs, s) ← parseAll p n s
    some (v :: vs, s)

/-- One value, with arrays nested less than `fuel` deep. -/
def parseFuel : ℕ → List UInt8 → Option (Resp × List UInt8)
  | 0, _ => none
  | _ + 1, [] => none
  | fuel + 1, b :: s => do
    let (l, s) ← line s
    match b with
    | 43 => some (simple l, s)
    | 45 => some (error l, s)
    | 58 => (readInt l).map fun n => (integer n, s)
    | 36 =>
      let n ← readInt l
      if n = -1 then some (nullBulk, s)
      else if n < 0 then none
      else (counted n.toNat s).map fun (s, rest) => (bulk s, rest)
    | 42 =>
      let n ← readInt l
      if n = -1 then some (nullArray, s)
      else if n < 0 then none
      else (parseAll (parseFuel fuel) n.toNat s).map fun (vs, rest) => (array vs, rest)
    | _ => none

/-- One value. Each array takes a byte, so that this is deep enough. -/
def parse (s : List UInt8) : Option (Resp × List UInt8) := parseFuel (s.length + 1) s

section Lines

theorem noCrlf_of_forall {s : List UInt8} (h : ∀ b ∈ s, b ≠ 13) : NoCrlf s := by
  rintro ⟨pre, post, hs⟩
  exact h 13 (by rw [← hs]; simp [crlf]) rfl

theorem noCrlf_numeral (n : ℕ) : NoCrlf (numeral n) :=
  noCrlf_of_forall fun b hb h => by
    subst h
    exact absurd (isDigit_of_mem_numeral hb) (by decide)

theorem noCrlf_intNumeral (n : ℤ) : NoCrlf (intNumeral n) := by
  cases n with
  | ofNat n => exact noCrlf_numeral n
  | negSucc n =>
    refine noCrlf_of_forall fun b hb h => ?_
    subst h
    rcases List.mem_cons.1 hb with hb | hb
    · exact absurd hb (by decide)
    · exact absurd (isDigit_of_mem_numeral hb) (by decide)

theorem NoCrlf.tail {b : UInt8} {s : List UInt8} (h : NoCrlf (b :: s)) : NoCrlf s :=
  fun hs => h (hs.trans (List.infix_cons (List.infix_refl s)))

/-- The line that CR LF ends. -/
theorem line_append {s : List UInt8} (hs : NoCrlf s) (rest : List UInt8) :
    line (s ++ (crlf ++ rest)) = some (s, rest) := by
  induction s with
  | nil => rfl
  | cons b s ih =>
    rw [List.cons_append, line]
    · rw [ih hs.tail, Option.map_some]
    · rintro t rfl heq
      rcases s with _ | ⟨c, s⟩
      · exact absurd (List.cons.inj heq).1 (by decide)
      · rw [List.cons_append, List.cons.injEq] at heq
        exact hs ⟨[], s, by rw [heq.1]; rfl⟩

theorem readInt_numeral (n : ℕ) : readInt (numeral n) = some (n : ℤ) := by
  have h := readDigits_numeral n []
  rw [List.append_nil, readDigits] at h
  unfold readInt
  split
  · rename_i hnil
    exact absurd hnil (numeral_ne_nil n)
  · rename_i s hs
    exact absurd (isDigit_of_mem_numeral (n := n) (b := 45) (by simp [hs])) (by decide)
  · rw [h]
    rfl

theorem readInt_intNumeral (n : ℤ) : readInt (intNumeral n) = some n := by
  cases n with
  | ofNat n => exact readInt_numeral n
  | negSucc n =>
    have h := readDigits_numeral (n + 1) []
    rw [List.append_nil, readDigits] at h
    rw [intNumeral, readInt, h, if_pos ⟨numeral_ne_nil _, rfl⟩]
    rfl

theorem counted_append (s rest : List UInt8) :
    counted s.length (s ++ (crlf ++ rest)) = some (s, rest) := by
  unfold counted
  rw [if_pos]
  · simp [List.drop_append, crlf]
  · refine ⟨by simp [crlf], ?_⟩
    rw [List.drop_left]
    rfl

end Lines

section RoundTrip

mutual

/-- What a value is encoded as is parsed as that value, whatever follows. -/
theorem parseFuel_encode : ∀ (v : Resp) (fuel : ℕ) (rest : List UInt8), v.Clean →
    v.depth < fuel → parseFuel fuel (v.encode ++ rest) = some (v, rest)
  | _, 0, _, _, hd => absurd hd (Nat.not_lt_zero _)
  | simple s, fuel + 1, rest, hc, _ => by
    simp [encode, parseFuel, line_append hc]
  | error s, fuel + 1, rest, hc, _ => by
    simp [encode, parseFuel, line_append hc]
  | integer n, fuel + 1, rest, _, _ => by
    simp [encode, parseFuel, line_append (noCrlf_intNumeral n), readInt_intNumeral]
  | bulk s, fuel + 1, rest, _, _ => by
    simp [encode, parseFuel, line_append (noCrlf_numeral s.length), readInt_numeral,
      counted_append]
  | nullBulk, fuel + 1, rest, _, _ => by
    simp [encode, parseFuel, line_append (noCrlf_intNumeral (-1)), readInt_intNumeral]
  | nullArray, fuel + 1, rest, _, _ => by
    simp [encode, parseFuel, line_append (noCrlf_intNumeral (-1)), readInt_intNumeral]
  | array items, fuel + 1, rest, hc, hd => by
    have hd' : depthAll items < fuel := by
      rw [depth] at hd
      omega
    simp [encode, parseFuel, line_append (noCrlf_numeral items.length), readInt_numeral,
      parseAll_encode items fuel rest hc hd']

theorem parseAll_encode : ∀ (vs : List Resp) (fuel : ℕ) (rest : List UInt8), CleanAll vs →
    depthAll vs < fuel →
    parseAll (parseFuel fuel) vs.length (encodeAll vs ++ rest) = some (vs, rest)
  | [], _, _, _, _ => rfl
  | v :: vs, fuel, rest, hc, hd => by
    have hd' := Nat.max_lt.1 hd
    rw [encodeAll, List.append_assoc, List.length_cons, parseAll,
      parseFuel_encode v fuel _ hc.1 hd'.1]
    simp [parseAll_encode vs fuel rest hc.2 hd'.2]

end

mutual

theorem depth_lt_length : ∀ v : Resp, v.depth < v.encode.length
  | simple _ | error _ | integer _ | bulk _ | nullBulk | nullArray => by simp [depth, encode]
  | array items => by
    have := depthAll_le_length items
    simp only [depth, encode, crlf, List.length_cons, List.length_append]
    omega

theorem depthAll_le_length : ∀ vs : List Resp, depthAll vs ≤ (encodeAll vs).length
  | [] => Nat.le_refl 0
  | v :: vs => by
    have h1 := depth_lt_length v
    have h2 := depthAll_le_length vs
    rw [depthAll, encodeAll, List.length_append]
    omega

end

theorem parse_encode {v : Resp} (hc : v.Clean) (rest : List UInt8) :
    parse (v.encode ++ rest) = some (v, rest) := by
  refine parseFuel_encode v _ rest hc ?_
  have := depth_lt_length v
  rw [List.length_append]
  omega

theorem parseAll_parse_encode : ∀ {vs : List Resp} (rest : List UInt8), CleanAll vs →
    parseAll parse vs.length (encodeAll vs ++ rest) = some (vs, rest)
  | [], _, _ => rfl
  | v :: vs, rest, hc => by
    rw [encodeAll, List.append_assoc, List.length_cons, parseAll, parse_encode hc.1]
    simp [parseAll_parse_encode rest hc.2]

end RoundTrip

end Resp

end Lib
