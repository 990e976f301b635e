import Mathlib.Data.Int.Notation
import Mathlib.Data.List.Forall2
import Mathlib.Data.List.Nodup
import SkynetCpp.Lib.Runs

/-!
# Requests with tags

A client gives each request a tag, and waits for an answer with this tag or for none; a server
answers what it owes in any order. Tags count up, and a request may not be able to carry its tag:
then it raises, and nothing is sent. How requests and answers are written and read is a parameter
(`Protocol`); what makes the two understand one another is `Lawful`. Then every run is `Exact`: each
request that waits gets one answer, and it is the one that was given to it.
-/

namespace Lib

namespace Multiplex

structure Protocol (ρ ν α ω : Type) where
  compose : ℕ → ρ → Option (List UInt8)
  expects : ρ → Bool
  take : List UInt8 → Option ((ℕ × ν) × List UInt8)
  wants : ν → Bool
  answer : ℕ → α → List UInt8
  read : List UInt8 → Option ((ℤ × ω) × List UInt8)

/-- What a server sees of a request, the answers that it gives, and what is read of them. -/
structure Promise (ρ ν α ω : Type) where
  view : ρ → ν
  Proper : α → Prop
  outcome : α → ω

variable {ρ ν α ω : Type}

/-- They understand one another, for the requests that can be composed. -/
structure Lawful (p : Protocol ρ ν α ω) (q : Promise ρ ν α ω) : Prop where
  take_nil : p.take [] = none
  take : ∀ tag r b rest, p.compose tag r = some b →
    p.take (b ++ rest) = some ((tag, q.view r), rest)
  wants : ∀ r, p.wants (q.view r) = p.expects r
  read_nil : p.read [] = none
  read : ∀ tag r b a rest, p.compose tag r = some b → q.Proper a →
    p.read (p.answer tag a ++ rest) = some (((tag : ℤ), q.outcome a), rest)

/-- The two parties, the bytes between them, and histories: what was sent, what the server has taken
and answered, what has come of it, and the tags of answers that nobody waited for. -/
structure State (ρ ν α ω : Type) where
  lastTag : ℕ := 0
  wire : List UInt8 := []
  back : List UInt8 := []
  waiting : List (ℕ × ρ) := []
  owed : List ℕ := []
  sent : List (ℕ × ρ) := []
  taken : List (ℕ × ν) := []
  answered : List (ℕ × α) := []
  got : List ((ℕ × ρ) × ω) := []
  unknown : List ℤ := []

inductive Label (ρ α : Type)
  | send (r : ρ)
  /-- a tag is used elsewhere -/
  | skip
  | serve
  | reply (tag : ℕ) (a : α)
  | receive

section Steps

variable (p : Protocol ρ ν α ω) (s : State ρ ν α ω)

def write (r : ρ) (b : List UInt8) : State ρ ν α ω :=
  { s with
    lastTag := s.lastTag + 1
    wire := s.wire ++ b
    waiting := s.waiting ++ if p.expects r then [(s.lastTag + 1, r)] else []
    sent := s.sent ++ [(s.lastTag + 1, r)] }

def send (r : ρ) : State ρ ν α ω :=
  match p.compose (s.lastTag + 1) r with
  | none => { s with lastTag := s.lastTag + 1 }
  | some b => write p s r b

def serve : Option (State ρ ν α ω) :=
  (p.take s.wire).map fun x =>
    { s with
      wire := x.2
      owed := s.owed ++ if p.wants x.1.2 then [x.1.1] else []
      taken := s.taken ++ [x.1] }

def reply (tag : ℕ) (a : α) : Option (State ρ ν α ω) :=
  if tag ∈ s.owed then
    some { s with
      owed := s.owed.filter (· ≠ tag)
      back := s.back ++ p.answer tag a
      answered := s.answered ++ [(tag, a)] }
  else none

/-- The wait of the request with this tag ends. -/
def wake (y : ℕ × ρ) (o : ω) (rest : List UInt8) : State ρ ν α ω :=
  { s with
    back := rest
    waiting := s.waiting.filter fun z => z.1 ≠ y.1
    got := s.got ++ [(y, o)] }

def receive : Option (State ρ ν α ω) :=
  (p.read s.back).map fun x =>
    match s.waiting.find? fun y => (y.1 : ℤ) = x.1.1 with
    | some y => wake s y x.1.2 x.2
    | none => { s with back := x.2, unknown := s.unknown ++ [x.1.1] }

def step : Label ρ α → Option (State ρ ν α ω)
  | .send r => some (send p s r)
  | .skip => some { s with lastTag := s.lastTag + 1 }
  | .serve => serve p s
  | .reply tag a => reply p s tag a
  | .receive => receive p s

end Steps

/-- The server gives the answers that it has promised. -/
def Keeps (q : Promise ρ ν α ω) (_ : State ρ ν α ω) : Label ρ α → Prop
  | .reply _ a => q.Proper a
  | _ => True

section Exact

variable (p : Protocol ρ ν α ω) (q : Promise ρ ν α ω)

/-- No two requests have one tag; the server has seen them as they were made; no request is answered
twice, or with another's answer, and no answer comes that nobody waits for; and where nothing is
under way and nothing owed, nothing is missing. -/
structure Exact (s : State ρ ν α ω) : Prop where
  tags : (s.sent.map Prod.fst).Nodup
  seen : s.taken <+: s.sent.map fun x => (x.1, q.view x.2)
  got : ∀ x ∈ s.got, x.1 ∈ s.sent ∧ ∃ a, (x.1.1, a) ∈ s.answered ∧ x.2 = q.outcome a
  once : (s.got.map fun x => x.1.1).Nodup
  answered : (s.answered.map Prod.fst).Nodup
  unknown : s.unknown = []
  complete : s.wire = [] → s.owed = [] → s.back = [] →
    s.waiting = [] ∧ ∀ x ∈ s.sent, p.expects x.2 = true → x ∈ s.got.map Prod.fst

/-- These bytes are taken for the request. -/
def Carries (bytes : List UInt8) (x : ℕ × ρ) : Prop := p.compose x.1 x.2 = some bytes

/-- This answer is read as what it is. -/
def Reads (x : ℕ × α) : Prop :=
  ∀ rest, p.read (p.answer x.1 x.2 ++ rest) = some (((x.1 : ℤ), q.outcome x.2), rest)

/-- The tags of the requests that wait for an answer. -/
def expected (l : List (ℕ × ρ)) : List ℕ := (l.filter fun x => p.expects x.2).map Prod.fst

/-- What has been served of the requests, and what is under way in either direction. -/
structure Ledger (s : State ρ ν α ω) (served pend : List (ℕ × ρ)) (bs : List (List UInt8))
    (done left : List (ℕ × α)) : Prop where
  sent : s.sent = served ++ pend
  tags : (s.sent.map Prod.fst).Nodup
  bound : ∀ x ∈ s.sent, x.1 ≤ s.lastTag
  composed : ∀ x ∈ s.sent, ∃ b, p.compose x.1 x.2 = some b
  taken : s.taken = served.map fun x => (x.1, q.view x.2)
  wire : s.wire = bs.flatten
  carries : List.Forall₂ (Carries p) bs pend
  answered : s.answered = done ++ left
  once : (s.answered.map Prod.fst).Nodup
  due : ∀ x ∈ s.answered, x.1 ∈ expected p served
  back : s.back = left.flatMap fun x => p.answer x.1 x.2
  reads : ∀ x ∈ left, Reads p q x
  owed : s.owed = (expected p served).filter fun tag => tag ∉ s.answered.map Prod.fst
  waiting : s.waiting
    = (s.sent.filter fun x => p.expects x.2).filter fun x => x.1 ∉ done.map Prod.fst
  got : (s.got.map fun x => (x.1.1, x.2)) = done.map fun x => (x.1, q.outcome x.2)
  mem : ∀ x ∈ s.got, x.1 ∈ s.sent
  unknown : s.unknown = []

def Inv (s : State ρ ν α ω) : Prop :=
  ∃ served pend bs done left, Ledger p q s served pend bs done left

end Exact

section Lemmas

variable {p : Protocol ρ ν α ω} {q : Promise ρ ν α ω} {s s' : State ρ ν α ω}
  {served pend : List (ℕ × ρ)} {bs : List (List UInt8)} {done left : List (ℕ × α)}

theorem expected_append (l l' : List (ℕ × ρ)) :
    expected p (l ++ l') = expected p l ++ expected p l' := by
  rw [expected, List.filter_append, List.map_append]
  rfl

theorem expected_singleton (x : ℕ × ρ) :
    expected p [x] = if p.expects x.2 then [x.1] else [] := by
  rw [expected, List.filter_singleton]
  cases p.expects x.2 <;> rfl

theorem inv_start : Inv p q ({} : State ρ ν α ω) :=
  ⟨[], [], [], [], [], ⟨rfl, List.nodup_nil, by simp, by simp, rfl, rfl, .nil, rfl, List.nodup_nil,
    by simp, rfl, by simp, rfl, rfl, rfl, by simp, rfl⟩⟩

/-- Where two of the requests have one tag, they are one. -/
theorem eq_of_tag (h : (s.sent.map Prod.fst).Nodup) {x y : ℕ × ρ} (hx : x ∈ s.sent)
    (hy : y ∈ s.sent) (hxy : x.1 = y.1) : x = y :=
  List.inj_on_of_nodup_map h hx hy hxy

theorem Ledger.fresh (h : Ledger p q s served pend bs done left) :
    s.lastTag + 1 ∉ s.sent.map Prod.fst := by
  intro hmem
  obtain ⟨x, hx, htag⟩ := List.mem_map.1 hmem
  have hle := h.bound x hx
  omega

theorem Ledger.skip (h : Ledger p q s served pend bs done left) :
    Ledger p q { s with lastTag := s.lastTag + 1 } served pend bs done left :=
  { h with bound := fun x hx => Nat.le_succ_of_le (h.bound x hx) }

theorem mem_expected {l : List (ℕ × ρ)} {tag : ℕ} :
    tag ∈ expected p l ↔ ∃ r, (tag, r) ∈ l ∧ p.expects r = true := by
  simp [expected]

/-- A request with its bytes. -/
theorem Ledger.write (h : Ledger p q s served pend bs done left) {r : ρ} {b : List UInt8}
    (hb : p.compose (s.lastTag + 1) r = some b) : Ledger p q (write p s r b) served
      (pend ++ [(s.lastTag + 1, r)]) (bs ++ [b]) done left where
  sent := by rw [Multiplex.write, h.sent, List.append_assoc]
  tags := by
    rw [Multiplex.write, List.map_append, List.nodup_append']
    refine ⟨h.tags, List.nodup_singleton _, ?_⟩
    rw [List.map_singleton, List.disjoint_singleton]
    exact h.fresh
  bound := by
    intro x hx
    rcases List.mem_append.1 hx with hx | hx
    · exact Nat.le_succ_of_le (h.bound x hx)
    · rw [List.mem_singleton.1 hx]
      exact Nat.le_refl (s.lastTag + 1)
  composed := by
    intro x hx
    rcases List.mem_append.1 hx with hx | hx
    · exact h.composed x hx
    · rw [List.mem_singleton.1 hx]
      exact ⟨b, hb⟩
  taken := h.taken
  wire := by rw [Multiplex.write, h.wire, List.flatten_append, List.flatten_singleton]
  carries := List.rel_append h.carries (.cons hb .nil)
  answered := h.answered
  once := h.once
  due := h.due
  back := h.back
  reads := h.reads
  owed := h.owed
  waiting := by
    have hnew : s.lastTag + 1 ∉ done.map Prod.fst := by
      intro hmem
      obtain ⟨x, hx, htag⟩ := List.mem_map.1 hmem
      obtain ⟨r', hr', -⟩ := mem_expected.1 (h.due x (by rw [h.answered]; simp [hx]))
      have hle := h.bound (x.1, r') (by rw [h.sent]; simp [hr'])
      simp only [htag] at hle
      omega
    simp only [Multiplex.write, h.waiting, List.filter_append, List.filter_singleton]
    cases p.expects r
    · rfl
    · simp [hnew]
  got := h.got
  mem := fun x hx => List.mem_append_left _ (h.mem x hx)
  unknown := h.unknown

theorem Ledger.send (h : Ledger p q s served pend bs done left) (r : ρ) : Inv p q (send p s r) := by
  unfold Multiplex.send
  split
  · exact ⟨_, _, _, _, _, h.skip⟩
  · rename_i b hb
    exact ⟨_, _, _, _, _, h.write hb⟩

section Law

variable (law : Lawful p q)

include law

theorem Ledger.serve (h : Ledger p q s served pend bs done left) (hs : serve p s = some s') :
    Inv p q s' := by
  unfold Multiplex.serve at hs
  cases h.carries with
  | nil =>
    rw [h.wire, List.flatten_nil, law.take_nil] at hs
    cases hs
  | @cons b x bs pend hcarry hcarries =>
    have hsent := h.sent
    have htags := h.tags
    have hfresh : x.1 ∉ s.answered.map Prod.fst := by
      intro hmem
      obtain ⟨y, hy, htag⟩ := List.mem_map.1 hmem
      obtain ⟨r, hr, -⟩ := mem_expected.1 (h.due y hy)
      rw [hsent, List.map_append, List.nodup_append'] at htags
      exact htags.2.2 (List.mem_map.2 ⟨_, hr, htag⟩) List.mem_cons_self
    rw [h.wire, List.flatten_cons, law.take _ _ _ _ hcarry, Option.map_some,
      Option.some.injEq] at hs
    subst hs
    refine ⟨served ++ [x], pend, bs, done, left, { h with
      sent := by rw [hsent, List.append_assoc, List.singleton_append]
      taken := by rw [h.taken, List.map_append, List.map_singleton]
      wire := rfl
      carries := hcarries
      due := fun y hy => by
        rw [expected_append]
        exact List.mem_append_left _ (h.due y hy)
      owed := ?_ }⟩
    simp only [h.owed, expected_append, List.filter_append, expected_singleton, law.wants]
    cases p.expects x.2
    · rfl
    · simp [hfresh]

theorem Ledger.reply (h : Ledger p q s served pend bs done left) {tag : ℕ} {a : α}
    (ha : q.Proper a) (hs : reply p s tag a = some s') : Inv p q s' := by
  unfold Multiplex.reply at hs
  split_ifs at hs with howed
  cases hs
  have hdue : tag ∈ expected p served ∧ tag ∉ s.answered.map Prod.fst := by
    rw [h.owed, List.mem_filter] at howed
    exact ⟨howed.1, of_decide_eq_true howed.2⟩
  obtain ⟨r, hr, -⟩ := mem_expected.1 hdue.1
  obtain ⟨b, hb⟩ := h.composed (tag, r) (by rw [h.sent]; exact List.mem_append_left _ hr)
  refine ⟨served, pend, bs, done, left ++ [(tag, a)], { h with
    answered := by rw [h.answered, List.append_assoc]
    once := ?_
    due := ?_
    back := by rw [h.back, List.flatMap_append, List.flatMap_singleton]
    reads := ?_
    owed := ?_ }⟩
  · rw [List.map_append, List.nodup_append']
    exact ⟨h.once, List.nodup_singleton _, List.disjoint_singleton.2 hdue.2⟩
  · intro x hx
    rcases List.mem_append.1 hx with hx | hx
    · exact h.due x hx
    · rw [List.mem_singleton.1 hx]
      exact hdue.1
  · intro x hx
    rcases List.mem_append.1 hx with hx | hx
    · exact h.reads x hx
    · rw [List.mem_singleton.1 hx]
      exact fun rest => law.read _ _ _ _ rest hb ha
  · rw [h.owed, List.filter_filter]
    refine List.filter_congr fun t _ => ?_
    have hiff : t ∉ (s.answered ++ [(tag, a)]).map Prod.fst
        ↔ t ≠ tag ∧ t ∉ s.answered.map Prod.fst := by
      rw [List.map_append, List.mem_append, List.map_singleton, List.mem_singleton, not_or,
        and_comm]
    rw [decide_eq_decide.2 hiff, Bool.decide_and]

theorem Ledger.receive (h : Ledger p q s served pend bs done left) (hs : receive p s = some s') :
    Inv p q s' := by
  unfold Multiplex.receive at hs
  cases left with
  | nil =>
    rw [h.back, List.flatMap_nil, law.read_nil] at hs
    cases hs
  | cons x left =>
    obtain ⟨hx, hreads⟩ := List.forall_mem_cons.1 h.reads
    have hanswered := h.answered
    have honce := h.once
    rw [hanswered, List.map_append, List.nodup_append'] at honce
    have hdone : x.1 ∉ done.map Prod.fst := fun hmem => honce.2.2 hmem List.mem_cons_self
    obtain ⟨r, hr, hexpects⟩ := mem_expected.1 (h.due x (by rw [hanswered]; simp))
    have hwaiting : (x.1, r) ∈ s.waiting := by
      rw [h.waiting, h.sent]
      simp only [List.mem_filter, List.mem_append, decide_eq_true_eq]
      exact ⟨⟨.inl hr, hexpects⟩, hdone⟩
    obtain ⟨y, hy⟩ := Option.isSome_iff_exists.1 (List.find?_isSome
      (p := fun y : ℕ × ρ => decide ((y.1 : ℤ) = x.1)).2 ⟨_, hwaiting, decide_eq_true rfl⟩)
    have htag : y.1 = x.1 := by
      have hfound := List.find?_some hy
      exact Int.ofNat_inj.1 (of_decide_eq_true hfound)
    have hmem : y ∈ s.sent := by
      have hfound := List.mem_of_find?_eq_some hy
      rw [h.waiting] at hfound
      exact List.mem_of_mem_filter (List.mem_of_mem_filter hfound)
    rw [h.back, List.flatMap_cons, hx, Option.map_some, Option.some.injEq] at hs
    simp only [hy] at hs
    subst hs
    refine ⟨served, pend, bs, done ++ [x], left, { h with
      answered := by rw [List.append_assoc, List.singleton_append]; exact hanswered
      back := rfl
      reads := hreads
      waiting := ?_
      got := by rw [wake, List.map_append, h.got, List.map_append, List.map_singleton, htag]; rfl
      mem := ?_ }⟩
    · rw [wake, h.waiting, List.filter_filter]
      refine List.filter_congr fun z _ => ?_
      have hiff : z.1 ∉ (done ++ [x]).map Prod.fst ↔ z.1 ≠ y.1 ∧ z.1 ∉ done.map Prod.fst := by
        rw [List.map_append, List.mem_append, List.map_singleton, List.mem_singleton, not_or,
          and_comm, htag]
      rw [decide_eq_decide.2 hiff, Bool.decide_and]
    · intro z hz
      rcases List.mem_append.1 hz with hz | hz
      · exact h.mem z hz
      · rw [List.mem_singleton.1 hz]
        exact hmem

theorem Inv.step {l : Label ρ α} (h : Inv p q s) (hl : Keeps q s l)
    (hs : step p s l = some s') : Inv p q s' := by
  obtain ⟨served, pend, bs, done, left, h⟩ := h
  cases l with
  | send r =>
    cases hs
    exact h.send r
  | skip =>
    cases hs
    exact ⟨_, _, _, _, _, h.skip⟩
  | serve => exact h.serve law hs
  | reply tag a => exact h.reply law hl hs
  | receive => exact h.receive law hs

theorem Carries.ne_nil {b : List UInt8} {x : ℕ × ρ} (h : Carries p b x) : b ≠ [] := by
  rintro rfl
  have htake := law.take x.1 x.2 [] [] h
  rw [List.append_nil, law.take_nil] at htake
  cases htake

theorem Reads.ne_nil {x : ℕ × α} (h : Reads p q x) : p.answer x.1 x.2 ≠ [] := by
  intro hnil
  have hread := h []
  rw [hnil, List.append_nil, law.read_nil] at hread
  cases hread

theorem Inv.exact (h : Inv p q s) : Exact p q s := by
  obtain ⟨served, pend, bs, done, left, h⟩ := h
  have hgot : s.got.map (fun x => x.1.1) = done.map Prod.fst := by
    have hmap := congrArg (List.map Prod.fst) h.got
    simpa only [List.map_map, Function.comp_def] using hmap
  have honce := h.once
  rw [h.answered, List.map_append, List.nodup_append'] at honce
  refine ⟨h.tags, ?_, ?_, hgot ▸ honce.1, h.once, h.unknown, ?_⟩
  · rw [h.taken, h.sent, List.map_append]
    exact List.prefix_append _ _
  · intro x hx
    refine ⟨h.mem x hx, ?_⟩
    have hmem : (x.1.1, x.2) ∈ s.got.map fun x => (x.1.1, x.2) := List.mem_map.2 ⟨x, hx, rfl⟩
    rw [h.got] at hmem
    obtain ⟨y, hy, heq⟩ := List.mem_map.1 hmem
    obtain ⟨htag, hout⟩ := Prod.mk.inj heq
    refine ⟨y.2, ?_, hout.symm⟩
    rw [h.answered, ← htag]
    exact List.mem_append_left _ hy
  · intro hwire howed hback
    have hpend : pend = [] := by
      cases h.carries with
      | nil => rfl
      | @cons b x bs pend hcarry hcarries =>
        rw [h.wire, List.flatten_cons, List.append_eq_nil_iff] at hwire
        exact absurd hwire.1 (Carries.ne_nil law hcarry)
    have hleft : left = [] := by
      cases left with
      | nil => rfl
      | cons x left =>
        rw [h.back, List.flatMap_cons, List.append_eq_nil_iff] at hback
        exact absurd hback.1 (Reads.ne_nil law (h.reads x List.mem_cons_self))
    have hdone : ∀ x ∈ s.sent, p.expects x.2 = true → x.1 ∈ done.map Prod.fst := by
      intro x hx hexpects
      have hserved : x.1 ∈ expected p served :=
        mem_expected.2 ⟨x.2, by rwa [h.sent, hpend, List.append_nil] at hx, hexpects⟩
      have hanswered : x.1 ∈ s.answered.map Prod.fst := by
        by_contra hnot
        have howes : x.1 ∈ s.owed := by
          rw [h.owed, List.mem_filter]
          exact ⟨hserved, decide_eq_true hnot⟩
        rw [howed] at howes
        cases howes
      rwa [h.answered, hleft, List.append_nil] at hanswered
    constructor
    · rw [h.waiting, List.filter_eq_nil_iff]
      intro x hx hnot
      obtain ⟨hx, hexpects⟩ := List.mem_filter.1 hx
      exact of_decide_eq_true hnot (hdone x hx hexpects)
    · intro x hx hexpects
      have hmem := hdone x hx hexpects
      rw [← hgot] at hmem
      obtain ⟨y, hy, htag⟩ := List.mem_map.1 hmem
      exact List.mem_map.2 ⟨y, hy, eq_of_tag h.tags (h.mem y hy) hx htag⟩

theorem inv_of_reaches (h : Reaches (Multiplex.step p) (Keeps q) {} s) : Inv p q s :=
  h.invariant inv_start fun _ _ _ _ hinv hl hs => hinv.step law hl hs

/-- What was sent could be composed. -/
theorem composed_of_reaches (h : Reaches (Multiplex.step p) (Keeps q) {} s) :
    ∀ x ∈ s.sent, ∃ b, p.compose x.1 x.2 = some b := by
  obtain ⟨served, pend, bs, done, left, hledger⟩ := inv_of_reaches law h
  exact hledger.composed

/-- Whatever the two do and in whatever order, the run is exact. -/
theorem exact_of_reaches (h : Reaches (Multiplex.step p) (Keeps q) {} s) : Exact p q s :=
  (inv_of_reaches law h).exact law

end Law

end Lemmas

end Multiplex

end Lib
