import Mathlib.Data.List.Forall2
import SkynetCpp.Lib.Runs

/-!
# Pipelined requests

A client writes requests one after another, without waiting, and reads the replies in the order of
its requests. A server takes a request from the bytes it was sent, and answers with bytes or not at
all. How requests and replies are written and read is a parameter (`Protocol`); what makes the two
understand one another is `Lawful`. Then every run is `Exact`: the server sees the requests as they
were made and in their order, and each request gets the answer that was given to it.
-/

namespace Lib

namespace Pipeline

/-- The client has a state, of which it makes requests and which may change by itself, and so has
the server; a reply is read by a function of the request. -/
structure Protocol (κ ι σ ρ ν α ω : Type) where
  compose : κ → ρ → List UInt8 × κ
  move : κ → ι → κ
  expects : ρ → Bool
  read : ρ → List UInt8 → Option (ω × List UInt8)
  take : σ → List UInt8 → Option (ν × List UInt8)
  serve : σ → ν → Option α → σ
  answer : α → List UInt8

/-- What both sides promise: the states of the client, the requests that it makes of a server in some
state, and what the server answers. -/
structure Promise (κ σ ρ ν α ω : Type) where
  Good : κ → Prop
  Sendable : σ → ρ → Prop
  Answers : σ → ν → Option α → Prop
  view : σ → ρ → ν
  outcome : ρ → α → ω

variable {κ ι σ ρ ν α ω : Type}

/-- They understand one another: a request that is good to send stays so, and is seen as what it is;
and the answer to it is read as what it is. -/
structure Lawful (p : Protocol κ ι σ ρ ν α ω) (q : Promise κ σ ρ ν α ω) : Prop where
  compose : ∀ k r, q.Good k → q.Good (p.compose k r).2
  move : ∀ k i, q.Good k → q.Good (p.move k i)
  take_nil : ∀ t, p.take t [] = none
  take : ∀ k r t rest, q.Good k → q.Sendable t r →
    p.take t ((p.compose k r).1 ++ rest) = some (q.view t r, rest)
  keeps : ∀ t r v a, q.Sendable t r → q.Answers t v a → q.Sendable (p.serve t v a) r
  answered : ∀ t r a, q.Sendable t r → q.Answers t (q.view t r) a → a.isSome = p.expects r
  read_nil : ∀ r, p.read r [] = none
  read : ∀ t r a rest, q.Sendable t r → q.Answers t (q.view t r) (some a) →
    p.read r (p.answer a ++ rest) = some (q.outcome r a, rest)

/-- The two parties, the bytes between them, and histories: what was requested, what the server has
taken and answered, and what has come of it. -/
structure State (κ σ ρ ν α ω : Type) where
  client : κ
  server : σ
  wire : List UInt8 := []
  back : List UInt8 := []
  queue : List ρ := []
  sent : List ρ := []
  taken : List (ν × Option α) := []
  got : List (ρ × ω) := []

inductive Label (ι ρ α : Type)
  | send (r : ρ)
  | move (i : ι)
  | serve (a : Option α)
  | receive

section Steps

variable (p : Protocol κ ι σ ρ ν α ω)

def send (s : State κ σ ρ ν α ω) (r : ρ) : State κ σ ρ ν α ω :=
  { s with
    client := (p.compose s.client r).2
    wire := s.wire ++ (p.compose s.client r).1
    queue := s.queue ++ if p.expects r then [r] else []
    sent := s.sent ++ [r] }

/-- The server takes a request, and answers it. -/
def serve (s : State κ σ ρ ν α ω) (a : Option α) : Option (State κ σ ρ ν α ω) :=
  (p.take s.server s.wire).map fun x =>
    { s with
      server := p.serve s.server x.1 a
      wire := x.2
      back := s.back ++ (a.map p.answer).getD []
      taken := s.taken ++ [(x.1, a)] }

/-- The client reads the reply to the first request that waits. -/
def receive (s : State κ σ ρ ν α ω) : Option (State κ σ ρ ν α ω) :=
  match s.queue with
  | [] => none
  | r :: queue =>
    (p.read r s.back).map fun x => { s with queue, back := x.2, got := s.got ++ [(r, x.1)] }

def step (s : State κ σ ρ ν α ω) : Label ι ρ α → Option (State κ σ ρ ν α ω)
  | .send r => some (send p s r)
  | .move i => some { s with client := p.move s.client i }
  | .serve a => serve p s a
  | .receive => receive p s

end Steps

section Exact

variable (p : Protocol κ ι σ ρ ν α ω) (q : Promise κ σ ρ ν α ω)

/-- Each keeps its promise. -/
def Keeps (s : State κ σ ρ ν α ω) : Label ι ρ α → Prop
  | .send r => q.Sendable s.server r
  | .serve a => ∀ x ∈ p.take s.server s.wire, q.Answers s.server x.1 a
  | _ => True

/-- What a server that begins in this state takes for these requests, with these answers. -/
def views (t : σ) : List ρ → List (Option α) → List (ν × Option α)
  | r :: rs, a :: as => (q.view t r, a) :: views (p.serve t (q.view t r) a) rs as
  | _, _ => []

/-- The state of the server then. -/
def serveAll (t : σ) : List ρ → List (Option α) → σ
  | r :: rs, a :: as => serveAll (p.serve t (q.view t r) a) rs as
  | _, _ => t

/-- The answers, with their requests. -/
def replies (rs : List ρ) (as : List (Option α)) : List (ρ × α) :=
  (rs.zip as).filterMap fun x => x.2.map fun a => (x.1, a)

/-- The server has seen the requests as they were made; each result is that of the answer to its
request; and where nothing is under way, nothing is missing. -/
structure Exact (t : σ) (s : State κ σ ρ ν α ω) : Prop where
  taken : s.taken = views p q t s.sent (s.taken.map Prod.snd)
  server : s.server = serveAll p q t s.sent (s.taken.map Prod.snd)
  got : s.got <+: (replies s.sent (s.taken.map Prod.snd)).map fun x => (x.1, q.outcome x.1 x.2)
  whole : s.wire = [] → s.taken.length = s.sent.length
  complete : s.wire = [] → s.back = [] → s.got.map Prod.fst = s.sent.filter p.expects

end Exact

variable {p : Protocol κ ι σ ρ ν α ω} {q : Promise κ σ ρ ν α ω}

section Histories

variable {rs rs' : List ρ} {as : List (Option α)}

theorem views_append (t : σ) (h : rs.length = as.length) :
    views p q t (rs ++ rs') as = views p q t rs as := by
  induction rs generalizing t as with
  | nil =>
    obtain rfl := List.length_eq_zero_iff.1 h.symm
    cases rs' <;> rfl
  | cons r rs ih =>
    obtain ⟨a, as, rfl⟩ := List.exists_cons_of_length_eq_add_one h.symm
    rw [List.cons_append, views, views, ih _ (by simpa using h)]

theorem serveAll_append (t : σ) (h : rs.length = as.length) :
    serveAll p q t (rs ++ rs') as = serveAll p q t rs as := by
  induction rs generalizing t as with
  | nil =>
    obtain rfl := List.length_eq_zero_iff.1 h.symm
    cases rs' <;> rfl
  | cons r rs ih =>
    obtain ⟨a, as, rfl⟩ := List.exists_cons_of_length_eq_add_one h.symm
    rw [List.cons_append, serveAll, serveAll, ih _ (by simpa using h)]

theorem views_append_singleton (t : σ) (r : ρ) (a : Option α) (h : rs.length = as.length) :
    views p q t (rs ++ [r]) (as ++ [a])
      = views p q t rs as ++ [(q.view (serveAll p q t rs as) r, a)] := by
  induction rs generalizing t as with
  | nil =>
    obtain rfl := List.length_eq_zero_iff.1 h.symm
    rfl
  | cons r' rs ih =>
    obtain ⟨a', as, rfl⟩ := List.exists_cons_of_length_eq_add_one h.symm
    rw [List.cons_append, List.cons_append, views, views, ih _ (by simpa using h)]
    rfl

theorem serveAll_append_singleton (t : σ) (r : ρ) (a : Option α) (h : rs.length = as.length) :
    serveAll p q t (rs ++ [r]) (as ++ [a])
      = p.serve (serveAll p q t rs as) (q.view (serveAll p q t rs as) r) a := by
  induction rs generalizing t as with
  | nil =>
    obtain rfl := List.length_eq_zero_iff.1 h.symm
    rfl
  | cons r' rs ih =>
    obtain ⟨a', as, rfl⟩ := List.exists_cons_of_length_eq_add_one h.symm
    rw [List.cons_append, List.cons_append, serveAll, serveAll, ih _ (by simpa using h)]

theorem replies_append (h : rs.length = as.length) : replies (rs ++ rs') as = replies rs as := by
  rw [replies, replies, ← List.append_nil as, List.zip_append h, List.zip_nil_right,
    List.append_nil, List.append_nil]

theorem replies_append_singleton (r : ρ) (a : Option α) (h : rs.length = as.length) :
    replies (rs ++ [r]) (as ++ [a]) = replies rs as ++ (a.map fun x => (r, x)).toList := by
  rw [replies, replies, List.zip_append h, List.filterMap_append]
  cases a <;> rfl

end Histories

section Invariant

variable (p q)

/-- These bytes are taken for the request. -/
def Carries (bytes : List UInt8) (r : ρ) : Prop :=
  ∀ t rest, q.Sendable t r → p.take t (bytes ++ rest) = some (q.view t r, rest)

/-- This answer to the request is read as what it is. -/
def Reads (x : ρ × α) : Prop :=
  ∀ rest, p.read x.1 (p.answer x.2 ++ rest) = some (q.outcome x.1 x.2, rest)

/-- What has been served of the requests, and what is under way in either direction. -/
structure Ledger (t : σ) (s : State κ σ ρ ν α ω) (served pend : List ρ) (bs : List (List UInt8))
    (done left : List (ρ × α)) : Prop where
  good : q.Good s.client
  sent : s.sent = served ++ pend
  length : served.length = (s.taken.map Prod.snd).length
  taken : s.taken = views p q t served (s.taken.map Prod.snd)
  server : s.server = serveAll p q t served (s.taken.map Prod.snd)
  wire : s.wire = bs.flatten
  carries : List.Forall₂ (Carries p q) bs pend
  sendable : ∀ r ∈ pend, q.Sendable s.server r
  replies : replies served (s.taken.map Prod.snd) = done ++ left
  got : s.got = done.map fun x => (x.1, q.outcome x.1 x.2)
  back : s.back = left.flatMap fun x => p.answer x.2
  reads : ∀ x ∈ left, Reads p q x
  queue : s.queue = left.map Prod.fst ++ pend.filter p.expects
  served : done.map Prod.fst ++ left.map Prod.fst = served.filter p.expects

def Inv (t : σ) (s : State κ σ ρ ν α ω) : Prop :=
  ∃ served pend bs done left, Ledger p q t s served pend bs done left

variable {p q}

theorem inv_start {k : κ} (hk : q.Good k) (t : σ) : Inv p q t { client := k, server := t } := by
  refine ⟨[], [], [], [], [], ?_⟩
  exact ⟨hk, rfl, rfl, rfl, rfl, rfl, .nil, by simp, rfl, rfl, rfl, by simp, rfl, rfl⟩

variable (law : Lawful p q)

include law

theorem Carries.ne_nil {bytes : List UInt8} {r : ρ} {t : σ} (h : Carries p q bytes r)
    (hr : q.Sendable t r) : bytes ≠ [] := by
  rintro rfl
  have htake := h t [] hr
  rw [List.append_nil, law.take_nil] at htake
  cases htake

theorem Reads.ne_nil {x : ρ × α} (h : Reads p q x) : p.answer x.2 ≠ [] := by
  intro hnil
  have hread := h []
  rw [hnil, List.append_nil, law.read_nil] at hread
  cases hread

variable {t : σ} {s s' : State κ σ ρ ν α ω} {served pend : List ρ} {bs : List (List UInt8)}
  {done left : List (ρ × α)}

theorem Ledger.send (h : Ledger p q t s served pend bs done left) {r : ρ}
    (hr : q.Sendable s.server r) :
    Ledger p q t (send p s r) served (pend ++ [r]) (bs ++ [(p.compose s.client r).1]) done left where
  good := law.compose _ _ h.good
  sent := by rw [Pipeline.send, h.sent, List.append_assoc]
  length := h.length
  taken := h.taken
  server := h.server
  wire := by rw [Pipeline.send, h.wire, List.flatten_append, List.flatten_singleton]
  carries := List.rel_append h.carries (.cons (fun t rest => law.take _ _ t rest h.good) .nil)
  sendable := by
    intro r' hr'
    rcases List.mem_append.1 hr' with hr' | hr'
    · exact h.sendable r' hr'
    · rwa [List.mem_singleton.1 hr']
  replies := h.replies
  got := h.got
  back := h.back
  reads := h.reads
  queue := by
    rw [Pipeline.send, h.queue, List.append_assoc, List.filter_append, List.filter_singleton]
    cases p.expects r <;> rfl
  served := h.served

theorem Ledger.move (h : Ledger p q t s served pend bs done left) (i : ι) :
    Ledger p q t { s with client := p.move s.client i } served pend bs done left :=
  { h with good := law.move _ _ h.good }

theorem Ledger.receive (h : Ledger p q t s served pend bs done left)
    (hs : receive p s = some s') : Inv p q t s' := by
  unfold Pipeline.receive at hs
  cases left with
  | nil =>
    rw [h.back, List.flatMap_nil] at hs
    split at hs
    · cases hs
    · rw [law.read_nil] at hs
      cases hs
  | cons x left =>
    obtain ⟨hx, hreads⟩ := List.forall_mem_cons.1 h.reads
    have hqueue := h.queue
    rw [List.map_cons, List.cons_append] at hqueue
    rw [hqueue, h.back, List.flatMap_cons] at hs
    simp only [hx (left.flatMap fun x => p.answer x.2), Option.map_some, Option.some.injEq] at hs
    subst hs
    exact ⟨served, pend, bs, done ++ [x], left, {
      h with
      replies := by rw [h.replies, List.append_assoc, List.singleton_append]
      got := by simp only [h.got, List.map_append, List.map_cons, List.map_nil]
      back := rfl
      reads := hreads
      queue := rfl
      served := by
        rw [← h.served, List.map_append, List.append_assoc]
        rfl }⟩

theorem Ledger.serve (h : Ledger p q t s served pend bs done left) {a : Option α}
    (ha : ∀ x ∈ p.take s.server s.wire, q.Answers s.server x.1 a)
    (hs : serve p s a = some s') : Inv p q t s' := by
  unfold Pipeline.serve at hs
  cases h.carries with
  | nil =>
    rw [h.wire, List.flatten_nil, law.take_nil] at hs
    cases hs
  | @cons b r bs pend hcarry hcarries =>
    obtain ⟨hr, hpend⟩ := List.forall_mem_cons.1 h.sendable
    have htake : p.take s.server s.wire = some (q.view s.server r, bs.flatten) := by
      rw [h.wire, List.flatten_cons]
      exact hcarry s.server _ hr
    have hans : q.Answers s.server (q.view s.server r) a := ha (_, _) htake
    have hsome := law.answered _ _ _ hr hans
    rw [htake, Option.map_some, Option.some.injEq] at hs
    subst hs
    refine ⟨served ++ [r], pend, bs, done, left ++ (a.map fun x => (r, x)).toList, ?_⟩
    have hlength := h.length
    constructor
    · exact h.good
    · rw [h.sent, List.append_assoc, List.singleton_append]
    · simpa using hlength
    · simp only [List.map_append, List.map_cons, List.map_nil]
      rw [views_append_singleton t r a hlength, ← h.server, ← h.taken]
    · simp only [List.map_append, List.map_cons, List.map_nil]
      rw [serveAll_append_singleton t r a hlength, ← h.server]
    · rfl
    · exact hcarries
    · exact fun r' hr' => law.keeps _ _ _ _ (hpend r' hr') hans
    · simp only [List.map_append, List.map_cons, List.map_nil]
      rw [replies_append_singleton r a hlength, h.replies, List.append_assoc]
    · exact h.got
    · rw [h.back, List.flatMap_append]
      cases a <;> simp
    · intro x hx
      rcases List.mem_append.1 hx with hx | hx
      · exact h.reads x hx
      · cases a with
        | none => cases hx
        | some a =>
          obtain rfl := List.mem_singleton.1 hx
          exact fun rest => law.read _ _ _ rest hr hans
    · rw [h.queue, List.filter_cons, ← hsome]
      cases a <;> simp
    · rw [List.filter_append, ← h.served, List.filter_singleton, ← hsome]
      cases a <;> simp

theorem Inv.step {l : Label ι ρ α} (h : Inv p q t s) (hl : Keeps p q s l)
    (hs : step p s l = some s') : Inv p q t s' := by
  obtain ⟨served, pend, bs, done, left, h⟩ := h
  cases l with
  | send r =>
    cases hs
    exact ⟨_, _, _, _, _, h.send law hl⟩
  | move i =>
    cases hs
    exact ⟨_, _, _, _, _, h.move law i⟩
  | serve a => exact h.serve law hl hs
  | receive => exact h.receive law hs

theorem Inv.exact (h : Inv p q t s) : Exact p q t s := by
  obtain ⟨served, pend, bs, done, left, h⟩ := h
  have hpend : s.wire = [] → pend = [] := by
    intro hwire
    cases h.carries with
    | nil => rfl
    | @cons b r bs pend hcarry hcarries =>
      rw [h.wire, List.flatten_cons, List.append_eq_nil_iff] at hwire
      exact absurd hwire.1 (hcarry.ne_nil law (h.sendable r List.mem_cons_self))
  have hleft : s.back = [] → left = [] := by
    intro hback
    cases left with
    | nil => rfl
    | cons x left =>
      rw [h.back, List.flatMap_cons, List.append_eq_nil_iff] at hback
      exact absurd hback.1 ((h.reads x List.mem_cons_self).ne_nil law)
  constructor
  · rw [h.sent, views_append t h.length, ← h.taken]
  · rw [h.sent, serveAll_append t h.length, ← h.server]
  · rw [h.sent, replies_append h.length, h.replies, h.got, List.map_append]
    exact List.prefix_append _ _
  · intro hwire
    rw [h.sent, hpend hwire, List.append_nil, h.length, List.length_map]
  · intro hwire hback
    have hserved := h.served
    rw [hleft hback, List.map_nil, List.append_nil] at hserved
    rw [h.sent, hpend hwire, List.append_nil, ← hserved, h.got, List.map_map]
    rfl

end Invariant

end Pipeline

end Lib
