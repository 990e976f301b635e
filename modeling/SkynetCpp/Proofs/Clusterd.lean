import SkynetCpp.Clusterd
import SkynetCpp.Proofs.Cluster

/-!
# Cluster messages arrive whole or not at all

A message of less than `MULTI_PART` bytes is one packet, and arrives
(`intact_iff`). A larger one does not: its size, which comes with the head, is not appended, so
that `concat` finds no size before the parts and the message is answered as an invalid one
(`not_intact_of_large`).
-/

namespace SkynetCpp

open Lib

namespace Clusterd

open Cluster

/-- A message is handed to a service. -/
def Effect.isDelivery : Effect → Bool
  | .rawsend _ _ | .rawcall _ _ => true
  | _ => false

/-- The service a message to this address is for. Number 0 asks for a name. -/
def destination (env : Env) (addr : Address) : Option Handle :=
  if addr = .number 0 then none
  else
    let addr := match addr with
      | .name name => if isname (some addr) then env.registerNameCache name else some addr
      | .number _ => some addr
    addr.bind fun addr => (resolveAddr env addr).toOption

/-- The packets of the message `m`, which are marked, among packets of other sessions. -/
structure Traffic (m : Outgoing) (stream : List (Bool × Bytes)) : Prop where
  own : (stream.filter (·.1)).map (·.2) = m.packets
  others : ∀ p ∈ stream, p.1 = false →
    ∃ m' : Outgoing, m'.Valid ∧ m'.session ≠ m.session ∧ p.2 ∈ m'.packets

/-- The deliveries from the marked packets. -/
def deliveries (marks : List Bool) (effects : List (List Effect)) : List Effect :=
  ((marks.zip effects).filter (·.1)).flatMap fun p => p.2.filter Effect.isDelivery

/-- `m` arrives: its packets cause one delivery, of the message, as a push or a call like it, to
the service it is for; and nothing is left of it. -/
def Intact (env : Env) (connId : ℤ) (large : LargeRequests) (m : Outgoing)
    (stream : List (Bool × Bytes)) : Prop :=
  let received := (stream.map (·.2)).flatten
  let read := readLoop received.length received
  let dispatched := dispatchAll env connId large read.1
  read.1.length = stream.length
    ∧ (∃ dest, destination env m.addr = some dest
      ∧ deliveries (stream.map (·.1)) dispatched.2
        = [if m.isPush then .rawsend dest m.msg else .rawcall dest m.msg])
    ∧ entry dispatched.1 connId m.session = none

section ReadLoop

theorem readLoop_cons {p : Bytes} {r : Request} (h : Carries p r) {fuel : ℕ} {rest : Bytes} :
    readLoop (fuel + 1) (p ++ rest)
      = (r :: (readLoop fuel rest).1, (readLoop fuel rest).2) := by
  obtain ⟨data, rfl, h0, h1, hr⟩ := h
  have h2 : (fillHeader data.length).length = 2 := rfl
  have htake : (fillHeader data.length ++ data ++ rest).take 2 = fillHeader data.length ++ [] := by
    rw [List.append_assoc, List.take_left' h2, List.append_nil]
  have hdata : ((fillHeader data.length ++ data ++ rest).drop 2).take data.length = data := by
    rw [List.append_assoc, List.drop_left' h2, List.take_left]
  have hrest : (fillHeader data.length ++ data ++ rest).drop (2 + data.length) = rest :=
    List.drop_left' (by rw [List.length_append, h2])
  have hlen : (fillHeader data.length ++ data ++ rest).length = 2 + data.length + rest.length := by
    rw [List.length_append, List.length_append, h2]
  rw [readLoop]
  simp only [htake, unpackHeader_fillHeader h1, hdata, hr, hrest, hlen]
  rw [if_neg (by omega), if_neg (by omega), if_neg (by omega)]

/-- `read_loop` cuts the stream where the packets end. -/
theorem readLoop_packets {ps : List Bytes} {rs : List Request} (h : List.Forall₂ Carries ps rs) :
    ∀ fuel, ps.flatten.length ≤ fuel → readLoop fuel ps.flatten = (rs, .reading []) := by
  induction h with
  | nil => intro fuel _; cases fuel <;> rfl
  | @cons p r ps rs hp _ ih =>
    intro fuel hf
    have hpos : 0 < p.length := by
      obtain ⟨data, rfl, h0, -, -⟩ := id hp
      rw [List.length_append]
      omega
    rw [List.flatten_cons, List.length_append] at hf
    obtain ⟨fuel, rfl⟩ : ∃ f, fuel = f + 1 := ⟨fuel - 1, by omega⟩
    rw [List.flatten_cons, readLoop_cons hp, ih fuel (by omega)]

end ReadLoop

section Requests

variable {m : Outgoing}

/-- A request of another message than `m`. -/
def Other (m : Outgoing) (r : Request) : Prop :=
  r.session ≠ m.session ∧ (r.padding = true → r.session ≠ 0)

theorem mem_partRequests {session part : ℕ} {msg : Bytes} {r : Request}
    (h : r ∈ Outgoing.partRequests session part msg) :
    r.session = session ∧ r.addr = none ∧ r.msg ≠ none := by
  induction part generalizing msg with
  | zero => cases h
  | succ part ih =>
    rcases List.mem_cons.1 h with rfl | h
    · exact ⟨rfl, rfl, nofun⟩
    · exact ih h

theorem session_of_mem_requests {r : Request} (h : r ∈ m.requests) :
    r.session = m.session ∨ r.session = 0 ∧ r.padding = false := by
  unfold Outgoing.requests at h
  by_cases hsz : m.msg.length < MULTI_PART
  · rw [if_pos hsz, List.mem_singleton] at h
    subst h
    cases hp : m.isPush
    · exact .inl rfl
    · exact .inr ⟨rfl, rfl⟩
  · rw [if_neg hsz] at h
    rcases List.mem_cons.1 h with rfl | h
    · exact .inl rfl
    · exact .inl (mem_partRequests h).1

/-- What the other packets of the connection are read as. -/
theorem other_of_mem_packets {m' : Outgoing} (hm : m.Valid) (hm' : m'.Valid)
    (hne : m'.session ≠ m.session) {p : Bytes} (hp : p ∈ m'.packets) :
    ∃ r, Carries p r ∧ Other m r := by
  obtain ⟨r, hr, hc⟩ : ∃ r ∈ m'.requests, Carries p r := by
    obtain ⟨i, hi, rfl⟩ := List.mem_iff_getElem.1 hp
    have hlen := (carries_packets hm').length_eq
    exact ⟨_, List.getElem_mem (hlen ▸ hi), (carries_packets hm').get hi (hlen ▸ hi)⟩
  have h1 := hm.session.1
  have h1' := hm'.session.1
  refine ⟨r, hc, ?_⟩
  rcases session_of_mem_requests hr with h | ⟨h, hpad⟩
  · exact ⟨by omega, fun _ => by omega⟩
  · exact ⟨by omega, fun h => by rw [hpad] at h; cases h⟩

/-- The requests of a stream, marked as its packets are. -/
theorem exists_requests {stream : List (Bool × Bytes)} {ps : List Bytes} {rs : List Request}
    (hc : List.Forall₂ Carries ps rs) (hown : (stream.filter (·.1)).map (·.2) = ps)
    (hother : ∀ p ∈ stream, p.1 = false → ∃ r, Carries p.2 r ∧ Other m r) :
    ∃ marked : List (Bool × Request), marked.map (·.1) = stream.map (·.1)
      ∧ List.Forall₂ Carries (stream.map (·.2)) (marked.map (·.2))
      ∧ (marked.filter (·.1)).map (·.2) = rs
      ∧ ∀ q ∈ marked, q.1 = false → Other m q.2 := by
  induction stream generalizing ps rs with
  | nil =>
    subst hown
    cases hc
    exact ⟨[], rfl, .nil, rfl, fun _ h => absurd h List.not_mem_nil⟩
  | cons p stream ih =>
    obtain ⟨own, packet⟩ := p
    have hother' := fun q hq => hother q (List.mem_cons_of_mem _ hq)
    cases own with
    | true =>
      subst hown
      simp only [List.filter_cons, if_true, List.map_cons] at hc
      rcases hc with _ | ⟨hp, hc⟩
      obtain ⟨marked, hmarks, hcs, hrs, ho⟩ := ih hc rfl hother'
      refine ⟨(true, _) :: marked, by rw [List.map_cons, List.map_cons, hmarks], .cons hp hcs, ?_,
        fun q hq hq0 => ?_⟩
      · simp only [List.filter_cons, if_true, List.map_cons, hrs]
      · rcases List.mem_cons.1 hq with rfl | hq
        · cases hq0
        · exact ho q hq hq0
    | false =>
      obtain ⟨r, hr, hor⟩ := hother _ List.mem_cons_self rfl
      obtain ⟨marked, hmarks, hcs, hrs, ho⟩ := ih hc (by simpa using hown) hother'
      refine ⟨(false, r) :: marked, by rw [List.map_cons, List.map_cons, hmarks], .cons hr hcs,
        by simpa using hrs, fun q hq hq0 => ?_⟩
      rcases List.mem_cons.1 hq with rfl | hq
      · exact hor
      · exact ho q hq hq0

end Requests

section Dispatch

variable {env : Env} {connId : ℤ} {large : LargeRequests} {r : Request}

theorem entry_setEntry (session session' : ℕ) (req : Option LargeRequest) :
    entry (setEntry large connId session req) connId session'
      = if session' = session then req else entry large connId session' := by
  unfold entry setEntry
  rw [Function.update_self, Option.bind_some]
  split_ifs with h
  · rw [h, Function.update_self]
  · rw [Function.update_of_ne h]
    cases large connId <;> rfl

/-- `dispatch_request` leaves the entries of other sessions alone. -/
theorem entry_dispatchRequest {session : ℕ} (h : r.session ≠ session) :
    entry (dispatchRequest env connId large r).1 connId session = entry large connId session := by
  unfold dispatchRequest
  by_cases hp : r.padding = true
  · simp only [hp, if_true]
    rw [entry_setEntry, if_neg h.symm]
  · simp only [hp]
    cases entry large connId r.session <;>
    · show entry (setEntry large connId r.session none) connId session = _
      rw [entry_setEntry, if_neg h.symm]

/-- Only a packet that others follow leaves an entry. -/
theorem entry_none_dispatchRequest {session : ℕ} (he : entry large connId session = none)
    (h : r.padding = true → r.session ≠ session) :
    entry (dispatchRequest env connId large r).1 connId session = none := by
  by_cases hs : r.session = session
  · have hp : r.padding = false := by
      cases hp : r.padding
      · rfl
      · exact absurd hs (h hp)
    subst hs
    unfold dispatchRequest
    simp only [hp, he]
    exact (entry_setEntry _ _ _).trans (if_pos rfl)
  · rw [entry_dispatchRequest hs, he]

theorem isDelivery_respond (session : ℕ) (result : Except Bytes Bytes) :
    (respond connId session result).filter Effect.isDelivery = [] := by
  rw [List.filter_eq_nil_iff]
  intro e he
  unfold respond at he
  cases result <;>
  · obtain ⟨p, -, rfl⟩ := List.mem_map.1 he
    exact Bool.false_ne_true

theorem isDelivery_queryName (session : ℕ) (msg : Bytes) :
    (queryName env connId session msg).filter Effect.isDelivery = [] := by
  unfold queryName
  split
  · rfl
  · simp only []
    split
    · rfl
    · split
      · exact isDelivery_respond ..
      · split
        · rfl
        · exact isDelivery_respond ..

/-- What `deliver` delivers: the message, to the service it is for, if there is one. -/
theorem isDelivery_deliver (addr : Address) (session : ℕ) (msg : Bytes) (isPush : Bool) :
    (deliver env connId (some addr) session msg isPush).filter Effect.isDelivery
      = (destination env addr).toList.map fun dest =>
        if isPush then .rawsend dest msg else .rawcall dest msg := by
  unfold deliver destination
  by_cases h0 : addr = .number 0
  · rw [if_pos h0, if_pos (by rw [h0])]
    exact isDelivery_queryName ..
  · rw [if_neg h0, if_neg (by rwa [Option.some.injEq])]
    have hnone : ∀ err, (respond connId session (.error err)).filter Effect.isDelivery
        = (none : Option Handle).toList.map fun dest =>
          if isPush then Effect.rawsend dest msg else .rawcall dest msg :=
      fun err => isDelivery_respond ..
    cases addr with
    | number n =>
      rcases hr : resolveAddr env (.number n) with err | dest <;> simp only [hr, Option.bind_some]
      · cases isPush
        exacts [hnone err, rfl]
      · cases isPush <;> rfl
    | name s =>
      simp only []
      by_cases hname : isname (some (.name s)) = true
      · simp only [hname, if_true]
        cases env.registerNameCache s with
        | none => exact hnone _
        | some a =>
          rcases hr : resolveAddr env a with err | dest <;> simp only [hr, Option.bind_some]
          · cases isPush
            exacts [hnone err, rfl]
          · cases isPush <;> rfl
      · simp only [hname]
        rcases hr : resolveAddr env (.name s) with err | dest <;>
          simp only [hr, Bool.false_eq_true, if_false, Option.bind_some]
        · cases isPush
          exacts [hnone err, rfl]
        · cases isPush <;> rfl

end Dispatch

section Run

variable {env : Env} {connId : ℤ} {m : Outgoing}

theorem dispatchAll_cons (large : LargeRequests) (r : Request) (rs : List Request) :
    dispatchAll env connId large (r :: rs)
      = ((dispatchAll env connId (dispatchRequest env connId large r).1 rs).1,
        (dispatchRequest env connId large r).2
          :: (dispatchAll env connId (dispatchRequest env connId large r).1 rs).2) :=
  rfl

theorem deliveries_cons (mark : Bool) (marks : List Bool) (e : List Effect)
    (effects : List (List Effect)) :
    deliveries (mark :: marks) (e :: effects)
      = (if mark then e.filter Effect.isDelivery else []) ++ deliveries marks effects := by
  cases mark <;> rfl

/-- What the one packet of a small message delivers. -/
def delivered (env : Env) (m : Outgoing) : List Effect :=
  (destination env m.addr).toList.map fun dest =>
    if m.isPush then .rawsend dest m.msg else .rawcall dest m.msg

/-- The entries of a connection hold no part of `m`, nor of a message of session 0, that of every
small push. -/
def Clean (large : LargeRequests) (connId : ℤ) (m : Outgoing) : Prop :=
  entry large connId 0 = none ∧ entry large connId m.session = none

theorem Clean.other {large : LargeRequests} (h : Clean large connId m) {r : Request}
    (hr : Other m r) : Clean (dispatchRequest env connId large r).1 connId m :=
  ⟨entry_none_dispatchRequest h.1 hr.2, entry_none_dispatchRequest h.2 fun _ => hr.1⟩

section Small

variable (hsmall : m.msg.length < MULTI_PART) {large : LargeRequests} {r : Request}

include hsmall

theorem eq_of_mem_requests (hr : r ∈ m.requests) :
    r = { addr := some m.addr, session := if m.isPush then 0 else m.session, msg := some m.msg,
          sz := m.msg.length, padding := false, isPush := m.isPush } := by
  unfold Outgoing.requests at hr
  rwa [if_pos hsmall, List.mem_singleton] at hr

theorem Clean.own (h : Clean large connId m) (hr : r ∈ m.requests) :
    Clean (dispatchRequest env connId large r).1 connId m := by
  have hp : r.padding ≠ true := by
    rw [eq_of_mem_requests hsmall hr]
    exact Bool.false_ne_true
  exact ⟨entry_none_dispatchRequest h.1 fun h => absurd h hp,
    entry_none_dispatchRequest h.2 fun h => absurd h hp⟩

/-- The one packet of a small message delivers it. -/
theorem delivered_small (h : Clean large connId m) (hr : r ∈ m.requests) :
    (dispatchRequest env connId large r).2.filter Effect.isDelivery = delivered env m := by
  have heq := eq_of_mem_requests hsmall hr
  have he : entry large connId r.session = none := by
    rw [heq]
    cases m.isPush
    · exact h.2
    · exact h.1
  unfold dispatchRequest
  simp only [he]
  rw [heq]
  exact isDelivery_deliver ..

variable (env) in
theorem deliveries_small {marked : List (Bool × Request)}
    (hown : ∀ q ∈ marked, q.1 = true → q.2 ∈ m.requests)
    (hother : ∀ q ∈ marked, q.1 = false → Other m q.2) (h : Clean large connId m) :
    let dispatched := dispatchAll env connId large (marked.map (·.2))
    deliveries (marked.map (·.1)) dispatched.2
        = (marked.filter (·.1)).flatMap (fun _ => delivered env m)
      ∧ Clean dispatched.1 connId m := by
  induction marked generalizing large with
  | nil => exact ⟨rfl, h⟩
  | cons q marked ih =>
    obtain ⟨own, r⟩ := q
    have ih := fun h => @ih (dispatchRequest env connId large r).1
      (fun q hq => hown q (List.mem_cons_of_mem _ hq))
      (fun q hq => hother q (List.mem_cons_of_mem _ hq)) h
    simp only [List.map_cons, dispatchAll_cons, deliveries_cons]
    cases own with
    | true =>
      have hr : r ∈ m.requests := hown _ List.mem_cons_self rfl
      obtain ⟨hd, hc⟩ := ih (h.own hsmall hr)
      exact ⟨by rw [if_pos rfl, hd, delivered_small hsmall h hr]; rfl, hc⟩
    | false =>
      obtain ⟨hd, hc⟩ := ih (h.other (hother _ List.mem_cons_self rfl))
      exact ⟨by rw [hd]; rfl, hc⟩

end Small

section Large

variable (hlarge : MULTI_PART ≤ m.msg.length) {large : LargeRequests} {r : Request}

/-- No size stands among the parts of the session. -/
def NoSize (large : LargeRequests) (connId : ℤ) (session : ℕ) : Prop :=
  ∀ req, entry large connId session = some req → ∀ p ∈ req.parts, ∃ s, p = .string s

theorem concat_eq_none {parts : List Part} (h : ∀ p ∈ parts, ∃ s, p = .string s) :
    concat parts = none := by
  cases parts with
  | nil => rfl
  | cons p parts =>
    obtain ⟨s, rfl⟩ := h p List.mem_cons_self
    rfl

/-- The parts are appended, but never the size. -/
theorem forall_append {parts : List Part} (h : ∀ p ∈ parts, ∃ s, p = .string s) (msg : Bytes)
    (sz : ℕ) : ∀ p ∈ append parts (some msg) sz, ∃ s, p = .string s := by
  intro p hp
  rcases List.mem_append.1 hp with hp | hp
  · exact h p hp
  · exact ⟨msg, List.mem_singleton.1 hp⟩

include hlarge

/-- A packet of a large message: another follows it, or it is a part, without an address. -/
theorem mem_requests_large (hr : r ∈ m.requests) : r.session = m.session
    ∧ (r.padding = true ∨ r.padding = false ∧ r.addr = none ∧ ∃ msg, r.msg = some msg) := by
  unfold Outgoing.requests at hr
  rw [if_neg (not_lt.2 hlarge)] at hr
  rcases List.mem_cons.1 hr with rfl | hr
  · exact ⟨rfl, .inl rfl⟩
  · obtain ⟨hs, ha, hm⟩ := mem_partRequests hr
    refine ⟨hs, ?_⟩
    cases hp : r.padding
    · exact .inr ⟨rfl, ha, Option.ne_none_iff_exists'.1 hm⟩
    · exact .inl rfl

variable (env) in
/-- No packet of a large message delivers anything. -/
theorem delivered_large (h : NoSize large connId m.session) (hr : r ∈ m.requests) :
    (dispatchRequest env connId large r).2.filter Effect.isDelivery = []
      ∧ NoSize (dispatchRequest env connId large r).1 connId m.session := by
  obtain ⟨hs, hp | ⟨hp, ha, msg, hm⟩⟩ := mem_requests_large hlarge hr
  · refine ⟨by rw [dispatchRequest, if_pos hp]; rfl, fun req hreq => ?_⟩
    rw [dispatchRequest, if_pos hp, entry_setEntry, if_pos hs.symm, Option.some.injEq] at hreq
    subst hreq
    have hold : ∀ p ∈ ((entry large connId r.session).getD
        { addr := r.addr, isPush := r.isPush, parts := [] }).parts, ∃ s, p = .string s := by
      cases he : entry large connId r.session with
      | none => exact fun p hp => absurd hp List.not_mem_nil
      | some req => exact h req (by rw [← hs, he])
    cases hm : r.msg with
    | none => exact hold
    | some msg => exact forall_append hold msg r.sz
  · have hnone : entry (dispatchRequest env connId large r).1 connId m.session = none := by
      unfold dispatchRequest
      simp only [hp]
      cases entry large connId r.session <;> exact (entry_setEntry _ _ _).trans (if_pos hs.symm)
    refine ⟨?_, fun req hreq => by rw [hnone] at hreq; cases hreq⟩
    unfold dispatchRequest
    simp only [hp, hm, ha]
    cases he : entry large connId r.session with
    | none =>
      show (deliver env connId none r.session msg r.isPush).filter Effect.isDelivery = []
      unfold deliver
      rw [if_neg nofun]
      exact isDelivery_respond ..
    | some req =>
      have hconcat := concat_eq_none (forall_append (h req (by rw [← hs, he])) msg r.sz)
      simp only [Option.isSome_some, if_true, hconcat, Bool.false_eq_true, if_false]
      exact isDelivery_respond ..

variable (env) in
theorem deliveries_large {marked : List (Bool × Request)}
    (hown : ∀ q ∈ marked, q.1 = true → q.2 ∈ m.requests)
    (hother : ∀ q ∈ marked, q.1 = false → Other m q.2) (h : NoSize large connId m.session) :
    deliveries (marked.map (·.1)) (dispatchAll env connId large (marked.map (·.2))).2 = [] := by
  induction marked generalizing large with
  | nil => rfl
  | cons q marked ih =>
    obtain ⟨own, r⟩ := q
    have ih := fun h => @ih (dispatchRequest env connId large r).1
      (fun q hq => hown q (List.mem_cons_of_mem _ hq))
      (fun q hq => hother q (List.mem_cons_of_mem _ hq)) h
    simp only [List.map_cons, dispatchAll_cons, deliveries_cons]
    cases own with
    | true =>
      obtain ⟨hd, hn⟩ := delivered_large env hlarge h (hown _ List.mem_cons_self rfl)
      rw [if_pos rfl, hd, ih hn]
      rfl
    | false =>
      have hne := (hother _ List.mem_cons_self rfl).1
      refine ih fun req hreq => h req ?_
      rwa [entry_dispatchRequest hne] at hreq

end Large

end Run

section Arrival

variable {env : Env} {connId : ℤ} {large : LargeRequests} {m : Outgoing}
  {stream : List (Bool × Bytes)}

/-- What `Intact` speaks of, in terms of the marked requests. -/
theorem exists_marked (hm : m.Valid) (ht : Traffic m stream) :
    ∃ marked : List (Bool × Request), marked.map (·.1) = stream.map (·.1)
      ∧ (readLoop (stream.map (·.2)).flatten.length (stream.map (·.2)).flatten).1
        = marked.map (·.2)
      ∧ (marked.filter (·.1)).map (·.2) = m.requests
      ∧ ∀ q ∈ marked, q.1 = false → Other m q.2 := by
  have hother : ∀ p ∈ stream, p.1 = false → ∃ r, Carries p.2 r ∧ Other m r := by
    intro p hp hp0
    obtain ⟨m', hm', hne, hmem⟩ := ht.others p hp hp0
    exact other_of_mem_packets hm hm' hne hmem
  obtain ⟨marked, hmarks, hcs, hrs, ho⟩ := exists_requests (carries_packets hm) ht.own hother
  exact ⟨marked, hmarks, by rw [readLoop_packets hcs _ le_rfl], hrs, ho⟩

theorem mem_requests_of_marked {marked : List (Bool × Request)}
    (hrs : (marked.filter (·.1)).map (·.2) = m.requests) :
    ∀ q ∈ marked, q.1 = true → q.2 ∈ m.requests := fun q hq hq1 => by
  rw [← hrs]
  exact List.mem_map_of_mem (List.mem_filter.2 ⟨hq, hq1⟩)

theorem length_of_marks {marked : List (Bool × Request)}
    (h : marked.map (·.1) = stream.map (·.1)) : marked.length = stream.length := by
  simpa using congrArg List.length h

theorem not_intact_of_large (hm : m.Valid) (ht : Traffic m stream) (hc : Clean large connId m)
    (hlarge : MULTI_PART ≤ m.msg.length) : ¬ Intact env connId large m stream := by
  obtain ⟨marked, hmarks, hread, hrs, ho⟩ := exists_marked hm ht
  rintro ⟨-, ⟨dest, -, hd⟩, -⟩
  have hnone := deliveries_large env hlarge (mem_requests_of_marked hrs) ho
    (fun req hreq => by rw [hc.2] at hreq; cases hreq)
  simp only [hread, ← hmarks, hnone] at hd
  cases hd

/-- A message arrives if and only if it is small and its address is that of a service. -/
theorem intact_iff (hm : m.Valid) (ht : Traffic m stream) (hc : Clean large connId m) :
    Intact env connId large m stream
      ↔ m.msg.length < MULTI_PART ∧ (destination env m.addr).isSome = true := by
  constructor
  · intro h
    obtain ⟨-, ⟨dest, hdest, -⟩, -⟩ := id h
    exact ⟨not_le.1 fun hl => not_intact_of_large hm ht hc hl h, by rw [hdest]; rfl⟩
  · rintro ⟨hsmall, hdest⟩
    obtain ⟨dest, hdest⟩ := Option.isSome_iff_exists.1 hdest
    obtain ⟨marked, hmarks, hread, hrs, ho⟩ := exists_marked hm ht
    obtain ⟨hd, hc'⟩ := deliveries_small env hsmall (mem_requests_of_marked hrs) ho hc
    have hone : (marked.filter (·.1)).length = 1 := by
      rw [← List.length_map, hrs, Outgoing.requests, if_pos hsmall]
      rfl
    obtain ⟨q, hq⟩ := List.length_eq_one_iff.1 hone
    unfold Intact
    simp only [hread, ← hmarks]
    refine ⟨by rw [List.length_map, length_of_marks hmarks], ⟨dest, hdest, ?_⟩, hc'.2⟩
    rw [hd, hq, List.flatMap_cons, delivered, hdest]
    rfl

/-- A stream of the message's packets alone. -/
theorem traffic_alone (m : Outgoing) : Traffic m (m.packets.map (Prod.mk true)) where
  own := by
    rw [List.filter_eq_self.2 fun p hp => by obtain ⟨q, -, rfl⟩ := List.mem_map.1 hp; rfl,
      List.map_map]
    exact List.map_id _
  others p hp h := by
    obtain ⟨q, -, rfl⟩ := List.mem_map.1 hp
    cases h

end Arrival

section Runs

/-- A node with one service, of handle 8, registered as `@echo`. -/
def echoEnv : Env where
  registerNameCache name := if name = ascii "@echo" then some (.number 8) else none
  query _ := none
  floatText _ := []
  position := []

def pushToEcho : Outgoing := ⟨.name (ascii "@echo"), 7, ascii "hi", true⟩

def callEight : Outgoing := ⟨.number 8, 6, ascii "hello", false⟩

theorem valid_callEight : callEight.Valid := ⟨(by decide : 8 < 2 ^ 32), by decide, by decide⟩

theorem valid_pushToEcho : pushToEcho.Valid :=
  ⟨(by decide : 1 ≤ (ascii "@echo").length ∧ (ascii "@echo").length ≤ 255), by decide, by decide⟩

theorem intact_pushToEcho : Intact echoEnv 1000001 (fun _ => none) pushToEcho
    (callEight.packets.map (Prod.mk false) ++ pushToEcho.packets.map (Prod.mk true)) := by
  refine (intact_iff valid_pushToEcho ⟨by decide, fun p hp h => ?_⟩ ⟨rfl, rfl⟩).2 (by decide)
  refine ⟨callEight, valid_callEight, by decide, ?_⟩
  rcases List.mem_append.1 hp with hp | hp <;> obtain ⟨q, hq, rfl⟩ := List.mem_map.1 hp
  · exact hq
  · cases h

/-- A message of `MULTI_PART` bytes to service 8. -/
def largeCall : Outgoing := ⟨.number 8, 6, List.replicate MULTI_PART 0, false⟩

/-- Its packets reach the node, and nothing reaches the service. -/
theorem large_request_lost : ¬ ∀ (env : Env) (connId : ℤ) (large : LargeRequests) (m : Outgoing)
    (stream : List (Bool × Bytes)), m.Valid → Traffic m stream → Clean large connId m →
    (destination env m.addr).isSome = true → Intact env connId large m stream := by
  intro h
  have hlen : largeCall.msg.length = MULTI_PART := List.length_replicate
  have hvalid : largeCall.Valid := ⟨(by decide : 8 < 2 ^ 32), by decide, by rw [hlen]; decide⟩
  have hc : Clean (fun _ => none) 1000001 largeCall := ⟨rfl, rfl⟩
  exact not_intact_of_large hvalid (traffic_alone _) hc hlen.ge
    (h echoEnv 1000001 _ _ _ hvalid (traffic_alone _) hc rfl)

end Runs

end Clusterd

end SkynetCpp
