import SkynetCpp.Answers
import SkynetCpp.Proofs.Coroutines

/-!
# Each request is answered once

A request that waits for its answer is held by one coroutine, or by one function of
`skynet.response`, and nothing that holds one was answered (`Dutiful`). To answer a request is to
let go of it first. What lets go of one without an answer, where an error is due, is what a diligent
run does without.
-/

namespace SkynetCpp

namespace LuaService

open Lib

/-- The event is of an answer, or of a request that is owed one. -/
def Event.OfAnswer : Event → Bool
  | .answered _ _ | .failed _ => true
  | _ => false

/-- What can still answer a request. -/
inductive Holder
  | thread (co : Coroutine)
  | closure (i : ℕ)

namespace State

variable {s t : State} {co c : Coroutine} {m : Message} {n n' : ℕ} {a b : Holder} {r : Response}

def Holds (s : State) : Holder → ℕ → Prop
  | .thread co, n => s.serving co = some n
  | .closure i, n => ∃ r, s.responses[i]? = some r ∧ r.sent = false ∧ r.request = n

/-- What the tables have for the coroutine is of the request that it handles. -/
def Serves (s : State) (co : Coroutine) : Prop :=
  s.serving co = none ∧ s.sessionCoroutineId co = none ∨
    ∃ n m, s.serving co = some n ∧ s.requests[n]? = some m ∧
      s.sessionCoroutineId co = some m.session ∧ s.sessionCoroutineAddress co = some m.source

/-- The function of `skynet.response` answers the request that it is for. -/
def Answers (s : State) (r : Response) : Prop :=
  ∃ m, s.requests[r.request]? = some m ∧ m.session ≠ 0 ∧ r.session = m.session ∧
    r.address = some m.source

structure Dutiful (s : State) : Prop extends Answered s where
  known : ∀ n, .failed n ∈ s.log → n < s.requests.length
  serves : ∀ co, s.Serves co
  closures : ∀ r ∈ s.responses, s.Answers r
  sole : ∀ a b n, s.Holds a n → s.Holds b n → a = b
  due : ∀ a n, s.Holds a n → s.answers n = []

theorem dutiful_init : Dutiful {} where
  once _ := .inl rfl
  failed _ _ _ _ := nofun
  known _ := nofun
  serves _ := .inl ⟨rfl, rfl⟩
  closures _ := nofun
  sole a b n ha := by
    cases a with
    | thread co => exact nomatch ha
    | closure i => exact absurd ha.choose_spec.1 (by simp)
  due _ _ _ := rfl

section Holders

theorem answers_record {e : Event} :
    (s.record e).answers n = s.answers n ++ (e.answer n).toList := by
  rw [answers, record, List.filterMap_append, List.filterMap_cons]
  cases e.answer n <;> rfl

theorem failed_record {e : Event} (h : .failed n ∈ (s.record e).log) :
    .failed n ∈ s.log ∨ e = .failed n := by
  rcases List.mem_append.1 h with h | h
  · exact .inl h
  · exact .inr (List.mem_singleton.1 h).symm

/-- What is held is a request that was received. -/
theorem Dutiful.request_of_holds (h : Dutiful s) (ha : s.Holds a n) :
    ∃ m, s.requests[n]? = some m := by
  cases a with
  | thread co =>
    rcases h.serves co with ⟨hnone, -⟩ | ⟨n', m, hserving, hm, -⟩
    · exact nomatch hnone.symm.trans ha
    · obtain rfl := Option.some.inj (hserving.symm.trans ha)
      exact ⟨m, hm⟩
  | closure i =>
    obtain ⟨r, hr, -, rfl⟩ := ha
    obtain ⟨m, hm, -⟩ := h.closures r (List.mem_of_getElem? hr)
    exact ⟨m, hm⟩

/-- Nothing happens to a request, but that what holds it may let go of it. -/
theorem Dutiful.fewer (h : Dutiful s) (hrequests : t.requests = s.requests)
    (hanswers : ∀ n, t.answers n = s.answers n)
    (hfailed : ∀ n, .failed n ∈ t.log → .failed n ∈ s.log) (hserves : ∀ co, t.Serves co)
    (hclosures : ∀ r ∈ t.responses, t.Answers r) (hholds : ∀ a n, t.Holds a n → s.Holds a n) :
    Dutiful t where
  once n := by
    rw [hanswers, hrequests]
    exact h.once n
  failed n m hm hsession hn := by
    rw [hanswers]
    exact h.failed n m (hrequests ▸ hm) hsession (hfailed n hn)
  known n hn := by
    rw [hrequests]
    exact h.known n (hfailed n hn)
  serves := hserves
  closures := hclosures
  sole a b n ha hb := h.sole a b n (hholds a n ha) (hholds b n hb)
  due a n ha := (hanswers n).trans (h.due a n (hholds a n ha))

/-- What the answers are about. -/
def duties (s : State) : List Event × List Message × (Coroutine → Option ℕ) ×
    (Coroutine → Option ℤ) × (Coroutine → Option Handle) × List Response :=
  (s.log.filter Event.OfAnswer, s.requests, s.serving, s.sessionCoroutineId,
    s.sessionCoroutineAddress, s.responses)

theorem answers_eq_filter :
    s.answers n = (s.log.filter Event.OfAnswer).filterMap (Event.answer n) := by
  rw [answers, List.filterMap_filter]
  refine List.filterMap_congr fun e _ => ?_
  cases e <;> rfl

theorem failed_mem_filter : Event.failed n ∈ s.log ↔ .failed n ∈ s.log.filter Event.OfAnswer := by
  simp [Event.OfAnswer]

theorem Dutiful.same (h : Dutiful s) (heq : t.duties = s.duties) : Dutiful t := by
  simp only [duties, Prod.mk.injEq] at heq
  obtain ⟨hlog, hrequests, hserving, hid, haddress, hresponses⟩ := heq
  refine h.fewer hrequests (fun n => ?_) (fun n => ?_) (fun co => ?_) (fun r hr => ?_)
    fun a n ha => ?_
  · rw [answers_eq_filter, hlog, ← answers_eq_filter]
  · rw [failed_mem_filter, hlog, ← failed_mem_filter]
    exact id
  · unfold Serves
    rw [hserving, hid, haddress, hrequests]
    exact h.serves co
  · unfold Answers
    rw [hrequests]
    exact h.closures r (hresponses ▸ hr)
  · cases a with
    | thread co => exact (congrFun hserving co).symm.trans ha
    | closure i =>
      obtain ⟨r, hr, hsent⟩ := ha
      exact ⟨r, hresponses ▸ hr, hsent⟩

/-- The request waits for its answer, and nothing holds it. -/
structure Loose (s : State) (n : ℕ) (m : Message) : Prop where
  request : s.requests[n]? = some m
  free : ∀ a, ¬ s.Holds a n
  due : s.answers n = []

/-- The one that holds a request lets go of it. -/
theorem Dutiful.loose (h : Dutiful s) (hm : s.requests[n]? = some m) (ha : s.Holds a n)
    (hrequests : t.requests = s.requests) (hlog : t.log = s.log)
    (hholds : ∀ b n, t.Holds b n → s.Holds b n ∧ b ≠ a) : Loose t n m where
  request := hrequests ▸ hm
  free b hb := (hholds b n hb).2 (h.sole b a n (hholds b n hb).1 ha)
  due := by
    rw [answers, hlog]
    exact h.due a n ha

/-- It is held again. -/
theorem Dutiful.hold (h : Dutiful s) (hloose : Loose s n m) (hrequests : t.requests = s.requests)
    (hlog : t.log = s.log) (hserves : ∀ co, t.Serves co)
    (hclosures : ∀ r ∈ t.responses, t.Answers r)
    (hholds : ∀ b n', t.Holds b n' → b = a ∧ n' = n ∨ s.Holds b n') : Dutiful t := by
  have hanswers : ∀ n, t.answers n = s.answers n := fun n => by rw [answers, hlog, answers]
  refine ⟨⟨fun n => ?_, fun n m hm hsession hn => ?_⟩, fun n hn => ?_, hserves, hclosures,
    fun b c n' hb hc => ?_, fun b n' hb => ?_⟩
  · rw [hanswers, hrequests]
    exact h.once n
  · rw [hanswers]
    exact h.failed n m (hrequests ▸ hm) hsession (hlog ▸ hn)
  · rw [hrequests]
    exact h.known n (hlog ▸ hn)
  · rcases hholds b n' hb with ⟨rfl, rfl⟩ | hb
    · rcases hholds c n' hc with ⟨rfl, -⟩ | hc
      · rfl
      · exact absurd hc (hloose.free c)
    · rcases hholds c n' hc with ⟨-, rfl⟩ | hc
      · exact absurd hb (hloose.free b)
      · exact h.sole b c n' hb hc
  · rw [hanswers]
    rcases hholds b n' hb with ⟨-, rfl⟩ | hb
    · exact hloose.due
    · exact h.due b n' hb

/-- It is answered. -/
theorem Dutiful.answer {type : ℤ} (h : Dutiful s) (hloose : Loose s n m) (hsession : m.session ≠ 0)
    (htype : type = PTYPE_RESPONSE ∨ type = PTYPE_ERROR) :
    Dutiful (s.record (.answered n (answerTo m type))) := by
  have hother : ∀ {n'}, n' ≠ n →
      (s.record (.answered n (answerTo m type))).answers n' = s.answers n' :=
    fun hne => by simp [answers_record, Event.answer, hne.symm]
  have hthis : (s.record (.answered n (answerTo m type))).answers n = [answerTo m type] := by
    simp [answers_record, Event.answer, hloose.due]
  have hfailed : ∀ {n'}, .failed n' ∈ (s.record (.answered n (answerTo m type))).log →
      .failed n' ∈ s.log := fun hn => (failed_record hn).resolve_right nofun
  refine ⟨⟨fun n' => ?_, fun n' m' hm' hsession' hn' => ?_⟩, fun n' hn' => h.known n' (hfailed hn'),
    h.serves, h.closures, h.sole, fun b n' hb => ?_⟩
  · by_cases hn : n' = n
    · subst hn
      exact .inr ⟨m, hloose.request, hsession, type, htype, hthis⟩
    · rw [hother hn]
      exact h.once n'
  · have hfailed' := h.failed n' m' hm' hsession' (hfailed hn')
    by_cases hn : n' = n
    · subst hn
      exact nomatch hloose.due.symm.trans hfailed'
    · rw [hother hn]
      exact hfailed'
  · by_cases hn : n' = n
    · subst hn
      exact absurd hb (hloose.free b)
    · rw [hother hn]
      exact h.due b n' hb

/-- The handler of the request fails, when the error is sent or where none is due. -/
theorem Dutiful.fail (h : Dutiful s) (hm : s.requests[n]? = some m)
    (hsent : m.session ≠ 0 → s.answers n = [answerTo m PTYPE_ERROR]) :
    Dutiful (s.record (.failed n)) := by
  have hanswers : ∀ n', (s.record (.failed n)).answers n' = s.answers n' := fun n' => by
    simp [answers_record, Event.answer]
  refine ⟨⟨fun n' => ?_, fun n' m' hm' hsession hn' => ?_⟩, fun n' hn' => ?_, h.serves, h.closures,
    h.sole, fun b n' hb => (hanswers n').trans (h.due b n' hb)⟩
  · rw [hanswers]
    exact h.once n'
  · rw [hanswers]
    rcases failed_record hn' with hn' | heq
    · exact h.failed n' m' hm' hsession hn'
    · obtain rfl := Event.failed.inj heq
      obtain rfl := Option.some.inj (hm.symm.trans hm')
      exact hsent hsession
  · rcases failed_record hn' with hn' | heq
    · exact h.known n' hn'
    · obtain rfl := Event.failed.inj heq
      exact (List.getElem?_eq_some_iff.1 hm).1

/-- The request is refused by an error. -/
theorem Dutiful.refuse (h : Dutiful s) (hloose : Loose s n m) (hsession : m.session ≠ 0) :
    Dutiful ((s.record (.failed n)).record (.answered n (answerTo m PTYPE_ERROR))) := by
  have hanswer := h.answer hloose hsession (.inr rfl)
  have hfail := hanswer.fail hloose.request fun _ => by
    simp [answers_record, Event.answer, hloose.due]
  refine hfail.fewer rfl (fun n' => ?_) (fun n' hn' => ?_) hfail.serves hfail.closures fun _ _ => id
  · simp [answers_record, Event.answer]
  · simp only [record, List.append_assoc, List.mem_append, List.mem_singleton] at hn' ⊢
    tauto

end Holders

section Frames

theorem duties_record {e : Event} (he : e.OfAnswer = false) : (s.record e).duties = s.duties := by
  simp [duties, record, he]

theorem duties_genid : (s.genid co).duties = s.duties := by
  refine (duties_record rfl).trans ?_
  rfl

theorem duties_fork : (s.fork co).duties = s.duties := by
  refine (duties_record rfl).trans ?_
  rfl

theorem duties_timeout : (s.timeout co).duties = s.duties := duties_genid

theorem duties_wakeup : (s.wakeup co).duties = s.duties := by
  unfold State.wakeup
  split
  · dsimp only
    split_ifs
    · exact duties_record rfl
    · exact (duties_record rfl).trans (duties_record rfl)
  · rfl

/-- A call that answers nothing, and ends nothing. -/
theorem duties_perform {call : Call} (hcall : match call with
    | .ignoreret | .ret _ | .response | .respond _ _ _ | .finish | .raise => False
    | _ => True) : (s.perform co call).duties = s.duties := by
  cases call with
  | ignoreret | ret | response | respond | finish | raise => exact hcall.elim
  | fork co' => exact duties_fork
  | timeout co' => exact duties_timeout
  | wakeup co' => exact duties_wakeup
  | registerProtocol | startReturns => rfl
  | dispatch type dispatch =>
    change duties (if _ then _ else s) = _
    split_ifs <;> rfl
  | call sends =>
    change (s.call co sends).duties = _
    unfold State.call
    dsimp only
    split_ifs
    · exact duties_genid
    · exact duties_genid
  | sleep sets =>
    change (s.sleep co sets).duties = _
    unfold State.sleep
    dsimp only
    split_ifs
    · exact duties_genid
    · exact duties_genid
  | wait token => exact duties_genid

theorem duties_next : s.next.duties = s.duties := by
  unfold State.next
  split
  · split
    · exact duties_record rfl
    · rfl
  · dsimp only
    split
    · exact (duties_record rfl).trans (duties_record rfl)
    · exact duties_record rfl
  · rfl
  · rfl

end Frames

section Requests

theorem holds_setRequest {session : Option ℤ} {address : Option Handle} {o : Option ℕ}
    (ha : (s.setRequest co session address o).Holds a n) :
    a = .thread co ∧ o = some n ∨ s.Holds a n ∧ a ≠ .thread co := by
  cases a with
  | closure i => exact .inr ⟨ha, nofun⟩
  | thread c =>
    by_cases hc : c = co
    · subst hc
      have ha : Function.update s.serving c o c = some n := ha
      rw [Function.update_self] at ha
      exact .inl ⟨rfl, ha⟩
    · have ha : Function.update s.serving co o c = some n := ha
      rw [Function.update_of_ne hc] at ha
      exact .inr ⟨ha, fun heq => hc (Holder.thread.inj heq)⟩

theorem serves_setRequest {session : Option ℤ} {address : Option Handle} {o : Option ℕ}
    (h : s.Serves c) (hco : (s.setRequest co session address o).Serves co) :
    (s.setRequest co session address o).Serves c := by
  by_cases hc : c = co
  · exact hc ▸ hco
  · simpa [Serves, setRequest, hc] using h

/-- The coroutine lets go of its request. -/
theorem Dutiful.unset (h : Dutiful s) {address : Option Handle} :
    Dutiful (s.setRequest co none address none) := by
  refine h.fewer rfl (fun _ => rfl) (fun _ => id) (fun c => ?_) h.closures fun a n ha => ?_
  · refine serves_setRequest (h.serves c) (.inl ?_)
    simp [setRequest]
  · exact ((holds_setRequest ha).resolve_left (fun hset => nomatch hset.2)).1

theorem Dutiful.loose_unset (h : Dutiful s) {address : Option Handle}
    (hm : s.requests[n]? = some m) (hserving : s.serving co = some n) :
    Loose (s.setRequest co none address none) n m :=
  h.loose (a := .thread co) hm hserving rfl rfl fun _ _ hb =>
    (holds_setRequest hb).resolve_left fun hset => nomatch hset.2

/-- A request gets a number. -/
theorem Dutiful.number (h : Dutiful s) (m : Message) :
    Dutiful { s with requests := s.requests ++ [m] } ∧
      Loose { s with requests := s.requests ++ [m] } s.requests.length m := by
  have hget : ∀ {n m'}, s.requests[n]? = some m' → (s.requests ++ [m])[n]? = some m' :=
    fun hm' => by
      rw [List.getElem?_append_left (List.getElem?_eq_some_iff.1 hm').1]
      exact hm'
  have hnone : s.requests[s.requests.length]? = none := List.getElem?_eq_none (Nat.le_refl _)
  refine ⟨⟨⟨fun n => ?_, fun n m' hm' hsession hn => ?_⟩, fun n hn => ?_, fun co => ?_,
    fun r hr => ?_, h.sole, h.due⟩, List.getElem?_concat_length, fun a ha => ?_, ?_⟩
  · rcases h.once n with hnil | ⟨m', hm', hanswer⟩
    · exact .inl hnil
    · exact .inr ⟨m', hget hm', hanswer⟩
  · refine h.failed n m' ?_ hsession hn
    rw [← hm']
    exact (List.getElem?_append_left (h.known n hn)).symm
  · have hlt := h.known n hn
    rw [List.length_append]
    omega
  · rcases h.serves co with hnone | ⟨n, m', hserving, hm', hrest⟩
    · exact .inl hnone
    · exact .inr ⟨n, m', hserving, hget hm', hrest⟩
  · obtain ⟨m', hm', hrest⟩ := h.closures r hr
    exact ⟨m', hget hm', hrest⟩
  · obtain ⟨m', hm'⟩ := h.request_of_holds (a := a) ha
    exact nomatch hnone.symm.trans hm'
  · rcases h.once s.requests.length with hnil | ⟨m', hm', -⟩
    · exact hnil
    · exact nomatch hnone.symm.trans hm'

/-- A coroutine is to handle the request. -/
theorem Dutiful.take (h : Dutiful s) (hloose : Loose s n m) :
    Dutiful (s.setRequest co (some m.session) (some m.source) (some n)) := by
  refine h.hold (a := .thread co) hloose rfl rfl (fun c => ?_) h.closures fun b n' hb => ?_
  · refine serves_setRequest (h.serves c) (.inr ⟨n, m, ?_⟩)
    simp [setRequest, hloose.request]
  · exact (holds_setRequest hb).imp (fun hset => ⟨hset.1, (Option.some.inj hset.2).symm⟩) And.left

end Requests

section Calls

theorem ignoreret_eq :
    s.ignoreret co = s.setRequest co none (s.sessionCoroutineAddress co) none := by
  simp [ignoreret, setRequest]

theorem Dutiful.ignoreret (h : Dutiful s) : Dutiful (s.ignoreret co) := by
  rw [ignoreret_eq]
  exact h.unset

theorem Dutiful.ret {sends : Bool} (h : Dutiful s) (hsettles : s.Settles co (.ret sends)) :
    Dutiful (s.ret co sends) := by
  unfold State.ret
  rcases h.serves co with ⟨-, hid⟩ | ⟨n, m, hserving, hm, hid, haddress⟩
  · rw [hid]
    exact h
  · have hkept : (s.ignoreret co).sessionCoroutineAddress co = some m.source := haddress
    rw [hid]
    dsimp only
    split_ifs with hsession
    · exact h.ignoreret
    · have hsends : sends = true := hsettles.resolve_right fun hnone => hsession (hnone _ hid)
      have hloose : Loose (s.ignoreret co) n m := by
        rw [ignoreret_eq]
        exact h.loose_unset hm hserving
      rw [hsends, hkept, hserving]
      exact h.ignoreret.answer hloose hsession (.inl rfl)

theorem Dutiful.response (h : Dutiful s) : Dutiful (s.response co) := by
  unfold State.response
  rcases h.serves co with ⟨-, hid⟩ | ⟨n, m, hserving, hm, hid, haddress⟩
  · rw [hid]
    exact h
  · rw [hid]
    dsimp only
    split_ifs with hsession
    · exact h
    · have hunset : Dutiful (s.setRequest co none none none) := h.unset
      refine hunset.hold (a := .closure s.responses.length) (h.loose_unset hm hserving) rfl rfl
        hunset.serves (fun r hr => ?_) fun b n' hb => ?_
      · rcases List.mem_append.1 hr with hr | hr
        · exact hunset.closures r hr
        · rw [List.mem_singleton.1 hr, hserving]
          exact ⟨m, hm, hsession, rfl, haddress⟩
      · cases b with
        | thread c => exact .inr hb
        | closure i =>
          obtain ⟨r, hr, hsent, hrequest⟩ := hb
          rcases Nat.lt_trichotomy i s.responses.length with hi | rfl | hi
          · exact .inr ⟨r, (List.getElem?_append_left hi).symm.trans hr, hsent, hrequest⟩
          · obtain rfl := Option.some.inj (List.getElem?_concat_length.symm.trans hr)
            refine .inl ⟨rfl, hrequest.symm.trans ?_⟩
            rw [hserving]
            rfl
          · have hlt := (List.getElem?_eq_some_iff.1 hr).1
            rw [List.length_append] at hlt
            exact absurd hlt (Nat.not_lt.2 hi)

theorem holds_spend {i : ℕ} (hr : s.responses[i]? = some r)
    (ha : State.Holds { s with responses := s.responses.set i { r with sent := true } } a n) :
    s.Holds a n ∧ a ≠ .closure i := by
  cases a with
  | thread c => exact ⟨ha, nofun⟩
  | closure j =>
    obtain ⟨r', hr', hsent, hrequest⟩ := ha
    have hj : i ≠ j := by
      rintro rfl
      have hset := List.getElem?_set_self (a := { r with sent := true })
        (List.getElem?_eq_some_iff.1 hr).1
      obtain rfl := Option.some.inj (hset.symm.trans hr')
      exact Bool.noConfusion hsent
    refine ⟨⟨r', (List.getElem?_set_ne hj).symm.trans hr', hsent, hrequest⟩, ?_⟩
    exact fun heq => hj (Holder.closure.inj heq).symm

/-- A function of `skynet.response` has sent what it sends. -/
theorem Dutiful.spend {i : ℕ} (h : Dutiful s) (hr : s.responses[i]? = some r) :
    Dutiful { s with responses := s.responses.set i { r with sent := true } } := by
  refine h.fewer rfl (fun _ => rfl) (fun _ => id) h.serves (fun r' hr' => ?_)
    fun b n hb => (holds_spend hr hb).1
  rcases List.mem_or_eq_of_mem_set hr' with hr' | rfl
  · exact h.closures r' hr'
  · exact h.closures r (List.mem_of_getElem? hr)

theorem Dutiful.respond {i : ℕ} {ok sends : Bool} (h : Dutiful s)
    (hsettles : s.Settles co (.respond i ok sends)) : Dutiful (s.respond i ok sends) := by
  unfold State.respond
  rcases hr : s.responses[i]? with - | r
  · exact h
  · have htype : (if ok then PTYPE_RESPONSE else PTYPE_ERROR) = PTYPE_RESPONSE ∨
        (if ok then PTYPE_RESPONSE else PTYPE_ERROR) = PTYPE_ERROR := by
      split_ifs
      · exact .inl rfl
      · exact .inr rfl
    generalize (if ok then PTYPE_RESPONSE else PTYPE_ERROR) = type at htype
    dsimp only
    split_ifs with hsent
    · exact h
    · have hsends : sends = true := hsettles.resolve_right fun hspent => hsent (hspent r hr)
      obtain ⟨m, hm, hsession, heq, haddress⟩ := h.closures r (List.mem_of_getElem? hr)
      have hheld : s.Holds (.closure i) r.request := ⟨r, hr, by simpa using hsent, rfl⟩
      have hloose : Loose { s with responses := s.responses.set i { r with sent := true } }
          r.request m := h.loose hm hheld rfl rfl fun _ _ => holds_spend hr
      have hsend : ∀ t : State, t.send r.request r.address type r.session true
          = t.record (.answered r.request (answerTo m type)) := fun t => by
        rw [haddress, heq]
        rfl
      rw [hsends, hsend]
      exact (h.spend hr).answer hloose hsession htype

theorem Dutiful.raise (h : Dutiful s) (hnone : s.OwesNone co) : Dutiful (s.raise co) := by
  rcases h.serves co with ⟨hserving, -⟩ | ⟨n, m, hserving, hm, hid, -⟩
  · refine h.same ?_
    simp [State.raise, State.abort, duties, hserving]
  · have hfail : Dutiful (s.record (.failed n)) :=
      h.fail hm fun hsession => absurd (hnone _ hid) hsession
    refine hfail.same ?_
    simp [State.raise, State.abort, duties, record, hserving]

theorem Dutiful.perform {call : Call} (h : Dutiful s) (hsettles : s.Settles co call) :
    Dutiful (s.perform co call) := by
  cases call with
  | ignoreret => exact h.ignoreret
  | ret sends => exact h.ret hsettles
  | response => exact h.response
  | respond i ok sends => exact h.respond hsettles
  | finish => exact (h.unset : Dutiful (s.setRequest co none none none)).same rfl
  | raise => exact h.raise hsettles
  | _ => exact h.same (duties_perform trivial)

end Calls

section Steps

/-- A request that `raw_dispatch_message` does not buffer. -/
theorem Dutiful.accept {unpacks : Bool} (h : Dutiful s)
    (hadmits : m.session ≠ 0 →
      s.proto m.type ≠ some false ∧ (s.proto m.type = some true → s.Takes co unpacks)) :
    Dutiful (s.accept m co unpacks) := by
  obtain ⟨hnumbered, hloose⟩ := h.number m
  have hfail : m.session = 0 →
      Dutiful (State.record { s with requests := s.requests ++ [m] } (.failed s.requests.length)) :=
    fun hzero => hnumbered.fail hloose.request fun hsession => absurd hzero hsession
  unfold State.accept
  dsimp only
  split
  · split_ifs with hsession
    · exact (hnumbered.refuse hloose hsession).same rfl
    · exact (hfail (by simpa using hsession)).same rfl
  next hproto =>
    have hzero : m.session = 0 := by_contra fun hsession => (hadmits hsession).1 hproto
    exact (hfail hzero).same rfl
  next hproto =>
    have htake : Dutiful ((State.coCreate { s with requests := s.requests ++ [m] } co).setRequest
        co (some m.session) (some m.source) (some s.requests.length)) :=
      (hnumbered.take hloose).same rfl
    have hfailed : m.session = 0 → Dutiful (State.record ((State.coCreate
        { s with requests := s.requests ++ [m] } co).setRequest co (some m.session) (some m.source)
        (some s.requests.length)) (.failed s.requests.length)) :=
      fun hzero => htake.fail hloose.request fun hsession => absurd hzero hsession
    split_ifs with hunpacks hready
    · have hzero : m.session = 0 := by_contra fun hsession =>
        Bool.noConfusion (hunpacks.symm.trans ((hadmits hsession).2 hproto).1)
      exact (hfailed hzero).same rfl
    · exact htake.same (duties_record rfl)
    · have hzero : m.session = 0 := by_contra fun hsession => hready <| by
        change (s.toThreads.setStatus co _).status co = _
        rw [status_setStatus, if_pos rfl]
        exact if_pos ((hadmits hsession).2 hproto).2
      exact (hfailed hzero).same rfl

theorem Dutiful.rawDispatchMessage {unpacks : Bool} (h : Dutiful s)
    (hadmits : s.Admits m co unpacks) : Dutiful (s.rawDispatchMessage m co unpacks) := by
  unfold State.rawDispatchMessage
  split_ifs with hresponse herror hbuffer
  · split
    · exact h.same rfl
    · exact h.same rfl
    · exact h.same (duties_record rfl)
  · split
    · exact h.same rfl
    · exact h.same rfl
    · exact h.same (duties_record rfl)
  · exact h.same (duties_record rfl)
  · refine h.accept fun hsession => ?_
    obtain ⟨hfalse, htrue⟩ := hadmits hresponse herror hsession
    refine ⟨fun hproto => hbuffer ⟨hfalse hproto, ?_⟩, htrue⟩
    rw [hproto]
    exact nofun

theorem Dutiful.step {l : Label} (h : Dutiful s) (hdiligent : s.Diligent l)
    (hs : State.step s l = some t) : Dutiful t := by
  obtain ⟨hen, rfl⟩ := step_eq_some.1 hs
  cases l with
  | main call =>
    refine h.same (duties_perform ?_)
    have hcan := hen.2
    cases call <;> trivial
  | start co => exact h.same duties_timeout
  | loaded | collect => exact h.same rfl
  | message m co unpacks =>
    have hcalled : Dutiful (State.record { s with phase := .handler }
        (.called m s.serviceStarted)) := h.same (duties_record rfl)
    exact hcalled.rawDispatchMessage hdiligent
  | replay co unpacks =>
    obtain ⟨m, rest, hq, -, hexec⟩ := replay_of_enabled hen
    have hrest : Dutiful { s with queue := rest } := h.same rfl
    rw [hexec]
    refine hrest.rawDispatchMessage (hdiligent m ?_)
    rw [hq]
    rfl
  | code call =>
    obtain ⟨self, l, hrun, -, hexec⟩ := code_of_enabled hen
    rw [hexec]
    refine h.perform (hdiligent self ?_)
    rw [hrun]
    rfl
  | next => exact h.same duties_next

end Steps

/-- In a diligent run each request is answered at most once, and once by an error where it has
failed. -/
theorem answered_of_diligent (h : Reaches State.step Diligent {} s) : Answered s := by
  have hdutiful : Dutiful s := h.invariant dutiful_init fun _ _ _ _ hd hdiligent hs =>
    hd.step hdiligent hs
  exact hdutiful.toAnswered

section Runs

/-- The service has started, and a request comes to its handler. -/
def requestRun : List Label :=
  [.start 1, .loaded, .message { type := PTYPE_RESPONSE, session := 1, source := 0 } 0 true,
    .code (.dispatch PTYPE_LUA true), .code .startReturns, .code .finish, .collect [],
    .message { type := PTYPE_LUA, session := 5, source := 7 } 2 true]

/-- It is answered by a function of `skynet.response`, when the handler has slept, and the next
request, of a type that was never registered, by an error. -/
def answerRun : List Label :=
  requestRun ++ [.code .response, .code (.sleep true), .collect [],
    .message { type := PTYPE_RESPONSE, session := 2, source := 0 } 0 true,
    .code (.respond 0 true true), .code .finish, .collect [],
    .message { type := PTYPE_SOCKET, session := 6, source := 7 } 0 true, .collect []]

theorem answered_answerRun : (after step {} answerRun).Answered :=
  answered_of_diligent (reaches_after (by decide))

/-- The handler raises before it has replied, and no error is sent. -/
theorem never_answered : ∃ s, Reachable step {} s ∧ ¬ s.Answered := by
  refine ⟨after step {} (requestRun ++ [.code .raise]), reachable_after (by decide), fun h => ?_⟩
  have hfailed := h.failed 0 { type := PTYPE_LUA, session := 5, source := 7 } (by decide)
    (by decide) (by decide)
  have hnone : (after step {} (requestRun ++ [.code .raise])).answers 0 = [] := by decide
  exact nomatch hnone.symm.trans hfailed

end Runs

end State

end LuaService

end SkynetCpp
