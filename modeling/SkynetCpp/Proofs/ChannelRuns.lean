import Mathlib.Data.List.Basic
import SkynetCpp.Lib.Runs
import SkynetCpp.ChannelRuns
import SkynetCpp.Proofs.SocketChannel

/-!
# Every request is answered once

The table of a channel holds the coroutines that wait and have not been woken, each under its
session (`Served.table`), and as long as no connection is closed over their heads it is theirs
(`Served.current`). What has come of a response lies in the result tables, and a woken coroutine
finds it whole there, or an error (`Request.Ready`).
-/

namespace SkynetCpp

namespace SocketChannel

open Lib

variable {α ε : Type}

namespace Channel

variable {ch : Channel α ε} {session : ℕ} {co : Coroutine}

/-- A session is a key of `__thread` once. -/
def Keyed (ch : Channel α ε) : Prop := (ch.thread.map Prod.fst).Nodup

theorem waiter_iff (h : ch.Keyed) : ch.waiter session = some co ↔ (session, co) ∈ ch.thread := by
  unfold Keyed at h
  unfold waiter
  generalize ch.thread = l at h
  induction l with
  | nil => simp
  | cons p l ih =>
    rw [List.map_cons, List.nodup_cons] at h
    rw [List.find?_cons, List.mem_cons]
    by_cases hp : p.1 = session
    · rw [decide_eq_true hp]
      constructor
      · intro heq
        cases heq
        exact .inl (by rw [← hp])
      · rintro (rfl | hmem)
        · rfl
        · exact absurd (hp ▸ List.mem_map_of_mem hmem) h.1
    · rw [decide_eq_false hp, ih h.2]
      constructor
      · exact .inr
      · rintro (rfl | hmem)
        · exact absurd rfl hp
        · exact hmem

theorem keyed_filter (h : ch.Keyed) (p : ℕ × Coroutine → Bool) :
    ((ch.thread.filter p).map Prod.fst).Nodup :=
  (List.filter_sublist.map Prod.fst).nodup h

theorem keyed_pushResponse (h : ch.Keyed) : (ch.pushResponse session co).Keyed := by
  unfold Keyed pushResponse
  rw [List.map_append, List.nodup_append]
  refine ⟨keyed_filter h _, by simp, ?_⟩
  intro a ha b hb
  obtain ⟨p, hp, rfl⟩ := List.mem_map.1 ha
  have := (List.mem_filter.1 hp).2
  simp only [List.map_cons, List.map_nil, List.mem_singleton] at hb
  subst hb
  simpa using this

theorem mem_pushResponse {p : ℕ × Coroutine} : p ∈ (ch.pushResponse session co).thread ↔
    p ∈ ch.thread ∧ p.1 ≠ session ∨ p = (session, co) := by
  simp [pushResponse]

/-- A response that is complete takes its session out of the table. -/
theorem mem_respond {r : Decoded α} {p : ℕ × Coroutine} (h : ch.Keyed) :
    p ∈ (ch.respond r).1.thread ↔ p ∈ ch.thread ∧ ¬ (p.1 = r.session ∧ r.padding = false) := by
  unfold respond
  rcases hw : ch.waiter r.session with _ | co
  · refine ⟨fun hp => ⟨hp, fun hs => ?_⟩, And.left⟩
    have hmem : (r.session, p.2) ∈ ch.thread := hs.1 ▸ hp
    rw [(waiter_iff h).2 hmem] at hw
    cases hw
  · rcases hpad : r.padding with _ | _ <;> simp

theorem keyed_respond (h : ch.Keyed) (r : Decoded α) : (ch.respond r).1.Keyed := by
  unfold respond
  rcases hw : ch.waiter r.session with _ | co
  · exact h
  · rcases hpad : r.padding with _ | _
    · exact keyed_filter h _
    · exact h

theorem connId_respond (ch : Channel α ε) (r : Decoded α) : (ch.respond r).1.connId = ch.connId := by
  unfold respond
  rcases hw : ch.waiter r.session with _ | co
  · rfl
  · rcases hpad : r.padding with _ | _ <;> rfl

end Channel

/-- What lies in `__result_data` of a response that is still to be completed. -/
def gathered (rs : List (Decoded α)) : Option (ResultData α ε) :=
  if rs = [] then none else some (.parts (rs.map Decoded.data))

theorem partsOf_gathered (rs : List (Decoded α)) :
    Channel.partsOf (gathered rs : Option (ResultData α ε))
      = if rs = [] then none else some (rs.map Decoded.data) := by
  unfold gathered
  split_ifs <;> rfl

/-- What a woken coroutine finds: the whole response, or an error, its connection being gone. -/
def Request.Ready (w : Request α) (ch : Channel α (ErrMsg ε)) (co : Coroutine) : Prop :=
  (∃ parts last, w.responses = parts ++ [last] ∧ (∀ r ∈ parts, r.padding = true) ∧
      last.padding = false ∧ ch.result co = some last.ok ∧
      ch.resultData co = some (answer (parts ++ [last])))
    ∨ (∀ r ∈ w.responses, r.padding = true) ∧ ch.connId ≠ some w.conn ∧
      ch.result co = some false ∧ ∃ errmsg, ch.resultData co = some (.error errmsg)

theorem Request.Ready.congr {w : Request α} {ch ch' : Channel α (ErrMsg ε)} {co : Coroutine}
    (h : w.Ready ch co) (hconn : ch.connId ≠ some w.conn → ch'.connId ≠ some w.conn)
    (hresult : ch'.result co = ch.result co) (hdata : ch'.resultData co = ch.resultData co) :
    w.Ready ch' co := by
  unfold Request.Ready
  rw [hresult, hdata]
  exact h.imp id fun ⟨hpad, hgone, hrest⟩ => ⟨hpad, hconn hgone, hrest⟩

structure Served (s : State α ε) : Prop where
  keyed : s.channel.Keyed
  table : ∀ session co, (session, co) ∈ s.channel.thread ↔
    ∃ w, s.waiting co = some w ∧ w.session = session ∧ s.woken co = false
  current : ∀ co w, s.waiting co = some w → s.woken co = false →
    s.channel.connId = some w.conn
  known : ∀ c, s.channel.connId = some c → c ∈ s.connections
  past : ∀ co w, s.waiting co = some w → w.conn ∈ s.connections
  own : ∀ co w, s.waiting co = some w → ∀ r ∈ w.responses, r.session = w.session
  unfinished : ∀ co w, s.waiting co = some w → s.woken co = false →
    (∀ r ∈ w.responses, r.padding = true) ∧ s.channel.result co = none
      ∧ s.channel.resultData co = gathered w.responses
  ready : ∀ co, s.woken co = true → ∃ w, s.waiting co = some w ∧ w.Ready s.channel co
  clean : ∀ co, s.waiting co = none →
    s.channel.result co = none ∧ s.channel.resultData co = none
  right : ∀ o ∈ s.outcomes, o.Right

section Serving

open SocketChannel.State

variable {s s' : State α ε} {co : Coroutine} {c : ℤ}

theorem served_init : Served ({} : State α ε) where
  keyed := List.nodup_nil
  table session co := by simp [Channel.init]
  current co w h := by cases h
  known c h := by cases h
  past co w h := by cases h
  own co w h := by cases h
  unfinished co w h := by cases h
  ready co h := by cases h
  clean co _ := ⟨rfl, rfl⟩
  right o h := by cases h

theorem mem_woken {channel : Channel α (ErrMsg ε)} {cos : List Coroutine} :
    (({ s with channel }.wakeup cos).woken co = true) ↔
      s.woken co = true ∨ co ∈ cos ∧ s.waiting co ≠ none := by
  simp [wakeup, Option.isSome_iff_ne_none]

/-- The connection is closed and all that wait are told. -/
theorem Served.closeAll (h : Served s) (errmsg : ErrMsg ε) : Served (s.closeAll errmsg) := by
  have hmem : ∀ {co}, co ∈ s.channel.thread.map Prod.snd ↔
      s.waiting co ≠ none ∧ s.woken co = false := by
    intro co
    rw [List.mem_map]
    constructor
    · rintro ⟨⟨session, co⟩, hp, rfl⟩
      obtain ⟨w, hw, -, hwoken⟩ := (h.table session co).1 hp
      exact ⟨by simp [hw], hwoken⟩
    · rintro ⟨hne, hwoken⟩
      obtain ⟨w, hw⟩ := Option.ne_none_iff_exists'.1 hne
      exact ⟨(w.session, co), (h.table w.session co).2 ⟨w, hw, rfl, hwoken⟩, rfl⟩
  have hall : ∀ {co}, (s.closeAll errmsg).woken co = false → s.waiting co = none := by
    intro co hco
    by_contra hne
    have : ¬ ((s.closeAll errmsg).woken co = true) := by rw [hco]; simp
    refine this (mem_woken.2 ?_)
    by_cases hwoken : s.woken co = true
    · exact .inl hwoken
    · exact .inr ⟨hmem.2 ⟨hne, by simpa using hwoken⟩, hne⟩
  have hnot : ∀ {co}, co ∉ s.channel.thread.map Prod.snd →
      (s.closeAll errmsg).channel.result co = s.channel.result co
        ∧ (s.closeAll errmsg).channel.resultData co = s.channel.resultData co :=
    fun hco => ⟨if_neg hco, if_neg hco⟩
  refine ⟨List.nodup_nil, fun session co => ?_, fun co w hw hwoken => ?_, fun c hc => ?_, h.past,
    h.own, fun co w hw hwoken => ?_, fun co hwoken => ?_, fun co hco => ?_, h.right⟩
  · refine iff_of_false List.not_mem_nil ?_
    rintro ⟨w, hw, -, hwoken⟩
    cases (hall hwoken).symm.trans hw
  · cases (hall hwoken).symm.trans hw
  · cases hc
  · cases (hall hwoken).symm.trans hw
  · by_cases hco : co ∈ s.channel.thread.map Prod.snd
    · obtain ⟨hne, hold⟩ := hmem.1 hco
      obtain ⟨w, hw⟩ := Option.ne_none_iff_exists'.1 hne
      exact ⟨w, hw, .inr ⟨(h.unfinished co w hw hold).1, nofun, if_pos hco, errmsg, if_pos hco⟩⟩
    · have hold : s.woken co = true := (mem_woken.1 hwoken).resolve_right fun hc => hco hc.1
      obtain ⟨w, hw, hready⟩ := h.ready co hold
      exact ⟨w, hw, hready.congr (fun _ => nofun) (hnot hco).1 (hnot hco).2⟩
  · have hout : co ∉ s.channel.thread.map Prod.snd := fun hmem' => (hmem.1 hmem').1 hco
    rw [(hnot hout).1, (hnot hout).2]
    exact h.clean co hco

/-- A connection is made. -/
theorem Served.connected (h : Served s) (hnone : s.channel.connId = none)
    (hfresh : c ∉ s.connections) : Served (s.exec (.connected c)) := by
  have hold : ∀ {co w}, s.waiting co = some w → s.woken co = true := by
    intro co w hw
    by_contra hwoken
    have := h.current co w hw (by simpa using hwoken)
    rw [hnone] at this
    cases this
  refine ⟨h.keyed, h.table, fun co w hw hwoken => ?_, fun c' hc => ?_, fun co w hw => ?_, h.own,
    h.unfinished, fun co hwoken => ?_, h.clean, h.right⟩
  · have := hold hw
    rw [show s.woken co = false from hwoken] at this
    cases this
  · cases hc
    exact List.mem_cons_self
  · exact List.mem_cons_of_mem _ (h.past co w hw)
  · obtain ⟨w, hw, hready⟩ := h.ready co hwoken
    refine ⟨w, hw, hready.congr (fun _ heq => ?_) rfl rfl⟩
    cases heq
    exact hfresh (h.past co w hw)

theorem request_self {conn : ℤ} (hc : s.channel.connId = some conn) (session : ℕ) :
    (s.exec (.request session co)).waiting co = some { index := s.sent, session, conn } := by
  simp [exec, hc]

theorem request_of_ne (session : ℕ) {co' : Coroutine} (hne : co' ≠ co) :
    (s.exec (.request session co)).waiting co' = s.waiting co' :=
  Function.update_of_ne hne _ _

theorem waiting_request {conn : ℤ} (hc : s.channel.connId = some conn) {session : ℕ}
    {co' : Coroutine} {w : Request α} (hw : (s.exec (.request session co)).waiting co' = some w) :
    co' = co ∧ w = { index := s.sent, session, conn } ∨ co' ≠ co ∧ s.waiting co' = some w := by
  by_cases hne : co' = co
  · rw [hne, request_self hc] at hw
    cases hw
    exact .inl ⟨hne, rfl⟩
  · exact .inr ⟨hne, (request_of_ne session hne).symm.trans hw⟩

theorem Served.request (h : Served s) {session : ℕ} (hconn : s.channel.connId ≠ none)
    (hco : s.waiting co = none) (hsession : s.channel.waiter session = none) :
    Served (s.exec (.request session co)) := by
  obtain ⟨conn, hc⟩ := Option.ne_none_iff_exists'.1 hconn
  have hwoken : s.woken co = false := by
    by_contra hne
    obtain ⟨w, hw, -⟩ := h.ready co (by simpa using hne)
    rw [hco] at hw
    cases hw
  have hself : (s.exec (.request session co)).waiting co = _ := request_self hc session
  have hother : ∀ {co'}, co' ≠ co → (s.exec (.request session co)).waiting co' = s.waiting co' :=
    fun hne => request_of_ne session hne
  have hcases : ∀ {co' w}, (s.exec (.request session co)).waiting co' = some w → _ :=
    fun hw => waiting_request hc hw
  refine ⟨Channel.keyed_pushResponse h.keyed, fun session' co' => ?_, fun co' w hw hwoken' => ?_,
    h.known, fun co' w hw => ?_, fun co' w hw => ?_, fun co' w hw hwoken' => ?_,
    fun co' hwoken' => ?_, fun co' hw => ?_, h.right⟩
  · refine Channel.mem_pushResponse.trans ?_
    constructor
    · rintro (⟨hmem, -⟩ | heq)
      · obtain ⟨w, hw, hs, hold⟩ := (h.table session' co').1 hmem
        have hne : co' ≠ co := by
          rintro rfl
          rw [hco] at hw
          cases hw
        exact ⟨w, (hother hne).trans hw, hs, hold⟩
      · cases heq
        exact ⟨_, hself, rfl, hwoken⟩
    · rintro ⟨w, hw, hs, hold⟩
      rcases hcases hw with ⟨rfl, rfl⟩ | ⟨-, hw⟩
      · exact .inr (by rw [← hs])
      · have hmem := (h.table session' co').2 ⟨w, hw, hs, hold⟩
        refine .inl ⟨hmem, ?_⟩
        rintro rfl
        rw [(Channel.waiter_iff h.keyed).2 hmem] at hsession
        cases hsession
  · rcases hcases hw with ⟨-, rfl⟩ | ⟨-, hw⟩
    · exact hc
    · exact h.current co' w hw hwoken'
  · rcases hcases hw with ⟨-, rfl⟩ | ⟨-, hw⟩
    · exact h.known conn hc
    · exact h.past co' w hw
  · rcases hcases hw with ⟨-, rfl⟩ | ⟨-, hw⟩
    · exact nofun
    · exact h.own co' w hw
  · rcases hcases hw with ⟨rfl, rfl⟩ | ⟨-, hw⟩
    · exact ⟨nofun, h.clean co' hco⟩
    · exact h.unfinished co' w hw hwoken'
  · obtain ⟨w, hw, hready⟩ := h.ready co' hwoken'
    have hne : co' ≠ co := by
      rintro rfl
      rw [hco] at hw
      cases hw
    exact ⟨w, (hother hne).trans hw, hready.congr id rfl rfl⟩
  · by_cases hne : co' = co
    · rw [hne, hself] at hw
      cases hw
    · exact h.clean co' ((hother hne).symm.trans hw)

/-- The request that a response is for, if there is one. -/
theorem Served.waiter (h : Served s) {session : ℕ} :
    s.channel.waiter session = some co ↔
      ∃ w, s.waiting co = some w ∧ w.session = session ∧ s.woken co = false :=
  (Channel.waiter_iff h.keyed).trans (h.table session co)

/-- A response is recorded for the one request that it is for. -/
theorem Served.record_waiting (h : Served s) (r : Decoded α) {co' : Coroutine} :
    (s.record r).waiting co' = if s.channel.waiter r.session = some co' then
      (s.waiting co').map fun w => { w with responses := w.responses ++ [r] } else s.waiting co' := by
  show (s.waiting co').map _ = _
  by_cases hw : s.channel.waiter r.session = some co'
  · rw [if_pos hw]
    obtain ⟨w, hw, hs, hwoken⟩ := h.waiter.1 hw
    simp [hw, hs, hwoken]
  · rw [if_neg hw]
    rcases hwait : s.waiting co' with _ | w
    · rfl
    · have hno : ¬ (w.session = r.session ∧ s.woken co' = false) :=
        fun hs => hw (h.waiter.2 ⟨w, hwait, hs⟩)
      simp [hno]

theorem answer_gathered {parts : List (Decoded α)} {last : Decoded α} :
    (match Channel.partsOf (gathered parts : Option (ResultData α (ErrMsg ε))) with
      | some l => .parts (l ++ [last.data])
      | none => .data last.data) = (answer (parts ++ [last]) : ResultData α (ErrMsg ε)) := by
  rw [partsOf_gathered]
  rcases parts with _ | ⟨p, parts⟩
  · rfl
  · simp [answer]

theorem gathered_append {rs : List (Decoded α)} {r : Decoded α} :
    (gathered (rs ++ [r]) : Option (ResultData α (ErrMsg ε)))
      = some (.parts ((Channel.partsOf (gathered rs : Option (ResultData α (ErrMsg ε)))).getD []
        ++ [r.data])) := by
  rw [partsOf_gathered]
  rcases rs with _ | ⟨p, rs⟩
  · rfl
  · simp [gathered]

/-- The state after a response. -/
def State.responded (s : State α ε) (r : Decoded α) : State α ε :=
  { s.record r with channel := (s.channel.respond r).1 }.wakeup (s.channel.respond r).2.toList

/-- The response wakes the coroutine it is for, when it is the last part. -/
theorem Served.woken_responded (h : Served s) (r : Decoded α) :
    (s.responded r).woken co = true ↔ s.woken co = true
      ∨ s.channel.waiter r.session = some co ∧ r.padding = false := by
  refine mem_woken.trans (or_congr_right ?_)
  rw [Option.mem_toList]
  by_cases hw : s.channel.waiter r.session = some co
  · have hne : (s.record r).waiting co ≠ none := by
      obtain ⟨w, hwait, -⟩ := h.waiter.1 hw
      rw [h.record_waiting r, if_pos hw, hwait]
      exact nofun
    rcases hpad : r.padding with _ | _
    · exact iff_of_true ⟨(Channel.respond_last hw hpad).2.2, hne⟩ ⟨hw, rfl⟩
    · refine iff_of_false (fun hmem => ?_) (by simp)
      rw [(Channel.respond_padding hw hpad).2.2] at hmem
      cases hmem.1
  · exact iff_of_false (fun hmem => (Channel.respond_of_ne hw).2.2 hmem.1) fun hmem => hw hmem.1

/-- A request after a response: as it was, or with the response of its session. -/
theorem Served.waiting_responded (h : Served s) {r : Decoded α} {w' : Request α}
    (hw : (s.responded r).waiting co = some w') : ∃ w, s.waiting co = some w ∧
      (s.channel.waiter r.session ≠ some co ∧ w' = w
        ∨ s.channel.waiter r.session = some co ∧ w.session = r.session ∧ s.woken co = false
          ∧ w' = { w with responses := w.responses ++ [r] }) := by
  have heq : (s.responded r).waiting co = (s.record r).waiting co := rfl
  rw [heq, h.record_waiting r] at hw
  split_ifs at hw with hwaiter
  · obtain ⟨w, hwait, hs, hwoken⟩ := h.waiter.1 hwaiter
    rw [hwait] at hw
    cases hw
    exact ⟨w, hwait, .inr ⟨hwaiter, hs, hwoken, rfl⟩⟩
  · exact ⟨w', hw, .inl ⟨hwaiter, rfl⟩⟩

/-- A response is dispatched. -/
theorem Served.responded (h : Served s) (r : Decoded α) : Served (s.responded r) := by
  have hold : ∀ {co}, (s.responded r).woken co = false → s.woken co = false := by
    intro co hwoken
    by_contra hne
    rw [(h.woken_responded r).2 (.inl (by simpa using hne))] at hwoken
    cases hwoken
  have hconn : (s.responded r).channel.connId = s.channel.connId := Channel.connId_respond _ r
  refine ⟨Channel.keyed_respond h.keyed r, fun session co => ?_, fun co w' hw' hwoken => ?_,
    fun c hc => h.known c (hconn ▸ hc), fun co w' hw' => ?_, fun co w' hw' => ?_,
    fun co w' hw' hwoken => ?_, fun co hwoken => ?_, fun co hw' => ?_, h.right⟩
  · refine (Channel.mem_respond h.keyed).trans ?_
    constructor
    · rintro ⟨hmem, hnot⟩
      obtain ⟨w, hw, hs, hwoken⟩ := (h.table session co).1 hmem
      have hwoken' : (s.responded r).woken co = false := by
        by_contra hne
        rcases (h.woken_responded r).1 (by simpa using hne) with hw' | ⟨hwaiter, hpad⟩
        · rw [hwoken] at hw'
          cases hw'
        · obtain ⟨w', hw', hs', -⟩ := h.waiter.1 hwaiter
          rw [hw] at hw'
          cases hw'
          exact hnot ⟨hs.symm.trans hs', hpad⟩
      have hwait : (s.responded r).waiting co = _ := h.record_waiting r
      by_cases hwaiter : s.channel.waiter r.session = some co
      · rw [if_pos hwaiter, hw] at hwait
        exact ⟨_, hwait, hs, hwoken'⟩
      · rw [if_neg hwaiter, hw] at hwait
        exact ⟨_, hwait, hs, hwoken'⟩
    · rintro ⟨w', hw', hs, hwoken⟩
      obtain ⟨w, hw, hcases⟩ := h.waiting_responded hw'
      have hws : w.session = session := by
        rcases hcases with ⟨-, heq⟩ | ⟨-, -, -, heq⟩ <;> rw [heq] at hs <;> exact hs
      refine ⟨(h.table session co).2 ⟨w, hw, hws, hold hwoken⟩, ?_⟩
      rintro ⟨rfl, hpad⟩
      rw [(h.woken_responded r).2 (.inr ⟨h.waiter.2 ⟨w, hw, hws, hold hwoken⟩, hpad⟩)] at hwoken
      cases hwoken
  · rw [hconn]
    obtain ⟨w, hw, ⟨-, heq⟩ | ⟨-, -, -, heq⟩⟩ := h.waiting_responded hw' <;> rw [heq] <;>
      exact h.current co w hw (hold hwoken)
  · obtain ⟨w, hw, ⟨-, heq⟩ | ⟨-, -, -, heq⟩⟩ := h.waiting_responded hw' <;> rw [heq] <;>
      exact h.past co w hw
  · obtain ⟨w, hw, ⟨-, rfl⟩ | ⟨-, hs, -, rfl⟩⟩ := h.waiting_responded hw'
    · exact h.own co w' hw
    · intro r' hr'
      rcases List.mem_append.1 hr' with hr' | hr'
      · exact h.own co w hw r' hr'
      · rw [List.mem_singleton.1 hr', hs]
  · obtain ⟨w, hw, ⟨hne, rfl⟩ | ⟨hwaiter, -, hopen, rfl⟩⟩ := h.waiting_responded hw'
    · obtain ⟨hdata, hresult, -⟩ := Channel.respond_of_ne hne
      obtain ⟨hpads, hr, hd⟩ := h.unfinished co w' hw (hold hwoken)
      exact ⟨hpads, hresult.trans hr, hdata.trans hd⟩
    · have hpad : r.padding = true := by
        by_contra hne
        rw [(h.woken_responded r).2 (.inr ⟨hwaiter, by simpa using hne⟩)] at hwoken
        cases hwoken
      obtain ⟨hdata, hresult, -⟩ := Channel.respond_padding hwaiter hpad
      obtain ⟨hpads, hr, hd⟩ := h.unfinished co w hw hopen
      refine ⟨fun r' hr' => ?_, hresult.trans hr, hdata.trans ?_⟩
      · rcases List.mem_append.1 hr' with hr' | hr'
        · exact hpads r' hr'
        · rwa [List.mem_singleton.1 hr']
      · rw [hd, ← gathered_append]
  · have hkept : ∀ {co}, s.channel.waiter r.session ≠ some co →
        (s.responded r).waiting co = s.waiting co :=
      fun hne => (h.record_waiting r).trans (if_neg hne)
    rcases (h.woken_responded r).1 hwoken with hw | ⟨hwaiter, hpad⟩
    · have hne : s.channel.waiter r.session ≠ some co := by
        intro hwaiter
        obtain ⟨-, -, -, hopen⟩ := h.waiter.1 hwaiter
        rw [hw] at hopen
        cases hopen
      obtain ⟨w, hwait, hready⟩ := h.ready co hw
      obtain ⟨hdata, hresult, -⟩ := Channel.respond_of_ne hne
      exact ⟨w, (hkept hne).trans hwait, hready.congr (fun hgone => hconn ▸ hgone) hresult hdata⟩
    · obtain ⟨w, hwait, -, hopen⟩ := h.waiter.1 hwaiter
      obtain ⟨hpads, -, hd⟩ := h.unfinished co w hwait hopen
      obtain ⟨hdata, hresult, -⟩ := Channel.respond_last hwaiter hpad
      have hwait' : (s.responded r).waiting co = _ := h.record_waiting r
      rw [if_pos hwaiter, hwait] at hwait'
      rw [hd] at hdata
      exact ⟨_, hwait', .inl ⟨w.responses, r, rfl, hpads, hpad, hresult,
        hdata.trans (congrArg some answer_gathered)⟩⟩
  · have hwait : (s.responded r).waiting co = _ := h.record_waiting r
    by_cases hwaiter : s.channel.waiter r.session = some co
    · obtain ⟨w, hw, -⟩ := h.waiter.1 hwaiter
      rw [hw', if_pos hwaiter, hw] at hwait
      cases hwait
    · rw [hw', if_neg hwaiter] at hwait
      obtain ⟨hdata, hresult, -⟩ := Channel.respond_of_ne hwaiter
      obtain ⟨hr, hd⟩ := h.clean co hwait.symm
      exact ⟨hresult.trans hr, hdata.trans hd⟩

section Finish

variable {w : Request α}

theorem finish_eq (hw : s.waiting co = some w) : s.finish co = { s with
    channel := (s.channel.collect co).1
    waiting := Function.update s.waiting co none
    woken := Function.update s.woken co false
    outcomes := s.outcomes
      ++ [⟨w, s.channel.result co, s.channel.resultData co, s.channel.connId ≠ some w.conn⟩] } := by
  simp [finish, hw, Channel.collect]

theorem finish_self (hw : s.waiting co = some w) : (s.finish co).waiting co = none
    ∧ (s.finish co).woken co = false ∧ (s.finish co).channel.result co = none
    ∧ (s.finish co).channel.resultData co = none := by
  rw [finish_eq hw]
  exact ⟨Function.update_self _ _ _, Function.update_self _ _ _, Function.update_self _ _ _,
    Function.update_self _ _ _⟩

theorem finish_of_ne (hw : s.waiting co = some w) {co' : Coroutine} (hne : co' ≠ co) :
    (s.finish co).waiting co' = s.waiting co' ∧ (s.finish co).woken co' = s.woken co'
      ∧ (s.finish co).channel.result co' = s.channel.result co'
      ∧ (s.finish co).channel.resultData co' = s.channel.resultData co' := by
  rw [finish_eq hw]
  exact ⟨Function.update_of_ne hne _ _, Function.update_of_ne hne _ _,
    Function.update_of_ne hne _ _, Function.update_of_ne hne _ _⟩

theorem finish_kept (hw : s.waiting co = some w) : (s.finish co).channel.thread = s.channel.thread
    ∧ (s.finish co).channel.connId = s.channel.connId
    ∧ (s.finish co).connections = s.connections := by
  rw [finish_eq hw]
  exact ⟨rfl, rfl, rfl⟩

theorem waiting_finish (hw : s.waiting co = some w) {co' : Coroutine} {w' : Request α}
    (hw' : (s.finish co).waiting co' = some w') : co' ≠ co ∧ s.waiting co' = some w' := by
  by_cases hne : co' = co
  · rw [hne, (finish_self hw).1] at hw'
    cases hw'
  · exact ⟨hne, (finish_of_ne hw hne).1.symm.trans hw'⟩

end Finish

/-- A woken coroutine goes on in `channel:request`. -/
theorem Served.resume (h : Served s) (hwoken : s.woken co = true) : Served (s.finish co) := by
  obtain ⟨w, hw, hready⟩ := h.ready co hwoken
  obtain ⟨hthread, hconn, hconns⟩ := finish_kept hw
  obtain ⟨hnone, hslept, hresult, hdata⟩ := finish_self hw
  have hother : ∀ {co'}, co' ≠ co → _ := fun hne => finish_of_ne hw hne
  refine ⟨?_, fun session co' => ?_, fun co' w' hw' hopen => ?_, ?_, fun co' w' hw' => ?_,
    fun co' w' hw' => ?_, fun co' w' hw' hopen => ?_, fun co' hwoken' => ?_, fun co' hw' => ?_,
    fun o ho => ?_⟩
  · rw [Channel.Keyed, hthread]
    exact h.keyed
  · rw [hthread, h.table session co']
    constructor
    · rintro ⟨w', hw', hs, hopen⟩
      have hne : co' ≠ co := by
        rintro rfl
        rw [hwoken] at hopen
        cases hopen
      exact ⟨w', (hother hne).1.trans hw', hs, (hother hne).2.1.trans hopen⟩
    · rintro ⟨w', hw', hs, hopen⟩
      obtain ⟨hne, hw'⟩ := waiting_finish hw hw'
      exact ⟨w', hw', hs, (hother hne).2.1.symm.trans hopen⟩
  · obtain ⟨hne, hw'⟩ := waiting_finish hw hw'
    rw [hconn]
    exact h.current co' w' hw' ((hother hne).2.1.symm.trans hopen)
  · rw [hconn, hconns]
    exact h.known
  · rw [hconns]
    exact h.past co' w' (waiting_finish hw hw').2
  · exact h.own co' w' (waiting_finish hw hw').2
  · obtain ⟨hne, hw'⟩ := waiting_finish hw hw'
    obtain ⟨-, hwoken', hr, hd⟩ := hother hne
    rw [hr, hd]
    exact h.unfinished co' w' hw' (hwoken'.symm.trans hopen)
  · by_cases hne : co' = co
    · rw [hne, hslept] at hwoken'
      cases hwoken'
    · obtain ⟨hwait, hold, hr, hd⟩ := hother hne
      obtain ⟨w', hw', hready'⟩ := h.ready co' (hold.symm.trans hwoken')
      exact ⟨w', hwait.trans hw', hready'.congr (fun hgone => hconn ▸ hgone) hr hd⟩
  · by_cases hne : co' = co
    · rw [hne]
      exact ⟨hresult, hdata⟩
    · obtain ⟨hwait, -, hr, hd⟩ := hother hne
      rw [hr, hd]
      exact h.clean co' (hwait.symm.trans hw')
  · rw [finish_eq hw] at ho
    rcases List.mem_append.1 ho with ho | ho
    · exact h.right o ho
    · rw [List.mem_singleton.1 ho]
      exact ⟨h.own co w hw, hready.imp id fun ⟨hpads, hgone, hrest⟩ =>
        ⟨hpads, by simpa using hgone, hrest⟩⟩

/-- The connection is closed while nobody waits for it. -/
theorem Served.closeSocket (h : Served s) (hquiet : ∀ co, s.waiting co ≠ none → s.woken co = true) :
    Served { s with channel := s.channel.closeSocket } := by
  refine ⟨h.keyed, h.table, fun co w hw hopen => ?_, fun c hc => ?_, h.past, h.own, h.unfinished,
    fun co hwoken => ?_, h.clean, h.right⟩
  · have := hquiet co (by rw [show s.waiting co = some w from hw]; exact nofun)
    rw [show s.woken co = false from hopen] at this
    cases this
  · cases hc
  · obtain ⟨w, hw, hready⟩ := h.ready co hwoken
    exact ⟨w, hw, hready.congr (fun _ => nofun) rfl rfl⟩

theorem Served.dispatchers (h : Served s) (forked dispatchers : List ℤ) :
    Served { s with forked, dispatchers } :=
  ⟨h.keyed, h.table, h.current, h.known, h.past, h.own, h.unfinished, h.ready, h.clean, h.right⟩

variable {l : Label α ε}

theorem step_eq_some : s.step l = some s' ↔ s.Enabled l ∧ s' = s.exec l := by
  unfold State.step
  split_ifs with he
  · simp [he, eq_comm]
  · simp [he]

theorem Served.step (h : Served s) (hs : s.step l = some s') (hquiet : s.Quiet l) :
    Served s' := by
  obtain ⟨he, rfl⟩ := step_eq_some.1 hs
  cases l with
  | connected c => exact h.connected he.1 he.2
  | startDispatch c =>
    simp only [exec]
    split_ifs
    · exact h.dispatchers _ _
    · exact h.dispatchers _ _
  | request session co => exact h.request he.1 he.2.1 he.2.2
  | callback c r =>
    rcases r with e | _ | r
    · exact (h.dispatchers s.forked (s.dispatchers.erase c)).closeAll _
    · exact (h.dispatchers s.forked (s.dispatchers.erase c)).closeAll _
    · have hresponded := h.responded r
      simp only [exec, dispatch]
      split_ifs
      · exact hresponded
      · exact hresponded.dispatchers _ _
  | close => exact h.closeAll _
  | closeSocket closer => exact h.closeSocket hquiet
  | resume co => exact h.resume he
  | interrupt co => cases hquiet

/-- The numbers of the requests: each is waiting or has had its outcome, and not twice. -/
structure Numbered (s : State α ε) : Prop where
  once : (s.outcomes.map fun o => o.request.index).Nodup
  counted : ∀ n, n < s.sent ↔ (∃ o ∈ s.outcomes, o.request.index = n)
    ∨ ∃ co w, s.waiting co = some w ∧ w.index = n
  notTwice : ∀ co w, s.waiting co = some w → ∀ o ∈ s.outcomes, o.request.index ≠ w.index
  distinct : ∀ co co' w w', s.waiting co = some w → s.waiting co' = some w' →
    w.index = w'.index → co = co'

theorem Numbered.congr (h : Numbered s) (hsent : s'.sent = s.sent)
    (hout : s'.outcomes = s.outcomes)
    (hwait : ∀ co, (s'.waiting co).map Request.index = (s.waiting co).map Request.index) :
    Numbered s' := by
  have hback : ∀ {co w'}, s'.waiting co = some w' →
      ∃ w, s.waiting co = some w ∧ w.index = w'.index := by
    intro co w' hw'
    have := hwait co
    rw [hw'] at this
    obtain ⟨w, hw, heq⟩ := Option.map_eq_some_iff.1 this.symm
    exact ⟨w, hw, heq⟩
  have hforth : ∀ {co w}, s.waiting co = some w →
      ∃ w', s'.waiting co = some w' ∧ w'.index = w.index := by
    intro co w hw
    have := hwait co
    rw [hw] at this
    obtain ⟨w', hw', heq⟩ := Option.map_eq_some_iff.1 this
    exact ⟨w', hw', heq⟩
  refine ⟨by rw [hout]; exact h.once, fun n => ?_, fun co w' hw' o ho => ?_,
    fun co co' w₁ w₂ h₁ h₂ heq => ?_⟩
  · rw [hsent, hout, h.counted n]
    refine or_congr_right ⟨?_, ?_⟩
    · rintro ⟨co, w, hw, hn⟩
      obtain ⟨w', hw', heq⟩ := hforth hw
      exact ⟨co, w', hw', heq.trans hn⟩
    · rintro ⟨co, w', hw', hn⟩
      obtain ⟨w, hw, heq⟩ := hback hw'
      exact ⟨co, w, hw, heq.trans hn⟩
  · obtain ⟨w, hw, hi⟩ := hback hw'
    rw [hout] at ho
    rw [← hi]
    exact h.notTwice co w hw o ho
  · obtain ⟨v₁, hv₁, hi₁⟩ := hback h₁
    obtain ⟨v₂, hv₂, hi₂⟩ := hback h₂
    exact h.distinct co co' v₁ v₂ hv₁ hv₂ (hi₁.trans (heq.trans hi₂.symm))

theorem Numbered.request (h : Numbered s) {session : ℕ} (hconn : s.channel.connId ≠ none)
    (hco : s.waiting co = none) : Numbered (s.exec (.request session co)) := by
  obtain ⟨conn, hc⟩ := Option.ne_none_iff_exists'.1 hconn
  have hlt : ∀ {co w}, s.waiting co = some w → w.index < s.sent :=
    fun hw => (h.counted _).2 (.inr ⟨_, _, hw, rfl⟩)
  refine ⟨h.once, fun n => ?_, fun co' w hw o ho => ?_, fun co₁ co₂ w₁ w₂ h₁ h₂ heq => ?_⟩
  · show n < s.sent + 1 ↔ (∃ o ∈ s.outcomes, o.request.index = n) ∨ _
    constructor
    · intro hn
      rcases Nat.lt_succ_iff_lt_or_eq.1 hn with hn | rfl
      · refine ((h.counted n).1 hn).imp_right ?_
        rintro ⟨co', w, hw, hi⟩
        have hne : co' ≠ co := by
          rintro rfl
          rw [hco] at hw
          cases hw
        exact ⟨co', w, (request_of_ne session hne).trans hw, hi⟩
      · exact .inr ⟨co, _, request_self hc session, rfl⟩
    · rintro (ho | ⟨co', w, hw, rfl⟩)
      · exact Nat.lt_succ_of_lt ((h.counted n).2 (.inl ho))
      · rcases waiting_request hc hw with ⟨-, rfl⟩ | ⟨-, hw⟩
        · exact Nat.lt_succ_self _
        · exact Nat.lt_succ_of_lt (hlt hw)
  · rcases waiting_request hc hw with ⟨-, rfl⟩ | ⟨-, hw⟩
    · exact Nat.ne_of_lt ((h.counted _).2 (.inl ⟨o, ho, rfl⟩))
    · exact h.notTwice co' w hw o ho
  · rcases waiting_request hc h₁ with ⟨rfl, rfl⟩ | ⟨-, hold₁⟩ <;>
      rcases waiting_request hc h₂ with ⟨rfl, rfl⟩ | ⟨-, hold₂⟩
    · rfl
    · exact absurd heq.symm (Nat.ne_of_lt (hlt hold₂))
    · exact absurd heq (Nat.ne_of_lt (hlt hold₁))
    · exact h.distinct co₁ co₂ w₁ w₂ hold₁ hold₂ heq

theorem Numbered.finish (h : Numbered s) : Numbered (s.finish co) := by
  rcases hw : s.waiting co with _ | w
  · have heq : s.finish co = s := by simp [State.finish, hw]
    rw [heq]
    exact h
  have hout : (s.finish co).outcomes = s.outcomes ++
      [⟨w, s.channel.result co, s.channel.resultData co, s.channel.connId ≠ some w.conn⟩] := by
    rw [finish_eq hw]
  have hsent : (s.finish co).sent = s.sent := by rw [finish_eq hw]
  have hforth : ∀ {co' w'}, s.waiting co' = some w' →
      w' = w ∨ (s.finish co).waiting co' = some w' := by
    intro co' w' hw'
    by_cases hne : co' = co
    · rw [hne, hw] at hw'
      exact .inl (Option.some.inj hw').symm
    · exact .inr ((finish_of_ne hw hne).1.trans hw')
  refine ⟨?_, fun n => ?_, fun co' w' hw' o ho => ?_, fun co₁ co₂ w₁ w₂ h₁ h₂ => ?_⟩
  · rw [hout, List.map_append, List.nodup_append]
    refine ⟨h.once, by simp, fun a ha b hb => ?_⟩
    obtain ⟨o, ho, rfl⟩ := List.mem_map.1 ha
    simp only [List.map_cons, List.map_nil, List.mem_singleton] at hb
    rw [hb]
    exact h.notTwice co w hw o ho
  · rw [hsent, hout, h.counted n]
    constructor
    · rintro (⟨o, ho, hn⟩ | ⟨co', w', hw', hn⟩)
      · exact .inl ⟨o, List.mem_append_left _ ho, hn⟩
      · rcases hforth hw' with rfl | hw'
        · exact .inl ⟨_, List.mem_append_right _ List.mem_cons_self, hn⟩
        · exact .inr ⟨co', w', hw', hn⟩
    · rintro (⟨o, ho, hn⟩ | ⟨co', w', hw', hn⟩)
      · rcases List.mem_append.1 ho with ho | ho
        · exact .inl ⟨o, ho, hn⟩
        · rw [List.mem_singleton.1 ho] at hn
          exact .inr ⟨co, w, hw, hn⟩
      · exact .inr ⟨co', w', (waiting_finish hw hw').2, hn⟩
  · obtain ⟨hne, hw'⟩ := waiting_finish hw hw'
    rw [hout] at ho
    rcases List.mem_append.1 ho with ho | ho
    · exact h.notTwice co' w' hw' o ho
    · rw [List.mem_singleton.1 ho]
      exact fun heq => hne (h.distinct co' co w' w hw' hw heq.symm)
  · exact h.distinct co₁ co₂ w₁ w₂ (waiting_finish hw h₁).2 (waiting_finish hw h₂).2

theorem Numbered.step (h : Numbered s) (hs : s.step l = some s') : Numbered s' := by
  obtain ⟨he, rfl⟩ := step_eq_some.1 hs
  cases l with
  | connected c | close | closeSocket closer => exact h.congr rfl rfl fun _ => rfl
  | startDispatch c =>
    simp only [exec]
    split_ifs <;> exact h.congr rfl rfl fun _ => rfl
  | request session co => exact h.request he.1 he.2.1
  | callback c r =>
    rcases r with e | _ | r
    · exact h.congr rfl rfl fun _ => rfl
    · exact h.congr rfl rfl fun _ => rfl
    · have hrecord : ∀ co, ((s.record r).waiting co).map Request.index
          = (s.waiting co).map Request.index := by
        intro co
        show Option.map _ ((s.waiting co).map _) = _
        rw [Option.map_map]
        congr 1
        funext w
        simp only [Function.comp]
        split_ifs <;> rfl
      simp only [exec, dispatch]
      split_ifs <;> exact h.congr rfl rfl hrecord
  | resume co | interrupt co => exact h.finish

/-- The open connection has its dispatcher. -/
def Dispatching (s : State α ε) : Prop :=
  ∀ c, s.channel.connId = some c → c ∈ s.forked ∨ c ∈ s.dispatchers

theorem Dispatching.step (h : Dispatching s) (hs : s.step l = some s') : Dispatching s' := by
  obtain ⟨-, rfl⟩ := step_eq_some.1 hs
  intro c' hc'
  cases l with
  | connected c =>
    cases hc'
    exact .inl List.mem_cons_self
  | startDispatch c =>
    simp only [exec] at hc' ⊢
    split_ifs at hc' ⊢ with hc
    · rcases h c' hc' with hmem | hmem
      · by_cases hne : c' = c
        · exact .inr (hne ▸ List.mem_cons_self)
        · exact .inl ((List.mem_erase_of_ne hne).2 hmem)
      · exact .inr (List.mem_cons_of_mem _ hmem)
    · refine (h c' hc').imp_left fun hmem => (List.mem_erase_of_ne ?_).2 hmem
      rintro rfl
      exact hc hc'
  | request session co => exact h c' hc'
  | callback c r =>
    rcases r with e | _ | r
    · cases hc'
    · cases hc'
    · have hconn : (s.responded r).channel.connId = s.channel.connId := Channel.connId_respond _ r
      simp only [exec, dispatch] at hc' ⊢
      split_ifs at hc' ⊢ with hc
      · exact h c' (hconn ▸ hc')
      · refine (h c' (hconn ▸ hc')).imp_right fun hmem => (List.mem_erase_of_ne ?_).2 hmem
        rintro rfl
        exact hc hc'
  | close | closeSocket closer => cases hc'
  | resume co | interrupt co =>
    rcases hw : s.waiting co with _ | w
    · have heq : s.finish co = s := by simp [State.finish, hw]
      simp only [exec, heq] at hc' ⊢
      exact h c' hc'
    · simp only [exec, finish_eq hw] at hc' ⊢
      exact h c' hc'

theorem numbered_init : Numbered ({} : State α ε) where
  once := List.nodup_nil
  counted n := by simp
  notTwice co w h := by cases h
  distinct co co' w w' h := by cases h

/-- Where no connection is closed over a request, each is answered once and rightly. -/
theorem answered_of_quiet (h : Reaches State.step State.Quiet ({} : State α ε) s) :
    s.Answered := by
  have hserved : Served s := by
    refine h.invariant (I := Served) served_init ?_
    intro s l s' _ hserved hquiet hs
    exact hserved.step hs hquiet
  have hrest : Numbered s ∧ Dispatching s := by
    refine h.invariant (I := fun s => Numbered s ∧ Dispatching s)
      ⟨numbered_init, fun c hc => by cases hc⟩ ?_
    rintro s l s' - ⟨hnumbered, hdispatching⟩ - hs
    exact ⟨hnumbered.step hs, hdispatching.step hs⟩
  obtain ⟨hnumbered, hdispatching⟩ := hrest
  refine ⟨fun co w hw => ?_, hserved.right, hnumbered.once, hnumbered.counted, hnumbered.notTwice,
    hserved.clean⟩
  by_cases hwoken : s.woken co = true
  · exact .inl hwoken
  · have hopen : s.woken co = false := by simpa using hwoken
    have hcurrent := hserved.current co w hw hopen
    exact .inr ⟨hserved.waiter.2 ⟨w, hw, rfl, hopen⟩, hcurrent, hdispatching _ hcurrent⟩

end Serving

/-- Two requests; the response of the first comes in two parts, then the channel is closed. -/
def closeRun : List (Label ℕ ℕ) :=
  [.connected 1, .startDispatch 1, .request 7 0, .request 8 1,
    .callback 1 (.ok (some ⟨7, true, 40, true⟩)), .callback 1 (.ok (some ⟨7, true, 41, false⟩)),
    .resume 0, .close, .resume 1]

/-- A label that is quiet in every state. -/
def Label.Mild : Label α ε → Prop
  | .closeSocket _ | .interrupt _ => False
  | _ => True

instance : ∀ l : Label α ε, Decidable l.Mild
  | .closeSocket _ | .interrupt _ | .connected _ | .startDispatch _ | .request _ _ | .callback _ _
  | .close | .resume _ => by unfold Label.Mild; infer_instance

theorem answered_close : ∃ s : State ℕ ℕ, Reaches State.step State.Quiet {} s ∧
    s.outcomes.map (fun o => (o.ok, o.data)) = [(some true, some (.parts [40, 41])),
      (some false, some (.error (.text "channel closed")))] ∧ s.Answered := by
  have hrun : (runIf State.step (fun _ l => l.Mild) ({} : State ℕ ℕ) closeRun).isSome = true := by
    decide
  have hquiet : Reaches State.step State.Quiet ({} : State ℕ ℕ) (after State.step {} closeRun) :=
    (reaches_after hrun).mono fun s l hl => by cases l <;> first | exact hl.elim | trivial
  exact ⟨_, hquiet, by decide, answered_of_quiet hquiet⟩

/-- The host is changed while a request waits; the dispatcher gets one more response, for nobody,
and goes. -/
def forgetRun : List (Label ℕ ℕ) :=
  [.connected 1, .startDispatch 1, .request 7 0, .closeSocket .changehost,
    .callback 1 (.ok (some ⟨8, true, 40, false⟩))]

theorem request_forgotten : ¬ ∀ s : State ℕ ℕ, Reachable State.step {} s → s.Answered := by
  intro h
  have hrun : (run State.step ({} : State ℕ ℕ) forgetRun).isSome = true := by decide
  have hs := h _ (reachable_after hrun)
  have hwait : (after State.step {} forgetRun : State ℕ ℕ).waiting 0
      = some { index := 0, session := 7, conn := 1 } := by decide
  rcases hs.served 0 _ hwait with hwoken | ⟨-, -, hforked | hdispatcher⟩
  · exact absurd hwoken (by decide)
  · exact absurd hforked (by decide)
  · exact absurd hdispatcher (by decide)

end SocketChannel

end SkynetCpp
