import SkynetCpp.ChannelAuth

/-!
# Authentication comes first

The connection of a channel is one whose auth callback runs, in the coroutine that connects, or has
returned (`Watched`). So a request that finds a connection while no auth callback runs may be sent.
-/

namespace SkynetCpp

namespace SocketChannel

namespace Connect

open Lib

namespace State

variable {s s' : State} {l : Label}

theorem step_eq_some : step s l = some s' ↔ s.Enabled l ∧ s.exec l = s' := by
  unfold step
  split_ifs with h <;> simp [h]

/-- The auth callback that runs is the one of the stage, and the channel's connection is that one or
one whose callback has returned. -/
structure Watched (s : State) : Prop where
  running : ∀ caller retry conn, s.stage = .authing caller retry conn →
    s.auth conn = some .running ∧ ∀ c, s.connId = some c → c = conn
  returned : ∀ c, ¬ s.stage.Authing → s.connId = some c → s.auth c = some .returned
  first : AuthFirst s

theorem watched_init : Watched {} where
  running caller retry conn h := by cases h
  returned c _ h := by cases h
  first e he := by cases he

theorem Watched.closeSocket (h : Watched s) : Watched s.closeSocket where
  running caller retry conn hs := ⟨(h.running caller retry conn hs).1, fun c hc => by cases hc⟩
  returned c _ hc := by cases hc
  first := h.first

/-- A stage in which no auth callback runs takes the place of another. -/
theorem Watched.setStage (h : Watched s) {st : Stage} (hs : ¬ s.stage.Authing)
    (hst : ¬ st.Authing) : Watched { s with stage := st } where
  running caller retry conn heq := absurd (by rw [show st = _ from heq]; trivial) hst
  returned c _ hc := h.returned c hs hc
  first := h.first

theorem Watched.send (h : Watched s) {byAuth : Bool}
    (hauth : s.connId ≠ none → (byAuth = true ↔ s.stage.Authing)) : Watched (s.send byAuth) := by
  unfold State.send
  split
  case h_2 => exact h
  case h_1 c hc =>
    have hc : s.connId = some c := hc
    refine ⟨h.running, h.returned, fun e he => ?_⟩
    rcases List.mem_append.1 he with he | he
    · exact h.first e he
    · rw [List.mem_singleton] at he
      subst he
      dsimp only
      have hiff := hauth (by rw [hc]; simp)
      cases byAuth with
      | false => exact h.returned c (fun ha => Bool.false_ne_true (hiff.2 ha)) hc
      | true =>
        rcases hst : s.stage with _ | _ | _ | ⟨caller, retry, conn⟩
        case authing =>
          obtain ⟨hrun, hconn⟩ := h.running caller retry conn hst
          rw [hconn c hc]
          exact hrun
        all_goals
          have := hiff.1 rfl
          rw [hst] at this
          exact this.elim

theorem Watched.proceed (h : Watched s) {caller : Caller}
    (hp : caller = .request → s.connId ≠ none → ¬ s.stage.Authing) :
    Watched (s.proceed caller) := by
  cases caller with
  | request => exact h.send fun hc => iff_of_false (by simp) (hp rfl hc)
  | response | connect once => exact h

theorem Watched.blockConnect (h : Watched s) {caller : Caller}
    (hp : caller = .request → s.connId ≠ none → ¬ s.stage.Authing) :
    Watched (s.blockConnect caller) := by
  unfold State.blockConnect
  split_ifs with hconn hidle
  · exact h.proceed hp
  · exact ⟨h.running, h.returned, h.first⟩
  · have hidle : s.stage = .idle := Classical.not_not.1 hidle
    exact h.setStage (by rw [hidle]; exact id) id

theorem watched_retry {caller : Caller} {n : ℕ} (hfirst : AuthFirst s)
    (hret : ∀ c, s.connId = some c → s.auth c = some .returned) : Watched (s.retry caller n) where
  running caller' retry conn heq := by
    change (if _ then Stage.sleeping _ _ else .idle) = _ at heq
    split_ifs at heq
  returned c _ hc := hret c hc
  first := hfirst

theorem Watched.step (h : Watched s) (hp : s.Patient l) (hs : step s l = some s') :
    Watched s' := by
  obtain ⟨hen, rfl⟩ := step_eq_some.1 hs
  cases l with
  | call caller =>
    cases caller with
    | request => exact h.blockConnect fun _ => hp rfl
    | response => exact h.blockConnect fun heq => by cases heq
    | connect once => exact h.closeSocket.blockConnect fun heq => by cases heq
  | resume i =>
    change Watched (s.resume i)
    unfold State.resume
    split
    · rename_i caller hi
      have h' : Watched { s with waiting := s.waiting.eraseIdx i } :=
        ⟨h.running, h.returned, h.first⟩
      refine h'.proceed fun heq => hp ?_
      subst heq
      exact hi
    · exact h
  | opened conn =>
    rcases hst : s.stage with _ | ⟨caller, retry⟩ | _ | _
    case opening =>
      have hexec : s.exec (.opened conn) = { s.setAuth conn .running with
          connId := some conn, stage := .authing caller retry conn } := by
        simp only [exec, hst]
      rw [hexec]
      refine ⟨fun caller' retry' conn' heq => ?_, fun c hna => absurd trivial hna, h.first⟩
      cases heq
      exact ⟨Function.update_self .., fun c hc => (Option.some.inj hc).symm⟩
    all_goals
      have := hen.1
      rw [hst] at this
      exact this.elim
  | openFails =>
    have hs : ¬ s.stage.Authing := by
      intro ha
      cases hst : s.stage <;> simp_all [Stage.Authing, Stage.Opening, Enabled]
    simp only [exec]
    split
    · exact watched_retry h.first fun c hc => h.returned c hs hc
    · exact h
  | awake =>
    have hs : ¬ s.stage.Authing := by
      intro ha
      cases hst : s.stage <;> simp_all [Stage.Authing, Stage.Sleeping, Enabled]
    simp only [exec]
    split
    · exact h.setStage hs id
    · exact h
  | authSends => exact h.send fun _ => iff_of_true rfl hen.1
  | authReturns =>
    simp only [exec]
    split
    · rename_i caller retry conn hst
      obtain ⟨-, hconn⟩ := h.running caller retry conn hst
      have h' : Watched { s.setAuth conn .returned with stage := .idle } := by
        refine ⟨fun _ _ _ heq => ?_, fun c _ hc => ?_, h.first⟩
        · cases heq
        · rw [hconn c hc]
          exact Function.update_self ..
      exact h'.proceed fun _ _ => id
    · exact h
  | authRaises =>
    simp only [exec]
    split
    · refine watched_retry h.first fun c hc => ?_
      cases hc
    · exact h
  | close => exact h.closeSocket

/-- As long as no request finds a connection whose auth callback runs. -/
theorem authFirst_of_patient (h : Reaches step Patient {} s) : AuthFirst s :=
  (Reaches.invariant (I := Watched) watched_init (fun _ _ _ _ hi hp hs => hi.step hp hs) h).first

/-- Two requests wait for the connection, whose first auth callback raises. -/
def patientRun : List Label :=
  [.call .request, .call .request, .opened 7, .authSends, .authRaises, .awake, .opened 8, .authSends,
    .authReturns, .resume 0]

theorem authFirst_patientRun : AuthFirst (after step {} patientRun) ∧
    (after step {} patientRun).sent = [⟨7, true, some .running⟩, ⟨8, true, some .running⟩,
      ⟨8, false, some .returned⟩, ⟨8, false, some .returned⟩] :=
  ⟨authFirst_of_patient (reaches_after (by decide)), by decide⟩

/-- A request that comes while the auth callback waits for its reply is sent at once. -/
theorem sent_before_auth : ∃ s, Reachable step {} s ∧ ¬ AuthFirst s := by
  refine ⟨after step {} [.call .request, .opened 7, .authSends, .call .request],
    reachable_after (by decide), fun h => ?_⟩
  have := h ⟨7, false, some .running⟩ (by decide)
  cases this

end State

end Connect

end SocketChannel

end SkynetCpp
