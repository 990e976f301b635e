import SkynetCpp.Counters
import SkynetCpp.Proofs.Calm
import SkynetCpp.Proofs.ViewSim

/-!
# Counters that do not wrap

What `session_id_coroutine` and `sleep_session` hold was allocated before, so that no session in
them is beyond the counter (`Issued`). A step that allocates none holds none that was not held
before (`Quiet`). The handle of an actor is its number.
-/

namespace SkynetCpp

namespace LuaService

open Lib

namespace State

variable {s s' t u : State} {co : Coroutine} {session : ℤ}

/-- The session is outstanding, or can become so by a wakeup. -/
def Held (s : State) (session : ℤ) : Prop :=
  s.sessionIdCoroutine session ≠ none ∨ ∃ co, s.sleepSession co = some session

/-- From `s` to `t` no session was allocated. -/
structure Quiet (s t : State) : Prop where
  counter : t.nextSession = s.nextSession
  sessions : t.sessions = s.sessions
  held : ∀ session, t.Held session → s.Held session

theorem Quiet.refl : Quiet s s := ⟨rfl, rfl, fun _ => id⟩

theorem Quiet.shrink (h : Quiet s t) (hnext : u.nextSession = t.nextSession) (hlog : u.log = t.log)
    (hheld : ∀ session, u.Held session → t.Held session) : Quiet s u where
  counter := hnext.trans h.counter
  sessions := by
    rw [← h.sessions]
    unfold State.sessions
    rw [hlog]
  held session hu := h.held session (hheld session hu)

theorem Quiet.same (h : Quiet s t) (hentries : u.sessionIdCoroutine = t.sessionIdCoroutine)
    (hsleep : u.sleepSession = t.sleepSession) (hnext : u.nextSession = t.nextSession)
    (hlog : u.log = t.log) : Quiet s u := by
  refine h.shrink hnext hlog fun session hu => ?_
  unfold Held at hu ⊢
  rw [← hentries, ← hsleep]
  exact hu

theorem Quiet.record {e : Event} (h : Quiet s t) (he : e.IsAllocated = false) :
    Quiet s (t.record e) where
  counter := h.counter
  sessions := by
    rw [← h.sessions]
    change (t.log ++ [e]).countP Event.IsAllocated = _
    rw [List.countP_append, List.countP_singleton, he]
    rfl
  held := h.held

theorem Quiet.back (h : Quiet s t) : Quiet s t.back := h.same rfl rfl rfl rfl

theorem Quiet.setRequest (h : Quiet s t) (co : Coroutine) (session : Option ℤ)
    (address : Option Handle) (n : Option ℕ) : Quiet s (t.setRequest co session address n) :=
  h.same rfl rfl rfl rfl

theorem Quiet.send {n : ℕ} {address : Option Handle} {type : ℤ} {sends : Bool} (h : Quiet s t) :
    Quiet s (t.send n address type session sends) := by
  unfold State.send
  split
  · exact h.record rfl
  · exact h.record rfl

theorem Quiet.setEntry {e : Option Entry} (h : Quiet s t) (he : e = none ∨ t.Held session) :
    Quiet s (t.setEntry session e) := by
  refine h.shrink rfl rfl fun session' hu => ?_
  rcases hu with hentry | hsleep
  · change Function.update t.sessionIdCoroutine session e session' ≠ none at hentry
    rw [Function.update_apply] at hentry
    split_ifs at hentry with heq
    · exact heq ▸ he.resolve_left hentry
    · exact .inl hentry
  · exact .inr hsleep

theorem Quiet.forget (h : Quiet s t) (hentries : u.sessionIdCoroutine = t.sessionIdCoroutine)
    (hsleep : u.sleepSession = Function.update t.sleepSession co none)
    (hnext : u.nextSession = t.nextSession) (hlog : u.log = t.log) : Quiet s u := by
  refine h.shrink hnext hlog fun session hu => ?_
  rcases hu with hentry | ⟨c, hc⟩
  · exact .inl (hentries ▸ hentry)
  · rw [hsleep, Function.update_apply] at hc
    split_ifs at hc
    exact .inr ⟨c, hc⟩

theorem Quiet.resume (h : Quiet s t) : Quiet s (t.resume co) := by
  have hsleep : (t.resume co).sleepSession = t.sleepAfter co := rfl
  unfold sleepAfter at hsleep
  split at hsleep
  · exact h.forget rfl hsleep rfl rfl
  · exact h.forget rfl hsleep rfl rfl
  · exact h.same rfl hsleep rfl rfl

theorem Quiet.accept {m : Message} {unpacks : Bool} (h : Quiet s t) :
    Quiet s (t.accept m co unpacks) := by
  have hrequest : Quiet s { t with requests := t.requests ++ [m] } := h.same rfl rfl rfl rfl
  unfold State.accept
  dsimp only
  split
  · split_ifs
    · exact (hrequest.record rfl).send.back
    · exact (hrequest.record rfl).back
  · exact (hrequest.record rfl).back
  · have hcreated : Quiet s (({ t with requests := t.requests ++ [m] } : State).coCreate co) :=
      hrequest.same rfl rfl rfl rfl
    have hmade := hcreated.setRequest co (some m.session) (some m.source) (some t.requests.length)
    split_ifs
    · exact (hmade.record rfl).same rfl rfl rfl rfl
    · exact (hmade.record rfl).resume
    · exact (hmade.record rfl).resume

theorem Quiet.rawDispatchMessage {m : Message} {unpacks : Bool} (h : Quiet s t) :
    Quiet s (t.rawDispatchMessage m co unpacks) := by
  have hcleared : Quiet s (t.setEntry m.session none) := h.setEntry (.inl rfl)
  unfold State.rawDispatchMessage
  split_ifs
  · split
    · exact hcleared.back
    · exact h.back
    · exact (hcleared.record rfl).resume
  · split
    · exact hcleared.same rfl rfl rfl rfl
    · exact h.back
    · exact (hcleared.record rfl).resume
  · refine Quiet.back (Quiet.record ?_ rfl)
    exact h.same rfl rfl rfl rfl
  · exact h.accept

theorem Quiet.raise (h : Quiet s t) : Quiet s (t.raise co) where
  counter := h.counter
  sessions := by
    rw [← h.sessions]
    change (t.log ++ _).countP Event.IsAllocated = _
    rw [List.countP_append]
    cases t.serving co <;> rfl
  held := h.held

/-- A call that allocates no session. -/
theorem Quiet.perform {call : Call} (h : Quiet s t) (hcall : ¬ call.Allocates) :
    Quiet s (t.perform co call) := by
  cases call with
  | timeout | call | sleep | wait => exact absurd trivial hcall
  | registerProtocol | ignoreret | startReturns | finish => exact h.same rfl rfl rfl rfl
  | fork co' =>
    exact Quiet.record (t := { t.coCreate co' with forkQueue := t.forkQueue ++ [co'] })
      (h.same rfl rfl rfl rfl) rfl
  | raise => exact h.raise
  | dispatch type dispatch =>
    change Quiet s (if _ then _ else t)
    split_ifs
    · exact h.same rfl rfl rfl rfl
    · exact h
  | wakeup co' =>
    change Quiet s (t.wakeup co')
    unfold State.wakeup
    split
    · dsimp only
      split_ifs
      · exact h.record rfl
      · refine Quiet.record ?_ rfl
        exact Quiet.same (h.record (e := .wakeup co' _) rfl) rfl rfl rfl rfl
    · exact h
  | ret sends =>
    change Quiet s (t.ret co sends)
    unfold State.ret
    split
    · have hignored : Quiet s (t.ignoreret co) := h.same rfl rfl rfl rfl
      dsimp only
      split_ifs
      · exact hignored
      · exact hignored.send
    · exact h
  | response =>
    change Quiet s (t.response co)
    unfold State.response
    split
    · split_ifs
      · exact h
      · exact h.same rfl rfl rfl rfl
    · exact h
  | respond i ok sends =>
    change Quiet s (t.respond i ok sends)
    unfold State.respond
    split
    · split
      · exact h
      · refine Quiet.send ?_
        exact h.same rfl rfl rfl rfl
    · exact h

theorem Quiet.next (h : Quiet s t) : Quiet s t.next := by
  unfold State.next
  split
  · split
    next co rest hq =>
      refine Quiet.resume (Quiet.record ?_ rfl)
      exact h.same rfl rfl rfl rfl
    next => exact h
  next co rest hphase =>
    have htaken : Quiet s ({ t with wakeupQueue := t.wakeupQueue.erase co }.record (.taken co)) :=
      Quiet.record (t := { t with wakeupQueue := _ }) (h.same rfl rfl rfl rfl) rfl
    dsimp only
    split
    next session hsleep =>
      have hbroken := htaken.setEntry (e := some .broken) (.inr (.inr ⟨co, hsleep⟩))
      refine Quiet.resume (Quiet.record ?_ rfl)
      exact hbroken.forget rfl rfl rfl rfl
    next => exact htaken.same rfl rfl rfl rfl
  · exact h.same rfl rfl rfl rfl
  · exact h

/-- No session that is held is beyond the counter, as long as that has not wrapped. -/
structure Issued (s : State) : Prop where
  counter : s.sessions < 2 ^ 31 - 1 → s.nextSession = s.sessions + 1
  held : ∀ session, s.Held session → session ≤ s.sessions

theorem issued_init : Issued {} where
  counter _ := rfl
  held _ h := h.elim (absurd rfl) fun ⟨_, hco⟩ => nomatch hco

theorem Issued.quiet (h : Issued s) (hq : Quiet s t) : Issued t where
  counter hfew := by
    rw [hq.sessions] at hfew ⊢
    rw [hq.counter]
    exact h.counter hfew
  held session ht := by
    rw [hq.sessions]
    exact h.held session (hq.held session ht)

theorem Issued.fresh (h : Issued s) (hfew : s.sessions < 2 ^ 31 - 1) :
    0 < s.nextSession ∧ s.sessionIdCoroutine s.nextSession = none := by
  have hnext := h.counter hfew
  refine ⟨by omega, ?_⟩
  by_contra hne
  have hle := h.held _ (.inl hne)
  omega

/-- A session is allocated, and no other is held that was not before. -/
theorem Issued.genid (h : Issued s) (co : Coroutine) (hfew : s.sessions < 2 ^ 31 - 1)
    (hnext : t.nextSession = (s.genid co).nextSession)
    (hlog : t.log = s.log ++ [.allocated co s.nextSession])
    (hheld : ∀ session, t.Held session → s.Held session ∨ session = s.nextSession) : Issued t := by
  have hcounter := h.counter hfew
  have hsessions : t.sessions = s.sessions + 1 := by
    unfold sessions
    rw [hlog, List.countP_append]
    rfl
  refine ⟨fun hfew' => ?_, fun session ht => ?_⟩
  · rw [hsessions] at hfew' ⊢
    rw [hnext]
    change (if s.nextSession = 2 ^ 31 - 1 then -(2 ^ 31) else s.nextSession + 1) = _
    rw [if_neg (by omega), hcounter]
    push_cast
    rfl
  · rw [hsessions]
    push_cast
    rcases hheld session ht with hs | rfl
    · have hle := h.held session hs
      omega
    · omega

/-- The session is entered, and held by `sleep_session` or not. -/
theorem held_enter {e : Option Entry} (hentries : t.sessionIdCoroutine =
      Function.update s.sessionIdCoroutine s.nextSession e)
    (hsleep : ∀ c, t.sleepSession c = s.sleepSession c ∨ t.sleepSession c = some s.nextSession)
    (ht : t.Held session) : s.Held session ∨ session = s.nextSession := by
  rcases ht with hentry | ⟨c, hc⟩
  · rw [hentries, Function.update_apply] at hentry
    split_ifs at hentry with heq
    · exact .inr heq
    · exact .inl (.inl hentry)
  · rcases hsleep c with hs | hs
    · exact .inl (.inr ⟨c, hs ▸ hc⟩)
    · exact .inr (Option.some.inj (hc.symm.trans hs))

theorem sleep_update {c token : Coroutine} :
    Function.update s.sleepSession token (some session) c = s.sleepSession c ∨
      Function.update s.sleepSession token (some session) c = some session := by
  rw [Function.update_apply]
  split_ifs
  · exact .inr rfl
  · exact .inl rfl

/-- A call that allocates a session. -/
theorem Issued.allocate {call : Call} (h : Issued s) (hcall : call.Allocates)
    (hfew : s.sessions < 2 ^ 31 - 1) : Issued (s.perform co call) := by
  cases call with
  | timeout co' =>
    exact h.genid co' hfew rfl rfl fun _ => held_enter rfl fun _ => .inl rfl
  | call sends =>
    cases sends with
    | false => exact h.genid co hfew rfl rfl fun _ => held_enter rfl fun _ => .inl rfl
    | true => exact h.genid co hfew rfl rfl fun _ => held_enter rfl fun _ => .inl rfl
  | sleep sets =>
    cases sets with
    | false => exact h.genid co hfew rfl rfl fun _ => held_enter rfl fun _ => sleep_update
    | true => exact h.genid co hfew rfl rfl fun _ => held_enter rfl fun _ => sleep_update
  | wait token =>
    exact h.genid co hfew rfl rfl fun _ => held_enter rfl fun _ => sleep_update
  | _ => exact hcall.elim

theorem Issued.perform {call : Call} (h : Issued s)
    (hfew : call.Allocates → s.sessions < 2 ^ 31 - 1) : Issued (s.perform co call) := by
  by_cases hcall : call.Allocates
  · exact h.allocate hcall (hfew hcall)
  · exact h.quiet (Quiet.refl.perform hcall)

theorem Issued.exec {l : Label} (h : Issued s) (hfew : s.FewSessions (.step l)) :
    Issued (s.exec l) := by
  cases l with
  | main c => exact h.perform hfew
  | start co =>
    have htimeout : Issued (s.perform 0 (.timeout co)) := h.allocate trivial (hfew trivial)
    exact htimeout.quiet (Quiet.refl.same rfl rfl rfl rfl)
  | loaded | collect l => exact h.quiet (Quiet.refl.same rfl rfl rfl rfl)
  | message m co unpacks =>
    refine h.quiet (Quiet.rawDispatchMessage (Quiet.record ?_ rfl))
    exact Quiet.refl.same rfl rfl rfl rfl
  | replay co unpacks =>
    simp only [State.exec]
    split
    · refine h.quiet (Quiet.rawDispatchMessage ?_)
      exact Quiet.refl.same rfl rfl rfl rfl
    · exact h
  | code c =>
    simp only [State.exec]
    split
    · exact h.perform hfew
    · exact h
  | next => exact h.quiet Quiet.refl.next

theorem Issued.act {a : Act} (h : Issued s) (hfew : s.FewSessions a) (hs : s.act a = some s') :
    Issued s' := by
  cases a with
  | step l =>
    obtain ⟨-, rfl⟩ := step_eq_some.1 hs
    exact h.exec hfew
  | genid co =>
    simp only [State.act] at hs
    split_ifs at hs
    obtain rfl := Option.some.inj hs
    exact h.genid co (hfew trivial) rfl rfl fun _ => .inl

/-- `c.genid` returns any positive session, in its turn. -/
theorem reachable_genid : ∀ n : ℕ, n ≤ 2 ^ 31 - 2 → ∃ s, Reachable State.act {} s ∧
    s.phase = .loading ∧ s.nextSession = n + 1
  | 0, _ => ⟨{}, .refl, rfl, rfl⟩
  | n + 1, hle => by
    obtain ⟨s, hs, hphase, hnext⟩ := reachable_genid n (by omega)
    refine ⟨s.genid 0, hs.tail (l := .genid 0) trivial (if_pos (.inl hphase)), hphase, ?_⟩
    change (if s.nextSession = 2 ^ 31 - 1 then -(2 ^ 31) else s.nextSession + 1) = _
    rw [if_neg (by omega), hnext]
    push_cast
    rfl

end State

end LuaService

open Lib

namespace State

variable {s s' : State} {l : Label} {n m : ℕ}

/-- No access touches a handle. -/
theorem exec_handle {tid : ℕ} {f : Frame} {c : Choice} {r : State × List Frame}
    (h : s.exec tid f c = some r) {q : QId} (hq : q < s.spawned) :
    (r.1.queues q).handle = (s.queues q).handle := by
  cases f with
  | worker =>
    cases c <;> simp only [exec, reduceCtorEq] at h
    obtain ⟨q₀, -, rfl⟩ := Option.map_eq_some_iff.1 h
    rfl
  | call f =>
    cases c <;> simp only [exec, reduceCtorEq, Option.some.injEq] at h
    subst h
    cases f with
    | send dest m => cases hd : s.registry dest <;> simp [execCall, hd]
    | kill h₀ =>
      rcases hd : s.registry h₀ with - | q₀ <;> simp only [execCall, hd]
      rw [Function.update_apply]
      split_ifs with heq
      · rw [heq]
      · rfl
    | spawn =>
      simp only [execCall]
      rw [Function.update_of_ne (Nat.ne_of_lt hq)]
    | error source text | registerName name h₀ => rfl
  | op q₀ o =>
    simp only [exec] at h
    obtain ⟨x, hx, rfl⟩ := Option.map_eq_some_iff.1 h
    rw [applyShared_queues]
    change (Function.update s.queues q₀ x.queue q).handle = _
    rw [Function.update_apply]
    split_ifs with heq
    · rw [heq]
      exact (Op.exec_access hx).same.1
    · rfl
  | external | killLogger h₀ | killLoggerCas h₀ | errorFind source text
  | errorStore source text h₀ =>
    cases c <;> simp only [exec, reduceCtorEq, Option.some.injEq] at h
    subst h
    rfl

/-- The handle of an actor is its number. -/
structure Counted (s : State) : Prop where
  few : s.spawned < 2 ^ 32
  handle : ∀ q < s.spawned, (s.queues q).handle = q + 1

theorem Counted.step (h : Counted s) (hfew : s.FewSpawns l) (hs : State.step s l = some s') :
    Counted s' := by
  obtain ⟨f, rest, r, ht, hr, rfl, -⟩ := step_frames hs
  rcases exec_spawned hr with hspawned | ⟨rfl, rfl⟩
  · refine ⟨?_, fun q hq => ?_⟩
    · change r.1.spawned < _
      rw [hspawned]
      exact h.few
    · change q < r.1.spawned at hq
      rw [hspawned] at hq
      exact (exec_handle hr hq).trans (h.handle q hq)
  · have hlt := hfew rest ht
    refine ⟨hlt, fun q hq => ?_⟩
    change q < s.spawned + 1 at hq
    change (Function.update s.queues s.spawned _ q).handle = _
    rw [Function.update_apply]
    split_ifs with heq
    · rw [heq]
      exact Nat.mod_eq_of_lt hlt
    · exact h.handle q (Nat.lt_of_le_of_ne (Nat.le_of_lt_succ hq) heq)

theorem Counted.unique (h : Counted s) : s.UniqueHandles := by
  intro q hq _
  refine ⟨?_, fun q' hq' hne => ?_⟩
  · rw [h.handle q hq]
    exact Nat.succ_ne_zero q
  · rw [h.handle q hq, h.handle q' hq'.1]
    exact fun heq => hne (Nat.succ.inj heq)

end State

/-- A service that has allocated fewer than 2^31 - 1 sessions gets a new one, and a system with
fewer than 2^32 - 1 actors a new handle. -/
theorem unique_of_few (n m : ℕ) :
    (∀ s a s', Reaches LuaService.State.act LuaService.State.FewSessions {} s → s.FewSessions a →
      s.act a = some s' → s.FreshSession a) ∧
    ∀ s, Reaches State.step State.FewSpawns (State.init n m) s → s.UniqueHandles := by
  refine ⟨fun s a s' h hfew _ hallocates => ?_, fun s h => ?_⟩
  · have hissued : s.Issued := h.invariant LuaService.State.issued_init
      fun _ _ _ _ hi hP hs => hi.act hP hs
    exact hissued.fresh (hfew hallocates)
  · have hinit : (State.init n m).Counted :=
      ⟨Nat.two_pow_pos 32, fun _ hq => absurd hq (Nat.not_lt_zero _)⟩
    have hcounted : s.Counted := h.invariant hinit fun _ _ _ _ hi hP hs => hi.step hP hs
    exact hcounted.unique

/-- A session for a call, and one by `skynet.genid`. -/
def genidRun : List LuaService.Act :=
  [.step (.start 0), .step .loaded,
    .step (.message { type := PTYPE_RESPONSE, session := 1 } 0 true), .genid 0]

/-- A thread that spawns an actor. -/
def spawnRun : List State.Label :=
  [(0, .call .spawn), (0, .go), (0, .go), (0, .ret), (0, .go), (0, .go)]

theorem unique_genidRun :
    (after LuaService.State.act {} genidRun).FreshSession (.step (.code (.call true))) ∧
      (after State.step (State.init 0 1) spawnRun).UniqueHandles :=
  ⟨(unique_of_few 0 1).1 _ _ _ (reaches_after (by decide)) (by decide) rfl,
    (unique_of_few 0 1).2 _ (reaches_after (by decide))⟩

/-- The session after the largest is negative. -/
theorem negative_session : ∃ s a s', Reachable LuaService.State.act {} s ∧ s.act a = some s' ∧
    ¬ s.FreshSession a := by
  obtain ⟨s, hs, hphase, hnext⟩ := LuaService.State.reachable_genid (2 ^ 31 - 2) (by decide)
  have hstep : ∀ s : LuaService.State, s.phase = .loading → s.act (.genid 0) = some (s.genid 0) :=
    fun s hphase => if_pos (.inl hphase)
  refine ⟨s.genid 0, .genid 0, _, hs.tail trivial (hstep s hphase), hstep _ hphase, fun h => ?_⟩
  have hpos : 0 < (s.genid 0).nextSession := (h trivial).1
  change 0 < (if s.nextSession = 2 ^ 31 - 1 then -(2 ^ 31) else s.nextSession + 1) at hpos
  rw [if_pos (by rw [hnext]; decide)] at hpos
  exact absurd hpos (by decide)

end SkynetCpp
