import SkynetCpp.ErrorReports
import SkynetCpp.Proofs.Counters
import SkynetCpp.Proofs.Delivery

/-!
# Careful runs lose no error

A handle stays that of a live actor until its actor is killed or fails in `on_init` (`Spoils`). In
a careful run neither happens to the logger, nor to where an error is on its way (`Kept`), so that
each point of `error` and of its `push_message` finds the actor live.
-/

namespace SkynetCpp

open Lib Op

section View

variable {q q' : ActorQueue} {n : Counts} {t tok : ℕ} {o : Op} {next : List Op}

def Op.isRegister : Op → Bool
  | spawnRegister => true
  | _ => false

theorem Op.Access.accepting_or (ha : o.Access q q' next tok) :
    q'.accepting = q.accepting ∨ o = Op.killAccepting ∨ o = Op.spawnAccepting := by
  cases ha <;> simp

theorem Op.Access.initFailed_or (ha : o.Access q q' next tok) :
    q'.initFailed = q.initFailed ∨ q'.initFailed = true ∧ (o = Op.onInit ∨ o = Op.spawnMark) := by
  cases ha <;> simp

theorem Op.exec_initFailed {tid : ℕ} {weight : ℤ} {c : Choice} {r : OpResult}
    (h : o.exec tid weight q c = some r) : r.queue.initFailed = q.initFailed ∨
      o = Op.onInit ∧ c = .failInit ∨ o = Op.spawnMark := by
  rcases (exec_access h).initFailed_or with heq | ⟨-, rfl | rfl⟩
  · exact .inl heq
  · cases c <;> simp only [Op.exec, reduceCtorEq, Option.some.injEq] at h <;> subst h <;> simp
  · simp

/-- Only a `spawn` that has failed takes a queue out of the registry, but for `kill`. -/
theorem Op.exec_unregister {tid : ℕ} {weight : ℤ} {c : Choice} {r : OpResult}
    (h : o.exec tid weight q c = some r) (hr : r.shared = .unregister) : o = Op.spawnErase := by
  by_contra ho
  cases o <;> cases c <;> simp only [exec, reduceCtorEq] at h
  case spawnErase.go => exact ho rfl
  case dispatchState.go => cases hs : q.scheduleState <;> rw [hs] at h <;> cases h <;> cases hr
  case drain.pick | batchDequeue.pick =>
    obtain ⟨m, hm, rfl⟩ := Option.map_eq_some_iff.1 h
    cases hr
  all_goals (try split_ifs at h) <;> cases h <;> cases hr

/-- An actor that does not accept messages was killed, or its `on_init` failed. -/
structure Open (q : ActorQueue) (n : Counts) (t : ℕ) : Prop where
  sound : Sound q n t
  accepting : q.accepting = false → q.killed = true ∨ q.initFailed = true
  new : 0 < n isRegister → q.initFailed = false

theorem Open.access (hn : n.Lawful) (ha : o.Access q q' next tok) (h : Open q (n.add [o]) t) :
    Open q' (n.add next) (t + tok) := by
  refine ⟨sound_inductive.access hn ha trivial h.sound, fun hclosed => ?_, fun hnew => ?_⟩
  · have hkilled := ha.same.2
    have hfailed : q.initFailed = true → q'.initFailed = true := fun hq => by
      rcases ha.initFailed_or with heq | ⟨heq, -⟩
      · exact heq.trans hq
      · exact heq
    rcases ha.accepting_or with heq | rfl | rfl
    · rw [hkilled]
      exact (h.accepting (heq ▸ hclosed)).imp_right hfailed
    · have hk := h.sound.released.kill
      simp only [Counts.add_apply, countP_singleton, killFlags, Bool.toNat_true] at hk
      refine .inl (hkilled.trans ?_)
      cases hq : q.killed
      · rw [hq, Bool.toNat_false] at hk
        omega
      · rfl
    · refine .inr (hfailed (h.sound.stages.fails ?_))
      simp [spawnFail]
  · have hnext : next.countP isRegister = 0 := List.countP_eq_zero.2 fun o' ho' hreg => by
      cases o' with
      | spawnRegister => exact ha.not_register ho'
      | _ => cases hreg
    have hrest : 0 < n isRegister := by
      rw [Counts.add_apply, hnext] at hnew
      exact hnew
    have hbefore : q.initFailed = false := h.new (Nat.lt_of_lt_of_le hrest (Nat.le_add_right _ _))
    rcases ha.initFailed_or with heq | ⟨-, ho⟩
    · exact heq.trans hbefore
    · -- `spawn` is at one point only
      have hspawn := h.sound.stages.spawn
      have hle : n isRegister ≤ n spawnInit := hn.mono fun o' ho' => by
        cases o' with
        | spawnRegister => rfl
        | _ => cases ho'
      rcases ho with rfl | rfl <;>
        simp only [Counts.add_apply, countP_singleton, spawnInit, spawnDecide, Bool.toNat_true,
          Bool.toNat_false] at hspawn <;> omega

theorem open_inductive : View.Inductive (fun _ _ _ => True) Open where
  fresh h := ⟨sound_inductive.fresh h, nofun, fun _ => rfl⟩
  access hn ha _ h := h.access hn ha
  push m h := ⟨sound_inductive.push m h.sound, h.accepting,
    fun hnew => h.new (by simpa [isRegister] using hnew)⟩
  kill hk h := ⟨sound_inductive.kill hk h.sound, fun _ => .inl rfl,
    fun hnew => h.new (by simpa [isRegister] using hnew)⟩
  take h := ⟨sound_inductive.take h.sound, h.accepting,
    fun hnew => h.new (by simpa [isRegister] using hnew)⟩

end View

namespace State

variable {s s' : State} {n m : ℕ} {q : QId} {h : Handle} {tid : ℕ} {f : Frame} {c : Choice}
  {r : State × List Frame} {rest : List Frame}

theorem LiveActor.accepting (hr : Reachable step (State.init n m) s) (hq : s.LiveActor q) :
    (s.queues q).accepting = true := by
  by_contra hclosed
  have hopen := open_inductive.of_reachable hr hq.1
  rcases hopen.accepting (Bool.not_eq_true _ ▸ hclosed) with hkilled | hfailed
  · exact Bool.false_ne_true (hq.2.1.symm.trans hkilled)
  · exact Bool.false_ne_true (hq.2.2.symm.trans hfailed)

/-- An actor that is about to be registered is live. -/
theorem liveActor_of_register (hr : Reachable step (State.init n m) s)
    (hmem : Op.spawnRegister ∈ s.opsOn q) : s.LiveActor q := by
  have hreg := (reachable_views hr).1
  have hq := hreg.lt_of_mem hmem
  refine ⟨hq, hreg.before hmem, (open_inductive.of_reachable hr hq).new ?_⟩
  exact List.countP_pos_iff.2 ⟨_, hmem, rfl⟩

/-- In the access `f` an actor of this handle is killed, or its `on_init` fails. -/
def Spoils (s : State) (f : Frame) (c : Choice) (h : Handle) : Prop :=
  f = .call (.kill h) ∧ s.registry h ≠ none ∨
    ∃ q, (s.queues q).handle = h ∧ (f = .op q .onInit ∧ c = .failInit ∨ f = .op q .spawnMark)

theorem LiveActor.same (hq : s.LiveActor q) (hle : s.spawned ≤ s'.spawned)
    (hkilled : (s'.queues q).killed = (s.queues q).killed)
    (hfailed : (s'.queues q).initFailed = (s.queues q).initFailed) : s'.LiveActor q :=
  ⟨Nat.lt_of_lt_of_le hq.1 hle, hkilled.trans hq.2.1, hfailed.trans hq.2.2⟩

theorem queues_op (s : State) (q : QId) (a : ActorQueue) (sh : Shared) :
    (({ s with queues := Function.update s.queues q a } : State).applyShared q sh).queues
      = Function.update s.queues q a := applyShared_queues _ q sh

/-- An actor lives on, unless the access spoils its handle. -/
theorem LiveActor.exec_or (hreg : Registered s) (hr : s.exec tid f c = some r)
    (hq : s.LiveActor q) : r.1.LiveActor q ∨ s.Spoils f c (s.queues q).handle := by
  cases f with
  | worker =>
    cases c <;> simp only [exec, reduceCtorEq] at hr
    obtain ⟨q₀, -, rfl⟩ := Option.map_eq_some_iff.1 hr
    exact .inl hq
  | call f =>
    cases c <;> simp only [exec, reduceCtorEq, Option.some.injEq] at hr
    subst hr
    cases f with
    | send dest m =>
      simp only [execCall]
      cases s.registry dest <;> exact .inl hq
    | kill h₀ =>
      simp only [execCall]
      rcases hd : s.registry h₀ with - | q₀
      · exact .inl hq
      · by_cases heq : q = q₀
        · refine .inr (.inl ⟨?_, ?_⟩)
          · rw [heq, hreg.handle hd]
          · rw [heq, hreg.handle hd, hd]
            exact Option.some_ne_none q₀
        · refine .inl (hq.same (Nat.le_refl _) ?_ ?_)
          · exact congrArg ActorQueue.killed (Function.update_of_ne heq ..)
          · exact congrArg ActorQueue.initFailed (Function.update_of_ne heq ..)
    | spawn =>
      have hne : q ≠ s.spawned := Nat.ne_of_lt hq.1
      refine .inl (hq.same (Nat.le_succ _) ?_ ?_)
      · exact congrArg ActorQueue.killed (Function.update_of_ne hne ..)
      · exact congrArg ActorQueue.initFailed (Function.update_of_ne hne ..)
    | error source text | registerName name h₀ => exact .inl hq
  | op q₀ o =>
    simp only [exec] at hr
    obtain ⟨x, hx, rfl⟩ := Option.map_eq_some_iff.1 hr
    have hle : s.spawned ≤ (applyShared _ q₀ x.shared).spawned :=
      Nat.le_of_eq (applyShared_spawned { s with queues := Function.update s.queues q₀ x.queue } q₀
        x.shared).symm
    by_cases heq : q = q₀
    · subst heq
      have hqueue := congrFun (queues_op s q x.queue x.shared) q
      rw [Function.update_self] at hqueue
      rcases exec_initFailed hx with hfailed | hfailed
      · refine .inl (hq.same hle ?_ ?_)
        · rw [hqueue, (exec_access hx).same.2]
        · rw [hqueue, hfailed]
      · exact .inr (.inr ⟨q, rfl, by simpa using hfailed⟩)
    · have hqueue := congrFun (queues_op s q₀ x.queue x.shared) q
      rw [Function.update_of_ne heq] at hqueue
      exact .inl (hq.same hle (by rw [hqueue]) (by rw [hqueue]))
  | external | killLogger h₀ | killLoggerCas h₀ | errorFind source text
  | errorStore source text h₀ =>
    cases c <;> simp only [exec, reduceCtorEq, Option.some.injEq] at hr
    subst hr
    exact .inl hq

/-- What the registry has for a handle. -/
theorem exec_registry (hr : s.exec tid f c = some r)
    (hq : s.registry h = some q) : r.1.registry h = some q ∨ s.Spoils f c h ∨
      f = .op q .spawnErase ∨
      ∃ q', f = .op q' .spawnRegister ∧ (s.queues q').handle = h ∧ r.1.registry h = some q' := by
  cases f with
  | worker =>
    cases c <;> simp only [exec, reduceCtorEq] at hr
    obtain ⟨q₀, -, rfl⟩ := Option.map_eq_some_iff.1 hr
    exact .inl hq
  | call f =>
    cases c <;> simp only [exec, reduceCtorEq, Option.some.injEq] at hr
    subst hr
    cases f with
    | send dest m =>
      simp only [execCall]
      cases s.registry dest <;> exact .inl hq
    | kill h₀ =>
      simp only [execCall]
      rcases hd : s.registry h₀ with - | q₀
      · exact .inl hq
      · by_cases heq : h = h₀
        · subst heq
          exact .inr (.inl (.inl ⟨rfl, hd ▸ Option.some_ne_none q₀⟩))
        · exact .inl ((Function.update_of_ne heq ..).trans hq)
    | spawn | error source text | registerName name h₀ => exact .inl hq
  | op q₀ o =>
    simp only [exec] at hr
    obtain ⟨x, hx, rfl⟩ := Option.map_eq_some_iff.1 hr
    have hhandle : (Function.update s.queues q₀ x.queue q₀).handle = (s.queues q₀).handle := by
      rw [Function.update_self]
      exact (exec_access hx).same.1
    cases hshared : x.shared with
    | none | token => exact .inl hq
    | register =>
      obtain rfl := exec_register hx hshared
      have hregistry : (applyShared { s with queues := Function.update s.queues q₀ x.queue } q₀
          .register).registry = Function.update s.registry (s.queues q₀).handle (some q₀) := by
        simp only [applyShared, hhandle]
      simp only [hregistry, Function.update_apply]
      split_ifs with heq
      · exact .inr (.inr (.inr ⟨q₀, rfl, heq.symm, rfl⟩))
      · exact .inl hq
    | unregister =>
      obtain rfl := exec_unregister hx hshared
      simp only [applyShared]
      split_ifs with hown
      · by_cases heq : h = (Function.update s.queues q₀ x.queue q₀).handle
        · rw [← heq, hq] at hown
          exact .inr (.inr (.inl (by rw [Option.some.inj hown])))
        · exact .inl ((Function.update_of_ne heq ..).trans hq)
      · exact .inl hq
  | external | killLogger h₀ | killLoggerCas h₀ | errorFind source text
  | errorStore source text h₀ =>
    cases c <;> simp only [exec, reduceCtorEq, Option.some.injEq] at hr
    subst hr
    exact .inl hq

theorem Alive.exec_or (hreach : Reachable step (State.init n m) s)
    (ht : s.threads[tid]? = some (f :: rest)) (hr : s.exec tid f c = some r) (ha : s.Alive h) :
    r.1.Alive h ∨ s.Spoils f c h := by
  have hreg := (reachable_views hreach).1
  obtain ⟨q, hq, hlive⟩ := ha
  have hgoes : ∀ q', r.1.registry h = some q' → (s.queues q').handle = h → s.LiveActor q' →
      r.1.Alive h ∨ s.Spoils f c h := by
    rintro q' hq' rfl hlive'
    exact (hlive'.exec_or hreg hr).imp_left fun hlive' => ⟨q', hq', hlive'⟩
  rcases exec_registry hr hq with hsame | hspoils | rfl | ⟨q', rfl, hhandle, hq'⟩
  · exact hgoes q hsame (hreg.handle hq) hlive
  · exact .inr hspoils
  · have hfails := (sound_of_reachable hreach hlive.1).stages.fails
    refine absurd (hfails ?_) (by rw [hlive.2.2]; decide)
    exact List.countP_pos_iff.2 ⟨_, mem_opsOn_top ht, rfl⟩
  · exact hgoes q' hq' hhandle (liveActor_of_register hreach (mem_opsOn_top ht))

theorem exec_killed (hr : s.exec tid f c = some r) (hq : q < s.spawned)
    (hkilled : (r.1.queues q).killed = true) : (s.queues q).killed = true ∨
      ∃ h₀, f = .call (.kill h₀) ∧ s.registry h₀ = some q := by
  cases f with
  | worker =>
    cases c <;> simp only [exec, reduceCtorEq] at hr
    obtain ⟨q₀, -, rfl⟩ := Option.map_eq_some_iff.1 hr
    exact .inl hkilled
  | call f =>
    cases c <;> simp only [exec, reduceCtorEq, Option.some.injEq] at hr
    subst hr
    cases f with
    | send dest m =>
      simp only [execCall] at hkilled
      cases hd : s.registry dest <;> rw [hd] at hkilled <;> exact .inl hkilled
    | kill h₀ =>
      simp only [execCall] at hkilled
      rcases hd : s.registry h₀ with - | q₀ <;> rw [hd] at hkilled
      · exact .inl hkilled
      · by_cases heq : q = q₀
        · exact .inr ⟨h₀, rfl, heq ▸ hd⟩
        · dsimp only at hkilled
          rw [Function.update_of_ne heq] at hkilled
          exact .inl hkilled
    | spawn =>
      have hne : q ≠ s.spawned := Nat.ne_of_lt hq
      exact .inl ((congrArg ActorQueue.killed (Function.update_of_ne hne ..)).symm.trans hkilled)
    | error source text | registerName name h₀ => exact .inl hkilled
  | op q₀ o =>
    simp only [exec] at hr
    obtain ⟨x, hx, rfl⟩ := Option.map_eq_some_iff.1 hr
    have hqueue := congrFun (queues_op s q₀ x.queue x.shared) q
    simp only [hqueue] at hkilled
    rw [Function.update_apply] at hkilled
    split_ifs at hkilled with heq
    · exact .inl (heq ▸ (exec_access hx).same.2 ▸ hkilled)
    · exact .inl hkilled
  | external | killLogger h₀ | killLoggerCas h₀ | errorFind source text
  | errorStore source text h₀ =>
    cases c <;> simp only [exec, reduceCtorEq, Option.some.injEq] at hr
    subst hr
    exact .inl hkilled

theorem Dead.of_exec (hreg : Registered s) (hr : s.exec tid f c = some r) (hd : r.1.Dead h) :
    s.Dead h ∨ f = .call (.kill h) ∧ s.registry h ≠ none := by
  obtain ⟨q, hq, rfl, hkilled, hlast⟩ := hd
  have hgoes : q < s.spawned → s.spawned ≤ r.1.spawned →
      s.Dead (r.1.queues q).handle ∨
        f = .call (.kill (r.1.queues q).handle) ∧ s.registry (r.1.queues q).handle ≠ none := by
    intro hq hle
    have hhandle := exec_handle hr hq
    rcases exec_killed hr hq hkilled with hkilled | ⟨h₀, rfl, hh₀⟩
    · refine .inl ⟨q, hq, hhandle.symm, hkilled, fun q' hq' hsame => ?_⟩
      exact hlast q' (Nat.lt_of_lt_of_le hq' hle) ((exec_handle hr hq').trans hsame)
    · refine .inr ⟨?_, ?_⟩
      · rw [hhandle, hreg.handle hh₀]
      · rw [hhandle, hreg.handle hh₀, hh₀]
        exact Option.some_ne_none q
  rcases exec_spawned hr with hspawned | ⟨rfl, rfl⟩
  · exact hgoes (hspawned ▸ hq) (Nat.le_of_eq hspawned.symm)
  · by_cases heq : q = s.spawned
    · subst heq
      simp only [execCall, Function.update_self] at hkilled
      exact absurd hkilled Bool.false_ne_true
    · exact hgoes (Nat.lt_of_le_of_ne (Nat.le_of_lt_succ hq) heq) (Nat.le_succ _)

end State

/-- In `error`, where it has read or is to read the names. -/
def Frame.InError : Frame → Prop
  | .errorFind _ _ | .errorStore _ _ _ => True
  | _ => False

/-- A call of `error` is at this point, and its message goes to a live actor. -/
def State.OnWay (s : State) : Frame → Prop
  | .errorFind _ _ => True
  | .errorStore _ _ h | .call (.send h _) => h ≠ 0 ∧ s.Alive h
  | .op q (.pushAccepting _) | .op q (.pushEnqueue _) => (s.queues q).handle ≠ 0 ∧ s.LiveActor q
  | _ => False

namespace State

variable {s : State} {n m : ℕ} {tid : ℕ} {f g : Frame} {c : Choice} {r : State × List Frame}
  {rest : List Frame}

/-- What is on its way stays there, unless the access spoils where it goes. -/
theorem OnWay.exec (hreach : Reachable step (State.init n m) s)
    (ht : s.threads[tid]? = some (f :: rest)) (hr : s.exec tid f c = some r) (hg : s.OnWay g)
    (hspare : ∀ h, h ≠ 0 → s.target g = some h → ¬ s.Spoils f c h) : r.1.OnWay g := by
  have halive : ∀ h, h ≠ 0 ∧ s.Alive h → s.target g = some h → h ≠ 0 ∧ r.1.Alive h :=
    fun h hh htarget => ⟨hh.1, (hh.2.exec_or hreach ht hr).resolve_right (hspare h hh.1 htarget)⟩
  have hlive : ∀ q, (s.queues q).handle ≠ 0 ∧ s.LiveActor q →
      s.target g = some (s.queues q).handle → (r.1.queues q).handle ≠ 0 ∧ r.1.LiveActor q := by
    intro q hq htarget
    refine ⟨?_, (hq.2.exec_or (reachable_views hreach).1 hr).resolve_right (hspare _ hq.1 htarget)⟩
    rw [exec_handle hr hq.2.1]
    exact hq.1
  cases g with
  | errorFind source text => trivial
  | errorStore source text h => exact halive h hg rfl
  | call f =>
    cases f with
    | send h m => exact halive h hg rfl
    | _ => exact hg.elim
  | op q o =>
    cases o with
    | pushAccepting m | pushEnqueue m => exact hlive q hg rfl
    | _ => exact hg.elim
  | _ => exact hg.elim

/-- The call of `error` goes on, or ends well. -/
theorem OnWay.proceed (hreach : Reachable step (State.init n m) s) (hf : s.OnWay f)
    (hnamed : s.names (ascii "logger") ≠ 0 → s.Alive (s.names (ascii "logger")))
    (hr : s.exec tid f c = some r) : match s.outcome f with
      | some report => report.Arrived
      | none => ∃ g, r.2.head? = some g ∧ r.1.OnWay g := by
  have hreg := (reachable_views hreach).1
  cases f with
  | errorFind source text =>
    cases c <;> simp only [State.exec, reduceCtorEq, Option.some.injEq] at hr
    subst hr
    simp only [outcome]
    split_ifs with hname
    · trivial
    · exact ⟨_, rfl, hname, hnamed hname⟩
  | errorStore source text h =>
    cases c <;> simp only [State.exec, reduceCtorEq, Option.some.injEq] at hr
    subst hr
    exact ⟨_, rfl, hf⟩
  | call f =>
    cases f with
    | send h m =>
      cases c <;> simp only [State.exec, reduceCtorEq, Option.some.injEq] at hr
      subst hr
      obtain ⟨hne, q, hq, hlive⟩ := hf
      simp only [outcome, execCall, hq]
      refine ⟨_, rfl, ?_, hlive⟩
      rw [hreg.handle hq]
      exact hne
    | _ => exact hf.elim
  | op q o =>
    cases o with
    | pushAccepting m =>
      have hopen := hf.2.accepting hreach
      cases c <;> simp only [State.exec, Op.exec, reduceCtorEq, Option.map_none, hopen, if_true,
        Option.map_some, Option.some.injEq] at hr
      subst hr
      simp only [outcome, hopen, if_true]
      refine ⟨.op q (.pushEnqueue m), rfl, ?_⟩
      simp only [applyShared, OnWay, LiveActor, Function.update_self]
      exact hf
    | pushEnqueue m =>
      simp only [outcome, hf.2, decide_true]
      trivial
    | _ => exact hf.elim
  | _ => exact hf.elim

/-- Only `register_name` changes the names. -/
theorem exec_names (hr : s.exec tid f c = some r) : r.1.names = s.names ∨
    ∃ name h, f = .call (.registerName name h) ∧ r.1.names = Function.update s.names name h := by
  cases f with
  | worker =>
    cases c <;> simp only [State.exec, reduceCtorEq] at hr
    obtain ⟨q₀, -, rfl⟩ := Option.map_eq_some_iff.1 hr
    exact .inl rfl
  | call f =>
    cases c <;> simp only [State.exec, reduceCtorEq, Option.some.injEq] at hr
    subst hr
    cases f with
    | send dest m =>
      simp only [execCall]
      cases s.registry dest <;> exact .inl rfl
    | kill h₀ =>
      simp only [execCall]
      cases s.registry h₀ <;> exact .inl rfl
    | spawn | error source text => exact .inl rfl
    | registerName name h₀ => exact .inr ⟨name, h₀, rfl, rfl⟩
  | op q₀ o =>
    simp only [State.exec] at hr
    obtain ⟨x, -, rfl⟩ := Option.map_eq_some_iff.1 hr
    refine .inl ?_
    cases x.shared with
    | unregister =>
      simp only [applyShared]
      split_ifs <;> rfl
    | _ => rfl
  | external | killLogger h₀ | killLoggerCas h₀ | errorFind source text
  | errorStore source text h₀ =>
    cases c <;> simp only [State.exec, reduceCtorEq, Option.some.injEq] at hr
    subst hr
    exact .inl rfl

/-- `register_name` and `error` set the cached handle, and `kill` resets it. -/
theorem exec_loggerHandle (hr : s.exec tid f c = some r) :
    r.1.loggerHandle = s.loggerHandle ∨ r.1.loggerHandle = 0 ∨
      (∃ source text, f = .errorStore source text r.1.loggerHandle) ∨
      f = .call (.registerName (ascii "logger") r.1.loggerHandle) := by
  cases f with
  | worker =>
    cases c <;> simp only [State.exec, reduceCtorEq] at hr
    obtain ⟨q₀, -, rfl⟩ := Option.map_eq_some_iff.1 hr
    exact .inl rfl
  | call f =>
    cases c <;> simp only [State.exec, reduceCtorEq, Option.some.injEq] at hr
    subst hr
    cases f with
    | send dest m =>
      simp only [execCall]
      cases s.registry dest <;> exact .inl rfl
    | kill h₀ =>
      simp only [execCall]
      cases s.registry h₀ <;> exact .inl rfl
    | spawn | error source text => exact .inl rfl
    | registerName name h₀ =>
      simp only [execCall]
      split_ifs with hname
      · exact .inr (.inr (.inr (by rw [hname])))
      · exact .inl rfl
  | op q₀ o =>
    simp only [State.exec] at hr
    obtain ⟨x, -, rfl⟩ := Option.map_eq_some_iff.1 hr
    refine .inl ?_
    cases x.shared with
    | unregister =>
      simp only [applyShared]
      split_ifs <;> rfl
    | _ => rfl
  | killLoggerCas h₀ =>
    cases c <;> simp only [State.exec, reduceCtorEq, Option.some.injEq] at hr
    subst hr
    simp only
    split_ifs
    · exact .inr (.inl rfl)
    · exact .inl rfl
  | errorStore source text h₀ =>
    cases c <;> simp only [State.exec, reduceCtorEq, Option.some.injEq] at hr
    subst hr
    exact .inr (.inr (.inl ⟨source, text, rfl⟩))
  | external | killLogger h₀ | errorFind source text =>
    cases c <;> simp only [State.exec, reduceCtorEq, Option.some.injEq] at hr
    subst hr
    exact .inl rfl

/-- A thread gets into `error` by a call, and stays there when `find_name` finds something. -/
theorem exec_inError (hr : s.exec tid f c = some r) : (∀ g ∈ r.2, ¬ g.InError) ∨
    ∃ g, r.2 = [g] ∧ ((∃ source text, f = .call (.error source text)) ∨
      s.outcome f = none ∧ f.InError) := by
  have hcalls : ∀ cs : List Call, ∀ g ∈ cs.map Frame.call, ¬ g.InError := fun cs g hg => by
    obtain ⟨_, -, rfl⟩ := List.mem_map.1 hg
    exact id
  cases f with
  | worker =>
    cases c <;> simp only [State.exec, reduceCtorEq] at hr
    obtain ⟨q₀, -, rfl⟩ := Option.map_eq_some_iff.1 hr
    exact .inl (by simp [Frame.InError])
  | call f =>
    cases c <;> simp only [State.exec, reduceCtorEq, Option.some.injEq] at hr
    subst hr
    cases f with
    | send dest m =>
      simp only [execCall]
      cases s.registry dest
      · exact .inl (hcalls _)
      · exact .inl (by simp [Frame.InError])
    | kill h₀ =>
      simp only [execCall]
      cases s.registry h₀ <;> exact .inl (by simp [Frame.InError])
    | spawn | registerName name h₀ => exact .inl (by simp [execCall, Frame.InError])
    | error source text =>
      refine .inr ?_
      simp only [execCall]
      split_ifs <;> exact ⟨_, rfl, .inl ⟨source, text, rfl⟩⟩
  | op q₀ o =>
    simp only [State.exec] at hr
    obtain ⟨x, -, rfl⟩ := Option.map_eq_some_iff.1 hr
    refine .inl fun g hg => ?_
    rcases List.mem_append.1 hg with hg | hg
    · exact hcalls _ g hg
    · obtain ⟨_, -, rfl⟩ := List.mem_map.1 hg
      exact id
  | errorFind source text =>
    cases c <;> simp only [State.exec, reduceCtorEq, Option.some.injEq] at hr
    subst hr
    simp only [outcome]
    split_ifs
    · exact .inl (by simp)
    · exact .inr ⟨_, rfl, .inr ⟨rfl, trivial⟩⟩
  | external | killLoggerCas h₀ | errorStore source text h₀ =>
    cases c <;> simp only [State.exec, reduceCtorEq, Option.some.injEq] at hr
    subst hr
    exact .inl (by simp [Frame.InError])
  | killLogger h₀ =>
    cases c <;> simp only [State.exec, reduceCtorEq, Option.some.injEq] at hr
    subst hr
    refine .inl ?_
    split_ifs <;> simp [Frame.InError]

end State

namespace Reported

variable {s s' : Reported} {l : State.Label} {n m : ℕ} {f : Frame} {rest : List Frame}

theorem step_state (hs : s.step l = some s') : s.state.step l = some s'.state := by
  obtain ⟨state, hstate, rfl⟩ := Option.map_eq_some_iff.1 hs
  rw [hstate]
  split
  · rfl
  · split <;> rfl
  · rfl

/-- What a step does to the history. -/
theorem step_history (hs : s.step l = some s') (ht : s.state.threads[l.1]? = some (f :: rest)) :
    (∃ source text, f = .call (.error source text)) ∧
        s'.reporting = Function.update s.reporting l.1 true ∧ s'.reports = s.reports ∨
      (∃ r, s.reporting l.1 = true ∧ s.state.outcome f = some r ∧
        s'.reporting = Function.update s.reporting l.1 false ∧ s'.reports = s.reports ++ [r]) ∨
      (∀ source text, f ≠ .call (.error source text)) ∧
        (s.reporting l.1 = false ∨ s.state.outcome f = none) ∧ s'.reporting = s.reporting ∧
        s'.reports = s.reports := by
  obtain ⟨state, -, rfl⟩ := Option.map_eq_some_iff.1 hs
  rw [ht]
  split
  next source text fs heq =>
    obtain ⟨rfl, rfl⟩ := List.cons.inj (Option.some.inj heq)
    exact .inl ⟨⟨source, text, rfl⟩, rfl, rfl⟩
  next f' fs hnot heq =>
    obtain ⟨rfl, rfl⟩ := List.cons.inj (Option.some.inj heq)
    split
    next r hreporting houtcome => exact .inr (.inl ⟨r, hreporting, houtcome, rfl, rfl⟩)
    next hnone =>
      refine .inr (.inr ⟨hnot, ?_, rfl, rfl⟩)
      rcases hreporting : s.reporting l.1 with - | -
      · exact .inl rfl
      · refine .inr (Option.eq_none_iff_forall_ne_some.2 fun r houtcome => ?_)
        exact hnone r hreporting houtcome
  next hnot => exact absurd rfl (hnot f rest)

/-- What careful runs keep. -/
structure Kept (s : Reported) : Prop where
  names : ∀ name, s.state.names name ≠ 0 → ¬ s.state.Dead (s.state.names name)
  logger : s.state.loggerHandle ≠ 0 → s.state.Alive s.state.loggerHandle
  named : s.state.names (ascii "logger") ≠ 0 → s.state.Alive (s.state.names (ascii "logger"))
  reports : ∀ r ∈ s.reports, r.Arrived
  onWay : ∀ tid, s.reporting tid = true → ∃ f, s.ReportsAt tid f ∧ s.state.OnWay f
  below : ∀ fs ∈ s.state.threads, ∀ g ∈ fs.tail, ¬ g.InError
  top : ∀ (tid : ℕ) f rest, s.state.threads[tid]? = some (f :: rest) → f.InError →
    s.reporting tid = true

theorem kept_init (n m : ℕ) : Kept (init n m) := by
  have hthreads : ∀ fs ∈ (State.init n m).threads, fs = [.worker] ∨ fs = [.external] :=
    fun fs hfs => (List.mem_append.1 hfs).imp List.eq_of_mem_replicate List.eq_of_mem_replicate
  refine ⟨fun _ h => absurd rfl h, fun h => absurd rfl h, fun h => absurd rfl h,
    fun _ h => absurd h List.not_mem_nil, fun _ h => absurd h Bool.false_ne_true,
    fun fs hfs g hg => ?_, fun tid f rest ht hf => ?_⟩
  · rcases hthreads fs hfs with rfl | rfl <;> cases hg
  · rcases hthreads _ (List.mem_of_getElem? ht) with heq | heq <;>
      obtain ⟨rfl, -⟩ := List.cons.inj heq <;> exact hf.elim

/-- The logger, and where errors are on their way to, are spared. -/
theorem Careful.spares (hP : s.Careful l) (ht : s.state.threads[l.1]? = some (f :: rest))
    {h : Handle} (ha : s.Aimed h) : ¬ s.state.Spoils f l.2 h := by
  have hf := hP f (by rw [ht]; rfl)
  rintro (⟨rfl, hreg⟩ | ⟨q, rfl, ⟨rfl, hc⟩ | rfl⟩)
  · exact (hf hreg).2 ha
  · rw [hc] at hf
    exact hf ha
  · exact hf ha

/-- No name is spoilt by a kill. -/
theorem Careful.spares_name (hP : s.Careful l) (ht : s.state.threads[l.1]? = some (f :: rest))
    {name : Bytes} (hne : s.state.names name ≠ 0)
    (hreg : s.state.registry (s.state.names name) ≠ none) :
    f ≠ .call (.kill (s.state.names name)) := by
  rintro rfl
  have hf := hP _ (by rw [ht]; rfl)
  exact hne ((hf hreg).1 name rfl)

section Step

variable {r : State × List Frame}

theorem Kept.names_step (h : Kept s) (hP : s.Careful l)
    (hreach : Reachable State.step (State.init n m) s.state)
    (ht : s.state.threads[l.1]? = some (f :: rest)) (hr : s.state.exec l.1 f l.2 = some r)
    (name : Bytes) (hne : r.1.names name ≠ 0) : ¬ r.1.Dead (r.1.names name) := by
  have hreg := (reachable_views hreach).1
  have hold : r.1.names name = s.state.names name → ¬ r.1.Dead (r.1.names name) := by
    intro heq hdead
    rw [heq] at hne hdead
    rcases hdead.of_exec hreg hr with hdead | ⟨hkill, hregistry⟩
    · exact h.names name hne hdead
    · exact hP.spares_name ht hne hregistry hkill
  rcases State.exec_names hr with heq | ⟨name', h₀, rfl, heq⟩
  · exact hold (congrFun heq name)
  · by_cases hname : name = name'
    · subst hname
      rw [heq, Function.update_self] at hne ⊢
      intro hdead
      rcases hdead.of_exec hreg hr with hdead | ⟨hkill, -⟩
      · have hf := hP _ (by rw [ht]; rfl)
        exact (hf hne).1 hdead
      · cases hkill
    · exact hold (heq ▸ Function.update_of_ne hname ..)

/-- The logger's handle, cached or named, stays that of a live actor. -/
theorem Kept.alive_step (h : Kept s) (hP : s.Careful l)
    (hreach : Reachable State.step (State.init n m) s.state)
    (ht : s.state.threads[l.1]? = some (f :: rest)) (hr : s.state.exec l.1 f l.2 = some r) :
    (r.1.loggerHandle ≠ 0 → r.1.Alive r.1.loggerHandle) ∧
      (r.1.names (ascii "logger") ≠ 0 → r.1.Alive (r.1.names (ascii "logger"))) := by
  -- a registration spoils nothing
  have hregistered : ∀ h₀, f = .call (.registerName (ascii "logger") h₀) → h₀ ≠ 0 →
      r.1.Alive h₀ := by
    rintro h₀ rfl hne
    have hf := hP _ (by rw [ht]; rfl)
    refine (((hf hne).2 rfl).exec_or hreach ht hr).resolve_right ?_
    rintro (⟨hkill, -⟩ | ⟨q, -, ⟨hinit, -⟩ | hmark⟩)
    · cases hkill
    · cases hinit
    · cases hmark
  refine ⟨fun hne => ?_, fun hne => ?_⟩
  · rcases State.exec_loggerHandle hr with heq | hzero | ⟨source, text, hstore⟩ | hregister
    · rw [heq] at hne ⊢
      exact ((h.logger hne).exec_or hreach ht hr).resolve_right (hP.spares ht ⟨hne, .inl rfl⟩)
    · exact absurd hzero hne
    · -- the thread is in `error`, and what it has found is alive
      obtain ⟨g, ⟨-, hg⟩, honWay⟩ := h.onWay l.1 (h.top l.1 f rest ht (by rw [hstore]; trivial))
      rw [ht] at hg
      obtain rfl : f = g := Option.some.inj hg
      rw [hstore] at honWay
      refine (honWay.2.exec_or hreach ht hr).resolve_right ?_
      rw [hstore]
      rintro (⟨hkill, -⟩ | ⟨q, -, ⟨hinit, -⟩ | hmark⟩)
      · cases hkill
      · cases hinit
      · cases hmark
    · exact hregistered _ hregister hne
  · rcases State.exec_names hr with heq | ⟨name, h₀, rfl, heq⟩
    · rw [heq] at hne ⊢
      exact ((h.named hne).exec_or hreach ht hr).resolve_right
        (hP.spares ht ⟨hne, .inr (.inl rfl)⟩)
    · rw [heq, Function.update_apply] at hne ⊢
      split_ifs at hne ⊢ with hname
      · exact hregistered h₀ (by rw [hname]) hne
      · exact ((h.named hne).exec_or hreach ht hr).resolve_right
          (hP.spares ht ⟨hne, .inr (.inl rfl)⟩)

theorem Kept.step (h : Kept s) (hreach : Reachable State.step (State.init n m) s.state)
    (hP : s.Careful l) (hs : s.step l = some s') : Kept s' := by
  obtain ⟨f, rest, r, ht, hr, hstate, -⟩ := step_frames (step_state hs)
  have hhistory := step_history hs ht
  have hlt : l.1 < s.state.threads.length := (List.getElem?_eq_some_iff.1 ht).1
  have hown : s'.state.threads[l.1]? = some (r.2 ++ rest) := by
    rw [hstate]
    exact List.getElem?_set_self hlt
  have hother : ∀ tid, tid ≠ l.1 → s'.state.threads[tid]? = s.state.threads[tid]? := by
    intro tid hne
    rw [hstate]
    exact List.getElem?_set_ne (Ne.symm hne)
  have hreporting : ∀ tid, tid ≠ l.1 → s'.reporting tid = s.reporting tid := by
    intro tid hne
    rcases hhistory with ⟨-, heq, -⟩ | ⟨_, -, -, heq, -⟩ | ⟨-, -, heq, -⟩
    · rw [heq, Function.update_of_ne hne]
    · rw [heq, Function.update_of_ne hne]
    · rw [heq]
  have hbelow : ∀ g ∈ rest, ¬ g.InError := h.below _ (List.mem_of_getElem? ht)
  obtain ⟨hlogger, hnamed⟩ := h.alive_step hP hreach ht hr
  -- what a call of `error` on this thread has come to
  have hproceed : s.reporting l.1 = true → match s.state.outcome f with
      | some report => report.Arrived
      | none => ∃ g, r.2.head? = some g ∧ r.1.OnWay g := by
    intro hrep
    obtain ⟨g, ⟨-, hg⟩, honWay⟩ := h.onWay l.1 hrep
    rw [ht] at hg
    obtain rfl : f = g := Option.some.inj hg
    exact honWay.proceed hreach h.named hr
  refine ⟨fun name => ?_, ?_, ?_, fun report hreport => ?_, fun tid hrep => ?_, fun fs hfs => ?_,
    fun tid g rest' htid hg => ?_⟩
  · rw [hstate]
    exact h.names_step hP hreach ht hr name
  · rw [hstate]
    exact hlogger
  · rw [hstate]
    exact hnamed
  · rcases hhistory with ⟨-, -, heq⟩ | ⟨r', hrep, hout, -, heq⟩ | ⟨-, -, -, heq⟩
    · exact h.reports report (heq ▸ hreport)
    · rcases List.mem_append.1 (heq ▸ hreport) with hold | hnew
      · exact h.reports report hold
      · have harrived := hproceed hrep
        rw [hout] at harrived
        exact List.mem_singleton.1 hnew ▸ harrived
    · exact h.reports report (heq ▸ hreport)
  · by_cases hne : tid = l.1
    · subst hne
      suffices hgo : ∃ g, r.2.head? = some g ∧ r.1.OnWay g by
        obtain ⟨g, hhead, honWay⟩ := hgo
        refine ⟨g, ⟨hrep, ?_⟩, hstate ▸ honWay⟩
        rw [hown, Option.bind_some, List.head?_append, hhead]
        rfl
      rcases hhistory with ⟨⟨source, text, rfl⟩, -, -⟩ | ⟨_, -, -, heq, -⟩ | ⟨-, hnone, heq, -⟩
      · cases hc : l.2 <;> rw [hc] at hr <;>
          simp only [State.exec, reduceCtorEq, Option.some.injEq] at hr
        subst hr
        simp only [State.execCall]
        split_ifs with hzero
        · exact ⟨_, rfl, trivial⟩
        · exact ⟨_, rfl, hzero, h.logger hzero⟩
      · rw [heq, Function.update_self] at hrep
        cases hrep
      · rw [heq] at hrep
        have hgo := hproceed hrep
        rw [hnone.resolve_left (by rw [hrep]; exact Bool.noConfusion)] at hgo
        exact hgo
    · rw [hreporting tid hne] at hrep
      obtain ⟨g, hg, honWay⟩ := h.onWay tid hrep
      refine ⟨g, ⟨(hreporting tid hne).trans hrep, (hother tid hne).symm ▸ hg.2⟩, ?_⟩
      rw [hstate]
      exact honWay.exec hreach ht hr fun h₀ hne₀ htarget =>
        hP.spares ht ⟨hne₀, .inr (.inr ⟨tid, g, hg, htarget⟩)⟩
  · rw [hstate] at hfs
    rcases List.mem_or_eq_of_mem_set hfs with hold | rfl
    · exact h.below fs hold
    · intro g hg
      rcases State.exec_inError hr with hnot | ⟨g', hg', -⟩
      · rcases List.mem_append.1 (List.mem_of_mem_tail hg) with hg | hg
        · exact hnot g hg
        · exact hbelow g hg
      · rw [hg'] at hg
        exact hbelow g hg
  · by_cases hne : tid = l.1
    · subst hne
      rw [hown] at htid
      have hmem : g ∈ r.2 ++ rest := by
        rw [Option.some.inj htid]
        exact List.mem_cons_self
      rcases State.exec_inError hr with hnot | ⟨-, -, ⟨source, text, rfl⟩ | ⟨hnone, hf⟩⟩
      · rcases List.mem_append.1 hmem with hg' | hg'
        · exact absurd hg (hnot g hg')
        · exact absurd hg (hbelow g hg')
      · rcases hhistory with ⟨-, heq, -⟩ | ⟨r', -, hout, -, -⟩ | ⟨hnot, -, -, -⟩
        · rw [heq, Function.update_self]
        · cases hout
        · exact absurd rfl (hnot source text)
      · have hrep := h.top l.1 f rest ht hf
        rcases hhistory with ⟨⟨source, text, rfl⟩, -, -⟩ | ⟨r', -, hout, -, -⟩ | ⟨-, -, heq, -⟩
        · exact hf.elim
        · rw [hnone] at hout
          cases hout
        · rw [heq]
          exact hrep
    · rw [hreporting tid hne]
      exact h.top tid g rest' ((hother tid hne) ▸ htid) hg

theorem Kept.safe (h : Kept s) : s.NamesSafe where
  names := h.names
  reports := h.reports
  pending tid hrep := by
    obtain ⟨f, hf, honWay⟩ := h.onWay tid hrep
    refine ⟨f, hf, ?_⟩
    cases f with
    | call f => cases f <;> trivial
    | op q o => cases o <;> trivial
    | errorFind source text | errorStore source text h => trivial
    | _ => exact honWay.elim

end Step

/-- A run of the system with its history is one of the system. -/
theorem reachable_state {P : Reported → State.Label → Prop} (h : Reaches step P (init n m) s) :
    Reachable State.step (State.init n m) s.state :=
  h.map Reported.state fun _ _ _ _ _ hs => .inr ⟨_, trivial, step_state hs⟩

/-- In a careful run names do not dangle, and no error is lost. -/
theorem namesSafe_of_careful (n m : ℕ) (h : Reaches step Careful (init n m) s) : s.NamesSafe := by
  have hkept : Kept s := h.invariant (kept_init n m)
    fun _ _ _ hr hi hP hs => hi.step (reachable_state hr) hP hs
  exact hkept.safe

/-- No kill, no registration, and no failure of `on_init`. -/
def Plain (s : Reported) (l : State.Label) : Prop :=
  match (s.state.threads[l.1]?).bind List.head?, l.2 with
  | some (.call (.kill _)), _ | some (.call (.registerName _ _)), _
  | some (.op _ .onInit), .failInit | some (.op _ .spawnMark), _ => False
  | _, _ => True

instance (s : Reported) (l : State.Label) : Decidable (s.Plain l) := by
  unfold Plain
  split <;> infer_instance

theorem careful_of_plain (s : Reported) (l : State.Label) (h : s.Plain l) : s.Careful l := by
  intro f hf
  unfold Plain at h
  rw [hf] at h
  split
  · exact h.elim
  · exact h.elim
  next hc =>
    rw [hc] at h
    exact h.elim
  · exact h.elim
  · trivial

/-- An actor is spawned, and is to be the logger. -/
def loggerRun : List State.Label :=
  [(0, .call .spawn), (0, .go), (0, .go), (0, .ret), (0, .go), (0, .go), (0, .go),
    (0, .call (.registerName (ascii "logger") 1))]

/-- An error is sent to the logger. -/
def errorRun : List State.Label :=
  [(0, .call (.error 0 [])), (0, .go), (0, .go), (0, .go), (0, .go)]

theorem namesSafe_errorRun :
    (after step (after step (init 0 1) (loggerRun ++ [(0, .go)])) errorRun).NamesSafe := by
  have hspawned : Reaches step Careful (init 0 1) (after step (init 0 1) loggerRun) :=
    (reaches_after (by decide)).mono careful_of_plain
  have hregistered : Reaches step Careful (init 0 1)
      (after step (init 0 1) (loggerRun ++ [(0, .go)])) := by
    refine hspawned.tail (l := (0, .go)) (fun f hf => ?_) rfl
    obtain rfl := Option.some.inj hf
    refine fun _ => ⟨fun hdead => ?_, fun _ => ⟨0, rfl, by decide⟩⟩
    obtain ⟨q, hq, -, hkilled, -⟩ := hdead
    obtain rfl : q = 0 := Nat.lt_one_iff.1 hq
    exact Bool.false_ne_true hkilled
  exact namesSafe_of_careful 0 1
    (hregistered.trans ((reaches_after (by decide)).mono careful_of_plain))

/-- The logger is killed, and its name is still there. -/
theorem dangling_logger : ∃ s, Reachable step (init 0 1) s ∧ ¬ NamesSafe s := by
  refine ⟨after step (init 0 1) (loggerRun ++ [(0, .go), (0, .call (.kill 1)), (0, .go)]),
    reachable_after (by decide), fun h => ?_⟩
  refine h.names (ascii "logger") (by decide) ⟨0, Nat.one_pos, by decide, by decide, ?_⟩
  exact fun q' hq' _ => Nat.le_of_eq (Nat.lt_one_iff.1 hq')

end Reported

end SkynetCpp
