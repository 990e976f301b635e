import SkynetCpp.Proofs.Calm

/-!
# Sessions find their coroutines

With fewer than 2^31 of them, sessions are numbered as they are allocated, and an entry of
`session_id_coroutine` is that of the coroutine that waits for it, or has not begun (`Numbered`). A
step leaves the entries alone, or enters the session that it allocates, or ends one. -/

namespace SkynetCpp

namespace LuaService

open Lib

/-- The event allocates a session, or resumes what has one. -/
def Event.OfSessions : Event → Bool
  | .allocated _ _ | .resumed _ _ | .woken _ _ => true
  | _ => false

theorem spares_ofSessions : State.Spares Event.OfSessions := by
  intro e he
  cases e <;> first | rfl | exact he.elim

theorem Event.ofSessions_of_ends {e : Event} {session : ℤ} (h : e.ends = some session) :
    e.OfSessions = true := by
  cases e <;> first | rfl | cases h

theorem Event.ofSessions_of_isAllocated {e : Event} (h : e.IsAllocated = true) :
    e.OfSessions = true := by
  cases e <;> first | rfl | cases h

namespace State

variable {s s' t : State} {co c : Coroutine} {session : ℤ}

/-- Sessions are numbered, and what the table has for one is a coroutine that it is for. -/
structure Numbered (s : State) : Prop where
  counter : s.sessions + 1 < 2 ^ 31 → s.nextSession = s.sessions + 1
  range : ∀ session, s.sessionIdCoroutine session ≠ none → session ≤ s.sessions
  allocated : ∀ co (session : ℤ), .allocated co session ∈ s.log → session ≤ s.sessions
  owner : ∀ co co' session, .allocated co session ∈ s.log → .allocated co' session ∈ s.log →
    co = co'
  live : ∀ co session, s.sessionIdCoroutine session = some (.thread co) →
    .allocated co session ∈ s.log ∧ s.log.countP (fun e => e.ends = some session) = 0
  ended : ∀ e ∈ s.log, ∀ session : ℤ, e.ends = some session → session ≤ s.sessions
  once : ∀ session, s.log.countP (fun e => e.ends = some session) ≤ 1
  resumed : ∀ co m, .resumed co m ∈ s.log → .allocated co m.session ∈ s.log
  current : ∀ session, s.Current session (s.sessionIdCoroutine session)
  unique : ∀ co session session', s.sessionIdCoroutine session = some (.thread co) →
    s.sessionIdCoroutine session' = some (.thread co) → session = session'

theorem numbered_init : Numbered {} where
  counter _ := rfl
  range _ h := absurd rfl h
  allocated _ _ h := by cases h
  owner _ _ _ h := by cases h
  live _ _ h := by cases h
  ended _ h := by cases h
  once _ := by simp
  resumed _ _ h := by cases h
  current _ := trivial
  unique _ _ _ h := by cases h

/-- The coroutine has an entry. -/
def Entered (s : State) (co : Coroutine) : Prop :=
  ∃ session, s.sessionIdCoroutine session = some (.thread co)

/-- A coroutine that has an entry is suspended, or has not begun and is not in `fork_queue`. -/
theorem Numbered.of_entered (h : Numbered s) (hco : s.Entered co) :
    (s.status co).Loose ∧ (co ∈ s.forkQueue → s.status co ≠ .ready) := by
  obtain ⟨session, hentry⟩ := hco
  have hcurrent := h.current session
  rw [hentry] at hcurrent
  simp only [Current] at hcurrent
  rcases hst : s.status co with - | - | why | - | - | - | - | - <;> simp only [hst] at hcurrent
  · exact ⟨trivial, fun hmem => absurd hmem hcurrent⟩
  · refine ⟨trivial, fun _ h => ?_⟩
    cases h

section Quiet

variable {es : List Event}

theorem mem_of_quiet (hes : ∀ e ∈ es, e.OfSessions = false) {e : Event} (he : e.OfSessions = true)
    {log : List Event} : e ∈ log ++ es ↔ e ∈ log := by
  refine ⟨fun hmem => (List.mem_append.1 hmem).resolve_right fun hmem => ?_,
    List.mem_append_left es⟩
  rw [hes e hmem] at he
  cases he

theorem countP_of_quiet (hes : ∀ e ∈ es, e.OfSessions = false) {f : Event → Bool}
    (hf : ∀ e, f e = true → e.OfSessions = true) {log : List Event} :
    (log ++ es).countP f = log.countP f := by
  have hzero : es.countP f = 0 := by
    refine List.countP_eq_zero.2 fun e he hfe => ?_
    have hsessions := hf e hfe
    rw [hes e he] at hsessions
    cases hsessions
  rw [List.countP_append, hzero, Nat.add_zero]

/-- No session is allocated, and none ends, and nothing is done to the coroutines that have entries.
-/
theorem Numbered.congr (h : Numbered s) (es : List Event)
    (hstatus : ∀ c, s.Entered c → t.status c = s.status c)
    (hforks : ∀ c, s.Entered c → c ∈ t.forkQueue → c ∈ s.forkQueue)
    (hentries : ∀ session e, t.sessionIdCoroutine session = some e →
      s.sessionIdCoroutine session = some e) (hnext : t.nextSession = s.nextSession)
    (hlog : t.log = s.log ++ es) (hes : ∀ e ∈ es, e.OfSessions = false) : Numbered t := by
  have hsessions : t.sessions = s.sessions := by
    unfold sessions
    rw [hlog]
    exact countP_of_quiet hes fun _ => Event.ofSessions_of_isAllocated
  have hends : ∀ session, t.log.countP (fun e => e.ends = some session)
      = s.log.countP (fun e => e.ends = some session) := fun session => by
    rw [hlog]
    exact countP_of_quiet hes fun e he => Event.ofSessions_of_ends (of_decide_eq_true he)
  have hmem : ∀ e : Event, e.OfSessions = true → (e ∈ t.log ↔ e ∈ s.log) := fun e he => by
    rw [hlog]
    exact mem_of_quiet hes he
  refine ⟨?_, fun session hne => ?_, fun co session ha => ?_, fun co co' session ha ha' => ?_,
    fun co session hentry => ?_, fun e he session hend => ?_, fun session => ?_, fun co m hm => ?_,
    fun session => ?_, fun co session session' hentry hentry' => ?_⟩
  · rw [hsessions, hnext]
    exact h.counter
  · obtain ⟨e, he⟩ := Option.ne_none_iff_exists'.1 hne
    rw [hsessions]
    exact h.range session (by rw [hentries session e he]; exact Option.some_ne_none e)
  · rw [hsessions]
    exact h.allocated co session ((hmem _ rfl).1 ha)
  · exact h.owner co co' session ((hmem _ rfl).1 ha) ((hmem _ rfl).1 ha')
  · rw [hends, hmem _ rfl]
    exact h.live co session (hentries session _ hentry)
  · rw [hsessions]
    exact h.ended e ((hmem e (Event.ofSessions_of_ends hend)).1 he) session hend
  · rw [hends]
    exact h.once session
  · exact (hmem _ rfl).2 (h.resumed co m ((hmem _ rfl).1 hm))
  · rcases hentry : t.sessionIdCoroutine session with - | co | -
    · trivial
    · have hbefore := hentries session _ hentry
      have hcurrent := h.current session
      rw [hbefore] at hcurrent
      have hentered : s.Entered co := ⟨session, hbefore⟩
      simp only [Current] at hcurrent ⊢
      rw [hstatus co hentered]
      rcases hst : s.status co with - | - | why | - | - | - | - | - <;>
        simp only [hst] at hcurrent ⊢
      · exact fun hmem => hcurrent (hforks co hentered hmem)
      · exact hcurrent
    · trivial
  · exact h.unique co session session' (hentries session _ hentry) (hentries session' _ hentry')

theorem Numbered.quiet (h : Numbered s) (hcalm : Calm Event.OfSessions s.Entered s t)
    (hentries : ∀ session e, t.sessionIdCoroutine session = some e →
      s.sessionIdCoroutine session = some e) (hnext : t.nextSession = s.nextSession) :
    Numbered t := by
  obtain ⟨es, hlog, hes⟩ := hcalm.log
  exact h.congr es hcalm.status hcalm.forks hentries hnext hlog hes

end Quiet

/-- `c.genid`, and the coroutine that is entered for the session. -/
def enter (s : State) (co : Coroutine) : State :=
  (s.genid co).setEntry s.nextSession (some (.thread co))

theorem sessions_enter : (s.enter co).sessions = s.sessions + 1 := by
  change (s.log ++ [_]).countP Event.IsAllocated = _
  rw [List.countP_append]
  rfl

theorem Numbered.fresh (h : Numbered s) (hfew : s.sessions + 1 < 2 ^ 31) :
    s.sessionIdCoroutine s.nextSession = none := by
  by_contra hne
  have hle := h.range _ hne
  rw [h.counter hfew] at hle
  omega

/-- A session is allocated for a coroutine that has none, and waits for it, or has not begun. -/
theorem Numbered.enter (h : Numbered s) (hfew : s.sessions + 1 < 2 ^ 31)
    (hcurrent : s.Current s.nextSession (some (.thread co))) (hnone : ¬ s.Entered co) :
    Numbered (s.enter co) := by
  have hnext := h.counter hfew
  have hlog : (s.enter co).log = s.log ++ [.allocated co s.nextSession] := rfl
  have hentries : ∀ session, (s.enter co).sessionIdCoroutine session =
      if session = s.nextSession then some (.thread co) else s.sessionIdCoroutine session :=
    fun session => Function.update_apply ..
  have hmem : ∀ co' session, .allocated co' session ∈ (s.enter co).log →
      .allocated co' session ∈ s.log ∨ co' = co ∧ session = s.nextSession := by
    intro co' session ha
    rw [hlog] at ha
    rcases List.mem_append.1 ha with ha | ha
    · exact .inl ha
    · exact .inr (Event.allocated.inj (List.mem_singleton.1 ha))
  have hends : ∀ session, (s.enter co).log.countP (fun e => e.ends = some session)
      = s.log.countP (fun e => e.ends = some session) := fun session => by
    rw [hlog, List.countP_append]
    rfl
  refine ⟨fun hfew' => ?_, fun session hne => ?_, fun co' session ha => ?_,
    fun co₁ co₂ session ha ha' => ?_, fun co' session hentry => ?_, fun e he session hend => ?_,
    fun session => ?_, fun co' m hm => ?_, fun session => ?_,
    fun co' session session' hentry hentry' => ?_⟩
  · rw [sessions_enter] at hfew' ⊢
    change (if s.nextSession = 2 ^ 31 - 1 then -(2 ^ 31) else s.nextSession + 1) = _
    rw [if_neg (by omega), hnext]
    push_cast
    rfl
  · rw [sessions_enter]
    rw [hentries] at hne
    split_ifs at hne with heq
    · rw [heq, hnext]
      push_cast
      exact Int.le_refl _
    · have hle := h.range session hne
      omega
  · rw [sessions_enter]
    rcases hmem co' session ha with ha | ⟨-, rfl⟩
    · have hle := h.allocated co' session ha
      omega
    · omega
  · have hlarge : ∀ co' , .allocated co' s.nextSession ∉ s.log := fun co' ha => by
      have hle := h.allocated co' _ ha
      omega
    rcases hmem co₁ session ha with hold | ⟨rfl, rfl⟩
    · rcases hmem co₂ session ha' with hold' | ⟨rfl, rfl⟩
      · exact h.owner co₁ co₂ session hold hold'
      · exact absurd hold (hlarge co₁)
    · rcases hmem co₂ _ ha' with hold' | ⟨rfl, -⟩
      · exact absurd hold' (hlarge co₂)
      · rfl
  · rw [hends, hlog]
    rw [hentries] at hentry
    split_ifs at hentry with heq
    · obtain rfl := Entry.thread.inj (Option.some.inj hentry)
      refine ⟨List.mem_append_right _ (by simp [heq]), List.countP_eq_zero.2 fun e he hend => ?_⟩
      have hle := h.ended e he session (of_decide_eq_true hend)
      omega
    · exact ⟨List.mem_append_left _ (h.live co' session hentry).1, (h.live co' session hentry).2⟩
  · rw [sessions_enter]
    rw [hlog] at he
    rcases List.mem_append.1 he with he | he
    · have hle := h.ended e he session hend
      omega
    · rw [List.mem_singleton.1 he] at hend
      cases hend
  · rw [hends]
    exact h.once session
  · rw [hlog] at hm ⊢
    rcases List.mem_append.1 hm with hm | hm
    · exact List.mem_append_left _ (h.resumed co' m hm)
    · cases List.mem_singleton.1 hm
  · rw [hentries]
    split_ifs with heq
    · exact heq ▸ hcurrent
    · exact h.current session
  · rw [hentries] at hentry hentry'
    split_ifs at hentry hentry' with heq heq' heq'
    · rw [heq, heq']
    · obtain rfl := Entry.thread.inj (Option.some.inj hentry)
      exact absurd ⟨session', hentry'⟩ hnone
    · obtain rfl := Entry.thread.inj (Option.some.inj hentry')
      exact absurd ⟨session, hentry⟩ hnone
    · exact h.unique co' session session' hentry hentry'

/-- The session of an entry ends. -/
theorem Numbered.finish {e : Event} {o : Option Entry} (h : Numbered s)
    (hentry : s.sessionIdCoroutine session = some (.thread co)) (hend : e.ends = some session)
    (hresumed : ∀ co' m, e = .resumed co' m → co' = co) (ho : ∀ c, o ≠ some (.thread c)) :
    Numbered ((s.setEntry session o).record e) := by
  have hentries : ∀ session', ((s.setEntry session o).record e).sessionIdCoroutine session' =
      if session' = session then o else s.sessionIdCoroutine session' :=
    fun session' => Function.update_apply ..
  have hlog : ((s.setEntry session o).record e).log = s.log ++ [e] := rfl
  have hallocated : ∀ co' session', .allocated co' session' ≠ e := by
    rintro co' session' rfl
    cases hend
  have hsessions : ((s.setEntry session o).record e).sessions = s.sessions := by
    unfold sessions
    rw [hlog, List.countP_append]
    cases e <;> first | rfl | cases hend
  have hmem : ∀ co' session', .allocated co' session' ∈ ((s.setEntry session o).record e).log →
      .allocated co' session' ∈ s.log := fun co' session' ha => by
    rw [hlog] at ha
    exact (List.mem_append.1 ha).resolve_right fun ha =>
      hallocated co' session' (List.mem_singleton.1 ha)
  have hthread : ∀ co' session', ((s.setEntry session o).record e).sessionIdCoroutine session' =
      some (.thread co') → session' ≠ session ∧
        s.sessionIdCoroutine session' = some (.thread co') := by
    intro co' session' hs
    rw [hentries] at hs
    split_ifs at hs with heq
    · exact absurd hs (ho co')
    · exact ⟨heq, hs⟩
  obtain ⟨howner, hzero⟩ := h.live co session hentry
  have hcount : ∀ session', ((s.setEntry session o).record e).log.countP
      (fun e => e.ends = some session') = s.log.countP (fun e => e.ends = some session') +
        if session' = session then 1 else 0 := fun session' => by
    rw [hlog, List.countP_append]
    by_cases heq : session' = session
    · simp [heq, hend]
    · simp [heq, hend, Ne.symm heq]
  refine ⟨?_, fun session' hne => ?_, fun co' session' ha => ?_, fun co₁ co₂ session' ha ha' => ?_,
    fun co' session' hs => ?_, fun e' he session' hend' => ?_, fun session' => ?_,
    fun co' m hm => ?_, fun session' => ?_, fun co' session₁ session₂ hs hs' => ?_⟩
  · rw [hsessions]
    exact h.counter
  · rw [hsessions]
    rw [hentries] at hne
    split_ifs at hne with heq
    · exact heq ▸ h.range session (by rw [hentry]; exact Option.some_ne_none _)
    · exact h.range session' hne
  · rw [hsessions]
    exact h.allocated co' session' (hmem co' session' ha)
  · exact h.owner co₁ co₂ session' (hmem co₁ session' ha) (hmem co₂ session' ha')
  · obtain ⟨hne, hs⟩ := hthread co' session' hs
    rw [hcount, if_neg hne]
    exact ⟨List.mem_append_left _ (h.live co' session' hs).1, (h.live co' session' hs).2⟩
  · rw [hsessions]
    rcases List.mem_append.1 he with he | he
    · exact h.ended e' he session' hend'
    · rw [List.mem_singleton.1 he, hend] at hend'
      exact Option.some.inj hend' ▸ h.allocated co session howner
  · rw [hcount]
    split_ifs with heq
    · exact Nat.le_of_eq (by rw [heq, hzero])
    · exact h.once session'
  · rw [hlog] at hm
    rcases List.mem_append.1 hm with hm | hm
    · exact List.mem_append_left _ (h.resumed co' m hm)
    · obtain rfl := List.mem_singleton.1 hm
      obtain rfl := hresumed co' m rfl
      exact List.mem_append_left _ (Option.some.inj hend ▸ howner)
  · rw [hentries]
    split_ifs with heq
    · rcases o with - | c | -
      · trivial
      · exact absurd rfl (ho c)
      · trivial
    · exact h.current session'
  · exact h.unique co' session₁ session₂ (hthread co' session₁ hs).2 (hthread co' session₂ hs').2

section Step

variable {l : List Coroutine}

theorem Numbered.not_entered (h : Numbered s) (hloose : ¬ (s.status co).Loose) : ¬ s.Entered co :=
  fun hco => hloose (h.of_entered hco).1

theorem Numbered.running_not_entered (h : Numbered s) (hfit : Fit s) (hmem : co ∈ s.running) :
    ¬ s.Entered co := by
  refine h.not_entered fun hloose => ?_
  rcases (hfit.fits co).of_mem_running hmem with hst | hst <;> rw [hst] at hloose <;> exact hloose

theorem Numbered.new_not_entered (h : Numbered s) (hfit : Fit s) (hco : s.CanCreate co) :
    ¬ s.Entered co := by
  refine h.not_entered fun hloose => ?_
  rcases hfit.canCreate hco with hst | hst <;> rw [hst] at hloose <;> exact hloose

theorem Numbered.calm (h : Numbered s) (hfit : Fit s) : Calm Event.OfSessions s.Entered s s :=
  Calm.refl fun _ hc hmem => h.running_not_entered hfit hmem hc

theorem Fit.status_yield {st : CoStatus} (h : Fit s) (hrun : s.running = co :: l) :
    (s.yield co st).status co = st := by
  have hnot : co ∉ l := List.count_eq_zero.1 (h.count_tail hrun)
  rw [yield_eq]
  have hst : (s.leave co st).status co = st := by rw [status_leave, if_pos rfl]
  have hrun' : (s.leave co st).running = l := by
    change s.running.tail = l
    rw [hrun]
    rfl
  change (s.leave co st).toThreads.back.status co = st
  unfold Threads.back
  rcases l with - | ⟨a, l⟩
  · rw [hrun']
    exact hst
  · rw [hrun']
    have hne : co ≠ a := fun heq => hnot (heq ▸ List.mem_cons_self)
    dsimp only
    rw [status_setStatus, if_neg hne]
    exact hst

/-- The coroutine that runs suspends, and is entered for the session that it allocates. -/
theorem Numbered.suspend (h : Numbered s) (hfit : Fit s) (hrun : s.running = co :: l)
    (why : Suspension) (hfew : s.sessions + 1 < 2 ^ 31) (hwhy : why.session = s.nextSession) :
    Numbered ((s.yield co (.suspended why)).enter co) := by
  have hco : ¬ s.Entered co := h.running_not_entered hfit (by simp [hrun])
  have hyield : Numbered (s.yield co (.suspended why)) :=
    h.quiet ((h.calm hfit).yield hco) (fun _ _ => id) rfl
  refine hyield.enter hfew ?_ hco
  simp only [Current, hfit.status_yield hrun]
  exact hwhy

theorem Numbered.call (h : Numbered s) (hfit : Fit s) (hrun : s.running = co :: l)
    (hfew : s.sessions + 1 < 2 ^ 31) : Numbered (s.call co true) :=
  h.suspend hfit hrun (.call s.nextSession) hfew rfl

theorem Numbered.same (h : Numbered s) (hstatus : t.status = s.status)
    (hforks : t.forkQueue = s.forkQueue) (hentries : t.sessionIdCoroutine = s.sessionIdCoroutine)
    (hnext : t.nextSession = s.nextSession) (hlog : t.log = s.log) : Numbered t :=
  h.congr [] (fun c _ => congrFun hstatus c) (fun _ _ hmem => hforks ▸ hmem)
    (fun session e he => hentries ▸ he) hnext (by rw [hlog, List.append_nil])
    (fun _ he => by cases he)

theorem Numbered.sleep (h : Numbered s) (hfit : Fit s) (hrun : s.running = co :: l)
    (hfew : s.sessions + 1 < 2 ^ 31) : Numbered (s.sleep co true) :=
  (h.suspend hfit hrun (.sleep s.nextSession) hfew rfl).same rfl rfl rfl rfl rfl

theorem Numbered.wait (h : Numbered s) (hfit : Fit s) (hrun : s.running = co :: l)
    (hfew : s.sessions + 1 < 2 ^ 31) : Numbered (s.wait co none) :=
  (h.suspend hfit hrun (.wait s.nextSession co) hfew rfl).same rfl rfl rfl rfl rfl

theorem Numbered.timeout (h : Numbered s) (hfit : Fit s) (hco : s.CanCreate co)
    (hfew : s.sessions + 1 < 2 ^ 31) : Numbered (s.timeout co) := by
  have hnew := h.new_not_entered hfit hco
  obtain ⟨hfree, hready⟩ := hfit.coCreate hco
  have hmade : Numbered (s.coCreate co) :=
    h.quiet ((h.calm hfit).coCreate hnew) (fun _ _ => id) rfl
  refine hmade.enter hfew ?_ hnew
  simp only [Current, hready]
  exact hfree.forks

/-- What `Numbered` is about, the coroutines apart. -/
def sessionTables (s : State) : (ℤ → Option Entry) × ℤ := (s.sessionIdCoroutine, s.nextSession)

theorem sessionTables_send {n : ℕ} {address : Option Handle} {type session : ℤ} {sends : Bool} :
    (s.send n address type session sends).sessionTables = s.sessionTables := by
  unfold State.send
  split <;> rfl

theorem sessionTables_accept {m : Message} {unpacks : Bool} :
    (s.accept m co unpacks).sessionTables = s.sessionTables := by
  unfold State.accept
  dsimp only
  split
  · split_ifs
    · exact sessionTables_send
    · rfl
  · rfl
  · split_ifs <;> rfl

theorem sessionTables_request {m : Message} {unpacks : Bool}
    (hm : m.type ≠ PTYPE_RESPONSE ∧ m.type ≠ PTYPE_ERROR) :
    (s.rawDispatchMessage m co unpacks).sessionTables = s.sessionTables := by
  unfold State.rawDispatchMessage
  rw [if_neg hm.1, if_neg hm.2]
  split_ifs
  · rfl
  · exact sessionTables_accept

theorem sessionTables_perform {call : Call} (hcall : ¬ call.Allocates) :
    (s.perform co call).sessionTables = s.sessionTables := by
  cases call with
  | timeout | call | sleep | wait => exact absurd trivial hcall
  | fork | registerProtocol | ignoreret | startReturns | finish | raise => rfl
  | dispatch type dispatch =>
    change sessionTables (if _ then _ else s) = _
    split_ifs <;> rfl
  | wakeup co' =>
    change (s.wakeup co').sessionTables = _
    unfold State.wakeup
    split
    · dsimp only
      split_ifs <;> rfl
    · rfl
  | ret sends =>
    change (s.ret co sends).sessionTables = _
    unfold State.ret
    split
    · dsimp only
      split_ifs
      · rfl
      · exact sessionTables_send
    · rfl
  | response =>
    change (s.response co).sessionTables = _
    unfold State.response
    split
    · split_ifs <;> rfl
    · rfl
  | respond i ok sends =>
    change (s.respond i ok sends).sessionTables = _
    unfold State.respond
    split
    · split
      · rfl
      · exact sessionTables_send
    · rfl

theorem Numbered.of_tables (h : Numbered s) (hcalm : Calm Event.OfSessions s.Entered s t)
    (htables : t.sessionTables = s.sessionTables) : Numbered t := by
  obtain ⟨hentries, hnext⟩ := Prod.mk.inj htables
  exact h.quiet hcalm (fun session e he => hentries ▸ he) hnext

/-- A call of the code, or of the main chunk, that is direct, and its session if it allocates one.
-/
theorem Numbered.perform (h : Numbered s) (hfit : Fit s) (hrun : s.running = co :: l) {call : Call}
    (hcan : s.CanCall co call) (hdirect : s.Direct (.code call))
    (hfew : (s.perform co call).sessions < 2 ^ 31) : Numbered (s.perform co call) := by
  by_cases hallocates : call.Allocates
  · cases call with
    | timeout co' =>
      rw [show (s.perform co (.timeout co')).sessions = s.sessions + 1 from sessions_enter] at hfew
      exact h.timeout hfit hcan.2 hfew
    | call sends =>
      obtain rfl : sends = true := hdirect
      rw [show (s.perform co (.call true)).sessions = s.sessions + 1 from sessions_enter] at hfew
      exact h.call hfit hrun hfew
    | sleep sets =>
      obtain rfl : sets = true := hdirect
      rw [show (s.perform co (.sleep true)).sessions = s.sessions + 1 from sessions_enter] at hfew
      exact h.sleep hfit hrun hfew
    | wait token =>
      obtain rfl : token = none := hdirect
      rw [show (s.perform co (.wait none)).sessions = s.sessions + 1 from sessions_enter] at hfew
      exact h.wait hfit hrun hfew
    | _ => exact hallocates.elim
  · have hself : ¬ s.Entered co := h.running_not_entered hfit (by simp [hrun])
    refine h.of_tables ((h.calm hfit).perform spares_ofSessions hself hcan
      (fun co' => h.new_not_entered hfit) (fun ha => absurd ha hallocates) fun _ _ _ => rfl) ?_
    exact sessionTables_perform hallocates

theorem Numbered.performMain (h : Numbered s) (hfit : Fit s) {call : Call}
    (hcan : s.CanCallMain call) (hfew : (s.perform 0 call).sessions < 2 ^ 31) :
    Numbered (s.perform 0 call) := by
  by_cases hallocates : call.Allocates
  · cases call with
    | timeout co' =>
      rw [show (s.perform 0 (.timeout co')).sessions = s.sessions + 1 from sessions_enter] at hfew
      exact h.timeout hfit hcan hfew
    | fork | wakeup | registerProtocol | dispatch => exact hallocates.elim
    | _ => exact hcan.elim
  · refine h.of_tables ((h.calm hfit).performMain spares_ofSessions hcan
      (fun co' => h.new_not_entered hfit) (fun ha => absurd ha hallocates) fun _ _ _ => rfl) ?_
    exact sessionTables_perform hallocates

/-- What has no entry is resumed. -/
theorem Numbered.resume (h : Numbered t) (hidle : ∀ c, t.Entered c → c ∉ t.running)
    (hco : ¬ t.Entered co) : Numbered (t.resume co) :=
  h.quiet ((Calm.refl hidle).resume hco) (fun _ _ => id) rfl

/-- The coroutine has no other entry than that of the session which has ended. -/
theorem Numbered.entered_setEntry {o : Option Entry} (h : Numbered s)
    (hentry : s.sessionIdCoroutine session = some (.thread co)) (ho : ∀ c, o ≠ some (.thread c))
    (hc : (s.setEntry session o).Entered c) : s.Entered c ∧ c ≠ co := by
  obtain ⟨session', hs⟩ := hc
  change Function.update s.sessionIdCoroutine session o session' = _ at hs
  rw [Function.update_apply] at hs
  split_ifs at hs with heq
  · exact absurd hs (ho c)
  · refine ⟨⟨session', hs⟩, ?_⟩
    rintro rfl
    exact heq (h.unique c session' session hs hentry)

/-- A response, or an error. -/
theorem Numbered.answer (h : Numbered s) (hfit : Fit s) {m : Message} {unpacks : Bool}
    (hm : m.type = PTYPE_RESPONSE ∨ m.type = PTYPE_ERROR) :
    Numbered (s.rawDispatchMessage m co unpacks) := by
  have hcleared : ∀ session e, (s.setEntry m.session none).sessionIdCoroutine session = some e →
      s.sessionIdCoroutine session = some e := fun session e he => by
    change Function.update s.sessionIdCoroutine m.session none session = _ at he
    rw [Function.update_apply] at he
    split_ifs at he
    exact he
  have hresumed : ∀ c, s.sessionIdCoroutine m.session = some (.thread c) →
      Numbered (((s.setEntry m.session none).record (.resumed c m)).resume c) := fun c hentry => by
    have hended : Numbered ((s.setEntry m.session none).record (.resumed c m)) :=
      h.finish hentry rfl (fun _ _ heq => (Event.resumed.inj heq).1.symm) nofun
    refine hended.resume (fun c' hc' => ?_) fun hc => ?_
    · exact (h.calm hfit).idle c' (h.entered_setEntry (o := none) hentry nofun hc').1
    · exact (h.entered_setEntry (o := none) hentry nofun hc).2 rfl
  unfold State.rawDispatchMessage
  split_ifs with hresponse herror hbuffer
  · split
    next => exact h.quiet (h.calm hfit).setEntry.back hcleared rfl
    next => exact h.quiet (h.calm hfit).back (fun _ _ => id) rfl
    next c hentry => exact hresumed c hentry
  · split
    next => exact h.quiet (h.calm hfit).setEntry.abort hcleared rfl
    next => exact h.quiet (h.calm hfit).back (fun _ _ => id) rfl
    next c hentry => exact hresumed c hentry
  · exact (hm.elim hresponse herror).elim
  · exact (hm.elim hresponse herror).elim

theorem Numbered.request (h : Numbered s) (hfit : Fit s) {m : Message} {unpacks : Bool}
    (hm : m.type ≠ PTYPE_RESPONSE ∧ m.type ≠ PTYPE_ERROR) (hco : s.Dispatches m → s.CanCreate co) :
    Numbered (s.rawDispatchMessage m co unpacks) := by
  refine h.of_tables ?_ (sessionTables_request hm)
  exact (h.calm hfit).rawDispatchMessage spares_ofSessions
    (fun hdispatches => h.new_not_entered hfit (hco hdispatches))
    fun htype => (htype.elim hm.1 hm.2).elim

theorem Numbered.record {e : Event} (h : Numbered s) (he : e.OfSessions = false) :
    Numbered (s.record e) :=
  h.congr [e] (fun _ _ => rfl) (fun _ _ => id) (fun _ _ => id) rfl rfl
    fun _ hmem => List.mem_singleton.1 hmem ▸ he

theorem Numbered.next (h : Numbered s) (hfit : Fit s) : Numbered s.next := by
  have hidle := (h.calm hfit).idle
  unfold State.next
  split
  · split
    next co rest hq =>
      have hmem : co ∈ s.forkQueue := by simp [hq]
      have hrest : Numbered { s with forkQueue := rest, phase := .forked } := by
        refine h.congr [] (fun _ _ => rfl) (fun c _ hc => ?_) (fun _ _ => id) rfl
          (List.append_nil _).symm (fun _ he => by cases he)
        rw [hq]
        exact List.mem_cons_of_mem co hc
      refine (hrest.record (e := .forkResumed co) rfl).resume hidle fun hco => ?_
      exact (h.of_entered hco).2 hmem ((hfit.fits co).of_mem_forks hmem).1
    next => exact h
  next co rest hphase =>
    have herased : Numbered { s with wakeupQueue := s.wakeupQueue.erase co } :=
      h.same rfl rfl rfl rfl rfl
    have htaken := herased.record (e := .taken co) rfl
    dsimp only
    split
    next session hsleep =>
      have hsleeps : (s.status co).sleeps = some session := (hfit.fits co).sleep ▸ hsleep
      obtain ⟨why, hst, rfl⟩ := CoStatus.suspended_of_sleeps hsleeps
      have hentry := (hfit.fits co).entry why hst
      have hended : Numbered (({ s with
          wakeupQueue := s.wakeupQueue.erase co
          sleepSession := Function.update s.sleepSession co none
          phase := .woken rest }.record (.taken co)).setEntry why.session (some .broken) |>.record
            (.woken co (s.status co))) := by
        refine Numbered.finish ?_ hentry ?_ (fun _ _ => nofun) nofun
        · exact htaken.same rfl rfl rfl rfl rfl
        · rw [hst]
          rfl
      refine hended.resume (fun c hc => ?_) fun hc => ?_
      · exact hidle c (h.entered_setEntry (o := some .broken) hentry nofun hc).1
      · exact (h.entered_setEntry (o := some .broken) hentry nofun hc).2 rfl
    next => exact htaken.same rfl rfl rfl rfl rfl
  · exact h.same rfl rfl rfl rfl rfl
  · exact h

/-- With fewer than 2^31 sessions, none is in use when it is allocated, and a response or an error
resumes a coroutine from the suspension that its session is for. -/
theorem Numbered.regular {l : Label} (h : Numbered s) (hdirect : s.Direct l)
    (hs : State.step s l = some s') (hfew : s'.sessions < 2 ^ 31) : s.Regular l := by
  obtain ⟨hen, rfl⟩ := step_eq_some.1 hs
  cases l with
  | main c =>
    cases c with
    | timeout co =>
      rw [show (s.exec (.main (.timeout co))).sessions = s.sessions + 1 from sessions_enter] at hfew
      exact h.fresh hfew
    | fork | wakeup | registerProtocol | dispatch => exact trivial
    | _ => exact hen.2.elim
  | start co =>
    rw [show (s.exec (.start co)).sessions = s.sessions + 1 from sessions_enter] at hfew
    exact h.fresh hfew
  | message m co unpacks => exact fun _ => h.current m.session
  | code c =>
    obtain ⟨self, l, hrun, -, hexec⟩ := code_of_enabled hen
    rw [hexec] at hfew
    have hfresh : (s.perform self c).sessions = s.sessions + 1 →
        s.sessionIdCoroutine s.nextSession = none := fun heq => h.fresh (heq ▸ hfew)
    intro self' hself
    obtain rfl : self = self' := by simpa [hrun] using hself
    cases c with
    | timeout co => exact hfresh sessions_enter
    | call sends =>
      obtain rfl : sends = true := hdirect
      exact hfresh sessions_enter
    | sleep sets =>
      obtain rfl : sets = true := hdirect
      exact ⟨hfresh sessions_enter, rfl⟩
    | wait token =>
      obtain rfl : token = none := hdirect
      exact ⟨hfresh sessions_enter, .inl rfl⟩
    | _ => exact trivial
  | loaded | replay | next | collect => exact trivial

theorem Numbered.step {l : Label} (h : Numbered s) (hfit : Fit s) (hdirect : s.Direct l)
    (hs : State.step s l = some s') (hfew : s'.sessions < 2 ^ 31) : Numbered s' := by
  obtain ⟨hen, rfl⟩ := step_eq_some.1 hs
  cases l with
  | main c => exact h.performMain hfit hen.2 hfew
  | start co =>
    rw [show (s.exec (.start co)).sessions = s.sessions + 1 from sessions_enter] at hfew
    exact (h.timeout hfit hen.2.2 hfew).same rfl rfl rfl rfl rfl
  | loaded | collect l => exact h.same rfl rfl rfl rfl rfl
  | message m co unpacks =>
    have hcalled : Numbered ({ s with phase := .handler }.record (.called m s.serviceStarted)) :=
      Numbered.record (s := { s with phase := .handler }) (h.same rfl rfl rfl rfl rfl) rfl
    have hfit' : Fit ({ s with phase := .handler }.record (.called m s.serviceStarted)) :=
      hfit.same (fun c => ⟨rfl, rfl, fun _ h => h, rfl, rfl, rfl⟩) rfl rfl
    by_cases hm : m.type = PTYPE_RESPONSE ∨ m.type = PTYPE_ERROR
    · exact hcalled.answer hfit' hm
    · exact hcalled.request hfit' (not_or.1 hm) hen.2
  | replay co unpacks =>
    obtain ⟨m, rest, hq, hco, hexec⟩ := replay_of_enabled hen
    have hrest : Numbered { s with queue := rest } := h.same rfl rfl rfl rfl rfl
    have hfit' : Fit { s with queue := rest } :=
      ⟨fun c => (hfit.fits c).same ⟨rfl, rfl, fun _ h => h, rfl, rfl, rfl⟩,
        fun m hm => hfit.queue m (hq ▸ List.mem_cons_of_mem _ hm), hfit.pending⟩
    rw [hexec]
    exact hrest.request hfit' (hfit.queue m (by simp [hq])) hco
  | code c =>
    obtain ⟨self, l, hrun, hcan, hexec⟩ := code_of_enabled hen
    rw [hexec] at hfew ⊢
    exact h.perform hfit hrun hcan hdirect hfew
  | next => exact h.next hfit

end Step

section Tidy

/-- What is in the pool has no request. -/
def Tidy (s : State) : Prop :=
  ∀ co ∈ s.coroutinePool, s.sessionCoroutineId co = none ∧ s.sessionCoroutineAddress co = none

/-- What `Tidy` is about. -/
def requestTables (s : State) :
    List Coroutine × (Coroutine → Option ℤ) × (Coroutine → Option Handle) :=
  (s.coroutinePool, s.sessionCoroutineId, s.sessionCoroutineAddress)

theorem Tidy.congr (h : Tidy s) (heq : t.requestTables = s.requestTables) : Tidy t := by
  obtain ⟨hpool, hids⟩ := Prod.mk.inj heq
  obtain ⟨hid, haddress⟩ := Prod.mk.inj hids
  intro co hmem
  rw [hid, haddress]
  exact h co (hpool ▸ hmem)

theorem requestTables_send {n : ℕ} {address : Option Handle} {type session : ℤ} {sends : Bool} :
    (s.send n address type session sends).requestTables = s.requestTables := by
  unfold State.send
  split <;> rfl

theorem Tidy.coCreate (h : Tidy s) : Tidy (s.coCreate co) :=
  fun c hmem => h c (List.mem_of_mem_erase hmem)

/-- A coroutine that is not in the pool gets a request, or one loses what it has. -/
theorem Tidy.setRequest {session : Option ℤ} {address : Option Handle} {n : Option ℕ} (h : Tidy s)
    (hco : co ∉ s.coroutinePool ∨ session = none ∧ address = none) :
    Tidy (s.setRequest co session address n) := by
  intro c hmem
  change Function.update s.sessionCoroutineId co session c = none ∧
    Function.update s.sessionCoroutineAddress co address c = none
  by_cases hc : c = co
  · subst hc
    rw [Function.update_self, Function.update_self]
    exact hco.resolve_left fun hnot => hnot hmem
  · rw [Function.update_of_ne hc, Function.update_of_ne hc]
    exact h c hmem

theorem Tidy.ignoreret (h : Tidy s) : Tidy (s.ignoreret co) := by
  intro c hmem
  refine ⟨?_, (h c hmem).2⟩
  change Function.update s.sessionCoroutineId co none c = none
  rw [Function.update_apply]
  split_ifs
  · rfl
  · exact (h c hmem).1

theorem Tidy.accept (h : Tidy s) (hfit : Fit s) {m : Message} {unpacks : Bool}
    (hco : s.proto m.type = some true → s.CanCreate co) : Tidy (s.accept m co unpacks) := by
  unfold State.accept
  have hrequests : Tidy { s with requests := s.requests ++ [m] } := h
  dsimp only
  split
  · split_ifs
    · exact hrequests.congr requestTables_send
    · exact hrequests
  · exact hrequests
  next hproto =>
    have hfree := (hfit.coCreate (hco hproto)).1
    have hmade : Tidy ((State.coCreate { s with requests := s.requests ++ [m] } co).setRequest co
        (some m.session) (some m.source) (some s.requests.length)) :=
      hrequests.coCreate.setRequest (.inl hfree.pools)
    split_ifs
    · exact hmade
    · exact hmade
    · exact hmade

theorem Tidy.rawDispatchMessage (h : Tidy s) (hfit : Fit s) {m : Message} {unpacks : Bool}
    (hco : s.Dispatches m → s.CanCreate co) : Tidy (s.rawDispatchMessage m co unpacks) := by
  unfold State.rawDispatchMessage
  split_ifs with hresponse herror hbuffer
  · split <;> exact h
  · split <;> exact h
  · exact h
  · exact h.accept hfit fun hproto => hco ⟨hresponse, herror, hproto⟩

theorem Tidy.perform (h : Tidy s) {call : Call} : Tidy (s.perform co call) := by
  cases call with
  | fork co' => exact h.coCreate.congr rfl
  | timeout co' => exact h.coCreate.congr rfl
  | registerProtocol | startReturns | wait | raise => exact h
  | ignoreret => exact h.ignoreret
  | dispatch type dispatch =>
    change Tidy (if _ then _ else s)
    split_ifs <;> exact h
  | call sends =>
    change Tidy (s.call co sends)
    unfold State.call
    dsimp only
    split_ifs <;> exact h
  | sleep sets =>
    change Tidy (s.sleep co sets)
    unfold State.sleep
    dsimp only
    split_ifs <;> exact h
  | wakeup co' =>
    change Tidy (s.wakeup co')
    unfold State.wakeup
    split
    · dsimp only
      split_ifs <;> exact h
    · exact h
  | ret sends =>
    change Tidy (s.ret co sends)
    unfold State.ret
    split
    · dsimp only
      split_ifs
      · exact h.ignoreret
      · exact h.ignoreret.congr requestTables_send
    · exact h
  | response =>
    change Tidy (s.response co)
    unfold State.response
    have hreset : Tidy (s.setRequest co none none none) := h.setRequest (.inr ⟨rfl, rfl⟩)
    split
    · split_ifs
      · exact h
      · exact hreset.congr rfl
    · exact h
  | respond i ok sends =>
    change Tidy (s.respond i ok sends)
    unfold State.respond
    split
    · split
      · exact h
      · exact h.congr requestTables_send
    · exact h
  | finish =>
    intro c hmem
    change Function.update s.sessionCoroutineId co none c = none ∧
      Function.update s.sessionCoroutineAddress co none c = none
    by_cases hc : c = co
    · subst hc
      rw [Function.update_self, Function.update_self]
      exact ⟨rfl, rfl⟩
    · rw [Function.update_of_ne hc, Function.update_of_ne hc]
      refine h c ((List.mem_append.1 hmem).resolve_right fun hmem => hc (List.mem_singleton.1 hmem))

theorem Tidy.next (h : Tidy s) : Tidy s.next := by
  unfold State.next
  split
  · split <;> exact h
  · dsimp only
    split <;> exact h
  · exact h
  · exact h

theorem Tidy.step {l : Label} (h : Tidy s) (hfit : Fit s) (hs : State.step s l = some s') :
    Tidy s' := by
  obtain ⟨hen, rfl⟩ := step_eq_some.1 hs
  cases l with
  | main c => exact h.perform
  | start co => exact h.coCreate.congr rfl
  | loaded | collect l => exact h
  | message m co unpacks =>
    refine Tidy.rawDispatchMessage (s := { s with phase := .handler }.record _) h ?_ hen.2
    exact hfit.same (fun c => ⟨rfl, rfl, fun _ h => h, rfl, rfl, rfl⟩) rfl rfl
  | replay co unpacks =>
    obtain ⟨m, rest, hq, hco, hexec⟩ := replay_of_enabled hen
    rw [hexec]
    refine Tidy.rawDispatchMessage (s := { s with queue := rest }) h ?_ hco
    exact ⟨fun c => (hfit.fits c).same ⟨rfl, rfl, fun _ h => h, rfl, rfl, rfl⟩,
      fun m hm => hfit.queue m (hq ▸ List.mem_cons_of_mem _ hm), hfit.pending⟩
  | code c =>
    obtain ⟨self, l, -, -, hexec⟩ := code_of_enabled hen
    rw [hexec]
    exact h.perform
  | next => exact h.next

end Tidy

/-- What a response or an error does, where nothing runs. -/
theorem Fit.answer (h : Fit s) (hrun : s.running = []) {m : Message} (co : Coroutine)
    (unpacks : Bool) (hcurrent : s.Current m.session (s.sessionIdCoroutine m.session))
    (hm : m.type = PTYPE_RESPONSE ∨ m.type = PTYPE_ERROR) :
    (s.rawDispatchMessage m co unpacks).sessionIdCoroutine m.session = none ∧
      match s.sessionIdCoroutine m.session with
      | some (.thread c) => (s.rawDispatchMessage m co unpacks).running = [c] ∧
          (s.rawDispatchMessage m co unpacks).status c = .running ∧
          (s.rawDispatchMessage m co unpacks).log = s.log ++ [.resumed c m]
      | some .broken | none => (s.rawDispatchMessage m co unpacks).running = [] ∧
          (s.rawDispatchMessage m co unpacks).log = s.log := by
  have hcleared : Function.update s.sessionIdCoroutine m.session none m.session = none :=
    Function.update_self ..
  have hback : s.back.running = [] := Threads.running_back.trans hrun
  have hresumed : ∀ c, s.sessionIdCoroutine m.session = some (.thread c) →
      (((s.setEntry m.session none).record (.resumed c m)).resume c).running = [c] ∧
        (((s.setEntry m.session none).record (.resumed c m)).resume c).status c = .running :=
    fun c hentry => by
      have hfree := h.free_of_current (e := .resumed c m) hentry hcurrent
      have hthreads : (((s.setEntry m.session none).record (.resumed c m)).resume c).toThreads
          = s.toThreads.run c := hfree.resume_eq
      rw [hthreads, running_run, status_run, if_pos rfl, hrun]
      exact ⟨rfl, rfl⟩
  unfold State.rawDispatchMessage
  split_ifs with hresponse herror hbuffer
  · rcases hentry : s.sessionIdCoroutine m.session with - | c | -
    · exact ⟨hentry, hback, rfl⟩
    · exact ⟨hcleared, (hresumed c hentry).1, (hresumed c hentry).2, rfl⟩
    · exact ⟨hcleared, Threads.running_back.trans hrun, rfl⟩
  · rcases hentry : s.sessionIdCoroutine m.session with - | c | -
    · exact ⟨hentry, hback, rfl⟩
    · exact ⟨hcleared, (hresumed c hentry).1, (hresumed c hentry).2, rfl⟩
    · exact ⟨hcleared, rfl, rfl⟩
  · exact (hm.elim hresponse herror).elim
  · exact (hm.elim hresponse herror).elim

/-- And between callbacks. -/
theorem Fit.answered (h : Fit s) (hinside : s.Inside) {m : Message} {unpacks : Bool}
    (hcurrent : s.Current m.session (s.sessionIdCoroutine m.session))
    (hm : m.type = PTYPE_RESPONSE ∨ m.type = PTYPE_ERROR)
    (hs : State.step s (.message m co unpacks) = some s') :
    s'.sessionIdCoroutine m.session = none ∧
      match s.sessionIdCoroutine m.session with
      | some (.thread c) => s'.running = [c] ∧ s'.status c = .running ∧
          s'.log = s.log ++ [.called m s.serviceStarted, .resumed c m]
      | some .broken | none =>
        s'.running = [] ∧ s'.log = s.log ++ [.called m s.serviceStarted] := by
  obtain ⟨⟨hphase, -⟩, rfl⟩ := step_eq_some.1 hs
  have hrun : s.running = [] := running_of_not_busy hinside fun hbusy => by
    rw [hphase] at hbusy
    exact hbusy
  have hcalled : Fit ({ s with phase := .handler }.record (.called m s.serviceStarted)) :=
    h.same (fun c => ⟨rfl, rfl, fun _ h => h, rfl, rfl, rfl⟩) rfl rfl
  obtain ⟨hnone, hanswer⟩ := hcalled.answer hrun co unpacks hcurrent hm
  refine ⟨hnone, ?_⟩
  change (match s.sessionIdCoroutine m.session with
    | some (.thread c) => _
    | some .broken | none => _) at hanswer
  rcases hentry : s.sessionIdCoroutine m.session with - | c | - <;> rw [hentry] at hanswer
  · exact hanswer
  · obtain ⟨hrunning, hstatus, hlog⟩ := hanswer
    exact ⟨hrunning, hstatus, hlog.trans (List.append_assoc s.log [_] [_])⟩
  · exact hanswer

/-- What holds in every run of direct steps, while there are fewer than 2^31 sessions. -/
structure Orderly (s : State) : Prop where
  fit : Fit s
  numbered : Numbered s
  tidy : Tidy s

theorem orderly_of_direct (h : Reaches step Direct {} s) (hfew : s.sessions < 2 ^ 31) :
    Orderly s := by
  refine h.invariant (I := fun s => s.sessions < 2 ^ 31 → Orderly s) (fun _ => ?_) ?_ hfew
  · exact ⟨fit_init, numbered_init, fun _ hmem => by cases hmem⟩
  · intro s l s' _ ih hdirect hs hfew
    obtain ⟨es, hlog⟩ := log_of_step hs
    have hle : s.sessions ≤ s'.sessions := by
      unfold sessions
      rw [hlog, List.countP_append]
      exact Nat.le_add_right _ _
    obtain ⟨hfit, hnumbered, htidy⟩ := ih (Nat.lt_of_le_of_lt hle hfew)
    exact ⟨hfit.step (hnumbered.regular hdirect hs hfew) hs, hnumbered.step hfit hdirect hs hfew,
      htidy.step hfit hs⟩

/-- With fewer than 2^31 sessions, waits without a token, and no call that raises before it
suspends, a response or an error resumes the coroutine that has allocated its session, once. -/
theorem routes_of_direct (h : Reaches step Direct {} s) (hfew : s.sessions < 2 ^ 31) :
    Routes s := by
  obtain ⟨hfit, hnumbered, htidy⟩ := orderly_of_direct h hfew
  refine ⟨fun co why hst session => ⟨fun hentry => ?_, ?_⟩, hnumbered.owner, hnumbered.resumed,
    hnumbered.once, fun m co unpacks s' hm hs => ?_, fun co hmem => ?_⟩
  · have hcurrent := hnumbered.current session
    rw [hentry] at hcurrent
    simp only [Current, hst] at hcurrent
    exact hcurrent.symm
  · rintro rfl
    exact (hfit.fits co).entry why hst
  · exact hfit.answered (queued_reachable h.reachable).inside (hnumbered.current m.session) hm hs
  · obtain ⟨hst, -⟩ := (hfit.fits co).of_mem_pool hmem
    refine ⟨(htidy co hmem).1, (htidy co hmem).2, ?_, fun session hentry => ?_⟩
    · rw [(hfit.fits co).sleep, hst]
      rfl
    · have hentered : s.Entered co := ⟨session, hentry⟩
      refine hnumbered.not_entered (fun hloose => ?_) hentered
      rw [hst] at hloose
      exact hloose

/-- A request is handled by the coroutine that has started the service, which calls, and is
answered. -/
def callRun : List Label :=
  [.start 0, .loaded, .message { type := PTYPE_RESPONSE, session := 1 } 0 true,
    .code (.dispatch PTYPE_LUA true), .code .startReturns, .code .finish, .collect [],
    .message { type := PTYPE_LUA, session := 7, source := 3 } 0 true, .code (.call true),
    .collect [], .message { type := PTYPE_RESPONSE, session := 2, source := 4 } 0 true,
    .code .finish, .collect []]

theorem routes_callRun :
    Reachable step {} (after step {} callRun) ∧ Routes (after step {} callRun) := by
  have h : Reaches step Direct {} (after step {} callRun) := reaches_after (by decide)
  exact ⟨h.reachable, routes_of_direct h (by decide)⟩

end State

end LuaService

end SkynetCpp
