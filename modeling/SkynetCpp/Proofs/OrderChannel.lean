import SkynetCpp.OrderChannel

/-!
# Responses come in the order of the requests

The requests that were sent on a connection are those that were answered on it, then the one its
dispatcher decodes, then, as long as it is the channel's connection, those that wait (`Lined`). Each
step that meets `Attended` keeps this.
-/

namespace SkynetCpp

namespace SocketChannel

namespace Order

open Lib

namespace State

variable {s s' : State} {l : Label} {d conn : ℤ} {own : Option ℤ} {stage : Stage} {n : ℕ}

theorem step_eq_some : step s l = some s' ↔ s.Enabled l ∧ s.exec l = s' := by
  unfold step
  split_ifs with h <;> simp [h]

/-- The request that a dispatcher decodes. -/
def decodes : Option Dispatcher → List ℕ
  | some ⟨_, .calling func _⟩ => [func]
  | _ => []

/-- The requests sent on the connection: those answered, the one that is decoded, and the rest, which
waits if the connection is the channel's. -/
def Lined (s : State) (conn : ℤ) : Prop := ∃ rest,
  (s.responsesOn conn).map (·.func) ++ decodes (s.dispatchers conn) ++ rest = s.sentOn conn ∧
    (s.connId = some conn → rest = s.request)

/-- The dispatcher has no other connection than its own, and is in a response function with the
coroutine of that request only. -/
structure Proper (d : ℤ) (x : Dispatcher) : Prop where
  own : x.conn = none ∨ x.conn = some d
  calling : ∀ func co, x.stage = .calling func co → func = co ∧ x.conn = some d

structure Sound (s : State) : Prop where
  lists : s.thread = s.request
  lined : ∀ conn, s.Lined conn
  closed : s.connId = none → s.request = []
  current : ∀ conn, s.connId = some conn → s.dispatchers conn ≠ none
  proper : ∀ d x, s.dispatchers d = some x → Proper d x
  known : ∀ (n : ℕ) (c : Option ℤ), s.sent[n]? = some c → ∃ conn, c = some conn ∧ s.dispatchers conn ≠ none
  paired : ∀ r ∈ s.responses, r.func = r.co
  reads : ∀ r ∈ s.reads, r.dispatcher = r.conn ∧ s.sent[r.func]? = some (some r.conn)
  pending : ∀ n, n < s.sent.length → n ∈ s.request ∨
    (∃ d, n ∈ decodes (s.dispatchers d)) ∨ n ∈ s.responses.map (·.co) ∨ n ∈ s.errors

theorem sound_init : Sound {} where
  lists := rfl
  lined conn := ⟨[], rfl, fun h => by cases h⟩
  closed _ := rfl
  current conn h := by cases h
  proper d x h := by cases h
  known n c h := by simp at h
  paired := by simp
  reads := by simp
  pending n h := by cases h

theorem mem_sentOn : n ∈ s.sentOn conn ↔ s.sent[n]? = some (some conn) := by
  unfold sentOn
  rw [List.mem_filter, List.mem_range, decide_eq_true_iff]
  exact ⟨And.right, fun h => ⟨(List.getElem?_eq_some_iff.1 h).1, h⟩⟩

theorem Sound.of_decodes (h : Sound s) (hn : n ∈ decodes (s.dispatchers d)) :
    s.dispatchers d = some ⟨some d, .calling n n⟩ := by
  rcases hx : s.dispatchers d with - | ⟨own, stage⟩
  · rw [hx] at hn
    cases hn
  · cases stage with
    | calling func co =>
      rw [hx] at hn
      obtain rfl := List.mem_singleton.1 hn
      obtain ⟨hfunc, hown⟩ := (h.proper d _ hx).calling n co rfl
      have hown : own = some d := hown
      rw [hown, hfunc]
    | forked | running | waiting | woken | ended => rw [hx] at hn; cases hn

theorem Sound.sent_of_decodes (h : Sound s) (hn : n ∈ decodes (s.dispatchers d)) :
    s.sent[n]? = some (some d) := by
  obtain ⟨rest, heq, -⟩ := h.lined d
  rw [← mem_sentOn, ← heq]
  exact List.mem_append_left _ (List.mem_append_right _ hn)

theorem Sound.matched (h : Sound s) : s.Matched where
  reader r hr r' hr' heq := by
    rw [(h.reads r hr).1, (h.reads r' hr').1, heq]
  bytes r hr := (h.reads r hr).2
  funcs conn := by
    obtain ⟨rest, heq, -⟩ := h.lined conn
    rw [← heq, List.append_assoc]
    exact List.prefix_append _ _
  cos conn := by
    have hmap : (s.responsesOn conn).map (·.co) = (s.responsesOn conn).map (·.func) :=
      List.map_congr_left fun r hr => (h.paired r (List.mem_filter.1 hr).1).symm
    obtain ⟨rest, heq, -⟩ := h.lined conn
    rw [hmap, ← heq, List.append_assoc]
    exact List.prefix_append _ _
  queued n hn := by
    rw [h.lists] at hn
    rcases hc : s.connId with - | conn
    · rw [h.closed hc] at hn
      cases hn
    · obtain ⟨rest, heq, hrest⟩ := h.lined conn
      refine ⟨conn, rfl, ?_⟩
      rw [← mem_sentOn, ← heq, hrest hc]
      exact List.mem_append_right _ hn
  pending n hn := by
    rcases h.pending n hn with hq | ⟨d, hd⟩ | hr | he
    · exact .inl (h.lists ▸ hq)
    · exact .inr (.inl ⟨d, some d, h.of_decodes hd, h.sent_of_decodes hd⟩)
    · exact .inr (.inr (.inl hr))
    · exact .inr (.inr (.inr he))

theorem dispatchers_put {d' : ℤ} : (s.put d own stage).dispatchers d' =
    if d' = d then some ⟨own, stage⟩ else s.dispatchers d' := by
  simp [State.put, Function.update_apply]

theorem decodes_put_of_ne {d' : ℤ} (hne : d' ≠ d) :
    decodes ((s.put d own stage).dispatchers d') = decodes (s.dispatchers d') := by
  rw [dispatchers_put, if_neg hne]

theorem decodes_put_self (hstage : ∀ func co, stage ≠ .calling func co) :
    decodes ((s.put d own stage).dispatchers d) = [] := by
  rw [dispatchers_put, if_pos rfl]
  cases stage with
  | calling func co => exact absurd rfl (hstage func co)
  | forked | running | waiting | woken | ended => rfl

theorem put_ne_none {d' : ℤ} (h : s.dispatchers d' ≠ none) :
    (s.put d own stage).dispatchers d' ≠ none := by
  rw [dispatchers_put]
  split_ifs
  · exact Option.some_ne_none _
  · exact h

theorem Sound.proper_put (h : Sound s) (hown : own = none ∨ own = some d)
    (hstage : ∀ func co, stage ≠ .calling func co) {d' : ℤ} {x : Dispatcher}
    (hx : (s.put d own stage).dispatchers d' = some x) : Proper d' x := by
  rw [dispatchers_put] at hx
  split_ifs at hx with heq
  · subst heq
    obtain rfl := Option.some.inj hx
    exact ⟨hown, fun func co hcall => absurd hcall (hstage func co)⟩
  · exact h.proper d' x hx

/-- A dispatcher that decodes nothing is put elsewhere. -/
theorem Sound.put (h : Sound s) (hfree : decodes (s.dispatchers d) = [])
    (hown : own = none ∨ own = some d) (hstage : ∀ func co, stage ≠ .calling func co) :
    Sound (s.put d own stage) := by
  have hdecodes : ∀ d', decodes ((s.put d own stage).dispatchers d') = decodes (s.dispatchers d') :=
    fun d' => by
      by_cases hd : d' = d
      · rw [hd, hfree, decodes_put_self hstage]
      · exact decodes_put_of_ne hd
  refine ⟨h.lists, fun conn => ?_, h.closed, fun conn hc => put_ne_none (h.current conn hc),
    fun d' x hx => h.proper_put hown hstage hx, fun n c hn => ?_, h.paired, h.reads, fun n hn => ?_⟩
  · unfold Lined
    rw [hdecodes]
    exact h.lined conn
  · obtain ⟨conn, hc, hconn⟩ := h.known n c hn
    exact ⟨conn, hc, put_ne_none hconn⟩
  · simp only [hdecodes]
    exact h.pending n hn

theorem Sound.wait (h : Sound s) (hfree : decodes (s.dispatchers d) = [])
    (hown : own = none ∨ own = some d) : Sound (s.wait d own) := by
  have hput : Sound (s.put d own .waiting) := h.put hfree hown fun _ _ => Stage.noConfusion
  exact ⟨hput.lists, hput.lined, hput.closed, hput.current, hput.proper, hput.known, hput.paired,
    hput.reads, hput.pending⟩

theorem Sound.ended (h : Sound s) (hfree : decodes (s.dispatchers d) = [])
    (hown : own = none ∨ own = some d) : Sound (s.put d own .ended) :=
  h.put hfree hown fun _ _ => Stage.noConfusion

/-- The dispatcher of the channel's connection takes the first request. -/
theorem Sound.call (h : Sound s) (hfree : decodes (s.dispatchers d) = []) {rs : List ℕ}
    (hq : s.request = n :: rs) (hc : s.connId = some d) :
    Sound { s.put d (some d) (.calling n n) with request := rs, thread := rs } := by
  have hself : (s.put d (some d) (.calling n n)).dispatchers d = some ⟨some d, .calling n n⟩ := by
    rw [dispatchers_put, if_pos rfl]
  refine ⟨rfl, fun conn => ?_, fun hnone => ?_, fun conn hc => put_ne_none (h.current conn hc),
    fun d' x hx => ?_, fun m c hm => ?_, h.paired, h.reads, fun m hm => ?_⟩
  · obtain ⟨rest, heq, hrest⟩ := h.lined conn
    by_cases hd : conn = d
    · subst hd
      refine ⟨rs, ?_, fun _ => rfl⟩
      rw [hfree, hrest hc, hq] at heq
      change (s.responsesOn conn).map (·.func) ++
        decodes ((s.put conn (some conn) (.calling n n)).dispatchers conn) ++ rs = s.sentOn conn
      rw [hself]
      simpa [decodes] using heq
    · refine ⟨rest, ?_, fun hc' => absurd (Option.some.inj (hc'.symm.trans hc)) hd⟩
      change _ ++ decodes ((s.put d (some d) (.calling n n)).dispatchers conn) ++ rest = _
      rw [decodes_put_of_ne hd]
      exact heq
  · have hnone : s.connId = none := hnone
    rw [hc] at hnone
    cases hnone
  · have hx : (s.put d (some d) (.calling n n)).dispatchers d' = some x := hx
    rw [dispatchers_put] at hx
    split_ifs at hx with heq
    · subst heq
      obtain rfl := Option.some.inj hx
      exact ⟨.inr rfl, fun func co hcall => by cases hcall; exact ⟨rfl, rfl⟩⟩
    · exact h.proper d' x hx
  · obtain ⟨conn, hconn, hd⟩ := h.known m c hm
    exact ⟨conn, hconn, put_ne_none hd⟩
  · rcases h.pending m hm with hmem | ⟨d', hd'⟩ | hr | he
    · rcases List.mem_cons.1 (hq ▸ hmem) with rfl | hmem
      · refine .inr (.inl ⟨d, ?_⟩)
        change _ ∈ decodes ((s.put d (some d) (.calling m m)).dispatchers d)
        rw [hself]
        exact List.mem_singleton_self _
      · exact .inl hmem
    · refine .inr (.inl ⟨d', ?_⟩)
      have hne : d' ≠ d := fun heq => by rw [heq, hfree] at hd'; cases hd'
      change _ ∈ decodes ((s.put d (some d) (.calling n n)).dispatchers d')
      rwa [decodes_put_of_ne hne]
    · exact .inr (.inr (.inl hr))
    · exact .inr (.inr (.inr he))

/-- A dispatcher takes what there is: a request only of its own connection. -/
theorem Sound.take (h : Sound s) (hfree : decodes (s.dispatchers d) = [])
    (hown : own = none ∨ own = some d) (hattended : s.request ≠ [] → s.connId = own) :
    Sound (take d own s.request s.thread s) := by
  rw [h.lists]
  rcases hq : s.request with - | ⟨n, rs⟩
  · have hthread : s.thread = [] := h.lists.trans hq
    have hself : { s with thread := List.tail [] } = s := by
      rw [List.tail_nil, ← hthread]
    unfold State.take
    rw [hself]
    split_ifs
    · exact h.wait hfree hown
    · have hended := h.ended hfree hown
      rw [show { s.put d own .ended with thread := List.tail [] } = s.put d own .ended by
        rw [List.tail_nil, ← hthread]; rfl]
      exact hended
  · have hconn := hattended (by rw [hq]; exact List.cons_ne_nil _ _)
    rcases hown with rfl | rfl
    · rw [h.closed hconn] at hq
      cases hq
    · exact h.call hfree hq hconn

theorem Sound.loop (h : Sound s) (hfree : decodes (s.dispatchers d) = [])
    (hown : own = none ∨ own = some d) : Sound (s.loop d own) := by
  unfold State.loop
  split_ifs with hconn
  · exact h.wait hfree hown
  · exact h.take hfree hown fun _ => hconn
  · exact h.ended hfree hown

/-- The channel's connection is gone, and those that wait have got an error. -/
theorem Sound.leave (h : Sound s) (es : List ℕ) (hes : ∀ n ∈ s.request, n ∈ es) :
    Sound { s with connId := none, errors := s.errors ++ es, request := [], thread := [] } where
  lists := rfl
  lined conn := by
    obtain ⟨rest, heq, -⟩ := h.lined conn
    exact ⟨rest, heq, fun hc => by cases hc⟩
  closed _ := rfl
  current conn hc := by cases hc
  proper := h.proper
  known := h.known
  paired := h.paired
  reads := h.reads
  pending n hn := by
    rcases h.pending n hn with hq | hd | hr | he
    · exact .inr (.inr (.inr (List.mem_append_right _ (hes n hq))))
    · exact .inr (.inl hd)
    · exact .inr (.inr (.inl hr))
    · exact .inr (.inr (.inr (List.mem_append_left _ he)))

theorem Sound.close (h : Sound s) : Sound s.closeSocket.wakeupAll :=
  h.leave s.thread fun _ hn => h.lists ▸ hn

theorem Sound.closeSocket (h : Sound s) (hq : s.request = []) : Sound s.closeSocket := by
  have hleave := h.leave [] fun n hn => by rw [hq] at hn; cases hn
  have hthread : s.thread = [] := h.lists.trans hq
  have hstate : { s with connId := none, errors := s.errors ++ [], request := [], thread := [] } =
      s.closeSocket := by
    simp [State.closeSocket, hq, hthread]
  exact hstate ▸ hleave

/-- A dispatcher whose function has raised, when its coroutine has got the error. -/
theorem Sound.fail (h : Sound s) (hc : s.connId = none) (hown : own = none ∨ own = some d)
    (herr : ∀ n ∈ decodes (s.dispatchers d), n ∈ s.errors) : Sound (s.put d own .ended) where
  lists := h.lists
  lined conn := by
    obtain ⟨rest, heq, -⟩ := h.lined conn
    by_cases hd : conn = d
    · subst hd
      refine ⟨decodes (s.dispatchers conn) ++ rest, ?_, fun hc' => ?_⟩
      · rw [decodes_put_self fun _ _ => Stage.noConfusion, List.append_nil, ← List.append_assoc]
        exact heq
      · have hc' : s.connId = some conn := hc'
        rw [hc] at hc'
        cases hc'
    · refine ⟨rest, ?_, fun hc' => ?_⟩
      · rw [decodes_put_of_ne hd]
        exact heq
      · have hc' : s.connId = some conn := hc'
        rw [hc] at hc'
        cases hc'
  closed := h.closed
  current conn hc := put_ne_none (h.current conn hc)
  proper d' x hx := h.proper_put hown (fun _ _ => Stage.noConfusion) hx
  known n c hn := by
    obtain ⟨conn, hconn, hd⟩ := h.known n c hn
    exact ⟨conn, hconn, put_ne_none hd⟩
  paired := h.paired
  reads := h.reads
  pending n hn := by
    rcases h.pending n hn with hq | ⟨d', hd'⟩ | hr | he
    · exact .inl hq
    · by_cases hd : d' = d
      · exact .inr (.inr (.inr (herr n (hd ▸ hd'))))
      · exact .inr (.inl ⟨d', by rwa [decodes_put_of_ne hd]⟩)
    · exact .inr (.inr (.inl hr))
    · exact .inr (.inr (.inr he))

theorem Sound.raised (h : Sound s) : Sound (s.raised d (s.dispatchers d)) := by
  unfold State.raised
  split
  next own func co hx =>
    have hleave := h.leave (co :: s.thread) fun n hn =>
      List.mem_cons_of_mem _ (h.lists ▸ hn)
    have herrors : s.errors ++ [co] ++ s.thread = s.errors ++ co :: s.thread := by simp
    have hstate : { s.closeSocket with errors := s.errors ++ [co] }.wakeupAll =
        { s with connId := none, errors := s.errors ++ co :: s.thread, request := [], thread := [] } := by
      rw [← herrors]
      rfl
    rw [hstate]
    refine hleave.fail rfl (h.proper d _ hx).own fun n hn => ?_
    have hn : n ∈ decodes (s.dispatchers d) := hn
    rw [hx] at hn
    obtain rfl := List.mem_singleton.1 hn
    rw [((h.proper d _ hx).calling n co rfl).1]
    exact List.mem_append_right _ List.mem_cons_self
  next => exact h

/-- The response is complete. -/
theorem Sound.respond (h : Sound s) (hx : s.dispatchers d = some ⟨some d, .calling n n⟩) {ok : Bool} :
    Sound ((s.put d (some d) .running).respond ⟨some d, n, n, ok⟩) where
  lists := h.lists
  lined conn := by
    obtain ⟨rest, heq, hrest⟩ := h.lined conn
    refine ⟨rest, ?_, hrest⟩
    change ((s.responses ++ [(⟨some d, n, n, ok⟩ : Response)]).filter
      fun r => r.conn = some conn).map (·.func) ++
      decodes ((s.put d (some d) .running).dispatchers conn) ++ rest = s.sentOn conn
    by_cases hd : conn = d
    · subst hd
      rw [hx] at heq
      rw [decodes_put_self fun _ _ => Stage.noConfusion, List.filter_append, List.map_append]
      simpa [decodes, responsesOn] using heq
    · rw [decodes_put_of_ne hd, List.filter_append, List.map_append]
      have hne : ¬ d = conn := fun h => hd h.symm
      simpa [hne, responsesOn] using heq
  closed := h.closed
  current conn hc := put_ne_none (h.current conn hc)
  proper d' x hx := h.proper_put (.inr rfl) (fun _ _ => Stage.noConfusion) hx
  known m c hm := by
    obtain ⟨conn, hconn, hd⟩ := h.known m c hm
    exact ⟨conn, hconn, put_ne_none hd⟩
  paired r hr := by
    rcases List.mem_append.1 hr with hr | hr
    · exact h.paired r hr
    · rw [List.mem_singleton.1 hr]
  reads := h.reads
  pending m hm := by
    change _ ∨ _ ∨ m ∈ (s.responses ++ [(⟨some d, n, n, ok⟩ : Response)]).map (·.co) ∨ _
    rw [List.map_append, List.mem_append]
    rcases h.pending m hm with hq | ⟨d', hd'⟩ | hr | he
    · exact .inl hq
    · by_cases hd : d' = d
      · rw [hd, hx] at hd'
        exact .inr (.inr (.inl (.inr hd')))
      · refine .inr (.inl ⟨d', ?_⟩)
        change _ ∈ decodes ((s.put d (some d) .running).dispatchers d')
        rwa [decodes_put_of_ne hd]
    · exact .inr (.inr (.inl (.inl hr)))
    · exact .inr (.inr (.inr he))

/-- Of a padded response there is more to come, on the channel's connection. -/
theorem Sound.requeue (h : Sound s) (hx : s.dispatchers d = some ⟨some d, .calling n n⟩)
    (hc : s.connId = some d) : Sound ((s.put d (some d) .running).requeue n n) where
  lists := congrArg (n :: ·) h.lists
  lined conn := by
    obtain ⟨rest, heq, hrest⟩ := h.lined conn
    by_cases hd : conn = d
    · subst hd
      refine ⟨n :: rest, ?_, fun _ => congrArg (n :: ·) (hrest hc)⟩
      rw [hx] at heq
      change (s.responsesOn conn).map (·.func) ++
        decodes ((s.put conn (some conn) .running).dispatchers conn) ++ n :: rest = s.sentOn conn
      rw [decodes_put_self fun _ _ => Stage.noConfusion]
      simpa [decodes] using heq
    · refine ⟨rest, ?_, fun hc' => absurd (Option.some.inj (Eq.trans (Eq.symm hc') hc)) hd⟩
      change (s.responsesOn conn).map (·.func) ++
        decodes ((s.put d (some d) .running).dispatchers conn) ++ rest = s.sentOn conn
      rw [decodes_put_of_ne hd]
      exact heq
  closed hnone := by
    have hnone : s.connId = none := hnone
    rw [hc] at hnone
    cases hnone
  current conn hc := put_ne_none (h.current conn hc)
  proper d' x hx := h.proper_put (.inr rfl) (fun _ _ => Stage.noConfusion) hx
  known m c hm := by
    obtain ⟨conn, hconn, hd⟩ := h.known m c hm
    exact ⟨conn, hconn, put_ne_none hd⟩
  paired := h.paired
  reads := h.reads
  pending m hm := by
    rcases h.pending m hm with hq | ⟨d', hd'⟩ | hr | he
    · exact .inl (List.mem_cons_of_mem _ hq)
    · by_cases hd : d' = d
      · rw [hd, hx] at hd'
        obtain rfl := List.mem_singleton.1 hd'
        exact .inl List.mem_cons_self
      · refine .inr (.inl ⟨d', ?_⟩)
        change _ ∈ decodes ((s.put d (some d) .running).dispatchers d')
        rwa [decodes_put_of_ne hd]
    · exact .inr (.inr (.inl hr))
    · exact .inr (.inr (.inr he))

theorem sentOn_append {c : Option ℤ} :
    ((List.range (s.sent ++ [c]).length).filter fun n => (s.sent ++ [c])[n]? = some (some conn)) =
      s.sentOn conn ++ if c = some conn then [s.sent.length] else [] := by
  rw [List.length_append, List.length_singleton, List.range_succ, List.filter_append]
  congr 1
  · refine List.filter_congr fun n hn => ?_
    rw [List.getElem?_append_left (List.mem_range.1 hn)]
  · split_ifs with hc <;> simp [hc]

theorem Sound.wakeDispatch (h : Sound s) : Sound s.wakeDispatch := by
  unfold State.wakeDispatch
  split
  · split
    next own hx =>
      exact h.put (by rw [hx]; rfl) (h.proper _ _ hx).own fun _ _ => Stage.noConfusion
    · exact h
  · exact h

/-- A request is sent, and waits. -/
theorem Sound.push (h : Sound s) (hconn : s.connId ≠ none) : Sound s.push := by
  obtain ⟨c, hc⟩ := Option.ne_none_iff_exists'.1 hconn
  refine Sound.wakeDispatch ⟨?_, fun conn => ?_, fun hnone => absurd hnone hconn, h.current, h.proper,
    fun n c' hn => ?_, h.paired, fun r hr => ?_, fun n hn => ?_⟩
  · exact congrArg (· ++ [s.sent.length]) h.lists
  · obtain ⟨rest, heq, hrest⟩ := h.lined conn
    unfold Lined
    change ∃ rest, _ ∧ (s.connId = some conn → rest = s.request ++ [s.sent.length])
    by_cases hd : s.connId = some conn
    · refine ⟨rest ++ [s.sent.length], ?_, fun _ => by rw [hrest hd]⟩
      rw [← List.append_assoc]
      refine Eq.trans ?_ (sentOn_append (c := s.connId)).symm
      rw [if_pos hd, ← heq]
      rfl
    · refine ⟨rest, ?_, fun hd' => absurd hd' hd⟩
      refine Eq.trans ?_ (sentOn_append (c := s.connId)).symm
      rw [if_neg hd, List.append_nil, ← heq]
      rfl
  · have hn : (s.sent ++ [s.connId])[n]? = some c' := hn
    rw [List.getElem?_append] at hn
    split_ifs at hn
    · exact h.known n c' hn
    · have hmem := List.mem_of_getElem? hn
      rw [List.mem_singleton.1 hmem, hc]
      exact ⟨c, rfl, h.current c hc⟩
  · obtain ⟨hd, hsent⟩ := h.reads r hr
    refine ⟨hd, ?_⟩
    change (s.sent ++ [s.connId])[r.func]? = _
    rw [List.getElem?_append_left (List.getElem?_eq_some_iff.1 hsent).1, hsent]
  · have hn : n < (s.sent ++ [s.connId]).length := hn
    rw [List.length_append, List.length_singleton] at hn
    rcases Nat.lt_succ_iff_lt_or_eq.1 hn with hn | rfl
    · rcases h.pending n hn with hq | hd | hr | he
      · exact .inl (List.mem_append_left _ hq)
      · exact .inr (.inl hd)
      · exact .inr (.inr (.inl hr))
      · exact .inr (.inr (.inr he))
    · exact .inl (List.mem_append_right _ (List.mem_singleton_self _))

/-- A new connection, on which nothing was sent. -/
theorem Sound.opened (h : Sound s) (hnone : s.connId = none) (hnew : s.dispatchers conn = none) :
    Sound { s.put conn none .forked with connId := some conn } := by
  have hput : Sound (s.put conn none .forked) :=
    h.put (by rw [hnew]; rfl) (.inl rfl) fun _ _ => Stage.noConfusion
  refine Sound.mk hput.lists (fun c => ?_) (fun hc => by cases hc) (fun c hc => ?_) hput.proper
    hput.known hput.paired hput.reads hput.pending
  · obtain ⟨rest, heq, -⟩ := hput.lined c
    by_cases hd : c = conn
    · subst hd
      have hsent : (s.put c none .forked).sentOn c = [] := by
        refine List.eq_nil_iff_forall_not_mem.2 fun n hn => ?_
        obtain ⟨c', hc', hc⟩ := h.known n _ (mem_sentOn.1 hn)
        obtain rfl := Option.some.inj hc'
        exact hc hnew
      rw [hsent] at heq
      refine ⟨rest, heq.trans hsent.symm, fun _ => ?_⟩
      rw [(List.append_eq_nil_iff.1 heq).2]
      exact (h.closed hnone).symm
    · exact ⟨rest, heq, fun hc => absurd (Option.some.inj hc).symm hd⟩
  · obtain rfl := Option.some.inj hc
    change (s.put conn none .forked).dispatchers conn ≠ none
    rw [dispatchers_put, if_pos rfl]
    exact Option.some_ne_none _

theorem Sound.read (h : Sound s) (howns : s.Owns d) : Sound (s.read d (s.dispatchers d)) := by
  unfold State.read
  split
  next own func co hx =>
    split
    next conn hc =>
      refine ⟨h.lists, h.lined, h.closed, h.current, h.proper, h.known, h.paired, fun r hr => ?_,
        h.pending⟩
      rcases List.mem_append.1 hr with hr | hr
      · exact h.reads r hr
      · obtain rfl := List.mem_singleton.1 hr
        obtain ⟨-, hown⟩ := (h.proper d _ hx).calling func co rfl
        have hown : own = some d := hown
        unfold Owns at howns
        rw [hx, hc, hown] at howns
        obtain rfl : d = conn := by simpa using howns
        exact ⟨rfl, h.sent_of_decodes (d := d) (by rw [hx]; exact List.mem_singleton_self _)⟩
    next => exact h
  next => exact h

theorem Sound.begin (h : Sound s) (hforked : (s.dispatchers d).map (·.stage) = some .forked)
    (hconn : s.connId = none ∨ s.connId = some d) : Sound (s.begin d) := by
  have hfree : decodes (s.dispatchers d) = [] := by
    rcases hx : s.dispatchers d with - | ⟨own, stage⟩
    · rfl
    · rw [hx] at hforked
      obtain rfl := Option.some.inj hforked
      rfl
  have hput : Sound (s.put d s.connId .running) :=
    h.put hfree hconn fun _ _ => Stage.noConfusion
  exact hput.loop (decodes_put_self fun _ _ => Stage.noConfusion) hconn

theorem Sound.resume (h : Sound s) (hwoken : (s.dispatchers d).map (·.stage) = some .woken)
    (howns : s.request ≠ [] → s.Owns d) : Sound (s.resume d (s.dispatchers d)) := by
  rcases hx : s.dispatchers d with - | ⟨own, stage⟩
  · exact h
  rw [hx] at hwoken
  obtain rfl := Option.some.inj hwoken
  have hown := (h.proper d _ hx).own
  have hput : Sound (s.put d own .running) :=
    h.put (by rw [hx]; rfl) hown fun _ _ => Stage.noConfusion
  have hstart : Sound { s.put d own .running with waitDispatch := none } :=
    ⟨hput.lists, hput.lined, hput.closed, hput.current, hput.proper, hput.known, hput.paired,
      hput.reads, hput.pending⟩
  refine hstart.take (decodes_put_self fun _ _ => Stage.noConfusion) hown fun hq => ?_
  have howns := howns hq
  unfold Owns at howns
  rw [hx] at howns
  exact (Option.some.inj howns).symm

theorem Sound.returned (h : Sound s) {ok padding : Bool} (howns : padding = true → s.Owns d) :
    Sound (s.returned d ok padding (s.dispatchers d)) := by
  unfold State.returned
  split
  next own func co hx =>
    obtain ⟨hfunc, hown⟩ := (h.proper d _ hx).calling func co rfl
    have hown : own = some d := hown
    subst hfunc hown
    have hfree : decodes ((s.put d (some d) .running).dispatchers d) = [] :=
      decodes_put_self fun _ _ => Stage.noConfusion
    dsimp only
    split_ifs with hpadding
    · have howns := howns hpadding
      unfold Owns at howns
      rw [hx] at howns
      have hrequeue := h.requeue hx (Option.some.inj howns).symm
      exact hrequeue.loop hfree (.inr rfl)
    · exact (h.respond hx).loop hfree (.inr rfl)
  next => exact h

theorem Sound.step (h : Sound s) (hattended : s.Attended l) (hs : State.step s l = some s') :
    Sound s' := by
  obtain ⟨henabled, rfl⟩ := step_eq_some.1 hs
  cases l with
  | opened conn => exact h.opened henabled.1 henabled.2
  | request => exact h.push henabled
  | response => exact h.push hattended
  | close => exact h.close
  | changehost | connect | authRaises => exact h.closeSocket hattended
  | begin d => exact h.begin henabled hattended
  | resume d => exact h.resume henabled hattended
  | read d => exact h.read hattended
  | returned d ok padding => exact h.returned hattended
  | raised d => exact h.raised

theorem sound_reaches (h : Reaches step Attended {} s) : Sound s :=
  h.invariant sound_init fun _ _ _ _ hsound hattended hs => hsound.step hattended hs

end State

end Order

end SocketChannel

end SkynetCpp
