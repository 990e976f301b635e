import Mathlib.Data.List.Basic
import SkynetCpp.ClusterTasks

/-!
# Tasks are handed on in order

The task at place `n` of the queue is the `n`-th call, and `request_sender` has handed on those before
its place. While it waits, the coroutine it has woken holds the task before that place, or has handed
it on and woken it in turn (`Ordered`).
-/

namespace SkynetCpp

namespace ClusterTasks

open Lib

namespace State

variable {s s' : State} {l : Label} {q : Queue} {c : Handle} {i : ℕ}

theorem step_eq_some : step s l = some s' ↔ s.Enabled l ∧ s.exec l = s' := by
  unfold step
  split_ifs with h <;> simp [h]

/-- The first `i` calls were handed on to `c`. -/
structure Handed (s : State) (c : Handle) (i : ℕ) : Prop where
  order : s.handed.map Prod.fst = List.range i
  sender : ∀ p ∈ s.handed, p.2 = some c

theorem Handed.length (h : Handed s c i) : s.handed.length = i := by
  have := congrArg List.length h.order
  simpa using this

theorem Handed.hand (h : Handed s c i) : Handed (s.hand i (some c)) c (i + 1) := by
  refine ⟨?_, fun p hp => ?_⟩
  · change (s.handed ++ [(i, some c)]).map Prod.fst = _
    rw [List.map_append, h.order, List.range_succ]
    rfl
  · rcases List.mem_append.1 hp with hp | hp
    · exact h.sender p hp
    · rw [List.mem_singleton.1 hp]

/-- The queue while `request_sender` goes through it. -/
structure Serving (s : State) (q : Queue) (c : Handle) : Prop where
  queue : s.queue = some q
  confirm : q.confirm = true
  qsender : q.sender = some c
  sender : s.sender = none
  tasks : q.tasks.map Task.number = List.range s.issued

/-- Where each stage has brought the queue. -/
inductive Ordered : State → Prop
  | idle {s : State} : s.stage = .none → s.queue = none → s.sender = none → s.issued = 0 → s.handed = [] →
      s.woken = [] → s.confirmed = false → Ordered s
  | asking {s : State} {q : Queue} : s.stage = .forked ∨ s.stage = .calling → s.queue = some q → q.confirm = false →
      q.sender = none → s.sender = none → q.tasks.map Task.number = List.range s.issued →
      s.handed = [] → s.woken = [] → s.confirmed = false → Ordered s
  | woken {s : State} {q : Queue} {c : Handle} {i : ℕ} : s.stage = .waiting (i + 1) → Serving s q c → Handed s c i → i < s.issued →
      s.woken = [i] → s.confirmed = false → Ordered s
  | confirmed {s : State} {q : Queue} {c : Handle} {i : ℕ} : s.stage = .waiting i → Serving s q c → Handed s c i → i ≤ s.issued →
      s.woken = [] → s.confirmed = true → Ordered s
  | known {s : State} {c : Handle} : s.stage = .none → s.queue = none → s.sender = some c → Handed s c s.issued →
      s.woken = [] → s.confirmed = false → Ordered s

/-- The task at a place of the queue is the call of that number. -/
theorem number_of_drop {task : Task} {tasks : List Task} {n : ℕ}
    (htasks : q.tasks.map Task.number = List.range n) (hdrop : q.tasks.drop i = task :: tasks) :
    task.number = i ∧ i < n ∧ q.tasks.drop (i + 1) = tasks := by
  have hlt : i < q.tasks.length := by
    by_contra hle
    rw [List.drop_eq_nil_of_le (Nat.le_of_not_lt hle)] at hdrop
    cases hdrop
  have hn : q.tasks.length = n := by
    have := congrArg List.length htasks
    simpa using this
  rw [List.drop_eq_getElem_cons hlt] at hdrop
  obtain ⟨htask, hrest⟩ := List.cons.inj hdrop
  refine ⟨?_, hn ▸ hlt, hrest⟩
  have hget : (q.tasks.map Task.number)[i]? = (List.range n)[i]? := by rw [htasks]
  rw [List.getElem?_map, List.getElem?_eq_getElem hlt, htask,
    List.getElem?_range (hn ▸ hlt)] at hget
  exact Option.some.inj hget

theorem process_ordered : ∀ (tasks : List Task) {i : ℕ} {s : State}, Serving s q c → Handed s c i →
    i ≤ s.issued → s.woken = [] → s.confirmed = false → q.tasks.drop i = tasks →
    Ordered (process (some c) i tasks s)
  | [], i, s, hserving, hhanded, hi, hw, hc, hdrop => by
    have hn : q.tasks.length = s.issued := by
      have := congrArg List.length hserving.tasks
      simpa using this
    have hle : q.tasks.length ≤ i := List.drop_eq_nil_iff.1 hdrop
    have hi : i = s.issued := Nat.le_antisymm hi (hn ▸ hle)
    subst hi
    exact .known rfl rfl rfl ⟨hhanded.order, hhanded.sender⟩ hw hc
  | .text n :: tasks, i, s, hserving, hhanded, hi, hw, hc, hdrop => by
    obtain ⟨hn, hlt, hrest⟩ := number_of_drop hserving.tasks hdrop
    have hn : n = i := hn
    subst hn
    exact process_ordered tasks (s := s.hand n (some c)) ⟨hserving.queue, hserving.confirm,
      hserving.qsender, hserving.sender, hserving.tasks⟩ hhanded.hand hlt hw hc hrest
  | .thread n :: tasks, i, s, hserving, hhanded, hi, hw, hc, hdrop => by
    obtain ⟨hn, hlt, -⟩ := number_of_drop hserving.tasks hdrop
    have hn : n = i := hn
    subst hn
    refine .woken (q := q) (c := c) (i := n) rfl ⟨hserving.queue, hserving.confirm,
      hserving.qsender, hserving.sender, hserving.tasks⟩ ⟨hhanded.order, hhanded.sender⟩ hlt ?_ hc
    change s.woken ++ [n] = [n]
    rw [hw]
    rfl

theorem tasks_append {task : Task} (htasks : q.tasks.map Task.number = List.range s.issued)
    (hn : task.number = s.issued) :
    (q.tasks ++ [task]).map Task.number = List.range (s.issued + 1) := by
  rw [List.map_append, htasks, List.range_succ, List.map_cons, hn]
  rfl

variable {task : Task}

theorem issue_of_sender (hsender : s.sender = some c) :
    s.issue task = { s with issued := s.issued + 1, handed := s.handed ++ [(task.number, some c)] } := by
  simp [State.issue, hsender, State.hand]

theorem issue_of_queue (hsender : s.sender = none) (hqueue : s.queue = some q) :
    s.issue task =
      { s with issued := s.issued + 1, queue := some { q with tasks := q.tasks ++ [task] } } := by
  simp [State.issue, State.insert, hsender, hqueue]

theorem issue_of_none (hsender : s.sender = none) (hqueue : s.queue = none) :
    s.issue task =
      { s with issued := s.issued + 1, queue := some { tasks := [task] }, stage := .forked } := by
  simp [State.issue, State.insert, hsender, hqueue]

/-- A call that is issued goes to the end of the queue, or straight to the sender. -/
theorem Ordered.issue (h : Ordered s) (hn : task.number = s.issued) : Ordered (s.issue task) := by
  cases h with
  | idle hstage hqueue hsender hissued hhanded hw hc =>
    rw [issue_of_none hsender hqueue]
    refine .asking (.inl rfl) rfl rfl rfl hsender ?_ hhanded hw hc
    simp [hissued, hn]
  | asking hstage hqueue hconfirm hqsender hsender htasks hhanded hw hc =>
    rw [issue_of_queue hsender hqueue]
    exact .asking hstage rfl hconfirm hqsender hsender (tasks_append htasks hn) hhanded hw hc
  | woken hstage hserving hhanded hi hw hc =>
    obtain ⟨hqueue, hconfirm, hqsender, hsender, htasks⟩ := hserving
    rw [issue_of_queue hsender hqueue]
    exact .woken hstage ⟨rfl, hconfirm, hqsender, hsender, tasks_append htasks hn⟩
      ⟨hhanded.order, hhanded.sender⟩ (Nat.lt_succ_of_lt hi) hw hc
  | confirmed hstage hserving hhanded hi hw hc =>
    obtain ⟨hqueue, hconfirm, hqsender, hsender, htasks⟩ := hserving
    rw [issue_of_queue hsender hqueue]
    exact .confirmed hstage ⟨rfl, hconfirm, hqsender, hsender, tasks_append htasks hn⟩
      ⟨hhanded.order, hhanded.sender⟩ (Nat.le_succ_of_le hi) hw hc
  | known hstage hqueue hsender hhanded hw hc =>
    rw [issue_of_sender hsender, hn]
    have hnext := hhanded.hand
    exact .known hstage hqueue hsender ⟨hnext.order, hnext.sender⟩ hw hc

theorem Ordered.reply (h : Ordered s) (hstage : s.stage = .calling) (c : Handle) :
    Ordered (s.reply c) := by
  cases h with
  | asking _ hqueue _ _ hsender htasks hhanded hw hc =>
    simp only [State.reply, hqueue]
    refine process_ordered _ ⟨rfl, rfl, rfl, hsender, htasks⟩ ⟨?_, ?_⟩ (Nat.zero_le _) hw hc rfl
    · simp [hhanded]
    · simp [hhanded]
  | idle h | woken h | confirmed h | known h => rw [h] at hstage; cases hstage

/-- The coroutine that was woken hands on the task it has queued, and wakes `request_sender`. -/
theorem Ordered.resume (h : Ordered s) {n : ℕ} (hn : n ∈ s.woken) : Ordered (s.resume n) := by
  cases h with
  | @woken q c _ hstage hserving hhanded hi hw hc =>
    have hn := List.mem_singleton.1 (hw ▸ hn)
    subst hn
    have hnext := hhanded.hand
    have hconfirmed : (s.resume n).confirmed = true := by
      simp [State.resume, hand, hserving.queue, hserving.confirm, hstage]
    have hhanded' : (s.resume n).handed = s.handed ++ [(n, some c)] := by
      simp [State.resume, hand, hserving.queue, hserving.qsender]
    refine .confirmed (q := q) (c := c) (i := n + 1) hstage ⟨hserving.queue, hserving.confirm,
      hserving.qsender, hserving.sender, hserving.tasks⟩ ⟨hhanded' ▸ hnext.order,
      hhanded' ▸ hnext.sender⟩ hi ?_ hconfirmed
    change s.woken.erase n = []
    simp [hw]
  | idle _ _ _ _ _ hw | asking _ _ _ _ _ _ _ hw | confirmed _ _ _ _ hw | known _ _ _ _ hw =>
    rw [hw] at hn
    cases hn

theorem Ordered.confirm (h : Ordered s) (hconfirmed : s.confirmed = true) : Ordered s.confirm := by
  cases h with
  | @confirmed q c i hstage hserving hhanded hi hw _ =>
    have heq : s.confirm = process (some c) i (q.tasks.drop i) { s with confirmed := false } := by
      unfold State.confirm
      rw [hstage, hserving.queue, ← hserving.qsender]
    rw [heq]
    exact process_ordered _ ⟨hserving.queue, hserving.confirm, hserving.qsender, hserving.sender,
      hserving.tasks⟩ ⟨hhanded.order, hhanded.sender⟩ hi hw rfl rfl
  | idle _ _ _ _ _ _ hc | asking _ _ _ _ _ _ _ _ hc | woken _ _ _ _ _ hc | known _ _ _ _ _ hc =>
    rw [hc] at hconfirmed
    cases hconfirmed

theorem Ordered.step (h : Ordered s) (hs : State.step s l = some s') : Ordered s' := by
  obtain ⟨henabled, rfl⟩ := step_eq_some.1 hs
  cases l with
  | send => exact h.issue rfl
  | call => exact h.issue rfl
  | requestSender =>
    cases h with
    | asking _ hqueue hconfirm hqsender hsender htasks hhanded hw hc =>
      exact .asking (.inr rfl) hqueue hconfirm hqsender hsender htasks hhanded hw hc
    | idle h | woken h | confirmed h | known h =>
      have henabled : s.stage = .forked := henabled
      rw [h] at henabled
      cases henabled
  | reply c => exact h.reply henabled c
  | resume n => exact h.resume henabled
  | confirm => exact h.confirm henabled

theorem Handed.sender_exists (h : Handed s c i) : ∃ c : Handle, ∀ p ∈ s.handed, p.2 = some c :=
  ⟨c, h.sender⟩

theorem Handed.range (h : Handed s c i) :
    s.handed.map Prod.fst = List.range s.handed.length := by rw [h.length, h.order]

theorem Ordered.inOrder (h : Ordered s) : s.InOrder := by
  cases h with
  | idle hstage hqueue _ hissued hhanded =>
    have hlength : s.handed.length = s.issued := by simp [hhanded, hissued]
    exact ⟨by simp [hhanded], Nat.le_of_eq hlength, ⟨0, by simp [hhanded]⟩, fun _ => ⟨hqueue, hlength⟩,
      fun _ => hlength⟩
  | asking hstage _ _ _ _ _ hhanded =>
    refine ⟨by simp [hhanded], by simp [hhanded], ⟨0, by simp [hhanded]⟩, fun hnone => ?_,
      fun hsettled => ?_⟩
    · rcases hstage with h | h <;> rw [hnone] at h <;> cases h
    · rcases hstage with h | h
      · rcases hsettled .requestSender h with h | h <;> cases h
      · rcases hsettled (.reply 0) h with h | h <;> cases h
  | woken hstage _ hhanded hi hw =>
    refine ⟨hhanded.range, Nat.le_trans (Nat.le_of_eq hhanded.length) (Nat.le_of_lt hi), hhanded.sender_exists, fun hnone => ?_,
      fun hsettled => ?_⟩
    · rw [hnone] at hstage
      cases hstage
    · rcases hsettled (.resume _) (by rw [Enabled, hw]; exact List.mem_singleton_self _) with h | h
        <;> cases h
  | confirmed hstage _ hhanded hi _ hc =>
    refine ⟨hhanded.range, Nat.le_trans (Nat.le_of_eq hhanded.length) hi, hhanded.sender_exists, fun hnone => ?_,
      fun hsettled => ?_⟩
    · rw [hnone] at hstage
      cases hstage
    · rcases hsettled .confirm hc with h | h <;> cases h
  | known hstage hqueue _ hhanded =>
    exact ⟨hhanded.range, Nat.le_of_eq hhanded.length, hhanded.sender_exists,
      fun _ => ⟨hqueue, hhanded.length⟩, fun _ => hhanded.length⟩

theorem ordered_reachable (h : Reachable step {} s) : Ordered s :=
  h.invariant (.idle rfl rfl rfl rfl rfl rfl rfl) fun _ _ _ _ hordered _ hs => hordered.step hs

end State

end ClusterTasks

end SkynetCpp
