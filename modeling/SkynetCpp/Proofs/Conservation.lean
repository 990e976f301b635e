import SkynetCpp.Proofs.Dispatcher

/-!
# What becomes of every message

Every message that passed the `accepting` check is in the mailbox, in the hands of a thread, handed
to `on_message` or drained, and no two of these (`Ledger`); an error goes out for every request
that is refused or drained. When nobody runs on the queue any more and no token of it is left, the
messages are therefore accounted for if the mailbox is empty, and it is if every step was
`DrainSafe` (`conserved_of_drainSafe`). It need not be otherwise: a message that is enqueued between
the end of a drain and the store of state 0 after it can be left behind (`lost_after_kill`).
-/

namespace SkynetCpp

open Lib Op

/-- In the hands of a thread on the way to the mailbox, or from it to `on_message`. -/
def Op.carries (m : Message) : Op → Bool
  | pushEnqueue m' | batchCount _ _ m' | batchMessage _ _ m' => m' = m
  | _ => false

/-- About to send the error `e` for a message just drained. -/
def Op.owes (e : Handle × Message) : Op → Bool
  | drainCount _ m => errorFor m = [e]
  | _ => false

/-- Where every message, and every error, is. -/
structure Ledger (q : ActorQueue) (n : Counts) : Prop where
  messages : ∀ m, q.accepted.count m = q.handed.count m + q.drained.count m
    + (q.mailbox.map Entry.msg).count m + n (carries m)
  errors : ∀ e, ((q.rejected ++ q.drained).flatMap errorFor).count e
    = q.errors.count e + n (owes e)

/-- The messages that were not handed to `on_message`. -/
def ActorQueue.notHanded (q : ActorQueue) : List Message := q.rejected ++ q.accepted.diff q.handed

/-- Every accepted message has been handed out or drained, once; no message is left if the actor
was killed; and one error has been sent for every request that was not handed out. -/
def Conserved (q : ActorQueue) : Prop :=
  q.accepted.Perm (q.handed ++ q.drained) ∧ (q.killed = true → q.mailbox = [])
    ∧ q.errors.Perm (q.notHanded.flatMap errorFor)

instance (q : ActorQueue) : Decidable (Conserved q) := by unfold Conserved; infer_instance

section Ledger

variable {q q' : ActorQueue} {n : Counts} {t tok : ℕ} {o : Op} {next : List Op}

theorem count_errorFor (m : Message) (e : Handle × Message) :
    (errorFor m).count e = (decide (errorFor m = [e])).toNat := by
  unfold errorFor
  split_ifs
  · by_cases h : (m.source, m.errorReply) = e <;> simp [h]
  · simp

theorem count_dequeue {i : ℕ} {m : Message} (h : q.canDequeue i = some m) (m' : Message) :
    (q.mailbox.map Entry.msg).count m'
      = ((q.mailbox.eraseIdx i).map Entry.msg).count m' + (decide (m = m')).toNat := by
  have hi : (q.mailbox.map Entry.msg)[i]? = some m := by
    unfold ActorQueue.canDequeue at h
    cases he : q.mailbox[i]? with
    | none => rw [he] at h; cases h
    | some e =>
      rw [he] at h
      simp only at h
      split_ifs at h
      rw [List.getElem?_map, he]
      exact h
  rw [← count_eraseIdx hi m', ← List.eraseIdx_map]
  by_cases hm : m = m' <;> simp [hm]

theorem Ledger.access (h : Ledger q (n.add [o])) (ha : o.Access q q' next tok) :
    Ledger q' (n.add next) := by
  obtain ⟨h1, h2⟩ := h
  constructor
  · intro m
    have h1 := h1 m
    clear h2
    cases ha <;> (try cases ‹SchedNext›) <;> (try cases ‹DrainSite›) <;>
      simp only [Counts.add_apply, countP_singleton, List.countP_nil, SchedNext.ops,
        DrainSite.afterDrain, DrainSite.afterStore, DrainSite.afterClear, carries,
        Bool.toNat_false, Nat.add_zero, List.count_cons, List.map_append, List.count_append] at h1 ⊢ <;>
      first | assumption | grind -ring -linarith [count_dequeue]
  · intro e
    have h2 := h2 e
    clear h1
    cases ha <;> (try cases ‹SchedNext›) <;> (try cases ‹DrainSite›) <;>
      simp only [Counts.add_apply, countP_singleton, List.countP_nil, SchedNext.ops,
        DrainSite.afterDrain, DrainSite.afterStore, DrainSite.afterClear, owes,
        Bool.toNat_false, Nat.add_zero, List.flatMap_append, List.flatMap_cons,
        List.count_append, count_errorFor] at h2 ⊢ <;>
      first | assumption | omega

theorem Ledger.enter (h : Ledger q n) (o : Op) (hc : ∀ m, o.carries m = false)
    (ho : ∀ e, o.owes e = false) : Ledger q (n.add [o]) where
  messages m := by simpa [hc m] using h.messages m
  errors e := by
    rw [h.errors e, Counts.add_apply, countP_singleton, ho e, Bool.toNat_false, Nat.add_zero]

theorem ledger_inductive : View.Inductive (fun _ _ _ => True) fun q n _ => Ledger q n where
  fresh h := by constructor <;> simp [carries, owes]
  access _ ha _ h := h.access ha
  push m h := h.enter _ (fun _ => rfl) fun _ => rfl
  kill _ h :=
    have h' := h.enter .killAccepting (fun _ => rfl) fun _ => rfl
    ⟨h'.messages, h'.errors⟩
  take h := h.enter _ (fun _ => rfl) fun _ => rfl

/-- With nobody on the queue and nothing in the mailbox, the ledger is settled. -/
theorem Ledger.conserved (h : Ledger q (.of [])) (hm : q.mailbox = []) : Conserved q := by
  have hall : q.accepted.Perm (q.handed ++ q.drained) := by
    rw [List.perm_iff_count]
    intro m
    have := h.messages m
    simp only [hm, List.map_nil, List.count_nil, Counts.of_apply, List.countP_nil] at this
    rw [List.count_append]
    omega
  have hnot : q.notHanded.Perm (q.rejected ++ q.drained) := by
    refine List.Perm.append_left _ ?_
    rw [List.perm_iff_count]
    intro m
    rw [List.count_diff, hall.count_eq, List.count_append]
    omega
  refine ⟨hall, fun _ => hm, ?_⟩
  rw [List.perm_iff_count]
  intro e
  have := h.errors e
  simp only [Counts.of_apply, List.countP_nil, Nat.add_zero] at this
  rw [(hnot.flatMap_right errorFor).count_eq, this]

/-- With nobody on the queue and no token left, nobody sees to the mailbox: it is empty. -/
theorem Attended.mailbox_nil (h : Attended q (.of []) 0) : q.mailbox = [] := by
  by_contra hm
  obtain ⟨hs, hw, hc⟩ := h
  have hqueued := hs.scheduled.queued
  have hbusy := hs.scheduled.busy
  have hcov := hc hm
  simp only [Counts.of_apply, List.countP_nil, Nat.lt_irrefl, or_false, false_and] at hcov hqueued hbusy
  rcases q.scheduleState.cases with h' | h' | h'
  · exact hcov h'
  · exact absurd (hqueued h') (by omega)
  · exact absurd (hbusy h') (by omega)

end Ledger

section Runs

variable {n m : ℕ} {s : State} {q : QId}

/-- No step on the queue is in progress, and no token of it is in the global queue. -/
def State.Quiet (s : State) (q : QId) : Prop := s.opsOn q = [] ∧ q ∉ s.globalQueue

theorem conserved_of_drainSafe (h : Reaches State.step (StepsOn q DrainSafe) (State.init n m) s)
    (hq : q < s.spawned) (hquiet : s.Quiet q) : Conserved (s.queues q) := by
  have hl := ledger_inductive.of_reachable h.reachable hq
  have ha := attended_inductive.of_reaches h hq
  rw [hquiet.1] at hl ha
  rw [List.count_eq_zero_of_not_mem hquiet.2] at ha
  exact hl.conserved ha.mailbox_nil

/-- `spawn`, and a `send` up to the enqueue of the token. -/
def spawnSend (tid : ℕ) (m : Message) : List State.Label :=
  [(tid, .call .spawn), (tid, .go), (tid, .go), (tid, .ret), (tid, .go), (tid, .go), (tid, .go),
    (tid, .call (.send 1 m)), (tid, .go), (tid, .go), (tid, .go), (tid, .go), (tid, .go),
    (tid, .go), (tid, .go), (tid, .go), (tid, .go)]

/-- A request. -/
def request (session : ℤ) : Message := { source := 7, session, type := PTYPE_LUA }

/-- `kill` drains two requests. -/
def killRun : List State.Label :=
  spawnSend 1 (request 1) ++
  ([(2, .call (.send 1 (request 2))), (2, .go), (2, .go), (2, .go), (2, .go), (2, .go), (2, .go),
    (2, .go), (2, .go),
    (1, .call (.kill 1)), (1, .go), (1, .go), (1, .go), (1, .go), (1, .go), (1, .go), (1, .go),
    (1, .pick 0), (1, .go), (1, .go), (1, .pick 0), (1, .go), (1, .go), (1, .go), (1, .go),
    (1, .go), (1, .ret), (1, .go), (1, .go), (0, .pick 0), (0, .go)] : List State.Label)

/-- The same with the second request enqueued after the last `try_dequeue` of the drain. -/
def lostRun : List State.Label :=
  spawnSend 1 (request 1) ++
  ([(2, .call (.send 1 (request 2))), (2, .go), (2, .go),
    (1, .call (.kill 1)), (1, .go), (1, .go), (1, .go), (1, .go), (1, .go), (1, .go), (1, .go),
    (1, .pick 0), (1, .go), (1, .go), (1, .go),
    (2, .go), (2, .go), (2, .go), (2, .go), (2, .go), (2, .go),
    (1, .go), (1, .go), (1, .ret), (1, .go), (1, .go), (0, .pick 0), (0, .go)] : List State.Label)

instance (s : State) (q : QId) : Decidable (s.Quiet q) := by unfold State.Quiet; infer_instance

theorem conserved_after_kill : ∃ s, Reaches State.step (StepsOn 0 DrainSafe) (State.init 1 2) s ∧
    s.Quiet 0 ∧ (s.queues 0).killed = true ∧ Conserved (s.queues 0) := by
  have hrun : (runIf State.step (StepsOn 0 DrainSafe) (State.init 1 2) killRun).isSome = true :=
    rfl
  have hquiet : (after State.step (State.init 1 2) killRun).Quiet 0 := by decide
  exact ⟨_, reaches_after hrun, hquiet, rfl,
    conserved_of_drainSafe (reaches_after hrun) (by decide) hquiet⟩

/-- The second request is never answered. -/
theorem lost_after_kill : ¬ ∀ n m s q, Reachable State.step (State.init n m) s → q < s.spawned →
    s.Quiet q → Conserved (s.queues q) := by
  intro h
  have hrun : (run State.step (State.init 1 2) lostRun).isSome = true := rfl
  have hnot : ¬ Conserved ((after State.step (State.init 1 2) lostRun).queues 0) := by
    decide
  exact hnot (h 1 2 _ 0 (reachable_after hrun) (by decide) (by decide))

end Runs

end SkynetCpp
