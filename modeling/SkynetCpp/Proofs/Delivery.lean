import SkynetCpp.Delivery
import SkynetCpp.Proofs.ViewSim

/-!
# The order of deliveries

What a mailbox gives back in order is what one thread put there. The worker that takes a message
out of the mailbox of a queue is the only one that does (`hot_alone`), so messages are handed over
as they are taken out: `y` after every `x` that came from the same thread before it, or that was
gone from the mailbox when `y` came (`delivery_order`).
-/

namespace SkynetCpp

open Lib Op

section Undrained

/-- Once something is drained, no worker takes a message out any more. -/
structure Undrained (q : ActorQueue) (n : Counts) (t : ℕ) : Prop where
  sound : Sound q n t
  drained : q.drained ≠ [] → q.releasing = true ∧ n hot = 0

/-- A thread that drains has the queue to itself. -/
theorem Sound.no_hot {q : ActorQueue} {n : Counts} {t : ℕ} {k : DrainSite}
    (h : Sound q (n.add [.drain k]) t) : n hot = 0 := by
  have hone := h.exclusive.one
  have hkill := h.exclusive.atKill
  have hfrom := h.released.fromKill
  have hfail := h.stages.not_initialized
  have hearly := fun hi => (h.scheduled.early hi).2.2.2
  have hdir := Bool.eq_false_or_eq_true q.direct
  simp only [Counts.add_apply, countP_singleton, hot, cool, dispatchRest, spawnFail, site,
    Bool.toNat_false, Nat.add_zero] at hone hkill hfrom hfail hearly
  cases k <;> simp at hone hkill hfrom hfail hearly <;> grind

theorem undrained_inductive : View.Inductive (fun _ _ _ => True) Undrained where
  fresh h := ⟨sound_inductive.fresh h, fun hd => absurd rfl hd⟩
  access hn ha hP h := by
    refine ⟨sound_inductive.access hn ha hP h.sound, ?_⟩
    have hdr := h.drained
    have hdrain := h.sound.released.draining
    cases ha
    case drain k i m hm =>
      intro _
      refine ⟨hdrain (by simp [drains]), ?_⟩
      simpa [hot] using h.sound.no_hot
    all_goals
      clear h
      simp only [Counts.add_apply, countP_singleton, hot, Bool.toNat_true, Bool.toNat_false,
        Nat.add_zero] at hdr
    all_goals
      first
      | exact hdr
      | (try cases ‹SchedNext›) <;> (try cases ‹DrainSite›) <;>
          simp only [Counts.add_apply, countP_singleton, List.countP_nil, SchedNext.ops,
            DrainSite.afterDrain, DrainSite.afterStore, DrainSite.afterClear, hot,
            Bool.toNat_true, Bool.toNat_false, Nat.add_zero] <;> grind
  push m h := ⟨sound_inductive.push m h.sound, by simpa [hot] using h.drained⟩
  kill hk h := ⟨sound_inductive.kill hk h.sound, by simpa [hot] using h.drained⟩
  take h := ⟨sound_inductive.take h.sound, by simpa [hot] using h.drained⟩

end Undrained

section Threads

variable {n m : ℕ} {s : State}

/-- Two threads with frames on top count twice. -/
theorem countP_frames {φ : Type} {ts : List (List φ)} {i j : ℕ} {f g : φ} {fs gs : List φ}
    (hi : ts[i]? = some (f :: fs)) (hj : ts[j]? = some (g :: gs)) (hij : i ≠ j) {p : φ → Bool}
    (hf : p f = true) (hg : p g = true) : 2 ≤ (frames ts).countP p := by
  obtain ⟨pre, post, h1, h2⟩ := frames_set hi
  have hj' : (ts.set i ([] ++ fs))[j]? = some (g :: gs) := by
    rw [List.getElem?_set_ne hij]
    exact hj
  obtain ⟨pre', post', h3, -⟩ := frames_set hj'
  have hcount := congrArg (List.countP p) ((h2 []).symm.trans h3)
  simp only [List.append_nil, List.countP_append, List.countP_cons, hg, if_true] at hcount
  rw [h1]
  simp only [List.countP_append, List.countP_cons, hf, if_true]
  omega

/-- Only one thread may take messages out of a mailbox to hand them over. -/
theorem hot_alone (h : Reachable State.step (State.init n m) s) {b : QId} {t t' : ℕ} {o o' : Op}
    {rest rest' : List Frame} (ht : s.threads[t]? = some (.op b o :: rest))
    (ht' : s.threads[t']? = some (.op b o' :: rest')) (ho : o.hot = true) (ho' : o'.hot = true) :
    t = t' := by
  by_contra hne
  have htwo := countP_frames ht ht' hne (p := fun f => ((f.opOn b).map hot).getD false)
    (by simpa [Frame.opOn] using ho) (by simpa [Frame.opOn] using ho')
  have hops : (s.opsOn b).countP hot
      = (frames s.threads).countP fun f => ((f.opOn b).map hot).getD false := by
    rw [State.opsOn, List.countP_filterMap]
  have hs := sound_of_reachable h ((reachable_views h).1.lt_of_mem (mem_opsOn_top ht))
  have hone := hs.exclusive.one
  have hkill := hs.exclusive.atKill
  simp only [Counts.of_apply, hops] at hone hkill
  cases hd : (s.queues b).direct
  · have := hone hd
    omega
  · have := hkill hd
    omega

/-- While a worker may take messages out, nothing is drained. -/
theorem drained_of_hot (h : Reachable State.step (State.init n m) s) {b : QId} {t : ℕ} {o : Op}
    {rest : List Frame} (ht : s.threads[t]? = some (.op b o :: rest)) (ho : o.hot = true) :
    (s.queues b).drained = [] := by
  have hmem := mem_opsOn_top ht
  have hu := undrained_inductive.of_reachable h ((reachable_views h).1.lt_of_mem hmem)
  by_contra hd
  have hz := (hu.drained hd).2
  rw [Counts.of_apply, List.countP_eq_zero] at hz
  exact hz o hmem ho

end Threads

/-- The message in hand at a point of the code. -/
def Op.inHand : Op → Option Message
  | .batchCount _ _ m | .batchMessage _ _ m => some m
  | _ => none

/-- The message of queue `b` in hand in a frame, and in the top frame of a thread. -/
def Frame.inHand (b : QId) : Frame → Option Message
  | .op q o => if q = b then o.inHand else none
  | _ => none

def State.inHand (s : State) (b : QId) (tid : ℕ) : Option Message :=
  (s.threads[tid]?.bind List.head?).bind (Frame.inHand b)

theorem inHand_op (b : QId) (o : Op) : Frame.inHand b (.op b o) = o.inHand := if_pos rfl

namespace Op

/-- These put a message in the mailbox, take one out or hand it over. -/
def moves : Op → Choice → Bool
  | pushEnqueue _, .go | batchDequeue _ _, .pick _ | drain _, .pick _ | batchMessage _ _ _, .go =>
    true
  | _, _ => false

theorem hot_of_inHand {o : Op} {m : Message} (h : o.inHand = some m) : o.hot = true := by
  cases o <;> first | rfl | cases h

/-- The other accesses leave the mailbox and the history. -/
theorem exec_keeps {tid : ℕ} {weight : ℤ} {q : ActorQueue} {o : Op} {c : Choice} {r : OpResult}
    (h : o.exec tid weight q c = some r) (hm : o.moves c = false) :
    r.queue.mailbox = q.mailbox ∧ r.queue.drained = q.drained ∧ r.queue.handed = q.handed
      ∧ ∀ L tid rest, QueueLog.record L tid rest o c = L := by
  cases o <;> cases c <;> simp only [exec, reduceCtorEq] at h
  case pushEnqueue.go | batchDequeue.pick | drain.pick | batchMessage.go => cases hm
  case dispatchState.go => cases hs : q.scheduleState <;> rw [hs] at h <;> cases h <;>
    exact ⟨rfl, rfl, rfl, fun _ _ _ => rfl⟩
  all_goals (try split_ifs at h) <;> cases h <;> exact ⟨rfl, rfl, rfl, fun _ _ _ => rfl⟩

/-- What is in hand stays in hand until it is handed over. -/
theorem access_inHand {q q' : ActorQueue} {o : Op} {next : List Op} {tok : ℕ}
    (h : o.Access q q' next tok) :
    (∀ o' ∈ next, o'.inHand = none)
      ∨ ∃ k b m, (o = batchDequeue k b ∧ next = [batchCount k b m])
        ∨ (o = batchCount k b m ∧ next = [batchMessage k b m]) := by
  cases h
  case batchDequeue k b i m hm => exact .inr ⟨k, b, m, .inl ⟨rfl, rfl⟩⟩
  case batchCount k b m => exact .inr ⟨k, b, m, .inr ⟨rfl, rfl⟩⟩
  all_goals
    (try cases ‹SchedNext›) <;> (try cases ‹DrainSite›) <;>
      exact .inl (by simp [SchedNext.ops, DrainSite.afterDrain, DrainSite.afterStore,
        DrainSite.afterClear, Op.inHand])

/-- Nothing is called between the mailbox and `on_message`. -/
theorem exec_inHand {tid : ℕ} {weight : ℤ} {q : ActorQueue} {o : Op} {c : Choice} {r : OpResult}
    (h : o.exec tid weight q c = some r) :
    (∀ o' ∈ r.next, o'.inHand = none)
      ∨ r.calls = [] ∧ ∃ k b m, (o = batchDequeue k b ∧ r.next = [batchCount k b m])
        ∨ (o = batchCount k b m ∧ r.next = [batchMessage k b m]) := by
  refine (access_inHand (exec_access h)).imp_right fun hr => ⟨?_, hr⟩
  rcases hr with ⟨k, b, m, ⟨rfl, -⟩ | ⟨rfl, -⟩⟩
  · cases c <;> simp only [exec, reduceCtorEq] at h
    · split_ifs at h
      cases h
      rfl
    · obtain ⟨m, -, rfl⟩ := Option.map_eq_some_iff.1 h
      rfl
  · cases c <;> simp only [exec, reduceCtorEq] at h
    cases h
    rfl

end Op

section Frames

variable {n m : ℕ} {s s' : State} {b : QId}

theorem inHand_calls (cs : List Call) : ∀ g ∈ cs.map Frame.call, g.inHand b = none := by
  intro g hg
  obtain ⟨c, -, rfl⟩ := List.mem_map.1 hg
  rfl

theorem execCall_inHand (s : State) (f : Call) : ∀ g ∈ (s.execCall f).2, g.inHand b = none := by
  cases f with
  | send dest m =>
    cases hd : s.registry dest with
    | none =>
      simp only [State.execCall, hd]
      exact inHand_calls _
    | some q => simp [State.execCall, hd, Frame.inHand, Op.inHand]
  | kill h => cases hd : s.registry h <;> simp [State.execCall, hd, Frame.inHand, Op.inHand]
  | spawn => simp [State.execCall, Frame.inHand, Op.inHand]
  | error source text =>
    simp only [State.execCall]
    split_ifs <;> simp [Frame.inHand]
  | registerName name h => simp [State.execCall]

/-- Only the first of the frames of a step can hold a message, and only that of a queue's code. -/
theorem exec_frames {tid : ℕ} {f : Frame} {c : Choice} {r : State × List Frame}
    (h : s.exec tid f c = some r) :
    (∀ g ∈ r.2, g.inHand b = none)
      ∨ ∃ k b' m o, f = .op b o ∧ (o = .batchDequeue k b' ∧ r.2 = [.op b (.batchCount k b' m)]
        ∨ o = .batchCount k b' m ∧ r.2 = [.op b (.batchMessage k b' m)]) := by
  cases f with
  | worker =>
    cases c <;> simp only [State.exec, reduceCtorEq] at h
    obtain ⟨q, -, rfl⟩ := Option.map_eq_some_iff.1 h
    exact .inl (by simp [Frame.inHand, Op.inHand])
  | call f =>
    cases c <;> simp only [State.exec, reduceCtorEq, Option.some.injEq] at h
    subst h
    exact .inl (execCall_inHand s f)
  | op q o =>
    simp only [State.exec] at h
    obtain ⟨x, hx, rfl⟩ := Option.map_eq_some_iff.1 h
    rcases Op.exec_inHand hx with hnone | ⟨hcalls, k, b', m, hnext⟩
    · left
      intro g hg
      rcases List.mem_append.1 hg with hg | hg
      · exact inHand_calls _ g hg
      · obtain ⟨o', ho', rfl⟩ := List.mem_map.1 hg
        simp [Frame.inHand, hnone o' ho']
    · by_cases hq : q = b
      · subst hq
        refine .inr ⟨k, b', m, o, rfl, ?_⟩
        rw [hcalls]
        rcases hnext with ⟨ho, hn⟩ | ⟨ho, hn⟩
        · exact .inl ⟨ho, by rw [hn]; rfl⟩
        · exact .inr ⟨ho, by rw [hn]; rfl⟩
      · left
        intro g hg
        rcases List.mem_append.1 hg with hg | hg
        · exact inHand_calls _ g hg
        · obtain ⟨o', -, rfl⟩ := List.mem_map.1 hg
          exact if_neg hq
  | external | killLogger h₀ | killLoggerCas h₀ | errorFind source text
  | errorStore source text h₀ =>
    cases c <;> simp only [State.exec, reduceCtorEq, Option.some.injEq] at h
    subst h
    left
    (try dsimp only)
    (try split_ifs) <;> simp [Frame.inHand]

/-- What is in hand is in the top frame of its thread. -/
def Buried (s : State) : Prop :=
  ∀ (tid : ℕ) (f : Frame) (rest : List Frame), s.threads[tid]? = some (f :: rest) →
    ∀ g ∈ rest, ∀ b, g.inHand b = none

theorem buried (h : Reachable State.step (State.init n m) s) : Buried s := by
  refine h.invariant ?_ ?_
  · intro tid f rest ht g hg
    have hmem := List.mem_of_getElem? ht
    simp only [State.init, List.mem_append, List.mem_replicate] at hmem
    rcases hmem with ⟨-, hmem⟩ | ⟨-, hmem⟩ <;>
    · obtain ⟨-, rfl⟩ := List.cons.inj hmem
      cases hg
  · intro s l s' _ hb _ hs tid f rest ht g hg b
    obtain ⟨f₀, rest₀, r, ht₀, hr, rfl, -⟩ := step_frames hs
    by_cases htid : tid = l.1
    · subst htid
      have hlt : l.1 < s.threads.length := (List.getElem?_eq_some_iff.1 ht₀).1
      have ht : (s.threads.set l.1 (r.2 ++ rest₀))[l.1]? = some (f :: rest) := ht
      rw [List.getElem?_set_self hlt, Option.some.injEq] at ht
      rcases exec_frames (b := b) hr with hnone | ⟨k, b', m, o, -, ⟨-, hr2⟩ | ⟨-, hr2⟩⟩
      · have hmem : g ∈ r.2 ++ rest₀ := by
          rw [ht]
          exact List.mem_cons_of_mem _ hg
        exact (List.mem_append.1 hmem).elim (hnone g) fun hg => hb _ _ _ ht₀ g hg b
      · rw [hr2] at ht
        obtain ⟨-, rfl⟩ := List.cons.inj ht
        exact hb _ _ _ ht₀ g hg b
      · rw [hr2] at ht
        obtain ⟨-, rfl⟩ := List.cons.inj ht
        exact hb _ _ _ ht₀ g hg b
    · have ht : (s.threads.set l.1 (r.2 ++ rest₀))[tid]? = some (f :: rest) := ht
      rw [List.getElem?_set_ne (Ne.symm htid)] at ht
      exact hb _ _ _ ht g hg b

end Frames

section Order

/-- `x` was put in the mailbox before `y`, and the mailbox cannot give `y` back first. -/
def Sent.Before (x y : Sent) : Prop :=
  x.serial < y.serial ∧ (x.producer = y.producer ∨ x.serial ∉ y.ahead)

/-- The history `L` of queue `b`. -/
structure Ordered (s : State) (b : QId) (L : QueueLog) : Prop where
  mailbox : L.waiting.map (fun x => ⟨x.producer, x.msg⟩) = (s.queues b).mailbox
  sorted : L.waiting.Pairwise fun x y => x.serial < y.serial ∧ x.serial ∈ y.ahead
  serial : ∀ x ∈ L.sent, x.serial < L.sent.length
  waiting : ∀ x ∈ L.waiting, x ∈ L.sent
  hand : ∀ t x, L.hand t = some x → x ∈ L.sent
  handed : ∀ x ∈ L.handed, x ∈ L.sent
  inHand : ∀ t, (L.hand t).map Sent.msg = s.inHand b t
  faithful : L.handed.map Sent.msg = (s.queues b).handed
  complete : ∀ x ∈ L.sent, x ∈ L.waiting ∨ (∃ t, L.hand t = some x) ∨ x ∈ L.handed
    ∨ (s.queues b).drained ≠ []
  next : ∀ t y, L.hand t = some y → ∀ x ∈ L.sent, x.Before y → x ∈ L.handed
  order : ∀ later y earlier, L.handed = later ++ y :: earlier → ∀ x ∈ L.sent, x.Before y →
    x ∈ earlier

variable {n m : ℕ} {s s' : State} {b : QId} {L : QueueLog} {tid : ℕ} {rest fs : List Frame}

theorem ordered_empty (hm : (s.queues b).mailbox = []) (hq : (s.queues b).handed = [])
    (hh : ∀ t, s.inHand b t = none) : Ordered s b {} := by
  refine ⟨hm.symm, .nil, ?_, ?_, ?_, ?_, fun t => (hh t).symm, hq.symm, ?_, ?_, ?_⟩
  · intro x hx
    cases hx
  · intro x hx
    cases hx
  · intro t x hx
    cases hx
  · intro x hx
    cases hx
  · intro x hx
    cases hx
  · intro t y hy
    cases hy
  · intro later y earlier h
    simp at h

/-- The history stays as it is where the mailbox and what is in hand do. -/
theorem Ordered.keep (h : Ordered s b L) (hm : (s'.queues b).mailbox = (s.queues b).mailbox)
    (hd : (s'.queues b).drained = (s.queues b).drained)
    (hq : (s'.queues b).handed = (s.queues b).handed)
    (hh : ∀ t, s'.inHand b t = s.inHand b t) : Ordered s' b L where
  mailbox := h.mailbox.trans hm.symm
  sorted := h.sorted
  serial := h.serial
  waiting := h.waiting
  hand := h.hand
  handed := h.handed
  inHand t := (h.inHand t).trans (hh t).symm
  faithful := h.faithful.trans hq.symm
  complete x hx := by
    rw [hd]
    exact h.complete x hx
  next := h.next
  order := h.order

/-- A message is put in the mailbox. -/
theorem Ordered.enqueue (h : Ordered s b L) {m : Message}
    (hm : (s'.queues b).mailbox = (s.queues b).mailbox ++ [⟨tid, m⟩])
    (hd : (s'.queues b).drained = (s.queues b).drained)
    (hq : (s'.queues b).handed = (s.queues b).handed)
    (hh : ∀ t, s'.inHand b t = s.inHand b t) :
    Ordered s' b (L.record tid rest (.pushEnqueue m) .go) := by
  have hold : ∀ {x y}, x ∈ L.enter tid rest m :: L.sent → y ∈ L.sent → x.Before y → x ∈ L.sent := by
    intro x y hx hy hxy
    rcases List.mem_cons.1 hx with rfl | hx
    · have hlt : L.sent.length < y.serial := hxy.1
      exact absurd (h.serial y hy) (by omega)
    · exact hx
  refine ⟨?_, ?_, ?_, ?_, ?_, ?_, fun t => (h.inHand t).trans (hh t).symm,
    h.faithful.trans hq.symm, ?_, ?_, ?_⟩
  · show (L.waiting ++ [L.enter tid rest m]).map _ = _
    rw [List.map_append, h.mailbox, hm]
    rfl
  · refine List.pairwise_append.2 ⟨h.sorted, List.pairwise_singleton _ _, fun x hx y hy => ?_⟩
    rw [List.mem_singleton.1 hy]
    exact ⟨h.serial x (h.waiting x hx), List.mem_map_of_mem hx⟩
  · intro x hx
    rcases List.mem_cons.1 hx with rfl | hx
    · exact Nat.lt_succ_self _
    · exact Nat.lt_succ_of_lt (h.serial x hx)
  · intro x hx
    rcases List.mem_append.1 hx with hx | hx
    · exact List.mem_cons_of_mem _ (h.waiting x hx)
    · exact List.mem_cons.2 (.inl (List.mem_singleton.1 hx))
  · exact fun t x hx => List.mem_cons_of_mem _ (h.hand t x hx)
  · exact fun x hx => List.mem_cons_of_mem _ (h.handed x hx)
  · intro x hx
    rw [hd]
    rcases List.mem_cons.1 hx with rfl | hx
    · exact .inl (List.mem_append.2 (.inr List.mem_cons_self))
    · exact (h.complete x hx).imp_left fun h => List.mem_append.2 (.inl h)
  · exact fun t y hy x hx hxy => h.next t y hy x (hold hx (h.hand t y hy) hxy) hxy
  · intro later y earlier heq x hx hxy
    have hy : y ∈ L.sent := h.handed y (by
      rw [show L.handed = later ++ y :: earlier from heq]
      exact List.mem_append.2 (.inr List.mem_cons_self))
    exact h.order later y earlier heq x (hold hx hy hxy) hxy

/-- What is taken out leaves the rest in order. -/
theorem Ordered.erase (h : Ordered s b L) (i : ℕ) :
    (L.waiting.eraseIdx i).map (fun x => (⟨x.producer, x.msg⟩ : Entry))
        = (s.queues b).mailbox.eraseIdx i
      ∧ (L.waiting.eraseIdx i).Pairwise (fun x y => x.serial < y.serial ∧ x.serial ∈ y.ahead)
      ∧ ∀ x ∈ L.waiting.eraseIdx i, x ∈ L.sent := by
  refine ⟨?_, h.sorted.sublist (List.eraseIdx_sublist _ _), fun x hx => ?_⟩
  · rw [← h.mailbox, List.eraseIdx_map]
  · exact h.waiting x (List.mem_of_mem_eraseIdx hx)

/-- A message is drained. -/
theorem Ordered.drain (h : Ordered s b L) {k : DrainSite} {i : ℕ}
    (hm : (s'.queues b).mailbox = (s.queues b).mailbox.eraseIdx i)
    (hd : (s'.queues b).drained ≠ [])
    (hq : (s'.queues b).handed = (s.queues b).handed)
    (hh : ∀ t, s'.inHand b t = s.inHand b t) :
    Ordered s' b (L.record tid rest (.drain k) (.pick i)) where
  mailbox := (h.erase i).1.trans hm.symm
  sorted := (h.erase i).2.1
  serial := h.serial
  waiting := (h.erase i).2.2
  hand := h.hand
  handed := h.handed
  inHand t := (h.inHand t).trans (hh t).symm
  faithful := h.faithful.trans hq.symm
  complete _ _ := .inr (.inr (.inr hd))
  next := h.next
  order := h.order

/-- What the mailbox gives back has nothing before it left there. -/
theorem Ordered.first (h : Ordered s b L) {i : ℕ} {m : Message}
    (hi : (s.queues b).canDequeue i = some m) :
    ∃ y, L.waiting[i]? = some y ∧ y.msg = m ∧ ∀ x ∈ L.waiting, ¬ x.Before y := by
  unfold ActorQueue.canDequeue at hi
  rw [← h.mailbox, List.getElem?_map] at hi
  rcases hy : L.waiting[i]? with _ | y <;> rw [hy] at hi
  · cases hi
  · simp only [Option.map_some] at hi
    split_ifs at hi with hany
    refine ⟨y, rfl, Option.some.inj hi, fun x hx hxy => ?_⟩
    obtain ⟨j, hj, hjx⟩ := List.mem_iff_getElem.1 hx
    obtain ⟨hi', hiy⟩ := List.getElem?_eq_some_iff.1 hy
    rcases Nat.lt_trichotomy j i with hlt | heq | hgt
    · have hpair := List.pairwise_iff_getElem.1 h.sorted j i hj hi' hlt
      rw [hjx, hiy] at hpair
      rcases hxy.2 with hp | ha
      · refine hany (List.any_eq_true.2 ⟨⟨x.producer, x.msg⟩, ?_, by simpa using hp⟩)
        rw [← List.map_take]
        refine List.mem_map.2 ⟨x, ?_, rfl⟩
        rw [List.mem_take_iff_getElem]
        exact ⟨j, by omega, hjx⟩
      · exact ha hpair.2
    · subst heq
      rw [hjx] at hiy
      rw [hiy] at hxy
      exact Nat.lt_irrefl _ hxy.1
    · have hpair := List.pairwise_iff_getElem.1 h.sorted i j hi' hj hgt
      rw [hjx, hiy] at hpair
      exact absurd hxy.1 (by omega)

/-- A message is taken out, by the one thread that may. -/
theorem Ordered.dequeue (h : Ordered s b L) {i c k : ℕ} {m : Message}
    (hi : (s.queues b).canDequeue i = some m)
    (hm : (s'.queues b).mailbox = (s.queues b).mailbox.eraseIdx i)
    (hd : (s'.queues b).drained = (s.queues b).drained) (hd0 : (s.queues b).drained = [])
    (hq : (s'.queues b).handed = (s.queues b).handed)
    (hnone : ∀ t, s.inHand b t = none) (hh : ∀ t, s'.inHand b t = if t = tid then some m else none) :
    Ordered s' b (L.record tid rest (.batchDequeue c k) (.pick i)) := by
  obtain ⟨y, hy, hym, hfirst⟩ := h.first hi
  have hempty : ∀ t, L.hand t = none := fun t => by
    have := h.inHand t
    rwa [hnone t, Option.map_eq_none_iff] at this
  have hmem : y ∈ L.waiting := List.mem_of_getElem? hy
  have hhand : ∀ {t x}, Function.update L.hand tid L.waiting[i]? t = some x → x = y := by
    intro t x hx
    by_cases ht : t = tid
    · rw [ht, Function.update_self, hy, Option.some.injEq] at hx
      exact hx.symm
    · rw [Function.update_of_ne ht, hempty] at hx
      cases hx
  refine ⟨(h.erase i).1.trans hm.symm, (h.erase i).2.1, h.serial, (h.erase i).2.2, ?_, h.handed,
    ?_, h.faithful.trans hq.symm, ?_, ?_, h.order⟩
  · intro t x hx
    rw [hhand hx]
    exact h.waiting y hmem
  · intro t
    show (Function.update L.hand tid L.waiting[i]? t).map Sent.msg = _
    rw [hh]
    by_cases ht : t = tid
    · rw [if_pos ht, ht, Function.update_self, hy, Option.map_some, hym]
    · rw [if_neg ht, Function.update_of_ne ht, hempty, Option.map_none]
  · intro x hx
    rw [hd, hd0]
    rcases h.complete x hx with hw | ⟨t, ht⟩ | hq | hdr
    · obtain ⟨j, hj, hjx⟩ := List.mem_iff_getElem.1 hw
      by_cases hji : j = i
      · refine .inr (.inl ⟨tid, ?_⟩)
        show Function.update L.hand tid L.waiting[i]? tid = some x
        rw [Function.update_self, ← hji, ← hjx]
        exact List.getElem?_eq_getElem hj
      · exact .inl (List.mem_eraseIdx_iff_getElem.2 ⟨j, hj, hji, hjx⟩)
    · rw [hempty] at ht
      cases ht
    · exact .inr (.inr (.inl hq))
    · exact absurd hd0 hdr
  · intro t z hz x hx hxz
    rw [hhand hz] at hxz
    rcases h.complete x hx with hw | ⟨t', ht'⟩ | hq | hdr
    · exact absurd hxz (hfirst x hw)
    · rw [hempty] at ht'
      cases ht'
    · exact hq
    · exact absurd hd0 hdr

/-- What is in hand is handed over. -/
theorem Ordered.handOver (h : Ordered s b L) {c k : ℕ} {m : Message}
    (hin : s.inHand b tid = some m)
    (hm : (s'.queues b).mailbox = (s.queues b).mailbox)
    (hd : (s'.queues b).drained = (s.queues b).drained)
    (hq : (s'.queues b).handed = m :: (s.queues b).handed)
    (hh : ∀ t, s'.inHand b t = if t = tid then none else s.inHand b t) :
    Ordered s' b (L.record tid rest (.batchMessage c k m) .go) := by
  obtain ⟨y, hy, hym⟩ := Option.map_eq_some_iff.1 ((h.inHand tid).trans hin)
  have hhand : ∀ {t x}, Function.update L.hand tid none t = some x → L.hand t = some x := by
    intro t x hx
    by_cases ht : t = tid
    · rw [ht, Function.update_self] at hx
      cases hx
    · rwa [Function.update_of_ne ht] at hx
  have hcons : (L.record tid rest (.batchMessage c k m) .go).handed = y :: L.handed := by
    show (L.hand tid).toList ++ L.handed = _
    rw [hy]
    rfl
  refine ⟨h.mailbox.trans hm.symm, h.sorted, h.serial, h.waiting, fun t x hx => ?_,
    fun x hx => ?_, fun t => ?_, ?_, fun x hx => ?_, fun t z hz x hx hxz => ?_,
    fun later z earlier heq x hx hxz => ?_⟩
  · exact h.hand t x (hhand hx)
  · rw [hcons] at hx
    rcases List.mem_cons.1 hx with rfl | hx
    · exact h.hand tid x hy
    · exact h.handed x hx
  · show (Function.update L.hand tid none t).map Sent.msg = _
    rw [hh]
    by_cases ht : t = tid
    · rw [if_pos ht, ht, Function.update_self, Option.map_none]
    · rw [if_neg ht, Function.update_of_ne ht, h.inHand]
  · rw [hcons, hq, List.map_cons, h.faithful, hym]
  · rw [hcons, hd]
    rcases h.complete x hx with hw | ⟨t, ht⟩ | hx | hdr
    · exact .inl hw
    · by_cases htid : t = tid
      · rw [htid, hy, Option.some.injEq] at ht
        exact .inr (.inr (.inl (List.mem_cons.2 (.inl ht.symm))))
      · refine .inr (.inl ⟨t, ?_⟩)
        show Function.update L.hand tid none t = some x
        rw [Function.update_of_ne htid, ht]
    · exact .inr (.inr (.inl (List.mem_cons_of_mem _ hx)))
    · exact .inr (.inr (.inr hdr))
  · rw [hcons]
    exact List.mem_cons_of_mem _ (h.next t z (hhand hz) x hx hxz)
  · rw [hcons] at heq
    rcases later with _ | ⟨w, later⟩
    · obtain ⟨rfl, rfl⟩ := List.cons.inj heq
      exact h.next tid y hy x hx hxz
    · obtain ⟨-, hrest⟩ := List.cons.inj heq
      exact h.order later z earlier hrest x hx hxz

end Order

section Runs

variable {n m : ℕ} {s s' : State} {b : QId} {tid : ℕ} {c : Choice} {f : Frame}
  {fs rest : List Frame} {r : State × List Frame}

theorem inHand_set_ne (hset : s'.threads = s.threads.set tid (fs ++ rest)) {t : ℕ} (ht : t ≠ tid) :
    s'.inHand b t = s.inHand b t := by
  unfold State.inHand
  rw [hset, List.getElem?_set_ne (Ne.symm ht)]

theorem inHand_set_self (hset : s'.threads = s.threads.set tid (fs ++ rest))
    (ht : s.threads[tid]? = some (f :: rest)) :
    s'.inHand b tid = (fs ++ rest).head?.bind (Frame.inHand b) := by
  unfold State.inHand
  rw [hset, List.getElem?_set_self (List.getElem?_eq_some_iff.1 ht).1]
  rfl

theorem inHand_top (ht : s.threads[tid]? = some (f :: rest)) : s.inHand b tid = f.inHand b := by
  unfold State.inHand
  rw [ht]
  rfl

/-- Nothing is in hand after a step whose frames hold nothing. -/
theorem inHand_none (hb : Buried s) (hset : s'.threads = s.threads.set tid (fs ++ rest))
    (ht : s.threads[tid]? = some (f :: rest)) (hfs : ∀ g ∈ fs, g.inHand b = none) :
    s'.inHand b tid = none := by
  rw [inHand_set_self hset ht]
  rcases hhead : (fs ++ rest).head? with _ | g
  · rfl
  · rcases List.mem_append.1 (List.mem_of_head? hhead) with hg | hg
    · exact hfs g hg
    · exact hb _ _ _ ht g hg b

theorem inHand_keep (hb : Buried s) (hset : s'.threads = s.threads.set tid (fs ++ rest))
    (ht : s.threads[tid]? = some (f :: rest)) (hf : f.inHand b = none)
    (hfs : ∀ g ∈ fs, g.inHand b = none) (t : ℕ) : s'.inHand b t = s.inHand b t := by
  by_cases htid : t = tid
  · rw [htid, inHand_none hb hset ht hfs, inHand_top ht, hf]
  · exact inHand_set_ne hset htid

/-- A step that neither runs on queue `b` nor makes it leaves its mailbox. -/
theorem exec_other (h : s.exec tid f c = some r) (hf : f.opOn b = none)
    (hb : b < s.spawned) :
    (r.1.queues b).mailbox = (s.queues b).mailbox ∧ (r.1.queues b).drained = (s.queues b).drained
      ∧ (r.1.queues b).handed = (s.queues b).handed := by
  cases f with
  | worker =>
    cases c <;> simp only [State.exec, reduceCtorEq] at h
    obtain ⟨q, -, rfl⟩ := Option.map_eq_some_iff.1 h
    exact ⟨rfl, rfl, rfl⟩
  | call f =>
    cases c <;> simp only [State.exec, reduceCtorEq, Option.some.injEq] at h
    subst h
    cases f with
    | send dest m => cases hd : s.registry dest <;> simp [State.execCall, hd]
    | kill h₀ =>
      cases hd : s.registry h₀ with
      | none => simp [State.execCall, hd]
      | some q =>
        simp only [State.execCall, hd]
        by_cases hq : b = q
        · subst hq
          rw [Function.update_self]
          exact ⟨rfl, rfl, rfl⟩
        · rw [Function.update_of_ne hq]
          exact ⟨rfl, rfl, rfl⟩
    | spawn =>
      simp only [State.execCall]
      rw [Function.update_of_ne (Nat.ne_of_lt hb)]
      exact ⟨rfl, rfl, rfl⟩
    | error source text => exact ⟨rfl, rfl, rfl⟩
    | registerName name h₀ => exact ⟨rfl, rfl, rfl⟩
  | op q o =>
    have hq : b ≠ q := by
      rintro rfl
      simp [Frame.opOn] at hf
    simp only [State.exec] at h
    obtain ⟨x, -, rfl⟩ := Option.map_eq_some_iff.1 h
    simp only [applyShared_queues]
    rw [Function.update_of_ne hq]
    exact ⟨rfl, rfl, rfl⟩
  | external | killLogger h₀ | killLoggerCas h₀ | errorFind source text
  | errorStore source text h₀ =>
    cases c <;> simp only [State.exec, reduceCtorEq, Option.some.injEq] at h
    subst h
    exact ⟨rfl, rfl, rfl⟩

/-- The steps of the system, with the history. -/
theorem logged_step {s s' : Logged} {l : State.Label} (h : s.step l = some s') :
    ∃ f rest r, s.state.threads[l.1]? = some (f :: rest) ∧ s.state.exec l.1 f l.2 = some r
      ∧ s.state.step l = some s'.state
      ∧ s'.state = { r.1 with threads := s.state.threads.set l.1 (r.2 ++ rest) }
      ∧ (∀ b, f.opOn b = none → s'.log b = s.log b)
      ∧ ∀ b o, f = .op b o → s'.log b = (s.log b).record l.1 rest o l.2 := by
  unfold Logged.step at h
  obtain ⟨st, hst, rfl⟩ := Option.map_eq_some_iff.1 h
  obtain ⟨f, rest, r, ht, hr, rfl, -⟩ := step_frames hst
  refine ⟨f, rest, r, ht, hr, ?_, ?_, fun b hf => ?_, fun b o hf => ?_⟩
  · rw [hst, ht]
    cases f <;> rfl
  · rw [ht]
    cases f <;> rfl
  · rw [ht]
    cases f with
    | op q o =>
      have hq : b ≠ q := by
        rintro rfl
        simp [Frame.opOn] at hf
      show Function.update s.log q _ b = s.log b
      rw [Function.update_of_ne hq]
    | _ => rfl
  · subst hf
    rw [ht]
    show Function.update s.log b _ b = _
    rw [Function.update_self]

theorem logged_reachable {s : Logged} (h : Reachable Logged.step (Logged.init n m) s) :
    Reachable State.step (State.init n m) s.state := by
  refine Reaches.map (f := Logged.state) (fun s l s' _ _ hs => .inr ⟨l, trivial, ?_⟩) h
  obtain ⟨f, rest, r, -, -, hst, -⟩ := logged_step hs
  exact hst

/-- What is in hand is at a point where messages are taken out. -/
theorem exists_hot {t : ℕ} {m : Message} (h : s.inHand b t = some m) :
    ∃ o rest, s.threads[t]? = some (.op b o :: rest) ∧ o.inHand = some m := by
  unfold State.inHand at h
  obtain ⟨g, hg, hgm⟩ := Option.bind_eq_some_iff.1 h
  obtain ⟨st, hst, hhead⟩ := Option.bind_eq_some_iff.1 hg
  rcases st with _ | ⟨g', rest⟩
  · cases hhead
  · cases hhead
    cases g with
    | op q o =>
      simp only [Frame.inHand] at hgm
      split_ifs at hgm with hq
      subst hq
      exact ⟨o, rest, hst, hgm⟩
    | _ => cases hgm

/-- A step of a queue's own code keeps its history in order. -/
theorem Ordered.op {L : QueueLog} {o : Op} {x : OpResult} {weight : ℤ}
    (hs : Reachable State.step (State.init n m) s) (h : Ordered s b L)
    (ht : s.threads[tid]? = some (.op b o :: rest))
    (hx : o.exec tid weight (s.queues b) c = some x)
    (hset : s'.threads
      = s.threads.set tid (x.calls.map .call ++ x.next.map (.op b) ++ rest))
    (hqueue : s'.queues b = x.queue) : Ordered s' b (L.record tid rest o c) := by
  have hbur := buried hs
  have hframes : (∀ o' ∈ x.next, o'.inHand = none) →
      ∀ g ∈ x.calls.map Frame.call ++ x.next.map (Frame.op b), g.inHand b = none := by
    intro hnext g hg
    rcases List.mem_append.1 hg with hg | hg
    · exact inHand_calls _ g hg
    · obtain ⟨o', ho', rfl⟩ := List.mem_map.1 hg
      simp [Frame.inHand, hnext o' ho']
  by_cases hmoves : o.moves c = true
  · cases o <;> cases c <;> simp only [Op.moves, Bool.false_eq_true] at hmoves
    case pushEnqueue.go msg =>
      cases hx
      refine h.enqueue (by rw [hqueue]) (by rw [hqueue]) (by rw [hqueue]) fun t => ?_
      exact inHand_keep hbur hset ht (inHand_op b _) (hframes (by simp [Op.inHand])) t
    case drain.pick k i =>
      obtain ⟨msg, hmsg, rfl⟩ := Option.map_eq_some_iff.1 hx
      refine h.drain (by rw [hqueue]) (by rw [hqueue]; simp) (by rw [hqueue]) fun t => ?_
      exact inHand_keep hbur hset ht (inHand_op b _) (hframes (by simp [Op.inHand])) t
    case batchDequeue.pick k k' i =>
      obtain ⟨msg, hmsg, rfl⟩ := Option.map_eq_some_iff.1 hx
      have hnone : ∀ t, s.inHand b t = none := by
        intro t
        by_contra hne
        obtain ⟨msg', hmsg'⟩ := Option.ne_none_iff_exists'.1 hne
        obtain ⟨o', rest', ht', ho'⟩ := exists_hot hmsg'
        have heq := hot_alone hs ht' ht (Op.hot_of_inHand ho') rfl
        rw [heq, ht, Option.some.injEq] at ht'
        cases ht'
        cases ho'
      refine h.dequeue hmsg (by rw [hqueue]) (by rw [hqueue]) (drained_of_hot hs ht rfl)
        (by rw [hqueue]) hnone fun t => ?_
      by_cases htid : t = tid
      · rw [if_pos htid, htid, inHand_set_self hset ht]
        exact inHand_op b _
      · rw [if_neg htid, inHand_set_ne hset htid, hnone]
    case batchMessage.go k k' msg =>
      cases hx
      refine h.handOver ((inHand_top ht).trans (inHand_op b _)) (by rw [hqueue]) (by rw [hqueue])
        (by rw [hqueue]) fun t => ?_
      by_cases htid : t = tid
      · rw [if_pos htid, htid]
        exact inHand_none hbur hset ht (hframes (by simp [Op.inHand]))
      · rw [if_neg htid, inHand_set_ne hset htid]
  · have hmoves : o.moves c = false := by simpa using hmoves
    obtain ⟨hm, hd, hh, hrec⟩ := Op.exec_keeps hx hmoves
    rw [hrec]
    refine h.keep (by rw [hqueue, hm]) (by rw [hqueue, hd]) (by rw [hqueue, hh]) ?_
    rcases Op.exec_inHand hx with hnone | ⟨hcalls, k, k', msg, hcase⟩
    · intro t
      by_cases ho : o.inHand = none
      · exact inHand_keep hbur hset ht ((inHand_op b _).trans ho) (hframes hnone) t
      · exfalso
        -- only the count is left to do with a message in hand
        cases o <;> first | exact ho rfl | skip
        all_goals cases c <;> simp only [Op.exec, reduceCtorEq] at hx
        · cases hx
          have := hnone _ List.mem_cons_self
          cases this
        · cases hmoves
    · intro t
      by_cases htid : t = tid
      · rcases hcase with ⟨rfl, hnext⟩ | ⟨rfl, hnext⟩
        · cases c <;> simp only [Op.exec, reduceCtorEq] at hx
          · split_ifs at hx
            cases hx
            cases hnext
          · cases hmoves
        · rw [htid, inHand_set_self hset ht, inHand_top ht, hcalls, hnext]
          exact (inHand_op b _).trans (inHand_op b _).symm
      · exact inHand_set_ne hset htid

/-- The history of every queue is in order, and there is none before the queue is made. -/
theorem ordered_reachable {s : Logged} (h : Reachable Logged.step (Logged.init n m) s) :
    (∀ b < s.state.spawned, Ordered s.state b (s.log b))
      ∧ ∀ b, s.state.spawned ≤ b → s.log b = {} := by
  refine h.invariant (I := fun s => (∀ b < s.state.spawned, Ordered s.state b (s.log b))
    ∧ ∀ b, s.state.spawned ≤ b → s.log b = {})
    ⟨fun b hb => absurd hb (Nat.not_lt_zero b), fun _ _ => rfl⟩ ?_
  rintro s l s' hreach ⟨hord, hnew⟩ - hstep
  have hs := logged_reachable hreach
  obtain ⟨f, rest, r, ht, hr, hst, hs', hother, hop⟩ := logged_step hstep
  have hreg := (reachable_views hs).1
  have hsp : s'.state.spawned = r.1.spawned := by rw [hs']
  have hset : s'.state.threads = s.state.threads.set l.1 (r.2 ++ rest) := by rw [hs']
  have hopOn : ∀ {b o}, f.opOn b = some o → f = .op b o := by
    intro b o hf
    cases f <;> simp only [Frame.opOn, reduceCtorEq] at hf
    split_ifs at hf with hq
    cases hf
    rw [hq]
  have hnotNew : ∀ {b}, s.state.spawned ≤ b → f.opOn b = none := by
    intro b hb
    rcases hf : f.opOn b with _ | o
    · rfl
    · have hmem : o ∈ s.state.opsOn b := mem_opsOn_top ((hopOn hf) ▸ ht)
      rw [(hreg.unused hb).1] at hmem
      cases hmem
  refine ⟨fun b hb => ?_, fun b hb => ?_⟩
  · by_cases hlt : b < s.state.spawned
    · rcases hf : f.opOn b with _ | o
      · rw [hother b hf]
        obtain ⟨hm, hd, hh⟩ := exec_other hr hf hlt
        have hfr : ∀ g ∈ r.2, g.inHand b = none := by
          rcases exec_frames (b := b) hr with hnone | ⟨k, k', msg, o, rfl, -⟩
          · exact hnone
          · simp [Frame.opOn] at hf
        have hfb : f.inHand b = none := by
          cases f <;> first | rfl | skip
          simp only [Frame.opOn] at hf
          split_ifs at hf with hq
          exact if_neg hq
        exact (hord b hlt).keep (by rw [hs', ← hm]) (by rw [hs', ← hd]) (by rw [hs', ← hh])
          (inHand_keep (buried hs) hset ht hfb hfr)
      · obtain rfl := hopOn hf
        rw [hop b o rfl]
        simp only [State.exec] at hr
        obtain ⟨x, hx, rfl⟩ := Option.map_eq_some_iff.1 hr
        refine (hord b hlt).op hs ht hx hset ?_
        rw [hs']
        show ((State.applyShared _ b x.shared).queues b) = x.queue
        rw [applyShared_queues]
        exact Function.update_self _ _ _
    · rcases exec_spawned hr with heq | ⟨rfl, rfl⟩
      · rw [hsp, heq] at hb
        exact absurd hb hlt
      · have hbs : b = s.state.spawned := by
          rw [hsp] at hb
          exact Nat.le_antisymm (Nat.lt_succ_iff.1 hb) (not_lt.1 hlt)
        have hqueue : s'.state.queues b = { handle := (s.state.spawned + 1) % 2 ^ 32 } := by
          rw [hs', hbs]
          exact Function.update_self _ _ _
        rw [hother b rfl, hnew b (not_lt.1 hlt)]
        refine ordered_empty (by rw [hqueue]) (by rw [hqueue]) fun t => ?_
        rw [inHand_keep (buried hs) hset ht rfl (execCall_inHand _ _)]
        by_contra hne
        obtain ⟨msg, hmsg⟩ := Option.ne_none_iff_exists'.1 hne
        obtain ⟨o, rest', ht', -⟩ := exists_hot hmsg
        have hmem := mem_opsOn_top ht'
        rw [(hreg.unused (not_lt.1 hlt)).1] at hmem
        cases hmem
  · have hle : s.state.spawned ≤ b := by
      rw [hsp] at hb
      rcases exec_spawned hr with heq | ⟨rfl, rfl⟩
      · rwa [heq] at hb
      · exact Nat.le_of_succ_le hb
    rw [hother b (hnotNew hle), hnew b hle]

/-- The history of what was handed over is that of the queue. -/
theorem log_handed {s : Logged} (h : Reachable Logged.step (Logged.init n m) s)
    (hb : b < s.state.spawned) :
    (s.log b).handed.map Sent.msg = (s.state.queues b).handed :=
  ((ordered_reachable h).1 b hb).faithful

/-- Of two messages of an actor to another, the first is seen first if the same thread sent both,
or if it had left the mailbox when the second came. -/
theorem delivery_order {s : Logged} (h : Reachable Logged.step (Logged.init n m) s) (a b : QId)
    (x y : Sent) (hxy : s.SentBefore a b x y) (hp : x.producer = y.producer ∨ x.serial ∉ y.ahead) :
    s.SeesBefore b x y := by
  obtain ⟨hord, hnew⟩ := ordered_reachable h
  rcases Nat.lt_or_ge b s.state.spawned with hb | hb
  · exact fun later earlier heq => (hord b hb).order later y earlier heq x hxy.sent.1 ⟨hxy.order, hp⟩
  · have hx := hxy.sent.1
    rw [hnew b hb] at hx
    cases hx

def gos (tid k : ℕ) : List State.Label := List.replicate k (tid, .go)

/-- Thread `tid` spawns an actor. -/
def spawnBy (tid : ℕ) : List State.Label :=
  (tid, .call .spawn) :: gos tid 2 ++ (tid, .ret) :: gos tid 3

/-- The code of thread `tid` calls `send`, and runs `k` steps of it. -/
def sendBy (tid dest : ℕ) (m : Message) (k : ℕ) : List State.Label :=
  (tid, .call (.send dest m)) :: gos tid k

/-- Worker `tid` takes a token and message `i` of its queue. -/
def handBy (tid token i : ℕ) : List State.Label :=
  (tid, .pick token) :: gos tid 9 ++ (tid, .pick i) :: gos tid 2

def letter (session : ℤ) : Message := { source := 1, session, type := PTYPE_LUA }

/-- Two actors, of which the first sends a letter on worker 0 and one on worker 1. -/
def lettersRun : List State.Label :=
  spawnBy 2 ++ spawnBy 2 ++ sendBy 2 1 { session := 0, type := PTYPE_LUA } 9 ++ handBy 0 0 0
    ++ sendBy 0 2 (letter 1) 9 ++ (0, .ret) :: gos 0 11
    ++ sendBy 2 1 { session := 0, type := PTYPE_LUA } 9 ++ handBy 1 1 0 ++ sendBy 1 2 (letter 2) 8

/-- Two letters sent by the first actor on one worker, and both handed to the second. -/
def sameWorkerRun : List State.Label :=
  spawnBy 2 ++ spawnBy 2 ++ sendBy 2 1 { session := 0, type := PTYPE_LUA } 9 ++ handBy 0 0 0
    ++ sendBy 0 2 (letter 1) 9 ++ sendBy 0 2 (letter 2) 8 ++ handBy 1 0 0
    ++ (1, .ret) :: gos 1 2 ++ (1, .pick 0) :: gos 1 2

theorem delivery_order_letters : ∃ s, Reachable Logged.step (Logged.init 2 1) s ∧
    (s.state.queues 1).handed = [letter 2, letter 1] ∧
    s.SeesBefore 1 ⟨0, some 0, 0, letter 1, []⟩ ⟨1, some 0, 0, letter 2, [0]⟩ := by
  have hrun : (run Logged.step (Logged.init 2 1) sameWorkerRun).isSome = true := by decide
  exact ⟨_, reachable_after hrun, by decide, delivery_order (reachable_after hrun) 0 1 _ _
    ⟨by decide, by decide, by decide⟩ (by decide)⟩

/-- The mailbox gives the second letter back first. -/
theorem letters_overtake : ¬ ∀ n m s a b x y, Reachable Logged.step (Logged.init n m) s →
    s.SentBefore a b x y → s.SeesBefore b x y := by
  intro h
  have hrun : (run Logged.step (Logged.init 2 1) (lettersRun ++ handBy 0 0 1)).isSome = true := by
    decide
  have := h 2 1 _ 0 1 ⟨0, some 0, 0, letter 1, []⟩ ⟨1, some 0, 1, letter 2, [0]⟩
    (reachable_after hrun) ⟨by decide, by decide, by decide⟩ [] [] (by decide)
  cases this

end Runs

end SkynetCpp
