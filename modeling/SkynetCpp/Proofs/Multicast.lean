import SkynetCpp.Multicast

/-!
# Multicast delivery

The tables of multicastd say what channels there are and who has subscribed (`Tables`). A service
that is sent a payload has its channel's entry by the time it takes it: what the replies before it
have made of `multicast_dispatchers` is what multicastd knew (`mem_handlers`), since both go by the
same order.
-/

namespace SkynetCpp

namespace Multicast

open Lib

variable {α : Type} {past : List (Event α)} {a b : Handle} {channel id session : ℕ} {payload : α}

section Past

variable {there : ℕ → List (Event α) → Prop} {e : Event α}

theorem live_cons : Live channel (e :: past) ↔
    IsNew e ∧ channel = past.countP IsNew + 1 ∨ ¬ Deletes channel e ∧ Live channel past :=
  since_cons

theorem subscribed_cons : Subscribed there a channel (e :: past) ↔
    ((∃ session, e = (a, .call session (.subscribe channel))) ∧ there channel past)
      ∨ ¬ Leaves a channel e ∧ Subscribed there a channel past :=
  since_cons

theorem mem_sent (h : Subscribed there a channel past) :
    .multicast channel payload ∈ sent there a ((b, .pub channel payload) :: past) := by
  rw [sent]
  simp only [sentFor]
  rw [if_pos h]
  exact List.mem_append_right _ (List.mem_singleton_self _)

theorem le_of_live (h : Live channel past) : channel ≤ past.countP IsNew := by
  induction past with
  | nil => exact absurd h not_since_nil
  | cons e past ih =>
    rw [List.countP_cons]
    rcases live_cons.1 h with ⟨hnew, rfl⟩ | ⟨-, h⟩
    · simp [hnew]
    · exact (ih h).trans (Nat.le_add_right _ _)

theorem live_of_subscribed (h : Subscribed Live a channel past) : Live channel past := by
  refine h.trans (fun e he hdel => he (.inr hdel)) ?_
  rintro e before ⟨⟨session, rfl⟩, hlive⟩
  refine ⟨?_, hlive⟩
  rintro ⟨_, h⟩
  cases h

end Past

namespace State

variable {s : State α}

/-- The tables of multicastd are what it has processed makes them. -/
structure Tables (s : State α) (past : List (Event α)) : Prop where
  live : ∀ channel, (s.channels.lookup channel).isSome ↔ Live channel past
  subscribers : ∀ channel subscribers, s.channels.lookup channel = some subscribers →
    ∀ a, a ∈ subscribers ↔ Subscribed Live a channel past
  channelId : s.channelId = past.countP IsNew
  handed : ∀ id ∈ s.handed, id ≤ s.channelId
  nodup : s.handed.Nodup

namespace Tables

theorem init : Tables ({} : State α) [] := by
  refine ⟨fun channel => ?_, fun channel subscribers h => ?_, rfl, nofun, List.nodup_nil⟩
  · rw [AList.lookup_empty]
    exact iff_of_false nofun not_since_nil
  · rw [AList.lookup_empty] at h
    cases h

theorem subscribed_iff (h : Tables s past) : Subscribed Live a channel past ↔
    ∃ subscribers ∈ s.channels.lookup channel, a ∈ subscribers := by
  constructor
  · intro hsub
    obtain ⟨subscribers, hlookup⟩ :=
      Option.isSome_iff_exists.1 ((h.live channel).2 (live_of_subscribed hsub))
    exact ⟨subscribers, hlookup, (h.subscribers channel subscribers hlookup a).2 hsub⟩
  · rintro ⟨subscribers, hlookup, hmem⟩
    exact (h.subscribers channel subscribers hlookup a).1 hmem

/-- Only the tables matter. -/
theorem congr {s' : State α} (h : Tables s past) (hchannels : s'.channels = s.channels)
    (hid : s'.channelId = s.channelId) (hhanded : s'.handed = s.handed) : Tables s' past := by
  refine ⟨?_, ?_, hid.trans h.channelId, ?_, hhanded ▸ h.nodup⟩
  · rw [hchannels]
    exact h.live
  · rw [hchannels]
    exact h.subscribers
  · rw [hhanded, hid]
    exact h.handed

theorem new (h : Tables s past) :
    Tables (s.new a session) ((a, .call session .new) :: past) := by
  have hlive (channel : ℕ) : Live channel ((a, .call session .new) :: past) ↔
      channel = s.channelId + 1 ∨ Live channel past := by
    rw [live_cons, h.channelId]
    simp [IsNew, Deletes]
  have hsub (b : Handle) (channel : ℕ) :
      Subscribed Live b channel ((a, .call session .new) :: past) ↔
        Subscribed Live b channel past := by
    rw [subscribed_cons]
    simp [Leaves, Deletes]
  refine ⟨fun channel => ?_, fun channel subscribers hlookup b => ?_, ?_, fun id hid => ?_, ?_⟩
  · rw [hlive, ← h.live]
    by_cases hchannel : channel = s.channelId + 1
    · subst hchannel
      simp [State.new, ret, set, AList.lookup_insert]
    · simp [State.new, ret, set, AList.lookup_insert_ne hchannel, hchannel]
  · rw [hsub]
    by_cases hchannel : channel = s.channelId + 1
    · subst hchannel
      have hnew : (s.new a session).channels.lookup (s.channelId + 1) = some ∅ :=
        AList.lookup_insert _
      obtain rfl : ∅ = subscribers := Option.some.inj (hnew.symm.trans hlookup)
      refine iff_of_false (Finset.notMem_empty b) fun hb => ?_
      have hle := le_of_live (live_of_subscribed hb)
      have hid := h.channelId
      omega
    · exact h.subscribers channel subscribers
        ((AList.lookup_insert_ne hchannel).symm.trans hlookup) b
  · rw [List.countP_cons, ← h.channelId]
    rfl
  · rcases List.mem_append.1 hid with hid | hid
    · exact (h.handed id hid).trans (Nat.le_succ _)
    · exact (List.mem_singleton.1 hid).le
  · have hfresh : s.channelId + 1 ∉ s.handed := fun hmem =>
      absurd (h.handed _ hmem) (Nat.not_succ_le_self _)
    rw [show (s.new a session).handed = s.handed.concat (s.channelId + 1) from
      List.concat_eq_append.symm]
    exact h.nodup.concat hfresh

theorem del (h : Tables s past) :
    Tables (s.del a session id) ((a, .call session (.delete id)) :: past) := by
  have hlive (channel : ℕ) : Live channel ((a, .call session (.delete id)) :: past) ↔
      channel ≠ id ∧ Live channel past := by
    rw [live_cons]
    simp [IsNew, Deletes, eq_comm]
  have hsub (b : Handle) (channel : ℕ) :
      Subscribed Live b channel ((a, .call session (.delete id)) :: past) ↔
        channel ≠ id ∧ Subscribed Live b channel past := by
    rw [subscribed_cons]
    simp [Leaves, Deletes, eq_comm]
  refine ⟨fun channel => ?_, fun channel subscribers hlookup b => ?_, h.channelId, h.handed,
    h.nodup⟩
  · rw [hlive, ← h.live]
    by_cases hchannel : channel = id
    · subst hchannel
      simp [State.del, ret, set, AList.lookup_erase]
    · simp [State.del, ret, set, AList.lookup_erase_ne hchannel, hchannel]
  · rw [hsub]
    by_cases hchannel : channel = id
    · subst hchannel
      cases (AList.lookup_erase _ _).symm.trans hlookup
    · rw [and_iff_right hchannel]
      exact h.subscribers channel subscribers
        ((AList.lookup_erase_ne hchannel).symm.trans hlookup) b

/-- A change of the subscribers of one channel, if it is there. -/
theorem change (h : Tables s past) {e : Event α} {f : Finset Handle → Finset Handle}
    (hnew : IsNew e = false) (hlive : ∀ channel, Live channel (e :: past) ↔ Live channel past)
    (hother : ∀ b channel, channel ≠ id →
      (Subscribed Live b channel (e :: past) ↔ Subscribed Live b channel past))
    (hf : ∀ subscribers, Live id past → (∀ b, b ∈ subscribers ↔ Subscribed Live b id past) →
      ∀ b, b ∈ f subscribers ↔ Subscribed Live b id (e :: past)) :
    Tables (s.change f a session id) (e :: past) := by
  have hid : s.channelId = (e :: past).countP IsNew := by
    rw [List.countP_cons, hnew]
    exact h.channelId
  unfold State.change
  split
  · next subscribers hlookup =>
    refine ⟨fun channel => ?_, fun channel subscribers' hlookup' b => ?_, hid, h.handed, h.nodup⟩
    · rw [hlive, ← h.live]
      by_cases hchannel : channel = id
      · subst hchannel
        simp [ret, set, AList.lookup_insert, hlookup]
      · simp [ret, set, AList.lookup_insert_ne hchannel]
    · change (s.channels.insert id (f subscribers)).lookup channel = _ at hlookup'
      by_cases hchannel : channel = id
      · subst hchannel
        obtain rfl := Option.some.inj ((AList.lookup_insert _).symm.trans hlookup')
        exact hf subscribers ((h.live channel).1 (by rw [hlookup]; rfl))
          (h.subscribers channel subscribers hlookup) b
      · rw [AList.lookup_insert_ne hchannel] at hlookup'
        exact (h.subscribers channel subscribers' hlookup' b).trans (hother b channel hchannel).symm
  · next hlookup =>
    refine ⟨fun channel => (h.live channel).trans (hlive channel).symm,
      fun channel subscribers' hlookup' b => ?_, hid, h.handed, h.nodup⟩
    change s.channels.lookup channel = _ at hlookup'
    have hchannel : channel ≠ id := by
      rintro rfl
      cases hlookup.symm.trans hlookup'
    exact (h.subscribers channel subscribers' hlookup' b).trans (hother b channel hchannel).symm

theorem sub (h : Tables s past) :
    Tables (s.sub a session id) ((a, .call session (.subscribe id)) :: past) := by
  have hsub (b : Handle) (channel : ℕ) :
      Subscribed Live b channel ((a, .call session (.subscribe id)) :: past) ↔
        (b = a ∧ channel = id) ∧ Live channel past ∨ Subscribed Live b channel past := by
    rw [subscribed_cons]
    simp [Leaves, Deletes, eq_comm]
  refine h.change rfl (fun channel => ?_) (fun b channel hchannel => ?_)
    fun subscribers hid hmem b => ?_
  · rw [live_cons]
    simp [IsNew, Deletes]
  · rw [hsub]
    simp [hchannel]
  · rw [hsub, Finset.mem_insert, hmem]
    simp [hid]

theorem usub (h : Tables s past) :
    Tables (s.usub a session id) ((a, .call session (.unsubscribe id)) :: past) := by
  have hsub (b : Handle) (channel : ℕ) :
      Subscribed Live b channel ((a, .call session (.unsubscribe id)) :: past) ↔
        ¬ (b = a ∧ channel = id) ∧ Subscribed Live b channel past := by
    rw [subscribed_cons]
    simp [Leaves, Deletes, eq_comm]
  refine h.change rfl (fun channel => ?_) (fun b channel hchannel => ?_)
    fun subscribers _ hmem b => ?_
  · rw [live_cons]
    simp [IsNew, Deletes]
  · rw [hsub]
    simp [hchannel]
  · rw [hsub, Finset.mem_erase, hmem]
    simp

theorem pub (h : Tables s past) : Tables (s.pub id payload) ((a, .pub id payload) :: past) := by
  have hlive (channel : ℕ) : Live channel ((a, .pub id payload) :: past) ↔ Live channel past := by
    rw [live_cons]
    simp [IsNew, Deletes]
  have hsub (b : Handle) (channel : ℕ) :
      Subscribed Live b channel ((a, .pub id payload) :: past) ↔
        Subscribed Live b channel past := by
    rw [subscribed_cons]
    simp [Leaves, Deletes]
  have hsame : Tables s ((a, .pub id payload) :: past) :=
    ⟨fun channel => (h.live channel).trans (hlive channel).symm,
      fun channel subscribers hlookup b =>
        (h.subscribers channel subscribers hlookup b).trans (hsub b channel).symm,
      h.channelId, h.handed, h.nodup⟩
  unfold State.pub
  split
  · exact hsame.congr rfl rfl rfl
  · exact hsame

theorem cmd (h : Tables s past) (r : Request α) : Tables (s.cmd a r) ((a, r) :: past) := by
  cases r with
  | pub id payload => exact h.pub
  | call session c =>
    cases c with
    | new => exact h.new
    | delete id => exact h.del
    | subscribe id => exact h.sub
    | unsubscribe id => exact h.usub

end Tables

end State

section Items

/-- A message to a service, with the call whose reply it is; a payload has none, and changes the
dispatchers as little as the reply to `NEW`. -/
abbrev Item (α : Type) := Message α × Call

open Classical in
noncomputable def itemsFor (a : Handle) (past : List (Event α)) : Event α → List (Item α)
  | (b, .call session c) => if b = a then [(.response session (c.value past), c)] else []
  | (_, .pub channel payload) =>
    if Subscribed Live a channel past then [(.multicast channel payload, .new)] else []

noncomputable def items (a : Handle) : List (Event α) → List (Item α)
  | [] => []
  | e :: past => items a past ++ itemsFor a past e

theorem map_itemsFor (e : Event α) : (itemsFor a past e).map Prod.fst = sentFor Live a past e := by
  obtain ⟨b, ⟨session, c⟩ | ⟨channel, payload⟩⟩ := e <;> simp only [itemsFor, sentFor] <;>
    split_ifs <;> rfl

theorem map_items : (items a past).map Prod.fst = sent Live a past := by
  induction past with
  | nil => rfl
  | cons e past ih => rw [items, sent, List.map_append, ih, map_itemsFor]

/-- What the messages make of the dispatchers. -/
def handlers (l : List (Item α)) : Finset ℕ :=
  l.foldl (fun dispatchers i => i.2.switch dispatchers) ∅

theorem handlers_append_singleton (l : List (Item α)) (i : Item α) :
    handlers (l ++ [i]) = i.2.switch (handlers l) := by
  simp [handlers]

/-- A service that has subscribed has an entry, once it has taken all that it was sent before. -/
theorem mem_handlers (h : Subscribed Live a channel past) : channel ∈ handlers (items a past) := by
  induction past with
  | nil => exact absurd h not_since_nil
  | cons e past ih =>
    rw [items]
    rcases subscribed_cons.1 h with ⟨⟨session, rfl⟩, -⟩ | ⟨hleaves, hsub⟩
    · rw [itemsFor, if_pos rfl, handlers_append_singleton]
      exact Finset.mem_insert_self _ _
    · obtain ⟨b, ⟨session, c⟩ | ⟨id, payload⟩⟩ := e
      · simp only [itemsFor]
        split_ifs with hb
        · subst hb
          rw [handlers_append_singleton]
          cases c with
          | new => exact ih hsub
          | subscribe id => exact Finset.mem_insert_of_mem (ih hsub)
          | unsubscribe id =>
            refine Finset.mem_erase.2 ⟨?_, ih hsub⟩
            rintro rfl
            exact hleaves (.inl ⟨session, rfl⟩)
          | delete id =>
            refine Finset.mem_erase.2 ⟨?_, ih hsub⟩
            rintro rfl
            exact hleaves (.inr ⟨session, rfl⟩)
        · rw [List.append_nil]
          exact ih hsub
      · simp only [itemsFor]
        split_ifs
        · rw [handlers_append_singleton]
          exact ih hsub
        · rw [List.append_nil]
          exact ih hsub

/-- A payload finds the entry of its channel. -/
theorem handled {done todo : List (Item α)} {c : Call}
    (h : items a past = done ++ (.multicast channel payload, c) :: todo) :
    channel ∈ handlers done ∧ c = .new := by
  induction past generalizing todo with
  | nil => cases done <;> cases h
  | cons e past ih =>
    have hnil (hnil : itemsFor a past e = []) : channel ∈ handlers done ∧ c = .new := by
      rw [items, hnil, List.append_nil] at h
      exact ih h
    have hone {i : Item α} (hone : itemsFor a past e = [i])
        (hi : ∀ channel payload c, i = (.multicast channel payload, c) →
          Subscribed Live a channel past ∧ c = .new) : channel ∈ handlers done ∧ c = .new := by
      rw [items, hone] at h
      rcases List.eq_nil_or_concat todo with rfl | ⟨todo, i', rfl⟩
      · obtain ⟨rfl, hi'⟩ := List.append_inj' h rfl
        obtain ⟨hsub, rfl⟩ := hi _ _ _ (List.singleton_inj.1 hi')
        exact ⟨mem_handlers hsub, rfl⟩
      · rw [List.concat_eq_append, ← List.cons_append, ← List.append_assoc] at h
        exact ih (List.append_inj' h rfl).1
    obtain ⟨b, ⟨session, c'⟩ | ⟨id, payload'⟩⟩ := e
    · by_cases hb : b = a
      · refine hone (if_pos hb) fun _ _ _ heq => ?_
        cases heq
      · exact hnil (if_neg hb)
    · by_cases hsub : Subscribed Live a id past
      · refine hone (if_pos hsub) fun _ _ _ heq => ?_
        cases heq
        exact ⟨hsub, rfl⟩
      · exact hnil (if_neg hsub)

end Items

section Service

def replyOf : Item α → Option (ℕ × Call)
  | (.response session _, c) => some (session, c)
  | (.multicast _ _, _) => none

def callOf : Request α → Option (ℕ × Call)
  | .call session c => some (session, c)
  | .pub _ _ => none

/-- The calls whose replies are to come, in their order. -/
def calls (todo : List (Item α)) (outbox : List (Request α)) : List (ℕ × Call) :=
  todo.filterMap replyOf ++ outbox.filterMap callOf

/-- The service has taken the messages `done`, and `todo` are to come. -/
structure Follows (v : Service α) (done todo : List (Item α)) : Prop where
  taken : v.taken = done.map Prod.fst
  inbox : v.inbox = todo.map Prod.fst
  passed : v.passed = v.taken.filterMap Message.copy
  dispatchers : v.dispatchers = handlers done
  nodup : ((calls todo v.outbox).map Prod.fst).Nodup
  waiting : ∀ p ∈ calls todo v.outbox, v.waiting.lookup p.1 = some p.2 ∧ p.1 < v.nextSession

variable {v : Service α} {done todo : List (Item α)} {outbox : List (Request α)} {c : Call}

namespace Follows

theorem init : Follows ({} : Service α) [] [] :=
  ⟨rfl, rfl, rfl, rfl, List.nodup_nil, fun _ h => absurd h List.not_mem_nil⟩

theorem call (h : Follows v done todo) (c : Call) : Follows (v.call c) done todo := by
  have hcalls : calls todo (v.call c).outbox = (calls todo v.outbox).concat (v.nextSession, c) := by
    simp [calls, Service.call, callOf, List.filterMap_append]
  refine ⟨h.taken, h.inbox, h.passed, h.dispatchers, ?_, fun p hp => ?_⟩
  · rw [hcalls, List.map_concat]
    refine h.nodup.concat fun hmem => ?_
    obtain ⟨p, hp, heq⟩ := List.mem_map.1 hmem
    exact absurd (h.waiting p hp).2 (heq ▸ lt_irrefl _)
  · rw [hcalls, List.concat_eq_append, List.mem_append, List.mem_singleton] at hp
    rcases hp with hp | rfl
    · obtain ⟨hlookup, hlt⟩ := h.waiting p hp
      exact ⟨(AList.lookup_insert_ne hlt.ne).trans hlookup, hlt.trans (Nat.lt_succ_self _)⟩
    · exact ⟨AList.lookup_insert _, Nat.lt_succ_self _⟩

theorem publish (h : Follows v done todo) : Follows (v.publish channel payload) done todo := by
  have hcalls : calls todo (v.publish channel payload).outbox = calls todo v.outbox := by
    simp [calls, Service.publish, callOf, List.filterMap_append]
  refine ⟨h.taken, h.inbox, h.passed, h.dispatchers, ?_, ?_⟩
  · rw [hcalls]
    exact h.nodup
  · rw [hcalls]
    exact h.waiting

/-- A payload is under way to the service. -/
theorem send (h : Follows v done todo) :
    Follows (v.send (.multicast channel payload)) done
      (todo ++ [(.multicast channel payload, .new)]) := by
  have hcalls : calls (todo ++ [(.multicast channel payload, .new)]) v.outbox
      = calls todo v.outbox := by
    simp [calls, replyOf, List.filterMap_append, List.filterMap_cons]
  refine ⟨h.taken, ?_, h.passed, h.dispatchers, ?_, ?_⟩
  · rw [List.map_append, ← h.inbox]
    rfl
  · exact (congrArg (fun l => (l.map Prod.fst).Nodup) hcalls).mpr h.nodup
  · intro p hp
    exact h.waiting p (hcalls ▸ hp)

/-- multicastd has taken a call of the service and replied. -/
theorem answer {value : Option ℕ} (h : Follows v done todo)
    (hout : v.outbox = .call session c :: outbox) :
    Follows ({ v with outbox }.send (.response session value)) done
      (todo ++ [(.response session value, c)]) := by
  have hcalls : calls (todo ++ [(.response session value, c)]) outbox = calls todo v.outbox := by
    simp [calls, replyOf, callOf, hout, List.filterMap_append]
  refine ⟨h.taken, ?_, h.passed, h.dispatchers, ?_, ?_⟩
  · rw [List.map_append, ← h.inbox]
    rfl
  · exact (congrArg (fun l => (l.map Prod.fst).Nodup) hcalls).mpr h.nodup
  · intro p hp
    exact h.waiting p (hcalls ▸ hp)

/-- multicastd has taken a payload of the service. -/
theorem pop (h : Follows v done todo) (hout : v.outbox = .pub channel payload :: outbox) :
    Follows { v with outbox } done todo := by
  have hcalls : calls todo outbox = calls todo v.outbox := by
    simp [calls, callOf, hout, List.filterMap_cons]
  refine ⟨h.taken, h.inbox, h.passed, h.dispatchers, ?_, ?_⟩
  · exact (congrArg (fun l => (l.map Prod.fst).Nodup) hcalls).mpr h.nodup
  · intro p hp
    exact h.waiting p (hcalls ▸ hp)

/-- The service takes a message: a payload's channel has its entry, and a reply's call waits. -/
theorem take {i : Item α} (h : Follows v done (i :: todo))
    (hitems : items a past = done ++ i :: todo) : Follows v.take (done ++ [i]) todo := by
  obtain ⟨m, c⟩ := i
  have htake : v.take
      = { v with inbox := todo.map Prod.fst, taken := v.taken ++ [m] }.dispatch m := by
    unfold Service.take
    rw [h.inbox]
    rfl
  have htaken : v.taken ++ [m] = (done ++ [(m, c)]).map Prod.fst := by
    rw [List.map_append, h.taken]
    rfl
  rw [htake]
  cases m with
  | response session value =>
    have hcalls : calls ((.response session value, c) :: todo) v.outbox
        = (session, c) :: calls todo v.outbox := by
      simp [calls, replyOf]
    have hnodup := h.nodup
    have hwaiting := h.waiting
    rw [hcalls, List.map_cons, List.nodup_cons] at hnodup
    rw [hcalls, List.forall_mem_cons] at hwaiting
    simp only [Service.dispatch, Service.resume, hwaiting.1.1]
    refine ⟨htaken, rfl, ?_, ?_, hnodup.2, fun p hp => ?_⟩
    · simpa [Message.copy, List.filterMap_append, List.filterMap_cons] using h.passed
    · rw [handlers_append_singleton, h.dispatchers]
    · obtain ⟨hlookup, hlt⟩ := hwaiting.2 p hp
      have hmem : p.1 ∈ (calls todo v.outbox).map Prod.fst := List.mem_map_of_mem hp
      have hne : p.1 ≠ session := fun heq => hnodup.1 (heq ▸ hmem)
      exact ⟨(AList.lookup_erase_ne hne).trans hlookup, hlt⟩
  | multicast channel payload =>
    obtain ⟨hmem, rfl⟩ := handled hitems
    have hcalls : calls ((.multicast channel payload, .new) :: todo) v.outbox
        = calls todo v.outbox := by
      simp [calls, replyOf, List.filterMap_cons]
    have hnodup := h.nodup
    have hwaiting := h.waiting
    rw [hcalls] at hnodup hwaiting
    rw [Service.dispatch, if_pos (h.dispatchers ▸ hmem)]
    refine ⟨htaken, rfl, ?_, ?_, hnodup, hwaiting⟩
    · simp [Message.copy, List.filterMap_append, h.passed]
    · rw [handlers_append_singleton, ← h.dispatchers]
      rfl

/-- The service takes all that is to come. -/
theorem drain (h : Follows v done todo) (hitems : items a past = done ++ todo) :
    Follows (Service.take^[todo.length] v) (done ++ todo) [] := by
  induction todo generalizing v done with
  | nil => exact (List.append_nil done).symm ▸ h
  | cons i todo ih =>
    have htake := h.take hitems
    rw [List.append_cons] at hitems ⊢
    exact ih htake hitems

end Follows

end Service

namespace State

variable {s s' : State α} {l : Label α}

theorem step_eq_some : step s l = some s' ↔ s.Enabled l ∧ s.exec l = s' := by
  unfold step
  split_ifs with h <;> simp [h]

theorem service_set {v : Service α} : (s.set a v).service a = v := Function.update_self ..

theorem service_set_ne {v : Service α} (h : b ≠ a) : (s.set a v).service b = s.service b :=
  Function.update_of_ne h ..

/-- For a call multicastd sends the reply. -/
theorem service_cmd_call (hid : s.channelId = past.countP IsNew) (c : Call) :
    (s.cmd a (.call session c)).service
      = (s.ret a session (c.value past)).service := by
  cases c with
  | new =>
    rw [Call.value, ← hid]
    rfl
  | delete id => rfl
  | subscribe id =>
    change (s.change (insert a ·) a session id).service = _
    unfold State.change
    split <;> rfl
  | unsubscribe id =>
    change (s.change (Finset.erase · a) a session id).service = _
    unfold State.change
    split <;> rfl

theorem service_pub (h : Tables s past) (b : Handle) :
    (Subscribed Live b id past →
        (s.pub id payload).service b = (s.service b).send (.multicast id payload))
      ∧ (¬ Subscribed Live b id past → (s.pub id payload).service b = s.service b) := by
  rw [h.subscribed_iff]
  unfold State.pub
  split
  · next subscribers hlookup =>
    simp only [hlookup, Option.mem_some_iff, exists_eq_left']
    exact ⟨fun hb => if_pos hb, fun hb => if_neg hb⟩
  · next hlookup => simp [hlookup]

theorem processed_cmd (r : Request α) : (s.cmd a r).processed = s.processed := by
  cases r with
  | pub id payload =>
    change (s.pub id payload).processed = _
    unfold State.pub
    split <;> rfl
  | call session c =>
    cases c with
    | new => rfl
    | delete id => rfl
    | subscribe id =>
      change (s.change (insert a ·) a session id).processed = _
      unfold State.change
      split <;> rfl
    | unsubscribe id =>
      change (s.change (Finset.erase · a) a session id).processed = _
      unfold State.change
      split <;> rfl

/-- The tables are right, and every service has taken a part of what it is to be sent, of which the
rest is under way. -/
structure Sound (s : State α) : Prop where
  tables : Tables s s.processed
  follows : ∀ a, ∃ done todo, items a s.processed = done ++ todo ∧
    Follows (s.service a) done todo

namespace Sound

theorem init : Sound ({} : State α) := ⟨.init, fun _ => ⟨[], [], rfl, .init⟩⟩

/-- One service goes on. -/
theorem set (h : Sound s) {v : Service α}
    (hv : ∀ done todo, items a s.processed = done ++ todo → Follows (s.service a) done todo →
      ∃ done todo, items a s.processed = done ++ todo ∧ Follows v done todo) :
    Sound (s.set a v) := by
  refine ⟨h.tables.congr rfl rfl rfl, fun b => ?_⟩
  obtain ⟨done, todo, hitems, hfollows⟩ := h.follows b
  by_cases hb : b = a
  · subst hb
    rw [service_set]
    exact hv done todo hitems hfollows
  · rw [service_set_ne hb]
    exact ⟨done, todo, hitems, hfollows⟩

theorem take (h : Sound s) (htake : (s.service a).inbox.isEmpty = false) :
    Sound (s.set a (s.service a).take) := by
  refine h.set fun done todo hitems hfollows => ?_
  cases todo with
  | nil =>
    rw [hfollows.inbox] at htake
    cases htake
  | cons i todo =>
    exact ⟨done ++ [i], todo, by rw [hitems, List.append_cons], hfollows.take hitems⟩

theorem process (h : Sound s) (hprocess : (s.service a).outbox.isEmpty = false) :
    Sound (s.process a) := by
  unfold State.process
  split
  · next r outbox hout =>
    generalize ht : ({ s.set a { s.service a with outbox } with
      processed := (a, r) :: s.processed } : State α) = t
    have htables : Tables t s.processed := by
      subst ht
      exact h.tables.congr rfl rfl rfl
    have hservice (b : Handle) : t.service b = (s.set a { s.service a with outbox }).service b := by
      subst ht
      rfl
    have hprocessed : t.processed = (a, r) :: s.processed := by
      subst ht
      rfl
    refine ⟨?_, fun b => ?_⟩
    · rw [processed_cmd, hprocessed]
      exact htables.cmd r
    · rw [processed_cmd, hprocessed]
      obtain ⟨done, todo, hitems, hfollows⟩ := h.follows b
      change ∃ done todo, items b s.processed ++ itemsFor b s.processed (a, r) = done ++ todo ∧ _
      refine ⟨done, todo ++ itemsFor b s.processed (a, r), by rw [hitems, List.append_assoc], ?_⟩
      cases r with
      | call session c =>
        rw [service_cmd_call htables.channelId]
        simp only [itemsFor]
        by_cases hb : b = a
        · subst hb
          rw [if_pos rfl, ret, service_set, hservice, service_set]
          exact hfollows.answer hout
        · rw [if_neg (Ne.symm hb), List.append_nil, ret, service_set_ne hb, hservice,
            service_set_ne hb]
          exact hfollows
      | pub id payload =>
        have hpop : Follows (t.service b) done todo := by
          rw [hservice]
          by_cases hb : b = a
          · subst hb
            rw [service_set]
            exact hfollows.pop hout
          · rw [service_set_ne hb]
            exact hfollows
        simp only [itemsFor]
        change Follows ((t.pub id payload).service b) _ _
        split_ifs with hsub
        · rw [(service_pub htables b).1 hsub]
          exact hpop.send
        · rw [(service_pub htables b).2 hsub, List.append_nil]
          exact hpop
  · next hout =>
    rw [hout] at hprocess
    cases hprocess

theorem step (h : Sound s) (h' : step s l = some s') : Sound s' := by
  obtain ⟨hl, rfl⟩ := step_eq_some.1 h'
  cases l with
  | call a c => exact h.set fun done todo hitems hfollows => ⟨done, todo, hitems, hfollows.call c⟩
  | publish a channel payload =>
    exact h.set fun done todo hitems hfollows => ⟨done, todo, hitems, hfollows.publish⟩
  | process a => exact h.process hl
  | take a => exact h.take hl

end Sound

theorem sound_of_reachable (hs : Reachable step {} s) : Sound s :=
  hs.invariant Sound.init fun _ _ _ _ h _ h' => h.step h'

/-- In every run each service is sent, and passes on, what it is to be sent, once and in order, and
the ids are new. -/
theorem delivers (hs : Reachable step {} s) : Delivers Live s := by
  have h := sound_of_reachable hs
  refine ⟨fun a => ?_, fun a => ?_, fun a => ?_, h.tables.nodup⟩
  · obtain ⟨done, todo, hitems, hfollows⟩ := h.follows a
    rw [← map_items, hitems, List.map_append, hfollows.taken, hfollows.inbox]
  · obtain ⟨done, todo, -, hfollows⟩ := h.follows a
    exact hfollows.passed
  · obtain ⟨done, todo, hitems, hfollows⟩ := h.follows a
    have hdrain := hfollows.drain hitems
    rw [hfollows.inbox, List.length_map, hdrain.passed, hdrain.taken, ← hitems, map_items]

/-- Service 2 subscribes to a channel of service 1, is sent a payload, and unsubscribes. -/
def deliveredRun : List (Label Bytes) :=
  [.call 1 .new, .process 1, .take 1, .call 2 (.subscribe 1), .process 2,
    .publish 1 1 (ascii "hello"), .process 1, .call 2 (.unsubscribe 1), .process 2, .take 2,
    .take 2, .take 2]

theorem delivers_hello : Delivers Live (after step {} deliveredRun) :=
  delivers (reachable_after rfl)

/-- Service 2 subscribes to a channel that service 1 has deleted, and publishes. -/
def deletedRun : List (Label Bytes) :=
  [.call 1 .new, .process 1, .take 1, .call 1 (.delete 1), .process 1, .take 1,
    .call 2 (.subscribe 1), .process 2, .take 2, .publish 2 1 (ascii "hello"), .process 2]

theorem not_delivers_deleted : ¬ ∀ s : State Bytes, Reachable step {} s →
    Delivers (fun _ _ => True) s := by
  intro h
  have hrun : Reachable step {} (after step {} deletedRun) := reachable_after rfl
  have horder := (h _ hrun).order 2
  have hsub : Subscribed (fun _ _ => True) 2 1
      ((2, .call 1 (.subscribe 1)) :: (1, .call 2 (.delete 1)) :: [(1, .call 1 (.new))] :
        List (Event Bytes)) := subscribed_cons.2 (.inl ⟨⟨1, rfl⟩, trivial⟩)
  have hsent : .multicast 1 (ascii "hello")
      ∈ sent (fun _ _ => True) 2 (after step {} deletedRun).processed := mem_sent hsub
  have htaken : ((after step {} deletedRun).service 2).taken
      ++ ((after step {} deletedRun).service 2).inbox = [.response 1 none] := rfl
  rw [← horder, htaken] at hsent
  cases List.mem_singleton.1 hsent

end State

end Multicast

end SkynetCpp
