import SkynetCpp.NodeSenders

/-!
# A node's sender has the configured address

A node has no sender yet, or one that was given an address last, and the `open_channel` that has given
it is still suspended, or the address is the one of the configuration (`Sound`). Each entry of a
reload and each step of an `open_channel` that meets `Steady` keep this.
-/

namespace SkynetCpp

namespace NodeSenders

open Lib

variable {n : Node} {co : ℕ} {c : Handle} {raises : Bool} {peer : Bytes × ℕ}

/-- The sender of the node is `c`, with the address `peer`; what `node_channel` holds is `c`, and the
configuration has that address. -/
structure Node.Served (n : Node) (c : Handle) (peer : Bytes × ℕ) : Prop where
  sender : n.sender = some c
  senders : n.senders = [(c, peer)]
  channel : ∀ c', n.channel = some c' → c' = c ∧
    ∃ address, n.address = some (.text address) ∧ parseAddress address = some peer

/-- How far the opening of the node has come. -/
inductive Node.Sound (n : Node) : Prop
  | new : n.openers = [] → n.connecting = none → n.waiting = [] → n.sender = none → n.senders = [] →
      n.channel = none → Node.Sound n
  | served {c : Handle} {peer : Bytes × ℕ} : n.openers = [] → n.connecting = none →
      n.waiting = [] → n.Served c peer → Node.Sound n
  | creating {co : ℕ} {address : Bytes} {c : Handle} {peer : Bytes × ℕ} :
      n.openers = [⟨co, address, .newservice c⟩] → n.connecting = some n.waiting →
      n.sender = none → n.senders = [(c, peer)] → n.channel = none →
      parseAddress address = some peer → Node.Sound n
  | opening {op : Opener} {c : Handle} {peer : Bytes × ℕ} : n.openers = [op] →
      op.stage = .sleep c ∨ op.stage = .changenode c → n.connecting = some n.waiting →
      n.Served c peer → parseAddress op.address = some peer → Node.Sound n

namespace Node

theorem Sound.follows (h : n.Sound) : n.Follows := by
  cases h with
  | new ho hc hw _ hs hch =>
    refine ⟨by simp [hs], fun _ => hc, fun _ => hw, fun _ c h => ?_⟩
    rw [hch] at h
    cases h
  | served ho hc hw hs =>
    refine ⟨by simp [hs.senders], fun _ => hc, fun _ => hw, fun _ c h => ?_⟩
    obtain ⟨rfl, address, haddress, hparse⟩ := hs.channel c h
    exact ⟨address, _, haddress, hparse, by simp [hs.senders]⟩
  | creating ho _ _ hs =>
    exact ⟨by simp [hs], fun h => by simp [ho] at h, fun h => by simp [ho] at h,
      fun h => by simp [ho] at h⟩
  | opening ho _ _ hs =>
    exact ⟨by simp [hs.senders], fun h => by simp [ho] at h, fun h => by simp [ho] at h,
      fun h => by simp [ho] at h⟩

/-- A reload that changes the address of a node with a sender clears its channel. -/
theorem Sound.reload (h : n.Sound) (address : Address) : (n.reload address).1.Sound := by
  unfold Node.reload
  split_ifs with haddress hsender
  · exact h
  · cases h with
    | new ho hc hw hs => simp [hs] at hsender
    | served ho hc hw hs =>
      exact .served ho hc hw ⟨hs.sender, hs.senders, fun _ h => by cases h⟩
    | creating ho hc hs => simp [hs] at hsender
    | opening ho hstage hc hs hparse =>
      exact .opening ho hstage hc ⟨hs.sender, hs.senders, fun _ h => by cases h⟩ hparse
  · cases h with
    | new ho hc hw hs hss hch => exact .new ho hc hw hs hss hch
    | served ho hc hw hs => simp [hs.sender] at hsender
    | creating ho hc hs hss hch hparse => exact .creating ho hc hs hss hch hparse
    | opening ho hstage hc hs hparse => simp [hs.sender] at hsender

/-- The error paths leave the node as it was. -/
theorem close_connecting (hc : n.connecting = none) (hw : n.waiting = []) :
    ({ n with connecting := some [] } : Node).close = n := by
  cases n
  cases hc
  cases hw
  simp [close]

theorem Sound.connect (h : n.Sound) (hc : n.connecting = none)
    (hraises : n.Connects → raises = false) :
    ({ n with connecting := some [] }.connect co c raises).Sound := by
  have hw : n.waiting = [] := by
    cases h with
    | new _ _ hw | served _ _ hw => exact hw
    | creating _ h | opening _ _ h => rw [hc] at h; cases h
  unfold Node.connect
  dsimp only
  split
  next address haddress =>
    split
    next peer hparse =>
      have hraises := hraises ⟨hc, by simp [haddress, hparse]⟩
      subst hraises
      cases h with
      | new ho _ _ hs hss hch =>
        split
        · have hopeners : n.openers ++ [⟨co, address, .newservice c⟩] =
              [⟨co, address, .newservice c⟩] := by simp [ho]
          have hsenders : n.senders ++ [(c, peer)] = [(c, peer)] := by simp [hss]
          exact .creating hopeners (by simp [addOpener, hw]) hs hsenders hch hparse
        · next heq => rw [hs] at heq; cases heq
      | @served c₁ _ ho _ _ hs =>
        split
        · next heq => rw [hs.sender] at heq; cases heq
        · next c' heq =>
          obtain rfl : c₁ = c' := Option.some.inj (hs.sender.symm.trans heq)
          have hopeners : n.openers ++ [⟨co, address, .changenode c₁⟩] =
              [⟨co, address, .changenode c₁⟩] := by simp [ho]
          refine .opening hopeners (.inr rfl) (by simp [addOpener, give, hw])
            ⟨hs.sender, ?_, fun c' h' => ?_⟩ hparse
          · simp [addOpener, give, hs.senders]
          · obtain ⟨rfl, -⟩ := hs.channel c' h'
            exact ⟨rfl, address, haddress, hparse⟩
      | creating _ h | opening _ _ h => rw [hc] at h; cases h
    next => rwa [close_connecting hc hw]
  all_goals rwa [close_connecting hc hw]

theorem Sound.openChannel (h : n.Sound) (hraises : n.Connects → raises = false) :
    (n.openChannel co c raises).Sound := by
  unfold Node.openChannel
  split
  next ct hc =>
    cases h with
    | new _ h | served _ h => rw [hc] at h; cases h
    | creating ho h hs hss hch hparse =>
      obtain rfl := Option.some.inj (hc.symm.trans h)
      exact .creating ho rfl hs hss hch hparse
    | opening ho hstage h hs hparse =>
      obtain rfl := Option.some.inj (hc.symm.trans h)
      exact .opening ho hstage rfl ⟨hs.sender, hs.senders, hs.channel⟩ hparse
  next hc => exact h.connect hc hraises

theorem Sound.index (h : n.Sound)
    (hraises : n.channel = none → n.Connects → raises = false) :
    (n.index co c raises).Sound := by
  unfold Node.index
  split
  · exact h
  · next hc => exact h.openChannel (hraises hc)

/-- Those that wait are let go, and the node is open. -/
theorem Served.publish (h : n.Served c peer) {op : Opener} (ho : n.openers = [op])
    (hco : op.co = co) (hc : n.connecting = some n.waiting) {address : Bytes}
    (haddress : n.address = some (.text address)) (hparse : parseAddress address = some peer) :
    (n.publish co c).Sound := by
  refine .served ?_ rfl ?_ (⟨h.sender, h.senders, fun c' hc' => ?_⟩ :
    (n.publish co c).Served c peer)
  · simp [Node.publish, endOpener, close, ho, hco]
  · simp [Node.publish, endOpener, close, hc]
  · exact ⟨(Option.some.inj hc').symm, address, haddress, hparse⟩

theorem Sound.goOn (h : n.Sound) (hkeeps : n.Keeps raises (n.opener co)) :
    (n.goOn co raises (n.opener co)).Sound := by
  cases h with
  | new ho hc hw hs hss hch =>
    simp only [opener, ho, List.find?_nil, Node.goOn]
    exact .new ho hc hw hs hss hch
  | served ho hc hw hs =>
    simp only [opener, ho, List.find?_nil, Node.goOn]
    exact .served ho hc hw hs
  | @creating co' address c peer ho hc hs hss hch hparse =>
    by_cases hco : co' = co
    · subst hco
      have hop : n.opener co' = some ⟨co', address, .newservice c⟩ := by simp [opener, ho]
      simp only [hop, Node.goOn, hs]
      have hopeners : (({ n with sender := some c } : Node).setStage co' (.sleep c)).openers =
          [⟨co', address, .sleep c⟩] := by simp [setStage, ho]
      exact .opening hopeners (.inl rfl) hc
        ⟨rfl, hss, fun c' h' => by cases hch.symm.trans h'⟩ hparse
    · simp only [opener, ho, List.find?_cons, hco, decide_false, List.find?_nil, Node.goOn]
      exact .creating ho hc hs hss hch hparse
  | @opening op c peer ho hstage hc hs hparse =>
    by_cases hco : op.co = co
    · have hop : n.opener co = some op := by simp [opener, ho, hco]
      rw [hop] at hkeeps ⊢
      obtain ⟨co', address, stage⟩ := op
      rcases hstage with hstage | hstage
      · obtain rfl : stage = _ := hstage
        exact hs.publish ho hco hc hkeeps hparse
      · obtain rfl : stage = _ := hstage
        obtain ⟨rfl, haddress⟩ := hkeeps
        exact hs.publish ho hco hc haddress hparse
    · simp only [opener, ho, List.find?_cons, hco, decide_false, List.find?_nil, Node.goOn]
      exact .opening ho hstage hc hs hparse

theorem Sound.erase_woken (h : n.Sound) : ({ n with woken := n.woken.erase co } : Node).Sound := by
  cases h with
  | new ho hc hw hs hss hch => exact .new ho hc hw hs hss hch
  | served ho hc hw hs => exact .served ho hc hw ⟨hs.sender, hs.senders, hs.channel⟩
  | creating ho hc hs hss hch hparse => exact .creating ho hc hs hss hch hparse
  | opening ho hstage hc hs hparse =>
    exact .opening ho hstage hc ⟨hs.sender, hs.senders, hs.channel⟩ hparse

end Node

namespace State

variable {s s' : State} {l : Label} {name : Bytes}

theorem step_eq_some : step s l = some s' ↔ s.Enabled l ∧ s.exec l = s' := by
  unfold step
  split_ifs with h <;> simp [h]

def Sound (s : State) : Prop := ∀ name, (s.nodes name).Sound

theorem Sound.set (h : Sound s) (hn : n.Sound) : Sound (s.set name n) := by
  intro name'
  by_cases heq : name' = name
  · subst heq
    simpa [State.set] using hn
  · simpa [State.set, heq] using h name'

theorem Sound.loadconfig : ∀ {cfg : List (Bytes × Option Address)} {reload : List Bytes}
    {s : State}, Sound s → Sound (loadconfig cfg reload s)
  | [], _, _, h => h
  | (name, address) :: cfg, reload, s, h => by
    unfold State.loadconfig
    split_ifs
    · exact h.loadconfig
    · split
      · exact h
      · exact (h.set ((h name).reload _)).loadconfig

theorem Sound.step (h : Sound s) (hsteady : s.Steady l) (hs : State.step s l = some s') :
    Sound s' := by
  obtain ⟨-, rfl⟩ := step_eq_some.1 hs
  cases l with
  | reload cfg => exact h.loadconfig
  | sender name raises => exact h.set ((h name).index hsteady)
  | fork raises =>
    change Sound (s.fork raises s.forks)
    unfold State.fork
    split
    next name forks heq =>
      exact Sound.set h ((h name).openChannel (hsteady name (by simp [heq])))
    next => exact h
  | resume name co raises => exact h.set ((h name).erase_woken.index hsteady)
  | goOn name co raises => exact h.set ((h name).goOn hsteady)

theorem sound_reaches (h : Reaches step Steady {} s) : Sound s :=
  h.invariant (fun _ => .new rfl rfl rfl rfl rfl rfl) fun _ _ _ _ hsound hsteady hs =>
    hsound.step hsteady hs

/-- As long as no call of clusterd raises, and no address changes while its node is being opened,
clusterd follows its configuration. -/
theorem follows_of_steady (h : Reaches step Steady {} s) (name : Bytes) :
    (s.nodes name).Follows := (sound_reaches h name).follows

theorem follows_after_reload :
    ((after step ({} : State) [.reload [(ascii "a", some (.text (ascii "h:1")))],
      .sender (ascii "a") false, .goOn (ascii "a") 0 false, .goOn (ascii "a") 0 false,
      .reload [(ascii "a", some (.text (ascii "g:2")))], .fork false,
      .goOn (ascii "a") 1 false]).nodes (ascii "a")).Follows :=
  follows_of_steady (reaches_after (by decide)) _

/-- The address changes while the sender starts, and clusterd keeps the sender of the old one. -/
theorem not_follows_reload_while_opening :
    ∃ s, Reachable step {} s ∧ ¬ (s.nodes (ascii "a")).Follows := by
  refine ⟨after step {} [.reload [(ascii "a", some (.text (ascii "h:1")))],
    .sender (ascii "a") false, .goOn (ascii "a") 0 false,
    .reload [(ascii "a", some (.text (ascii "g:2")))], .fork false, .goOn (ascii "a") 0 false,
    .resume (ascii "a") 1 false], reachable_after (by decide), fun h => ?_⟩
  obtain ⟨address, peer, haddress, hparse, hmem⟩ := h.address (by decide) 0 (by decide)
  have haddress : some (Address.text (ascii "g:2")) = some (.text address) := haddress
  obtain rfl := Address.text.inj (Option.some.inj haddress)
  obtain rfl : (ascii "g", 2) = peer := Option.some.inj hparse
  revert hmem
  decide

end State

end NodeSenders

end SkynetCpp
