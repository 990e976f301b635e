import SkynetCpp.SharedData

/-!
# Clients of shared data are told

What a client knows of the name is no newer than what is under way to it, and that no newer than what
is stored (`Fits`); a monitor waits only while its client's entry is the one that is stored; and a
name in a cache has a monitor (`Sound`). A version is a number within one life of the name, and the
versions of all its lives are ordered by life first (`Entry.Le`).
-/

namespace SkynetCpp

namespace SharedData

open Lib

/-- Not after the other, in the history of the name. -/
def Entry.Le (x y : Entry) : Prop := x.life < y.life ∨ x.life = y.life ∧ x.version ≤ y.version

theorem Entry.Le.refl (x : Entry) : x.Le x := .inr ⟨rfl, Nat.le_refl _⟩

theorem Entry.Le.trans {x y z : Entry} (hxy : x.Le y) (hyz : y.Le z) : x.Le z := by
  unfold Entry.Le at *
  omega

/-- A version that a monitor sends. -/
def stamp (version life : ℕ) : Entry := ⟨.nil, version, life⟩

def Response.entry : Response → Option Entry
  | .query x => some x
  | .monitor _ x => x
  | .new | .update | .delete | .error => none

/-- The entries that are under way to the client. -/
def Client.coming (c : Client) : List Entry := c.mailbox.filterMap Response.entry

variable {v : Server} {s s' : State} {l : Label} {i e : ℕ} {c : Client} {x : Entry} {r : Response}
  {ps : List (ℕ × ℕ)}

/-- The entry was stored once; it is the one that is stored, unless that is newer. -/
structure Server.Known (v : Server) (x : Entry) : Prop where
  life : x.life ≤ v.lives
  le : ∀ y, v.store = some y → x.Le y
  eq : ∀ y, v.store = some y → y.Le x → x = y

/-- What the client knows is known to it in order, and no older than what its monitors have sent. -/
structure Server.Fits (v : Server) (i : ℕ) (c : Client) : Prop where
  entries : ∀ x ∈ c.entries, v.Known x
  coming : ∀ x ∈ c.coming, v.Known x
  newer : ∀ x ∈ c.entries, ∀ y ∈ c.coming, x.Le y
  sorted : c.coming.Pairwise Entry.Le
  asked : ∀ e version life, .monitor i e version life ∈ v.inbox →
    ∃ x, c.entries[e]? = some x ∧ (stamp version life).Le x ∧
      ∀ y ∈ c.coming, (stamp version life).Le y
  waits : ∀ m ∈ v.monitors, m.client = i → ∃ x, v.store = some x ∧ c.entries[m.e]? = some x ∧
    ∀ y ∈ c.coming, y = x

/-- A monitor of the client will go on, or waits, with the entry `e`. -/
def Server.Monitored (v : Server) (ps : List (ℕ × ℕ)) (i e : ℕ) (c : Client) : Prop :=
  0 < c.forked ∨ (∃ version life, .monitor i e version life ∈ v.inbox) ∨
    (∃ m ∈ v.monitors, m.client = i ∧ m.e = e) ∨ (∃ x, .monitor e x ∈ c.mailbox) ∨ (i, e) ∈ ps

theorem Server.Fits.mono {v' : Server} (h : v.Fits i c) (hknown : ∀ x, v.Known x → v'.Known x)
    (hinbox : ∀ q ∈ v'.inbox, q ∈ v.inbox)
    (hwaits : ∀ m ∈ v'.monitors, m.client = i → ∃ x, v'.store = some x ∧
      c.entries[m.e]? = some x ∧ ∀ y ∈ c.coming, y = x) : v'.Fits i c where
  entries x hx := hknown x (h.entries x hx)
  coming x hx := hknown x (h.coming x hx)
  newer := h.newer
  sorted := h.sorted
  asked e version life hq := h.asked e version life (hinbox _ hq)
  waits := hwaits

theorem getElem?_append {xs : List Entry} {y : Entry} (hy : xs[e]? = some y) :
    (xs ++ [x])[e]? = some y := by
  rw [List.getElem?_append_left (List.getElem?_eq_some_iff.1 hy).1, hy]

/-- A client after it has taken a response from its mailbox. -/
theorem Server.Fits.tail (h : v.Fits i c) {rs : List Response} (hr : c.mailbox = r :: rs) :
    v.Fits i { c with mailbox := rs } := by
  have hcoming : ∀ y ∈ ({ c with mailbox := rs } : Client).coming, y ∈ c.coming := fun y hy => by
    obtain ⟨r', hr', hy⟩ := List.mem_filterMap.1 hy
    exact List.mem_filterMap.2 ⟨r', hr ▸ List.mem_cons_of_mem _ hr', hy⟩
  refine ⟨h.entries, fun x hx => h.coming x (hcoming x hx), fun x hx y hy =>
    h.newer x hx y (hcoming y hy), ?_, fun e version life hq => ?_, fun m hm hi => ?_⟩
  · have hsorted := h.sorted
    unfold Client.coming at *
    rw [hr] at hsorted
    exact hsorted.sublist ((List.sublist_cons_self r rs).filterMap _)
  · obtain ⟨x, hx, hle, hcomes⟩ := h.asked e version life hq
    exact ⟨x, hx, hle, fun y hy => hcomes y (hcoming y hy)⟩
  · obtain ⟨x, hx, he, hcomes⟩ := h.waits m hm hi
    exact ⟨x, hx, he, fun y hy => hcomes y (hcoming y hy)⟩

/-- An entry that was under way to the client, and first of all. -/
structure Server.Comes (v : Server) (i : ℕ) (c : Client) (x : Entry) : Prop where
  known : v.Known x
  le : ∀ y ∈ c.coming, x.Le y
  asked : ∀ e version life, .monitor i e version life ∈ v.inbox → (stamp version life).Le x
  waits : ∀ m ∈ v.monitors, m.client = i → v.store = some x

theorem Server.Fits.head (h : v.Fits i c) {rs : List Response} (hr : c.mailbox = r :: rs)
    (hx : r.entry = some x) : v.Comes i { c with mailbox := rs } x := by
  have hcoming : c.coming = x :: ({ c with mailbox := rs } : Client).coming := by
    unfold Client.coming
    rw [hr, List.filterMap_cons, hx]
  have hmem : x ∈ c.coming := hcoming ▸ List.mem_cons_self
  refine ⟨h.coming x hmem, fun y hy => ?_, fun e version life hq => ?_, fun m hm hi => ?_⟩
  · have hsorted := h.sorted
    rw [hcoming] at hsorted
    exact List.rel_of_pairwise_cons hsorted hy
  · obtain ⟨-, -, -, hcomes⟩ := h.asked e version life hq
    exact hcomes x hmem
  · obtain ⟨y, hy, -, hcomes⟩ := h.waits m hm hi
    rw [hcomes x hmem]
    exact hy

/-- The answer to a query is cached. -/
theorem Server.Fits.add (h : v.Fits i c) (hx : v.Comes i c x) {cache : Option ℕ} {forked : ℕ} :
    v.Fits i { c with entries := c.entries ++ [x], cache, forked } := by
  refine ⟨fun y hy => ?_, h.coming, fun y hy z hz => ?_, h.sorted, fun e version life hq => ?_,
    fun m hm hi => ?_⟩
  · rcases List.mem_append.1 hy with hy | hy
    · exact h.entries y hy
    · exact List.mem_singleton.1 hy ▸ hx.known
  · rcases List.mem_append.1 hy with hy | hy
    · exact h.newer y hy z hz
    · exact List.mem_singleton.1 hy ▸ hx.le z hz
  · obtain ⟨y, hy, hrest⟩ := h.asked e version life hq
    exact ⟨y, getElem?_append hy, hrest⟩
  · obtain ⟨y, hy, he, hrest⟩ := h.waits m hm hi
    exact ⟨y, hy, getElem?_append he, hrest⟩

/-- A monitor changes its entry. -/
theorem Server.Fits.set (h : v.Fits i c) (hx : v.Comes i c x) :
    v.Fits i { c with entries := c.entries.set e x } := by
  have hget : ∀ {e' : ℕ} {y : Entry}, c.entries[e']? = some y →
      (c.entries.set e x)[e']? = some y ∨ (c.entries.set e x)[e']? = some x := fun {e' y} hy => by
    rw [List.getElem?_set]
    split_ifs with heq hlt
    · exact .inr rfl
    · subst heq
      rw [List.getElem?_eq_none (Nat.le_of_not_lt hlt)] at hy
      cases hy
    · exact .inl hy
  refine ⟨fun y hy => ?_, h.coming, fun y hy z hz => ?_, h.sorted, fun e' version life hq => ?_,
    fun m hm hi => ?_⟩
  · rcases List.mem_or_eq_of_mem_set hy with hy | rfl
    · exact h.entries y hy
    · exact hx.known
  · rcases List.mem_or_eq_of_mem_set hy with hy | rfl
    · exact h.newer y hy z hz
    · exact hx.le z hz
  · obtain ⟨y, hy, hle, hcomes⟩ := h.asked e' version life hq
    rcases hget hy with hy | hy
    · exact ⟨y, hy, hle, hcomes⟩
    · exact ⟨x, hy, hx.asked e' version life hq, hcomes⟩
  · obtain ⟨y, hy, he, hcomes⟩ := h.waits m hm hi
    have heq : x = y := Option.some.inj ((hx.waits m hm hi).symm.trans hy)
    subst heq
    exact ⟨x, hy, (hget he).elim id id, hcomes⟩

namespace State

theorem step_eq_some : step s l = some s' ↔ s.Enabled l ∧ s.exec l = s' := by
  unfold step
  split_ifs with h <;> simp [h]

/-- What holds between steps; a monitor of each pair in `ps` is about to be answered. -/
structure Sound (s : State) (ps : List (ℕ × ℕ)) : Prop where
  fits : ∀ i, s.Fits i (s.clients i)
  cached : ∀ i e, (s.clients i).cache = some e →
    e < (s.clients i).entries.length ∧ s.Monitored ps i e (s.clients i)
  unsent : ∀ m ∈ s.monitors, m.sent = false
  lives : ∀ x, s.store = some x → x.life ≤ s.lives

theorem sound_init : Sound {} [] where
  fits i := ⟨by simp, by simp [Client.coming], by simp, by simp [Client.coming], by simp, by simp⟩
  cached i e h := by cases h
  unsent := by simp
  lives x h := by cases h

theorem Sound.known (h : Sound s ps) (hx : s.store = some x) : s.Known x where
  life := h.lives x hx
  le y hy := by
    obtain rfl := Option.some.inj (hx.symm.trans hy)
    exact .refl x
  eq y hy _ := Option.some.inj (hx.symm.trans hy)

theorem clients_setClient {j : ℕ} :
    (s.setClient i c).clients j = if j = i then c else s.clients j := by
  simp [State.setClient, Function.update_apply]

/-- A client in place of the old one. -/
theorem Sound.setClient (h : Sound s ps) (hfits : s.Fits i c)
    (hcached : ∀ e, c.cache = some e → e < c.entries.length ∧ s.Monitored ps i e c) :
    Sound (s.setClient i c) ps where
  fits j := by
    rw [clients_setClient]
    split_ifs with hj
    · exact hj ▸ hfits
    · exact h.fits j
  cached j e := by
    rw [clients_setClient]
    split_ifs with hj
    · exact hj ▸ hcached e
    · exact h.cached j e
  unsent := h.unsent
  lives := h.lives

/-- What was about to be answered was answered. -/
theorem Sound.drop (h : Sound s ((i, e) :: ps)) (hm : s.Monitored ps i e (s.clients i)) :
    Sound s ps where
  fits := h.fits
  cached j e' hj := by
    refine ⟨(h.cached j e' hj).1, ?_⟩
    rcases (h.cached j e' hj).2 with hf | hi | hw | hr | hps
    · exact .inl hf
    · exact .inr (.inl hi)
    · exact .inr (.inr (.inl hw))
    · exact .inr (.inr (.inr (.inl hr)))
    · rcases List.mem_cons.1 hps with heq | hps
      · obtain ⟨rfl, rfl⟩ := Prod.mk.inj heq
        exact hm
      · exact .inr (.inr (.inr (.inr hps)))
  unsent := h.unsent
  lives := h.lives

theorem send_singleton : s.send [(i, r)] =
    s.setClient i { s.clients i with mailbox := (s.clients i).mailbox ++ [r] } := by
  unfold State.send State.setClient
  congr 1
  funext j
  by_cases hj : j = i
  · subst hj
    simp
  · simp [hj, Ne.symm hj]

theorem send_cons {p : ℕ × Response} {rs : List (ℕ × Response)} :
    s.send (p :: rs) = (s.send [p]).send rs := by
  unfold State.send
  congr 1
  funext j
  by_cases hj : p.1 = j <;> simp [hj]

/-- A response that says what is stored. -/
theorem Sound.send (h : Sound s ps) (hr : ∀ x, r.entry = some x → s.store = some x) :
    Sound (s.send [(i, r)]) ps := by
  rw [send_singleton]
  have hfits := h.fits i
  have hcoming : ({ s.clients i with mailbox := (s.clients i).mailbox ++ [r] } : Client).coming =
      (s.clients i).coming ++ r.entry.toList := by
    cases hx : r.entry <;> simp [Client.coming, hx]
  have hmem : ∀ y, y ∈ (s.clients i).coming ++ r.entry.toList →
      y ∈ (s.clients i).coming ∨ s.store = some y := fun y hy => by
    rcases List.mem_append.1 hy with hy | hy
    · exact .inl hy
    · exact .inr (hr y (Option.mem_toList.1 hy))
  refine h.setClient ⟨hfits.entries, fun y hy => ?_, fun x hx y hy => ?_, ?_,
    fun e version life hreq => ?_, fun m hm hi => ?_⟩ fun e hc => ?_
  · rcases hmem y (hcoming ▸ hy) with hy | hy
    · exact hfits.coming y hy
    · exact h.known hy
  · rcases hmem y (hcoming ▸ hy) with hy | hy
    · exact hfits.newer x hx y hy
    · exact (hfits.entries x hx).le y hy
  · rw [hcoming, List.pairwise_append]
    refine ⟨hfits.sorted, ?_, fun x hx y hy => ?_⟩
    · cases r.entry <;> simp
    · exact (hfits.coming x hx).le y (hr y (Option.mem_toList.1 hy))
  · obtain ⟨x, hx, hle, hcomes⟩ := hfits.asked e version life hreq
    refine ⟨x, hx, hle, fun y hy => ?_⟩
    rcases hmem y (hcoming ▸ hy) with hy | hy
    · exact hcomes y hy
    · exact hle.trans ((hfits.entries x (List.mem_of_getElem? hx)).le y hy)
  · obtain ⟨x, hx, he, hcomes⟩ := hfits.waits m hm hi
    refine ⟨x, hx, he, fun y hy => ?_⟩
    rcases hmem y (hcoming ▸ hy) with hy | hy
    · exact hcomes y hy
    · exact Option.some.inj (hy.symm.trans hx)
  · obtain ⟨hlt, hm⟩ := h.cached i e hc
    refine ⟨hlt, hm.imp_right fun hm => hm.imp_right fun hm => hm.imp_right fun hm => ?_⟩
    exact hm.imp_left fun ⟨x, hx⟩ => ⟨x, List.mem_append_left _ hx⟩

/-- The monitors are told what is stored. -/
theorem Sound.tell {y : Option Entry} : ∀ {ms : List Waiter} {s : State}, s.store = y →
    Sound s (ms.map (fun m => (m.client, m.e)) ++ ps) →
    Sound (s.send (ms.map fun m => (m.client, .monitor m.e y))) ps
  | [], s, _, h => by
    have hs : s.send [] = s := by simp [State.send]
    exact hs.symm ▸ h
  | m :: ms, s, hy, h => by
    rw [List.map_cons, send_cons]
    have hsend := Sound.send (i := m.client) (r := .monitor m.e y) h fun x hx => hy.trans hx
    refine Sound.tell (s := s.send _) hy (hsend.drop (.inr (.inr (.inr (.inl ⟨y, ?_⟩)))))
    simp [send_singleton, clients_setClient]

/-- The list of those that wait is taken. -/
theorem Sound.clear (h : Sound s ps) :
    Sound { s with monitors := [] } (s.monitors.map (fun m => (m.client, m.e)) ++ ps) where
  fits i := (h.fits i).mono (fun x hx => ⟨hx.life, hx.le, hx.eq⟩) (fun _ hq => hq) fun m hm => by
    cases hm
  cached i e hc := by
    obtain ⟨hlt, hf | hi | ⟨m, hm, rfl, rfl⟩ | hr | hps⟩ := h.cached i e hc
    · exact ⟨hlt, .inl hf⟩
    · exact ⟨hlt, .inr (.inl hi)⟩
    · exact ⟨hlt, .inr (.inr (.inr (.inr (List.mem_append_left _ (List.mem_map_of_mem hm)))))⟩
    · exact ⟨hlt, .inr (.inr (.inr (.inl hr)))⟩
    · exact ⟨hlt, .inr (.inr (.inr (.inr (List.mem_append_right _ hps))))⟩
  unsent m hm := by cases hm
  lives := h.lives

/-- Something newer is stored, or nothing, when no monitor waits. -/
theorem Sound.store (h : Sound s ps) (hm : s.monitors = []) {y : Option Entry} {n : ℕ}
    (hn : s.lives ≤ n)
    (hy : ∀ z, y = some z → z.life ≤ n ∧ ∀ x, s.Known x → x.Le z ∧ ¬ z.Le x) :
    Sound { s with store := y, lives := n } ps where
  fits i := by
    refine (h.fits i).mono (fun x hx => ⟨Nat.le_trans hx.life hn, fun z hz => ?_, fun z hz hle => ?_⟩)
      (fun _ hq => hq) fun m hmem => ?_
    · exact ((hy z hz).2 x hx).1
    · exact absurd hle ((hy z hz).2 x hx).2
    · rw [show ({ s with store := y, lives := n } : State).monitors = [] from hm] at hmem
      cases hmem
  cached := h.cached
  unsent := h.unsent
  lives z hz := (hy z hz).1

theorem respond_of_unsent {y : Option Entry} (hy : ∀ z ∈ y, z.data.Packs) :
    ∀ {ms : List Waiter}, (∀ m ∈ ms, m.sent = false) →
      respond y ms = (ms, ms.map fun m => { m with sent := true }, false)
  | [], _ => rfl
  | m :: ms, h => by
    have ih := respond_of_unsent hy fun m' hm => h m' (List.mem_cons_of_mem _ hm)
    simp only [respond, h m List.mem_cons_self, Bool.false_eq_true, if_false, if_pos hy, ih,
      List.map_cons]

/-- The value changes, and all monitors are told. -/
theorem Sound.notify (h : Sound s ps) {y : Option Entry}
    (hy : ∀ z, y = some z → z.life ≤ s.lives ∧ ∀ x, s.Known x → x.Le z ∧ ¬ z.Le x)
    (hpacks : s.monitors ≠ [] → ∀ z ∈ y, z.data.Packs) (hr : r.entry = none) :
    Sound (({ s with store := y } : State).notify i y r) ps := by
  have heq : ({ s with store := y } : State).notify i y r =
      (({ s with monitors := [], store := y } : State).send
        (s.monitors.map fun m => (m.client, .monitor m.e y))).send [(i, r)] := by
    unfold State.notify
    have hrespond : respond y s.monitors =
        (s.monitors, s.monitors.map fun m => { m with sent := true }, false) := by
      by_cases hm : s.monitors = []
      · rw [hm]
        rfl
      · exact respond_of_unsent (hpacks hm) h.unsent
    rw [hrespond]
    rfl
  rw [heq]
  have hstore := h.clear.store rfl (y := y) (n := s.lives) (Nat.le_refl _) fun z hz =>
    ⟨(hy z hz).1, fun x hx => (hy z hz).2 x ⟨hx.life, hx.le, hx.eq⟩⟩
  exact Sound.send (Sound.tell rfl hstore) fun x hx => by rw [hr] at hx; cases hx

theorem Sound.error (h : Sound s ps) : Sound (s.send [(i, .error)]) ps :=
  h.send fun x hx => by cases hx

/-- A new life of the name. -/
theorem Sound.put (h : Sound s ps) (hm : s.monitors = []) {d : Data} :
    Sound (s.put i d) ps := by
  refine Sound.send (s := { s with store := _, lives := _ }) (h.store hm (Nat.le_succ _) ?_)
    fun x hx => by cases hx
  intro z hz
  obtain rfl := Option.some.inj hz
  refine ⟨Nat.le_refl _, fun x hx => ?_⟩
  have := hx.life
  unfold Entry.Le
  simp only
  omega

theorem Sound.monitors_eq_nil (h : Sound s ps) (hs : s.store = none) : s.monitors = [] := by
  rcases hm : s.monitors with - | ⟨m, ms⟩
  · rfl
  · obtain ⟨x, hx, -⟩ := (h.fits m.client).waits m (hm ▸ List.mem_cons_self) rfl
    rw [hs] at hx
    cases hx

theorem Sound.new (h : Sound s ps) {v : Arg} : Sound (s.new i v) ps := by
  unfold State.new
  split
  · exact h.error
  next hs =>
    split
    · exact h.put (h.monitors_eq_nil hs)
    · exact h.put (h.monitors_eq_nil hs)
    · exact h.error
    · exact h.error

theorem Sound.query (h : Sound s ps) : Sound (s.query i) ps := by
  unfold State.query
  split
  · exact h.error
  next x hx =>
    split_ifs
    · exact h.send fun y hy => hy ▸ hx
    · exact h.error

theorem Sound.delete (h : Sound s ps) : Sound (s.delete i) ps :=
  h.notify (fun z hz => by cases hz) (fun _ z hz => by cases hz) rfl

theorem Sound.update (h : Sound s ps) {v : Arg}
    (hpacks : s.monitors ≠ [] → ∀ x ∈ s.store, ∀ d ∈ v.data x.data, d.Packs) :
    Sound (s.update i v) ps := by
  unfold State.update
  split
  · exact h.error
  next x hx =>
    split
    · exact h.error
    next d hd =>
      refine h.notify (fun z hz => ?_) (fun hm z hz => ?_) rfl
      · obtain rfl := Option.some.inj hz
        refine ⟨h.lives x hx, fun y hy => ?_⟩
        have := hy.le x hx
        unfold Entry.Le at *
        simp only
        omega
      · obtain rfl := Option.some.inj hz
        exact hpacks hm x hx d hd

/-- The monitor waits with what is stored. -/
theorem Sound.park (h : Sound s ((i, e) :: ps)) {x y : Entry} (hx : s.store = some x)
    (hy : (s.clients i).entries[e]? = some y) (hle : x.Le y)
    (hcoming : ∀ z ∈ (s.clients i).coming, x.Le z) :
    Sound { s with monitors := s.monitors ++ [{ client := i, e }] } ps := by
  have hsound : Sound { s with monitors := s.monitors ++ [{ client := i, e }] } ((i, e) :: ps) := by
    refine ⟨fun j => ?_, fun j e' hc => ?_, fun m hm => ?_, h.lives⟩
    · refine (h.fits j).mono (fun x hx => ⟨hx.life, hx.le, hx.eq⟩) (fun _ hq => hq) fun m hm hj => ?_
      rcases List.mem_append.1 hm with hm | hm
      · exact (h.fits j).waits m hm hj
      · obtain rfl := List.mem_singleton.1 hm
        obtain rfl : i = j := hj
        obtain rfl := ((h.fits i).entries y (List.mem_of_getElem? hy)).eq x hx hle
        exact ⟨y, hx, hy, fun z hz => ((h.fits i).coming z hz).eq y hx (hcoming z hz)⟩
    · obtain ⟨hlt, hm⟩ := h.cached j e' hc
      refine ⟨hlt, hm.imp_right fun hm => hm.imp_right fun hm => hm.imp_left ?_⟩
      exact fun ⟨m, hm, hme⟩ => ⟨m, List.mem_append_left _ hm, hme⟩
    · rcases List.mem_append.1 hm with hm | hm
      · exact h.unsent m hm
      · rw [List.mem_singleton.1 hm]
  refine hsound.drop (.inr (.inr (.inl ⟨_, List.mem_append_right _ List.mem_cons_self, rfl, rfl⟩)))

/-- sharedatad answers a monitor, or lets it wait. -/
theorem Sound.monitor (h : Sound s ((i, e) :: ps)) {y : Entry}
    (hy : (s.clients i).entries[e]? = some y) (hle : (stamp version life).Le y)
    (hcoming : ∀ z ∈ (s.clients i).coming, (stamp version life).Le z)
    (htold : ∀ x ∈ s.store, if x.version = version then x.life = life else x.data.Packs) :
    Sound (s.monitor i e version) ps := by
  have hanswered : ∀ x, Sound (s.send [(i, .monitor e x)]) ((i, e) :: ps) →
      Sound (s.send [(i, .monitor e x)]) ps := fun x hx => by
    refine hx.drop (.inr (.inr (.inr (.inl ⟨x, ?_⟩))))
    simp [send_singleton, clients_setClient]
  unfold State.monitor
  split
  next => exact hanswered none (h.send fun x hx => by cases hx)
  next x hx =>
    replace htold := htold x hx
    by_cases hversion : x.version = version
    · rw [if_neg (not_not_intro hversion)]
      rw [if_pos hversion] at htold
      subst hversion htold
      exact h.park hx hy hle hcoming
    · rw [if_neg hversion] at htold
      rw [if_pos hversion, if_pos htold]
      exact hanswered (some x) (h.send fun z hz => hz ▸ hx)

/-- The entry a monitor's request has named. -/
def session : Request → List (ℕ × ℕ)
  | .monitor client e _ _ => [(client, e)]
  | .new _ _ | .query _ | .update _ _ | .delete _ => []

/-- A command is taken from the mailbox. -/
theorem Sound.pop (h : Sound s ps) {q : Request} {qs : List Request} (hq : s.inbox = q :: qs) :
    Sound { s with inbox := qs } (session q ++ ps) where
  fits i := (h.fits i).mono (fun x hx => ⟨hx.life, hx.le, hx.eq⟩)
    (fun _ hmem => hq ▸ List.mem_cons_of_mem _ hmem) (h.fits i).waits
  cached i e hc := by
    obtain ⟨hlt, hf | ⟨version, life, hi⟩ | hw | hr | hps⟩ := h.cached i e hc
    · exact ⟨hlt, .inl hf⟩
    · rcases List.mem_cons.1 (hq ▸ hi) with rfl | hi
      · exact ⟨hlt, .inr (.inr (.inr (.inr (List.mem_append_left _ List.mem_cons_self))))⟩
      · exact ⟨hlt, .inr (.inl ⟨version, life, hi⟩)⟩
    · exact ⟨hlt, .inr (.inr (.inl hw))⟩
    · exact ⟨hlt, .inr (.inr (.inr (.inl hr)))⟩
    · exact ⟨hlt, .inr (.inr (.inr (.inr (List.mem_append_right _ hps))))⟩
  unsent := h.unsent
  lives := h.lives

theorem Sound.serve (h : Sound s []) (htold : s.Answers s.inbox.head?) :
    Sound (s.serve s.inbox) [] := by
  rcases hq : s.inbox with - | ⟨q, qs⟩
  · exact h
  rw [hq] at htold
  have hpop := h.pop hq
  cases q with
  | new client v => exact hpop.new
  | query client => exact hpop.query
  | update client v => exact hpop.update htold
  | delete client => exact hpop.delete
  | monitor client e version life =>
    obtain ⟨y, hy, hle, hcoming⟩ := (h.fits client).asked e version life (hq ▸ List.mem_cons_self)
    exact hpop.monitor hy hle hcoming htold

/-- Requests that know no more than their client. -/
theorem Sound.post (h : Sound s ps) {qs : List Request}
    (hqs : ∀ i e version life, .monitor i e version life ∈ qs → ∃ x,
      (s.clients i).entries[e]? = some x ∧ (stamp version life).Le x) :
    Sound (s.post qs) ps where
  fits i := by
    have hfits := h.fits i
    refine ⟨fun x hx => ⟨(hfits.entries x hx).life, (hfits.entries x hx).le, (hfits.entries x hx).eq⟩,
      fun x hx => ⟨(hfits.coming x hx).life, (hfits.coming x hx).le, (hfits.coming x hx).eq⟩,
      hfits.newer, hfits.sorted, fun e version life hmem => ?_, hfits.waits⟩
    rcases List.mem_append.1 hmem with hmem | hmem
    · exact hfits.asked e version life hmem
    · obtain ⟨x, hx, hle⟩ := hqs i e version life hmem
      exact ⟨x, hx, hle, fun y hy =>
        hle.trans (hfits.newer x (List.mem_of_getElem? hx) y hy)⟩
  cached i e hc := by
    obtain ⟨hlt, hm⟩ := h.cached i e hc
    refine ⟨hlt, hm.imp_right fun hm => hm.imp_left ?_⟩
    exact fun ⟨version, life, hmem⟩ => ⟨version, life, List.mem_append_left _ hmem⟩
  unsent := h.unsent
  lives := h.lives

theorem Sound.post_other (h : Sound s ps) {q : Request} (hq : session q = []) :
    Sound (s.post [q]) ps := by
  refine h.post fun i e version life hmem => ?_
  rw [← List.mem_singleton.1 hmem] at hq
  cases hq

/-- A monitor goes on with a client that has what it needs, and asks again for what is cached. -/
theorem Sound.ask (h : Sound s ps) (hfits : s.Fits i c)
    (hlt : ∀ e, c.cache = some e → e < c.entries.length) :
    Sound ((s.setClient i c).post (c.monitor i)) ps := by
  rcases hcache : c.cache with - | e
  · have hmonitor : c.monitor i = [] := by
      unfold Client.monitor
      rw [hcache]
    rw [hmonitor]
    refine (h.setClient hfits fun e hc => ?_).post fun _ _ _ _ hmem => by cases hmem
    rw [hcache] at hc
    cases hc
  · obtain ⟨x, hget⟩ : ∃ x, c.entries[e]? = some x :=
      ⟨_, List.getElem?_eq_getElem (hlt e hcache)⟩
    have hmonitor : c.monitor i = [.monitor i e x.version x.life] := by
      unfold Client.monitor
      simp only [hcache, hget]
    have hset : Sound (s.setClient i c) ((i, e) :: ps) := by
      refine Sound.setClient ⟨h.fits, fun j e' hj => ?_, h.unsent, h.lives⟩ hfits fun e' hc => ?_
      · obtain ⟨hlt, hm⟩ := h.cached j e' hj
        exact ⟨hlt, hm.imp_right fun hm => hm.imp_right fun hm => hm.imp_right fun hm =>
          hm.imp_right fun hm => List.mem_cons_of_mem _ hm⟩
      · obtain rfl := Option.some.inj (hcache.symm.trans hc)
        exact ⟨hlt e hcache, .inr (.inr (.inr (.inr List.mem_cons_self)))⟩
    rw [hmonitor]
    refine (hset.post fun j e' version life hmem => ?_).drop
      (.inr (.inl ⟨_, _, List.mem_append_right _ List.mem_cons_self⟩))
    obtain ⟨rfl, rfl, rfl, rfl⟩ := Request.monitor.inj (List.mem_singleton.1 hmem)
    rw [clients_setClient, if_pos rfl]
    exact ⟨_, hget, .inr ⟨rfl, Nat.le_refl _⟩⟩

/-- A cache that is cleared needs nothing. -/
theorem Sound.uncache (h : Sound s ps) (hfits : s.Fits i c) :
    Sound (s.setClient i { c with cache := none }) ps :=
  h.setClient ⟨hfits.entries, hfits.coming, hfits.newer, hfits.sorted, hfits.asked, hfits.waits⟩
    fun e hc => by cases hc

theorem handle_monitor : c.handle i (.monitor e (some x)) =
    if x.data = .nil then ({ c with cache := none }, [])
    else ({ c with entries := c.entries.set e x },
      ({ c with entries := c.entries.set e x } : Client).monitor i) := rfl

theorem post_nil : s.post [] = s := by
  simp [State.post]

theorem Sound.receive (h : Sound s []) : Sound (s.receive i (s.clients i).mailbox) [] := by
  rcases hr : (s.clients i).mailbox with - | ⟨r, rs⟩
  · exact h
  have hfits := (h.fits i).tail hr
  -- the other monitors of the client are where they were
  have hkept : (∀ e x, r ≠ .monitor e x) → ∀ e, (s.clients i).cache = some e →
      e < (s.clients i).entries.length ∧
        s.Monitored [] i e { s.clients i with mailbox := rs } := fun hne e hc => by
    obtain ⟨hlt, hm⟩ := h.cached i e hc
    refine ⟨hlt, hm.imp_right fun hm => hm.imp_right fun hm => hm.imp_right fun hm =>
      hm.imp_left ?_⟩
    rintro ⟨x, hx⟩
    rcases List.mem_cons.1 (hr ▸ hx) with heq | hx
    · exact absurd heq.symm (hne e x)
    · exact ⟨x, hx⟩
  change Sound ((s.setClient i (Client.handle _ i r).1).post (Client.handle _ i r).2) []
  cases r with
  | new | error =>
    change Sound ((s.setClient i _).post []) []
    rw [post_nil]
    exact h.setClient hfits (hkept fun e x heq => by cases heq)
  | query x =>
    change Sound ((s.setClient i _).post []) []
    rw [post_nil]
    refine h.setClient (hfits.add ((h.fits i).head hr rfl)) fun e hc => ?_
    obtain rfl := Option.some.inj hc
    exact ⟨by simp [Client.handle], .inl (Nat.succ_pos _)⟩
  | update | delete =>
    change Sound ((s.setClient i _).post []) []
    rw [post_nil]
    exact h.uncache hfits
  | monitor e x =>
    rcases x with - | x
    · change Sound ((s.setClient i _).post []) []
      rw [post_nil]
      exact h.uncache hfits
    · rw [handle_monitor]
      split_ifs
      · rw [post_nil]
        exact h.uncache hfits
      · refine h.ask (hfits.set ((h.fits i).head hr rfl)) fun e' hc => ?_
        have hlt := (h.cached i e' hc).1
        simpa using hlt

theorem Sound.step (h : Sound s []) (htold : s.Told l) (hs : State.step s l = some s') :
    Sound s' [] := by
  obtain ⟨-, rfl⟩ := step_eq_some.1 hs
  cases l with
  | new client v | update client v | delete client => exact h.post_other rfl
  | query client =>
    simp only [exec]
    split
    · exact h
    · exact h.post_other rfl
  | flush client => exact h.uncache (h.fits client)
  | fork client =>
    have hfits := h.fits client
    exact h.ask (c := { s.clients client with forked := _ })
      ⟨hfits.entries, hfits.coming, hfits.newer, hfits.sorted, hfits.asked, hfits.waits⟩
      fun e hc => (h.cached client e hc).1
  | serve => exact h.serve htold
  | receive client => exact h.receive

theorem sound_reaches (h : Reaches step Told {} s) : Sound s [] :=
  h.invariant (I := fun s => Sound s []) sound_init fun _ _ _ _ hsound htold hs =>
    hsound.step htold hs

/-- When all is quiet, what is cached has a monitor that waits with it. -/
theorem Sound.waits (h : Sound s []) (hq : s.Quiet) (hc : (s.clients i).cache = some e) :
    ∃ x, (s.clients i).entries[e]? = some x ∧ s.store = some x := by
  obtain ⟨-, hf | ⟨_, _, hi⟩ | ⟨m, hm, hmi, rfl⟩ | ⟨x, hx⟩ | hps⟩ := h.cached i e hc
  · rw [hq.forked i] at hf
    cases hf
  · rw [hq.inbox] at hi
    cases hi
  · obtain ⟨x, hx, he, -⟩ := (h.fits i).waits m hm hmi
    exact ⟨x, he, hx⟩
  · rw [hq.mailbox i] at hx
    cases hx
  · cases hps

theorem Sound.consistent (h : Sound s []) : s.Consistent where
  cached hq i e hc _ := by
    obtain ⟨x, he, hx⟩ := h.waits hq hc
    exact ⟨x, x, he, hx, rfl, rfl⟩
  deleted hq hs i := by
    rcases hc : (s.clients i).cache with - | e
    · rfl
    · obtain ⟨x, -, hx⟩ := h.waits hq hc
      rw [hs] at hx
      cases hx

/-- As long as no monitor's version is that of another life of the name, and what a monitor is answered
can be packed, the clients have what is stored. -/
theorem consistent_of_told (h : Reaches step Told {} s) : s.Consistent :=
  (sound_reaches h).consistent

theorem consistent_after_update :
    (after step ({} : State) [.new 0 (.table 1), .serve, .receive 0, .query 1, .serve, .receive 1,
      .update 0 (.table 2), .serve, .fork 1, .serve, .receive 0, .receive 1, .serve]).Consistent :=
  consistent_of_told (reaches_after (by decide))

/-- A name is deleted and created again before a monitor of the old one gets to sharedatad. -/
theorem not_consistent_created_again : ∃ s, Reachable step {} s ∧ ¬ s.Consistent := by
  refine ⟨after step {} [.new 0 (.table 1), .serve, .receive 0, .query 1, .serve, .receive 1,
    .delete 0, .serve, .receive 0, .new 0 (.table 2), .serve, .receive 0, .fork 1, .serve],
    reachable_after (by decide), fun h => ?_⟩
  have hquiet : Quiet (after step ({} : State) [.new 0 (.table 1), .serve, .receive 0, .query 1,
      .serve, .receive 1, .delete 0, .serve, .receive 0, .new 0 (.table 2), .serve, .receive 0,
      .fork 1, .serve]) :=
    ⟨by decide, fun | 0 | 1 | _ + 2 => rfl, fun | 0 | 1 | _ + 2 => rfl⟩
  obtain ⟨x, y, hx, hy, hdata, -⟩ := h.cached hquiet 1 0 (by decide) (by decide)
  have hx : some (Entry.mk (.table 1) 1 1) = some x := hx
  have hy : some (Entry.mk (.table 2) 1 2) = some y := hy
  obtain rfl := Option.some.inj hx
  obtain rfl := Option.some.inj hy
  cases hdata

end State

end SharedData

end SkynetCpp
