import SkynetCpp.ClusterConnection
import SkynetCpp.Proofs.Clusterd
import SkynetCpp.Proofs.Socket

/-!
# What is left of a connection

The end of `read_loop` cleans up, but an error of `unpackrequest` does not get there; `socket.close`
no longer finds a connection whose close event was dispatched; and a `dispatch_request` that was
forked and has not begun makes the entry again (`cleaned_iff_tidy`). Without these, every connection
is closed and has no entry once its `read_loop` has ended (`cleaned_of_tidy`).
-/

namespace SkynetCpp

open Lib

namespace Clusterd

open Cluster SocketDriver

namespace Connection

namespace State

variable {env : Env} {d : Driver} {listenerId connId c : ℤ} {s s' : State} {l : Label}

theorem step_eq_some : step env listenerId connId s l = some s'
    ↔ s.Enabled connId l ∧ s.exec listenerId connId env l = s' := by
  unfold step
  split_ifs with h <;> simp [h]

/-! ## What is done for another connection -/

section Other

theorem connections_update (f : ℤ → ℤ → Bool) (l : ℤ) (b : Bool) (h : c ≠ connId) :
    Function.update f l (Function.update (f l) c b) listenerId connId = f listenerId connId := by
  by_cases hl : listenerId = l
  · subst hl
    rw [Function.update_self, Function.update_of_ne h.symm]
  · rw [Function.update_of_ne hl]

/-- The driver has the same of the connection. -/
def SameIn (listenerId connId : ℤ) (d d' : Driver) : Prop :=
  d'.tcp (.accepted listenerId connId) = d.tcp (.accepted listenerId connId)
    ∧ d'.connections listenerId connId = d.connections listenerId connId

theorem sameIn_accept (d : Driver) (l : ℤ) (h : c ≠ connId) :
    SameIn listenerId connId d (d.accept l c) := by
  have hne : TcpId.accepted listenerId connId ≠ .accepted l c := by simp [h.symm]
  exact ⟨Socket.tcp_openTcp_of_ne d hne, connections_update d.connections l true h⟩

theorem sameIn_close (d : Driver) (id : ℤ) : SameIn listenerId connId d (d.close id) :=
  ⟨Socket.tcp_close_accepted .., by rw [Socket.connections_close]⟩

theorem sameIn_socketClose (d : Driver) (l : Option ℤ) (h : c ≠ connId) :
    SameIn listenerId connId d (socketClose d l c) := by
  cases l with
  | none => exact sameIn_close d c
  | some l =>
    have hne : TcpId.accepted listenerId connId ≠ .accepted l c := by simp [h.symm]
    show SameIn listenerId connId d (d.closeAccepted l c)
    unfold Driver.closeAccepted Driver.closeConnection
    split_ifs
    · exact ⟨Socket.tcp_closeTcp_of_ne d hne, connections_update d.connections l false h⟩
    · exact ⟨rfl, rfl⟩
    · exact ⟨rfl, rfl⟩

variable (env) in
/-- `dispatch_request` sets the entry of its session. -/
theorem exists_setEntry (c : ℤ) (large : LargeRequests) (r : Request) :
    ∃ req, (dispatchRequest env c large r).1 = setEntry large c r.session req := by
  unfold dispatchRequest
  simp only []
  split
  · exact ⟨_, rfl⟩
  · split <;> exact ⟨_, rfl⟩

theorem large_dispatchRequest_of_ne (large : LargeRequests) (r : Request) (h : c ≠ connId) :
    (dispatchRequest env c large r).1 connId = large connId := by
  obtain ⟨req, hreq⟩ := exists_setEntry env c large r
  rw [hreq]
  exact Function.update_of_ne h.symm ..

theorem large_dispatchRequest_self (large : LargeRequests) (r : Request) :
    (dispatchRequest env connId large r).1 connId ≠ none := by
  obtain ⟨req, hreq⟩ := exists_setEntry env connId large r
  rw [hreq, setEntry, Function.update_self]
  exact Option.some_ne_none _

end Other

/-! ## Steps -/

/-- The driver has the connection, open, until `read_loop` ends. -/
def Alive (listenerId connId : ℤ) (s : State) : Prop :=
  s.reader ≠ .ended → s.driver.tcp (.accepted listenerId connId) = some false
    ∧ s.driver.connections listenerId connId = true

/-- All is done that there is to do for the connection. -/
structure Gone (listenerId connId : ℤ) (s : State) : Prop where
  closed : s.driver.tcp (.accepted listenerId connId) = some true
  large : s.large connId = none
  forks : s.forks = []

/-- `read_loop` does not end here. -/
structure Quiet (listenerId connId : ℤ) (s s' : State) : Prop where
  driver : SameIn listenerId connId s.driver s'.driver
  ended : s'.reader = .ended ↔ s.reader = .ended
  gone : Gone listenerId connId s → Gone listenerId connId s'

theorem alive_init : Alive listenerId connId (init d listenerId connId) := fun _ =>
  ⟨Socket.tcp_openTcp_self d _,
    (congrFun (Function.update_self ..) connId).trans (Function.update_self ..)⟩

theorem Quiet.alive (h : Quiet listenerId connId s s') (ha : Alive listenerId connId s) :
    Alive listenerId connId s' := by
  intro hne
  rw [h.driver.1, h.driver.2]
  exact ha (mt h.ended.2 hne)

theorem quiet_execOther (s : State) (o : Other) (h : c ≠ connId) :
    Quiet listenerId connId s (s.execOther c env o) := by
  have hclear : Function.update s.large c none connId = s.large connId :=
    Function.update_of_ne h.symm ..
  cases o with
  | accepts l =>
    have hd : SameIn listenerId connId s.driver (s.driver.accept l c) := sameIn_accept s.driver l h
    exact ⟨hd, .rfl, fun hg => ⟨hd.1.trans hg.closed, hg.large, hg.forks⟩⟩
  | dispatch r =>
    exact ⟨⟨rfl, rfl⟩, .rfl, fun hg =>
      ⟨hg.closed, (large_dispatchRequest_of_ne s.large r h).trans hg.large, hg.forks⟩⟩
  | closeEvent =>
    exact ⟨⟨rfl, rfl⟩, .rfl, fun hg => ⟨hg.closed, hclear.trans hg.large, hg.forks⟩⟩
  | ends l =>
    have hd : SameIn listenerId connId s.driver (socketClose s.driver l c) :=
      sameIn_socketClose s.driver l h
    exact ⟨hd, .rfl, fun hg => ⟨hd.1.trans hg.closed, hclear.trans hg.large, hg.forks⟩⟩

theorem got_of_raises {r : Want × Option Bytes} (h : raises r = true) :
    s.got listenerId connId r.1 r.2 = { s with reader := .ended } := by
  obtain ⟨want, _ | data⟩ := r
  · cases want <;> cases h
  · cases want with
    | header => cases h
    | packet sz =>
      simp only [raises] at h
      cases hu : unpackrequest data with
      | ok r => rw [hu] at h; cases h
      | error err => simp only [got, hu]

theorem got_of_breaks {r : Want × Option Bytes} (h : breaks r = true) :
    s.got listenerId connId r.1 r.2 = s.finish listenerId connId := by
  obtain ⟨want, _ | data⟩ := r
  · cases want <;> rfl
  · cases want with
    | header => exact if_pos (by simpa [breaks] using h)
    | packet sz => cases h

theorem got_of_not {r : Want × Option Bytes} (hr : raises r = false) (hb : ¬ breaks r = true) :
    ∃ want forks, s.got listenerId connId r.1 r.2 = { s with reader := .running want, forks } := by
  obtain ⟨want, _ | data⟩ := r
  · exact absurd rfl hb
  · cases want with
    | header => exact ⟨_, s.forks, if_neg (by simpa [breaks] using hb)⟩
    | packet sz =>
      simp only [raises] at hr
      cases hu : unpackrequest data with
      | ok r => exact ⟨.header, s.forks ++ [r], by simp only [got, hu]⟩
      | error err => rw [hu] at hr; cases hr

variable (env listenerId connId) in
/-- `read_loop` takes what is returned to it. -/
theorem exec_returned {r : Want × Option Bytes} (h : s.returned l = some r) :
    ∃ n, s.exec listenerId connId env l
      = { s with buffer := s.buffer.map (List.drop n) }.got listenerId connId r.1 r.2 := by
  have hzero : { s with buffer := s.buffer.map (List.drop 0) } = s := by
    obtain ⟨_, buffer, _⟩ := s
    cases buffer <;> simp
  cases l with
  | read =>
    simp only [returned] at h
    split at h
    · rename_i want hr
      obtain ⟨result, ha, rfl⟩ := Option.map_eq_some_iff.1 h
      exact ⟨want.size, by simp only [exec, hr, ha]⟩
    · cases h
  | resume =>
    simp only [returned] at h
    split at h
    · rename_i want result hr
      cases h
      exact ⟨0, by rw [hzero]; simp only [exec, hr]⟩
    · cases h
  | interrupt =>
    simp only [returned] at h
    split at h
    · rename_i want hr
      cases h
      exact ⟨0, by rw [hzero]; simp only [exec, hr]⟩
    · cases h
  | start | data _ | closeEvent | dispatch | other _ _ => cases h

variable (env listenerId) in
theorem quiet_exec (he : s.Enabled connId l) (h : s.returned l = none) :
    Quiet listenerId connId s (s.exec listenerId connId env l) := by
  have hrefl : Quiet listenerId connId s s := ⟨⟨rfl, rfl⟩, .rfl, id⟩
  have hmoved : ∀ {s' : State}, s'.driver = s.driver → s'.large = s.large → s'.forks = s.forks →
      s'.reader ≠ .ended → s.reader ≠ .ended → Quiet listenerId connId s s' :=
    fun hd hl hf hr' hr => ⟨by rw [hd]; exact ⟨rfl, rfl⟩, iff_of_false hr' hr,
      fun hg => ⟨by rw [hd, hg.closed], by rw [hl, hg.large], hf.trans hg.forks⟩⟩
  cases l with
  | start => exact hmoved rfl rfl rfl nofun (by rw [show s.reader = .forked from he]; nofun)
  | read =>
    simp only [exec]
    split
    · rename_i want hr
      simp only [returned, hr, Option.map_eq_none_iff] at h
      simp only [h]
      exact hmoved rfl rfl rfl nofun (by rw [hr]; nofun)
    · exact hrefl
  | data chunk =>
    simp only [exec]
    split
    · rename_i buffer want hb hr
      split
      · exact ⟨⟨rfl, rfl⟩, .rfl, fun hg => ⟨hg.closed, hg.large, hg.forks⟩⟩
      · exact hmoved rfl rfl rfl nofun (by rw [hr]; nofun)
    · exact ⟨⟨rfl, rfl⟩, .rfl, fun hg => ⟨hg.closed, hg.large, hg.forks⟩⟩
    · exact hrefl
  | closeEvent =>
    have hclear : Function.update s.large connId none connId = none := Function.update_self ..
    simp only [exec]
    split
    · rename_i buffer want hb hr
      exact ⟨⟨rfl, rfl⟩, iff_of_false nofun (by rw [hr]; nofun),
        fun hg => ⟨hg.closed, hclear, hg.forks⟩⟩
    · exact ⟨⟨rfl, rfl⟩, .rfl, fun hg => ⟨hg.closed, hclear, hg.forks⟩⟩
  | resume =>
    simp only [exec]
    split
    · rename_i want result hr
      simp [returned, hr] at h
    · exact hrefl
  | interrupt =>
    simp only [exec]
    split
    · rename_i want hr
      simp [returned, hr] at h
    · exact hrefl
  | dispatch =>
    simp only [exec]
    split
    · rename_i r forks hf
      exact ⟨⟨rfl, rfl⟩, .rfl, fun hg => by rw [hg.forks] at hf; cases hf⟩
    · exact hrefl
  | other c o => exact quiet_execOther s o he.1

/-! ## Ends -/

theorem returned_of_ended (h : s.reader = .ended) (l : Label) : s.returned l = none := by
  cases l <;> simp only [returned, h]

/-- `socket.close` closes a connection that it finds. -/
theorem gone_finish (ha : Alive listenerId connId s) (hne : s.reader ≠ .ended)
    (hc : s.Closable listenerId) (hf : s.forks = []) :
    Gone listenerId connId (s.finish listenerId connId) := by
  obtain ⟨htcp, hconn⟩ := ha hne
  obtain ⟨buffer, hb⟩ := Option.isSome_iff_exists.1 hc.1
  refine ⟨?_, Function.update_self .., hf⟩
  simp only [finish, hb, Option.map_some, socketClose, Driver.closeAccepted,
    Driver.closeConnection, if_pos hc.2, if_pos hconn]
  exact (Function.update_self ..).trans (by rw [htcp]; rfl)

/-- It leaves one open that it does not find. -/
theorem tcp_finish (ha : Alive listenerId connId s) (hne : s.reader ≠ .ended)
    (hc : ¬ s.Closable listenerId) :
    (s.finish listenerId connId).driver.tcp (.accepted listenerId connId) = some false := by
  obtain ⟨htcp, -⟩ := ha hne
  unfold Closable at hc
  cases hb : s.buffer with
  | none =>
    simp only [finish, hb, Option.map_none, socketClose]
    rw [Socket.tcp_close_accepted, htcp]
  | some buffer =>
    rw [hb] at hc
    simp only [finish, hb, Option.map_some, socketClose, Driver.closeAccepted]
    rw [if_neg fun h => hc ⟨rfl, h⟩, htcp]

theorem closable_drop (n : ℕ) : { s with buffer := s.buffer.map (List.drop n) }.Closable listenerId
    ↔ s.Closable listenerId := by
  unfold Closable
  rw [Option.isSome_map]

theorem alive_exec (he : s.Enabled connId l) (ha : Alive listenerId connId s) :
    Alive listenerId connId (s.exec listenerId connId env l) := by
  rcases hr : s.returned l with _ | r
  · exact (quiet_exec env listenerId he hr).alive ha
  have hne : s.reader ≠ .ended := fun h => by
    rw [returned_of_ended h] at hr
    cases hr
  obtain ⟨n, hn⟩ := exec_returned env listenerId connId hr
  rw [hn]
  by_cases hraises : raises r = true
  · rw [got_of_raises hraises]
    exact fun h => absurd rfl h
  by_cases hbreaks : breaks r = true
  · rw [got_of_breaks hbreaks]
    exact fun h => absurd rfl h
  · obtain ⟨want, forks, hgot⟩ := got_of_not (Bool.eq_false_iff.2 hraises) hbreaks
    rw [hgot]
    exact fun _ => ha hne

/-- The connection is open until its `read_loop` ends, and all is done for it then. -/
structure Sound (listenerId connId : ℤ) (s : State) : Prop where
  alive : Alive listenerId connId s
  gone : s.reader = .ended → Gone listenerId connId s

variable (env) in
theorem sound_exec (he : s.Enabled connId l) (h : Sound listenerId connId s)
    (ht : s.Tidy listenerId l) : Sound listenerId connId (s.exec listenerId connId env l) := by
  refine ⟨alive_exec he h.alive, ?_⟩
  rcases hr : s.returned l with _ | r
  · have hq := quiet_exec env listenerId he hr
    exact fun hend => hq.gone (h.gone (hq.ended.1 hend))
  have hne : s.reader ≠ .ended := fun h => by
    rw [returned_of_ended h] at hr
    cases hr
  obtain ⟨n, hn⟩ := exec_returned env listenerId connId hr
  obtain ⟨hraises, hbreak⟩ := ht r hr
  rw [hn]
  by_cases hbreaks : breaks r = true
  · obtain ⟨hc, hf⟩ := hbreak hbreaks
    rw [got_of_breaks hbreaks]
    exact fun _ => gone_finish h.alive hne ((closable_drop n).2 hc) hf
  · obtain ⟨want, forks, hgot⟩ := got_of_not hraises hbreaks
    rw [hgot]
    exact nofun

theorem Sound.cleaned (h : Sound listenerId connId s) : s.Cleaned listenerId connId := fun hend =>
  ⟨(h.gone hend).closed, (h.gone hend).large⟩

/-- In a run whose every step is tidy, a connection whose `read_loop` has ended is closed, and has
no entry. -/
theorem cleaned_of_tidy (env : Env) (d : Driver) (listenerId connId : ℤ) (s : State)
    (h : Reaches (step env listenerId connId) (fun s l => s.Tidy listenerId l)
      (init d listenerId connId) s) : s.Cleaned listenerId connId := by
  have h0 : Sound listenerId connId (init d listenerId connId) := ⟨alive_init, nofun⟩
  refine (h.invariant h0 fun s l s' _ hi ht hs => ?_).cleaned
  obtain ⟨he, rfl⟩ := step_eq_some.1 hs
  exact sound_exec env he hi ht

/-! ## The condition is exact -/

theorem alive_of_reachable
    (h : Reachable (step env listenerId connId) (init d listenerId connId) s) :
    Alive listenerId connId s := by
  refine h.invariant alive_init fun s l s' _ hi _ hs => ?_
  obtain ⟨he, rfl⟩ := step_eq_some.1 hs
  exact alive_exec he hi

/-- What was cleaned up stays so. -/
theorem gone_of_reachable (h : Reachable (step env listenerId connId) s s')
    (hend : s.reader = .ended) (hg : Gone listenerId connId s) : Gone listenerId connId s' := by
  refine (h.invariant (I := fun s => s.reader = .ended ∧ Gone listenerId connId s) ⟨hend, hg⟩
    fun s l s' _ hi _ hs => ?_).2
  obtain ⟨he, rfl⟩ := step_eq_some.1 hs
  have hq := quiet_exec env listenerId he (returned_of_ended hi.1 l)
  exact ⟨hq.ended.2 hi.1, hq.gone hi.2⟩

/-- A forked `dispatch_request` makes an entry, also when `read_loop` has ended. -/
theorem exists_step_dispatch (hend : s.reader = .ended) (hf : s.forks ≠ []) :
    ∃ s', step env listenerId connId s .dispatch = some s' ∧ s'.large connId ≠ none
      ∧ s'.reader = .ended := by
  obtain ⟨r, forks, hforks⟩ := List.exists_cons_of_ne_nil hf
  have he : s.Enabled connId .dispatch := ⟨hf, by rw [hend]; nofun⟩
  refine ⟨_, step_eq_some.2 ⟨he, rfl⟩, ?_⟩
  simp only [exec, hforks]
  exact ⟨large_dispatchRequest_self s.large r, hend⟩

/-- Of a step that ends `read_loop`: if and only if it is tidy, the connection is closed and has no
entry then and ever after. -/
theorem cleaned_iff_tidy (ha : Alive listenerId connId s) (hne : s.reader ≠ .ended)
    (hs : step env listenerId connId s l = some s') (hend : s'.reader = .ended) :
    (∀ s'', Reachable (step env listenerId connId) s' s'' → s''.Cleaned listenerId connId)
      ↔ s.Tidy listenerId l := by
  obtain ⟨he, rfl⟩ := step_eq_some.1 hs
  constructor
  · intro h r hr
    obtain ⟨n, hn⟩ := exec_returned env listenerId connId hr
    have ha' : Alive listenerId connId { s with buffer := s.buffer.map (List.drop n) } := ha
    rw [hn] at h hend
    obtain ⟨hclosed, -⟩ := h _ .refl hend
    refine ⟨Bool.eq_false_iff.2 fun hraises => ?_, fun hbreaks => ⟨?_, ?_⟩⟩
    · rw [got_of_raises hraises, (ha' hne).1] at hclosed
      cases hclosed
    · by_contra hc
      rw [got_of_breaks hbreaks, tcp_finish ha' hne (mt (closable_drop n).1 hc)] at hclosed
      cases hclosed
    · by_contra hf
      rw [got_of_breaks hbreaks] at h hend
      obtain ⟨s'', hs'', hlarge, hend''⟩ := exists_step_dispatch hend hf
      exact hlarge (h s'' (.tail .refl trivial hs'') hend'').2
  · intro ht s'' h''
    have hsound := sound_exec env he ⟨ha, fun h => absurd h hne⟩ ht
    have hg := gone_of_reachable h'' hend (hsound.gone hend)
    exact fun _ => ⟨hg.closed, hg.large⟩

/-! ## Runs -/

section Runs

/-- The driver of a service that listens. -/
def listening : Driver := Driver.init.alloc .listener

/-- A call, whose `dispatch_request` begins, and then a header of size zero. -/
def tidyRun : List Label :=
  [.start, .read, .data callEight.packets.flatten, .resume, .read, .read, .dispatch,
    .data [0, 0], .resume]

theorem cleaned_tidyRun :
    (after (step echoEnv 1 1) (init listening 1 1) tidyRun).Cleaned 1 1 :=
  cleaned_of_tidy echoEnv listening 1 1 _ (reaches_after (by decide))

/-- A packet of a type that there is not. -/
def raisingRun : List Label := [.start, .read, .data [0, 1, 5], .resume, .read]

/-- `unpackrequest` raises, and nobody closes the connection. -/
theorem raised_left_open : ¬ ∀ (env : Env) (d : Driver) (listenerId connId : ℤ) (s : State),
    Reachable (step env listenerId connId) (init d listenerId connId) s →
    s.Cleaned listenerId connId := by
  intro h
  have hend : (after (step echoEnv 1 1) (init listening 1 1) raisingRun).reader = .ended := by
    decide
  have hopen : (after (step echoEnv 1 1) (init listening 1 1) raisingRun).driver.tcp
      (.accepted 1 1) = some false := by decide
  obtain ⟨hclosed, -⟩ := h echoEnv listening 1 1 _ (reachable_after (by decide)) hend
  rw [hopen] at hclosed
  cases hclosed

end Runs

end State

end Connection

end Clusterd

end SkynetCpp
