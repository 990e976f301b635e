import SkynetCpp.Proofs.RedisReplies
import SkynetCpp.Proofs.RedisRequests
import SkynetCpp.RedisWatch

/-!
# The tables of a watch mirror what the server has

Every request is one command on the wire and every push is read as what it is, so that what is under
way are commands and pushes (`Linked`). The tables then are a mirror of the subscriptions that the
server has, which is made anew with each connection.
-/

namespace SkynetCpp

open Lib LuaString PubSub

namespace Redis

namespace Watch

variable {tostring : Value → Bytes} {str2d : Bytes → Option UInt64} {border : Fields → ℕ}

section Requests

variable {caches : Caches} {msg : Msg} {args : List Value}

theorem composeMessage_encode (h : caches.Faithful) (cmd : Bytes) (hmsg : Holds msg args) :
    (composeMessage tostring caches cmd msg).1.flatten
      = (Redis.request tostring cmd args).encode := by
  rw [← request_encode]
  rcases hmsg with ⟨v, rfl, rfl⟩ | ⟨item, rfl, hnil, hitem⟩
  · obtain ⟨hcommand, hf⟩ := commandAt_spec h cmd
    obtain ⟨hheader, -⟩ := headerAt_spec hf (tostring v).length
    have htwo : countText (([v].length : ℤ) + 1) = ascii "*2" := by
      rw [List.length_singleton]
      decide
    simp only [composeMessage, hcommand, hheader, List.flatten_cons, List.flatten_nil, htwo, chunk,
      List.append_nil, List.map_cons, List.map_nil, List.flatMap_cons, List.flatMap_nil,
      List.append_assoc]
    rfl
  · obtain ⟨hcount, hf⟩ := countAt_spec h (args.length + 1)
    obtain ⟨hcommand, hf'⟩ := commandAt_spec hf cmd
    have hitems := composeItems_flatten tostring args 1 hf' hnil fun k v hk => by
      rw [Int.add_comm]
      exact hitem k v hk
    simp only [composeMessage, Int.toNat_natCast, List.flatten_append, List.flatten_cons, hcount,
      hcommand, hitems, List.flatten_nil, List.append_nil, List.cons_append]
    rfl

theorem upper_funcName (kind : Kind) (add : Bool) :
    upper (funcName kind add) = commandName kind add := by
  cases kind <;> cases add <;> decide

theorem request_eq_toResp (kind : Kind) (add : Bool) (args : List Value) :
    Redis.request tostring (upper (funcName kind add)) args
      = Command.toResp ⟨kind, add, args.map tostring⟩ := by
  rw [Redis.request, upper_upper, upper_funcName, Command.toResp, strings, List.map_map]
  rfl

/-- A request is one command. -/
theorem send_spec {conn : Connection} (h : caches.Faithful) (kind : Kind) (add : Bool)
    (hmsg : Holds msg args) : ∃ caches', caches'.Faithful ∧
      send tostring (caches, conn) kind add msg = (caches', { conn with
        wire := conn.wire ++ (Command.toResp ⟨kind, add, args.map tostring⟩).encode }) := by
  refine ⟨_, faithful_composeMessage tostring h (upper (funcName kind add)) msg, ?_⟩
  rw [← request_eq_toResp, ← composeMessage_encode h _ hmsg]
  rfl

/-- The commands of a login. -/
def loginCommands (kind : Kind) (keys : List Bytes) : List Command :=
  keys.map fun k => ⟨kind, true, [k]⟩

theorem login_spec (hstring : ∀ s, tostring (.string s) = s) (kind : Kind) (keys : List Bytes)
    {conn : Connection} (h : caches.Faithful) : ∃ caches', caches'.Faithful ∧
      login tostring kind keys (caches, conn) = (caches', { conn with
        wire := conn.wire ++ (loginCommands kind keys).flatMap fun c => c.toResp.encode }) := by
  induction keys generalizing caches conn with
  | nil => exact ⟨caches, h, by simp [login, loginCommands]⟩
  | cons k keys ih =>
    obtain ⟨caches', h', hsend⟩ := @send_spec tostring _ _ _ conn h kind true
      (.inl ⟨.string k, rfl, rfl⟩)
    obtain ⟨caches'', h'', hlogin⟩ := @ih caches' (send tostring (caches, conn) kind true
      (.scalar (.string k))).2 h'
    refine ⟨caches'', h'', ?_⟩
    have hwire : conn.wire ++ (Command.toResp ⟨kind, true, [Value.string k].map tostring⟩).encode
        ++ (loginCommands kind keys).flatMap (fun c => c.toResp.encode)
        = conn.wire ++ (loginCommands kind (k :: keys)).flatMap fun c => c.toResp.encode := by
      rw [List.map_singleton, hstring, List.append_assoc]
      rfl
    rw [hsend, login] at hlogin
    rw [login, List.foldl_cons, hsend, hlogin, ← hwire]

theorem ops_loginCommands (kind : Kind) (keys : List Bytes) :
    (loginCommands kind keys).flatMap Command.ops = (keys.map (kind, ·)).map Mirror.Op.add := by
  rw [loginCommands, List.flatMap_map, List.map_map]
  exact List.flatMap_pure_eq_map (fun k => Mirror.Op.add (kind, k)) keys

end Requests

section Pushes

variable {tables : Tables}

/-- What the client makes of a push. -/
def heard (tables : Tables) : Push → Tables × Option (List Value)
  | .confirm kind add name _ => ((opOf kind add name).apply tables, none)
  | .deliver m => (tables, some (valuesOf m))

/-- A push that can be read. -/
def PushFits : Push → Prop
  | .confirm _ _ name count => name.length < 2 ^ 63 ∧ -2 ^ 63 ≤ count ∧ count < 2 ^ 63
  | .deliver m => PublicationFits m

theorem ok_toResp (p : Push) : ok p.toResp = true := by
  cases p with
  | confirm kind add name count => rfl
  | deliver m => cases m <;> rfl

theorem message_value (p : Push) (rest : Bytes) :
    message tables ⟨true, value border p.toResp, rest⟩ = heard tables p := by
  cases p with
  | confirm kind add name count => cases kind <;> cases add <;> rfl
  | deliver m => cases m <;> rfl

theorem clean_toResp (p : Push) : p.toResp.Clean := by
  cases p with
  | confirm kind add name count => exact ⟨trivial, trivial, trivial, trivial⟩
  | deliver m => cases m <;> exact ⟨trivial, trivial, trivial, by trivial⟩

theorem fits_toResp {p : Push} (h : PushFits p) : Fits p.toResp := by
  cases p with
  | confirm kind add name count =>
    refine ⟨show 3 < 2 ^ 63 by decide, show (replyName kind add).length < 2 ^ 63 from ?_, h.1, h.2,
      trivial⟩
    cases kind <;> cases add <;> decide
  | deliver m =>
    cases m with
    | message channel payload =>
      exact ⟨show 3 < 2 ^ 63 by decide, show (text "message").length < 2 ^ 63 by decide, h.1, h.2,
        trivial⟩
    | pmessage pattern channel payload =>
      exact ⟨show 4 < 2 ^ 63 by decide, show (text "pmessage").length < 2 ^ 63 by decide, h.1,
        h.2.1, h.2.2, trivial⟩

/-- A push is read as what it is. -/
theorem receive_push {p : Push} (h : PushFits p) (rest : Bytes) :
    ∃ reply, readResponse str2d border (p.toResp.encode ++ rest) = some reply ∧ reply.rest = rest
      ∧ message tables reply = heard tables p := by
  refine ⟨_, readResponse_encode str2d border (clean_toResp p) (fits_toResp h) rest, rfl, ?_⟩
  rw [ok_toResp]
  exact message_value p rest

end Pushes

section Invariant

variable {w w' : State}

/-- What is under way on a connection, which mirrors the server. -/
structure Linked (w : State) (conn : Connection) (cmds : List Command) (pushes : List Push) :
    Prop where
  wire : conn.wire = cmds.flatMap fun c => c.toResp.encode
  names : ∀ c ∈ cmds, c.names ≠ [] ∧ ∀ name ∈ c.names, name.length < 2 ^ 63
  back : conn.back = pushes.flatMap fun p => p.toResp.encode
  fits : ∀ p ∈ pushes, PushFits p
  mirror : Mirror.Inv w.tables conn.server (cmds.flatMap Command.ops) (pushes.filterMap Push.op)
  returned : w.pushed.map valuesOf
    = w.returned ++ (pushes.filterMap Push.publication).map valuesOf

structure Inv (w : State) : Prop where
  faithful : w.caches.Faithful
  keys : ∀ k ∈ w.tables, k.2.length < 2 ^ 63
  linked : ∀ conn, w.conn = some conn → ∃ cmds pushes, Linked w conn cmds pushes
  returned : w.returned <+: w.pushed.map valuesOf
  past : ∀ x ∈ w.past, x.2 <+: x.1.map valuesOf

theorem inv_start : Inv {} where
  faithful := by constructor <;> intro _ _ h <;> cases h
  keys := by
    intro k hk
    exact absurd hk (Finset.notMem_empty k)
  linked := by
    intro conn hconn
    cases hconn
  returned := List.nil_prefix
  past := by
    intro x hx
    cases hx

theorem Linked.encode_ne_nil {conn : Connection} {cmds : List Command} {pushes : List Push}
    (h : Linked w conn cmds pushes) :
    (conn.wire = [] → cmds = []) ∧ (conn.back = [] → pushes = []) := by
  constructor
  · intro hnil
    cases cmds with
    | nil => rfl
    | cons c cmds =>
      rw [h.wire, List.flatMap_cons] at hnil
      cases hnil
  · intro hnil
    cases pushes with
    | nil => rfl
    | cons p pushes =>
      rw [h.back, List.flatMap_cons] at hnil
      cases p with
      | confirm kind add name count => cases hnil
      | deliver m => cases m <;> cases hnil

theorem mem_keysOf {tables : Tables} {kind : Kind} {name : Bytes} :
    name ∈ keysOf tables kind ↔ (kind, name) ∈ tables := by
  simp [keysOf]

/-- The two lists together are the keys of the tables. -/
theorem toFinset_lists {tables : Tables} {patterns channels : List Bytes}
    (hp : Lists tables .pattern patterns) (hc : Lists tables .channel channels) :
    (patterns.map (Kind.pattern, ·) ++ channels.map (Kind.channel, ·)).toFinset = tables := by
  have hpattern {name : Bytes} : name ∈ patterns ↔ (Kind.pattern, name) ∈ tables := by
    rw [← mem_keysOf, ← hp.2, List.mem_toFinset]
  have hchannel {name : Bytes} : name ∈ channels ↔ (Kind.channel, name) ∈ tables := by
    rw [← mem_keysOf, ← hc.2, List.mem_toFinset]
  ext ⟨kind, name⟩
  cases kind <;> simp [hpattern, hchannel]

/-- The commands of the two loops. -/
theorem login_both (hstring : ∀ s, tostring (.string s) = s) {caches : Caches}
    (h : caches.Faithful) (patterns channels : List Bytes) : ∃ caches', caches'.Faithful ∧
      login tostring .channel channels (login tostring .pattern patterns (caches, {}))
        = (caches', ⟨(loginCommands .pattern patterns ++ loginCommands .channel channels).flatMap
          fun c => c.toResp.encode, [], ∅⟩) := by
  obtain ⟨caches', hf, hpattern⟩ := @login_spec tostring _ hstring .pattern patterns {} h
  obtain ⟨caches'', hf', hchannel⟩ := @login_spec tostring _ hstring .channel channels
    (login tostring .pattern patterns (caches, {})).2 hf
  refine ⟨caches'', hf', ?_⟩
  rw [hpattern] at hchannel
  rw [hpattern, hchannel, List.flatMap_append]
  rfl

theorem Inv.connect (hstring : ∀ s, tostring (.string s) = s) {patterns channels : List Bytes}
    (h : Inv w) (hs : connect tostring w patterns channels = some w') : Inv w' := by
  unfold Watch.connect at hs
  split_ifs at hs with hif
  obtain ⟨-, hp, hc⟩ := hif
  obtain ⟨caches', hf, hlogin⟩ := login_both hstring h.faithful patterns channels
  rw [hlogin] at hs
  cases hs
  have hkey {kind : Kind} {keys : List Bytes} (hl : Lists w.tables kind keys) :
      ∀ c ∈ loginCommands kind keys, c.names ≠ [] ∧ ∀ name ∈ c.names, name.length < 2 ^ 63 := by
    intro c hc
    obtain ⟨k, hk, rfl⟩ := List.mem_map.1 hc
    refine ⟨List.cons_ne_nil _ _, ?_⟩
    intro name hname
    rw [List.mem_singleton.1 hname]
    exact h.keys (kind, k) (mem_keysOf.1 (hl.2 ▸ List.mem_toFinset.2 hk))
  refine ⟨hf, h.keys, ?_, List.nil_prefix, ?_⟩
  · intro conn hconn
    cases hconn
    refine ⟨loginCommands .pattern patterns ++ loginCommands .channel channels, [], rfl, ?_, rfl,
      List.forall_mem_nil _, ?_, rfl⟩
    · intro c hmem
      rcases List.mem_append.1 hmem with hmem | hmem
      · exact hkey hp c hmem
      · exact hkey hc c hmem
    · show Mirror.Inv w.tables ∅ _ []
      rw [List.flatMap_append, ops_loginCommands, ops_loginCommands, ← List.map_append]
      exact .anew (toFinset_lists hp hc)
  · intro x hx
    rcases List.mem_append.1 hx with hx | hx
    · exact h.past x hx
    · rw [List.mem_singleton.1 hx]
      exact h.returned

theorem Inv.request {kind : Kind} {add : Bool} {msg : Msg} (h : Inv w)
    (hl : Keeps tostring w (.request kind add msg))
    (hs : request tostring w kind add msg = some w') : Inv w' := by
  obtain ⟨args, hne, hmsg, hlen⟩ := hl
  obtain ⟨conn, hconn, hs⟩ := Option.map_eq_some_iff.1 hs
  obtain ⟨cmds, pushes, hlinked⟩ := h.linked conn hconn
  obtain ⟨caches', hf, hsend⟩ := @send_spec tostring _ _ _ conn h.faithful kind add hmsg
  rw [hsend] at hs
  cases hs
  refine ⟨hf, h.keys, ?_, h.returned, h.past⟩
  intro conn' hconn'
  cases hconn'
  refine ⟨cmds ++ [⟨kind, add, args.map tostring⟩], pushes, { hlinked with
    wire := ?_
    names := ?_
    mirror := ?_ }⟩
  · rw [hlinked.wire, List.flatMap_append, List.flatMap_singleton]
  · intro c hc
    rcases List.mem_append.1 hc with hc | hc
    · exact hlinked.names c hc
    · rw [List.mem_singleton.1 hc]
      exact ⟨by simpa using hne, List.forall_mem_map.2 hlen⟩
  · rw [List.flatMap_append]
    exact hlinked.mirror.ask _

theorem Inv.serve {count : Bytes → ℤ} (h : Inv w) (hl : Keeps tostring w (.serve count))
    (hs : serve w count = some w') : Inv w' := by
  obtain ⟨conn, hconn, hs⟩ := Option.bind_eq_some_iff.1 hs
  obtain ⟨cmds, pushes, hlinked⟩ := h.linked conn hconn
  cases cmds with
  | nil =>
    rw [hlinked.wire] at hs
    cases hs
  | cons c cmds =>
    obtain ⟨hnames, hrest⟩ := List.forall_mem_cons.1 hlinked.names
    have hmirror := hlinked.mirror
    rw [List.flatMap_cons] at hmirror
    rw [hlinked.wire, List.flatMap_cons, takeCommand_encode hnames.1] at hs
    cases hs
    refine ⟨h.faithful, h.keys, ?_, h.returned, h.past⟩
    intro conn' hconn'
    cases hconn'
    refine ⟨cmds, pushes ++ c.confirmations count, { hlinked with
      wire := rfl
      names := hrest
      back := ?_
      fits := ?_
      mirror := ?_
      returned := ?_ }⟩
    · rw [hlinked.back, List.flatMap_append]
    · intro p hp
      rcases List.mem_append.1 hp with hp | hp
      · exact hlinked.fits p hp
      · obtain ⟨name, hname, rfl⟩ := List.mem_map.1 hp
        exact ⟨hnames.2 name hname, hl name⟩
    · rw [List.filterMap_append, filterMap_op_confirmations]
      exact hmirror.serveAll
    · rw [List.filterMap_append, filterMap_publication_confirmations, List.append_nil]
      exact hlinked.returned

theorem Inv.publish {m : Publication} (h : Inv w) (hm : PublicationFits m)
    (hs : publish w m = some w') : Inv w' := by
  obtain ⟨conn, hconn, hs⟩ := Option.map_eq_some_iff.1 hs
  obtain ⟨cmds, pushes, hlinked⟩ := h.linked conn hconn
  cases hs
  refine ⟨h.faithful, h.keys, ?_, ?_, h.past⟩
  · intro conn' hconn'
    cases hconn'
    refine ⟨cmds, pushes ++ [.deliver m], { hlinked with
      back := ?_
      fits := ?_
      mirror := ?_
      returned := ?_ }⟩
    · rw [hlinked.back, List.flatMap_append, List.flatMap_singleton]
      rfl
    · intro p hp
      rcases List.mem_append.1 hp with hp | hp
      · exact hlinked.fits p hp
      · rw [List.mem_singleton.1 hp]
        exact hm
    · rw [List.filterMap_append]
      exact (List.append_nil _).symm ▸ hlinked.mirror
    · rw [List.map_append, hlinked.returned, List.filterMap_append, List.map_append,
        List.append_assoc]
      rfl
  · exact h.returned.trans (by rw [List.map_append]; exact List.prefix_append _ _)

theorem keys_apply {tables : Tables} (h : ∀ k ∈ tables, k.2.length < 2 ^ 63) {kind : Kind}
    {add : Bool} {name : Bytes} (hname : name.length < 2 ^ 63) :
    ∀ k ∈ (opOf kind add name).apply tables, k.2.length < 2 ^ 63 := by
  intro k hk
  cases add with
  | true =>
    rcases Finset.mem_insert.1 hk with rfl | hk
    · exact hname
    · exact h k hk
  | false => exact h k (Finset.mem_of_mem_erase hk)

theorem Inv.receive (h : Inv w) (hs : receive w str2d border = some w') : Inv w' := by
  obtain ⟨conn, hconn, hs⟩ := Option.bind_eq_some_iff.1 hs
  obtain ⟨cmds, pushes, hlinked⟩ := h.linked conn hconn
  cases pushes with
  | nil =>
    rw [hlinked.back] at hs
    cases hs
  | cons p pushes =>
    obtain ⟨hp, hrest⟩ := List.forall_mem_cons.1 hlinked.fits
    obtain ⟨reply, hread, hreply, hmessage⟩ := @receive_push str2d border w.tables p hp
      (pushes.flatMap fun p => p.toResp.encode)
    have hmirror := hlinked.mirror
    have hreturned := hlinked.returned
    rw [hlinked.back, List.flatMap_cons, hread, Option.bind_eq_bind, Option.bind_some,
      hmessage] at hs
    cases hs
    cases p with
    | confirm kind add name count =>
      refine ⟨h.faithful, keys_apply h.keys hp.1, ?_, ?_, h.past⟩
      · intro conn' hconn'
        cases hconn'
        exact ⟨cmds, pushes, { hlinked with
          back := hreply
          fits := hrest
          mirror := hmirror.follow
          returned := (List.append_nil w.returned).symm ▸ hreturned }⟩
      · exact (List.append_nil w.returned).symm ▸ h.returned
    | deliver m =>
      have hnext : w.pushed.map valuesOf = (w.returned ++ [valuesOf m])
          ++ (pushes.filterMap Push.publication).map valuesOf := by
        rw [hreturned, List.append_assoc]
        rfl
      refine ⟨h.faithful, h.keys, ?_, ?_, h.past⟩
      · intro conn' hconn'
        cases hconn'
        exact ⟨cmds, pushes, { hlinked with
          back := hreply
          fits := hrest
          mirror := hmirror
          returned := hnext }⟩
      · exact ⟨_, hnext.symm⟩

theorem Inv.step (hstring : ∀ s, tostring (.string s) = s) {l : Label} (h : Inv w)
    (hl : Keeps tostring w l) (hs : step tostring str2d border w l = some w') : Inv w' := by
  cases l with
  | connect patterns channels => exact h.connect hstring hs
  | drop =>
    cases hs
    refine ⟨h.faithful, h.keys, ?_, h.returned, h.past⟩
    intro conn hconn
    cases hconn
  | request kind add msg => exact h.request hl hs
  | elsewhere l =>
    obtain ⟨caches', hcaches, rfl⟩ := Option.map_eq_some_iff.1 hs
    refine ⟨faithful_step tostring h.faithful hcaches, h.keys, ?_, h.returned, h.past⟩
    intro conn hconn
    obtain ⟨cmds, pushes, hlinked⟩ := h.linked conn hconn
    exact ⟨cmds, pushes, { hlinked with }⟩
  | serve count => exact h.serve hl hs
  | publish m => exact h.publish hl hs
  | receive => exact h.receive hs

theorem Inv.exact (h : Inv w) : Exact str2d border w where
  converges := by
    intro conn hconn
    obtain ⟨cmds, pushes, hlinked⟩ := h.linked conn hconn
    exact ⟨cmds, pushes, hlinked.wire, hlinked.back, hlinked.mirror.converges⟩
  settled := by
    intro conn hconn hwire hback
    obtain ⟨cmds, pushes, hlinked⟩ := h.linked conn hconn
    have hmirror := hlinked.mirror
    rw [hlinked.encode_ne_nil.1 hwire, hlinked.encode_ne_nil.2 hback] at hmirror
    exact hmirror.settled
  serves := by
    intro conn count hconn hwire
    obtain ⟨cmds, pushes, hlinked⟩ := h.linked conn hconn
    cases cmds with
    | nil => exact absurd hlinked.wire hwire
    | cons c cmds =>
      have hnames := hlinked.names c List.mem_cons_self
      rw [Watch.serve, hconn, Option.bind_eq_bind, Option.bind_some, hlinked.wire,
        List.flatMap_cons, takeCommand_encode hnames.1]
      rfl
  receives := by
    intro conn hconn hback
    obtain ⟨cmds, pushes, hlinked⟩ := h.linked conn hconn
    cases pushes with
    | nil => exact absurd hlinked.back hback
    | cons p pushes =>
      obtain ⟨reply, hread, -, -⟩ := @receive_push str2d border w.tables p
        (hlinked.fits p List.mem_cons_self) (pushes.flatMap fun p => p.toResp.encode)
      rw [Watch.receive, hconn, Option.bind_eq_bind, Option.bind_some, hlinked.back,
        List.flatMap_cons, hread]
      rfl
  returned := h.returned
  complete := by
    intro conn hconn hback
    obtain ⟨cmds, pushes, hlinked⟩ := h.linked conn hconn
    have hreturned := hlinked.returned
    rw [hlinked.encode_ne_nil.2 hback] at hreturned
    exact (hreturned.trans (List.append_nil _)).symm
  past := h.past

end Invariant

section Example

def stringOf : Value → Bytes
  | .string s => s
  | _ => []

/-- A subscription that is confirmed, and asked for again on the next connection. -/
def newsLabels : List Label :=
  [.connect [] [], .request .channel true (.scalar (.string (ascii "news"))), .serve fun _ => 1,
    .receive, .drop, .connect [] [ascii "news"]]

def newsAfter (n : ℕ) : State :=
  after (step stringOf (fun _ => none) fun _ => 0) {} (newsLabels.take n)

end Example

end Watch

end Redis

end SkynetCpp
