import SkynetCpp.MysqlSession
import SkynetCpp.Proofs.Mysql
import SkynetCpp.Proofs.MysqlReplies

/-!
# Sessions with a MySQL server

A server reads each request as the call it is, and each reply is read as the answer it is, so that
a session is a lawful pipeline. What has to be known of a statement, how many parameters it has, is
known from its preparation.
-/

namespace SkynetCpp

open Lib LuaString MysqlBinary MysqlCommands

namespace Mysql

section Requests

variable {payload rest : Bytes} {count : ℕ → Option ℕ}

theorem takeCommand_packet {number : ℕ} (hlen : payload.length < 2 ^ 24) :
    takeCommand count (MysqlReplies.packet number payload ++ rest)
      = (decodeCommand count payload).map fun command => (command, rest) := by
  rw [MysqlReplies.packet, List.append_assoc, List.append_assoc, takeCommand,
    takeInt_le (by omega), List.singleton_append]
  simp only [Option.bind_eq_bind, Option.bind_some, takeInt_one, takeBytes_append]
  cases decodeCommand count payload <;> rfl

theorem takeId_le {id : ℕ} (h : id < 2 ^ 32) : takeId (le 4 id) = some id := by
  have htake := @takeInt_le 4 id [] (show id < 256 ^ 4 by omega)
  rw [List.append_nil] at htake
  rw [takeId, htake]
  rfl

theorem composeStmt_eq (command : UInt8) (stmt : Stmt) : composeStmt command stmt
    = .ok (MysqlReplies.packet 0 (command :: le 4 stmt.prepareId.toNat), 0) := by
  have hid := stmt.prepareId.toNat_lt
  have hpack : packUnsigned 4 stmt.prepareId.toUInt64 = some (le 4 stmt.prepareId.toNat) := by
    rw [packUnsigned, UInt32.toNat_toUInt64, if_neg (by omega)]
  rw [composeStmt, hpack, orRaise]
  exact @composePacket_command (command :: le 4 stmt.prepareId.toNat) (by simp)

end Requests

section Prepare

open MysqlReplies (packets Column Eof)

variable {rest : Bytes} {ps : List Bytes} {number : ℕ} {cols : List Column} {p : Eof}

theorem recvFieldPacket_eof : recvFieldPacket (packets number (p.encode :: ps) ++ rest)
    = some (.error (ascii "bad field packet type: EOF"), packets (number + 1) ps ++ rest) := by
  have hsize : p.encode ≠ [] ∧ p.encode.length < 2 ^ 24 := by simp [Eof.encode]
  have htype : packetType p.encode = .eof := packetType_cons ..
  rw [recvFieldPacket, recvPacket_packets hsize, htype]
  rfl

theorem recvFieldPacket_column {c : Column} (hc : c.Fits ∧ c.encode.length < 2 ^ 24 - 1) :
    recvFieldPacket (packets number (c.encode :: ps) ++ rest)
      = some (.ok (colOf c), packets (number + 1) ps ++ rest) := by
  obtain ⟨s, hs⟩ := column_encode c
  have hlen := hc.2
  have htype : packetType c.encode = .data := by
    rw [hs, packetType_cons]
    rfl
  rw [recvFieldPacket, recvPacket_packets ⟨by simp [hs], by omega⟩, htype]
  simp [parseFieldPacket_encode hc.1 (show c.encode.length < 2 ^ 63 by omega), Except.toOption]

theorem recvDefinitions_encode {acc : List Col} {rounds : ℕ}
    (hcols : ∀ c ∈ cols, c.Fits ∧ c.encode.length < 2 ^ 24 - 1) (hrounds : cols.length < rounds) :
    recvDefinitions rounds acc (packets number (cols.map Column.encode ++ p.encode :: ps) ++ rest)
      = some (acc ++ cols.map colOf, packets (number + cols.length + 1) ps ++ rest) := by
  induction cols generalizing number acc rounds with
  | nil =>
    obtain ⟨rounds, rfl⟩ := Nat.exists_eq_succ_of_ne_zero (Nat.ne_zero_of_lt hrounds)
    rw [List.map_nil, List.nil_append, recvDefinitions, recvFieldPacket_eof]
    simp
  | cons c cols ih =>
    obtain ⟨rounds, rfl⟩ := Nat.exists_eq_succ_of_ne_zero (Nat.ne_zero_of_lt hrounds)
    obtain ⟨hc, hcols⟩ := List.forall_mem_cons.1 hcols
    rw [List.map_cons, List.cons_append, recvDefinitions, recvFieldPacket_column hc]
    simp only [Option.bind_eq_bind, Option.bind_some]
    rw [ih hcols (Nat.lt_of_succ_lt_succ hrounds), List.length_cons, List.map_cons,
      List.append_assoc, List.singleton_append, Nat.add_right_comm number 1, Nat.add_assoc number]

/-- The definitions, if there are any, are read up to their end. -/
theorem readDefinitions_encode (hcols : ∀ c ∈ cols, c.Fits ∧ c.encode.length < 2 ^ 24 - 1)
    (hcount : cols.length < 2 ^ 16) :
    ∃ number', readDefinitions (UInt64.ofNat cols.length)
        (packets number (definitions cols p ++ ps) ++ rest)
      = some (cols.map colOf, packets number' ps ++ rest) := by
  have hnat : (UInt64.ofNat cols.length).toNat = cols.length := by
    rw [UInt64.toNat_ofNat', Nat.mod_eq_of_lt (by omega)]
  cases cols with
  | nil => exact ⟨number, rfl⟩
  | cons c cols =>
    have hpos : 0 < UInt64.ofNat (c :: cols).length := by
      rw [UInt64.lt_iff_toNat_lt, hnat]
      exact Nat.succ_pos _
    have hs : definitions (c :: cols) p ++ ps = (c :: cols).map Column.encode ++ p.encode :: ps := by
      simp [definitions]
    have hlen := length_le_packets number ((c :: cols).map Column.encode ++ p.encode :: ps)
    rw [List.length_append, List.length_map, List.length_cons (a := p.encode)] at hlen
    rw [readDefinitions, if_pos hpos, hs,
      recvDefinitions_encode hcols (by rw [List.length_append]; omega)]
    exact ⟨_, rfl⟩

/-- An integer of an announcement. -/
theorem unpack_left {data t : Bytes} {pos : ℤ} {k n : ℕ} (h : Left data pos (le k n ++ t))
    (hn : n < 256 ^ k) :
    unpackUnsigned k data pos = some (UInt64.ofNat n, pos + k) ∧ Left data (pos + k) t := by
  have hright := h.right
  rw [length_le] at hright
  exact ⟨h.at.unpackUnsigned hn, hright⟩

/-- The announcement of a statement is read as it is, and nothing of what follows. -/
theorem readPrepareResult_encode {p : Prepare} (h : p.Fits) :
    readPrepareResult (packets 1 p.payloads ++ rest)
      = some (.prepared (preparedOf p), rest) := by
  have hheader : p.header ≠ [] ∧ p.header.length < 2 ^ 24 := by simp [Prepare.header]
  have htype : packetType p.header = .ok := packetType_cons ..
  have hparam : ∀ c ∈ p.params, c.Fits ∧ c.encode.length < 2 ^ 24 - 1 :=
    fun c hc => h.column c (List.mem_append_left _ hc)
  have hcolumn : ∀ c ∈ p.columns, c.Fits ∧ c.encode.length < 2 ^ 24 - 1 :=
    fun c hc => h.column c (List.mem_append_right _ hc)
  have hid := h.id
  have hcolumns := h.columns
  have hparams := h.params
  have hwarnings := h.warnings
  have hleft : Left p.header 2 (le 4 p.id ++ (le 2 p.columns.length ++ (le 2 p.params.length
      ++ 0 :: (le 2 p.warnings ++ [])))) := ⟨[0], by simp [Prepare.header], rfl⟩
  obtain ⟨hread1, hleft⟩ := unpack_left hleft (by omega)
  obtain ⟨hread2, hleft⟩ := unpack_left hleft (by omega)
  obtain ⟨hread3, hleft⟩ := unpack_left hleft (by omega)
  obtain ⟨hread4, -⟩ := unpack_left hleft.tail (by omega)
  obtain ⟨number1, hdefs1⟩ := @readDefinitions_encode rest (definitions p.columns p.columnsEnd) 2
    p.params p.paramsEnd hparam hparams
  obtain ⟨number2, hdefs2⟩ := @readDefinitions_encode rest [] number1 p.columns p.columnsEnd
    hcolumn hcolumns
  rw [List.append_nil] at hdefs2
  have hnat {n : ℕ} (hn : n < 2 ^ 16) : (UInt64.ofNat n).toNat = n := by
    rw [UInt64.toNat_ofNat', Nat.mod_eq_of_lt (by omega)]
  have hstmt : (UInt64.ofNat p.id).toUInt32 = UInt32.ofNat p.id := by simp
  rw [readPrepareResult, Prepare.payloads, recvPacket_packets hheader, htype]
  simp only [Option.bind_eq_bind, Option.bind_some, hread1, hread2, hread3, hread4, hdefs1, hdefs2,
    hnat hcolumns, hnat hparams, hnat hwarnings, hstmt]
  rfl

theorem readPrepareResult_err {p : MysqlReplies.Err} (hp : p.Fits)
    (hlen : p.encode.length < 2 ^ 24) :
    readPrepareResult (packets 1 [p.encode] ++ rest) = some (.bad (failureOf p), rest) := by
  have htype : packetType p.encode = .err := packetType_cons ..
  rw [readPrepareResult, recvPacket_packets (p := p.encode) ⟨List.cons_ne_nil _ _, hlen⟩, htype]
  simp [parseErrPacket_encode hp, Except.toOption, packets]

end Prepare

section Commands

/-- What a server reads of a call. -/
def commandOf (t : Statements) : Call → Command
  | .query query => .query query
  | .prepare sql => .prepare sql
  | .execute stmt args =>
    if t.count stmt.prepareId.toNat = none then .unknown stmt.prepareId.toNat
    else .execute ⟨stmt.prepareId.toNat, 0, 1, args.map paramOf⟩
  | .stmtReset stmt => .reset stmt.prepareId.toNat
  | .stmtClose stmt => .close stmt.prepareId.toNat
  | .ping => .ping

/-- The call is not so large that its packet has to be split, and has arguments of its statement. -/
def Call.Fits : Call → Prop
  | .query s | .prepare s => s.length < 2 ^ 24 - 1
  | .execute stmt args =>
    args.length = stmt.paramCount ∧ (∀ v ∈ args, Sendable v) ∧ commandSize args < 2 ^ 24
  | _ => True

/-- What a call is answered with. -/
def Call.kind : Call → Kind
  | .query _ | .stmtReset _ | .ping => .text
  | .execute _ _ => .binary
  | .prepare _ => .statement
  | .stmtClose _ => .nothing

/-- What is sent of a call. -/
def payloadOf : Call → Bytes
  | .query sql => COM_QUERY :: sql
  | .prepare sql => COM_STMT_PREPARE :: sql
  | .execute stmt args => header stmt 0 ++ body args
  | .stmtReset stmt => COM_STMT_RESET :: le 4 stmt.prepareId.toNat
  | .stmtClose stmt => COM_STMT_CLOSE :: le 4 stmt.prepareId.toNat
  | .ping => [COM_PING]

/-- The server knows the statement, which may be closed, as the client does. -/
def Known (t : Statements) : Call → Prop
  | .execute stmt _ => t.counts stmt.prepareId.toNat = some stmt.paramCount
  | _ => True

variable {call : Call} {t : Statements}

theorem compose_eq (h : call.Fits) : call.compose = .ok (MysqlReplies.packet 0 (payloadOf call), 0)
    ∧ (payloadOf call).length < 2 ^ 24 := by
  cases call with
  | query sql =>
    have hlen : (payloadOf (.query sql)).length < 2 ^ 24 := by
      have : sql.length < 2 ^ 24 - 1 := h
      simp only [payloadOf, List.length_cons]
      omega
    exact ⟨composePacket_command hlen, hlen⟩
  | prepare sql =>
    have hlen : (payloadOf (.prepare sql)).length < 2 ^ 24 := by
      have : sql.length < 2 ^ 24 - 1 := h
      simp only [payloadOf, List.length_cons]
      omega
    exact ⟨composePacket_command hlen, hlen⟩
  | execute stmt args =>
    obtain ⟨hcount, hargs, hsize⟩ := h
    have hlen : (payloadOf (.execute stmt args)).length < 2 ^ 24 := by
      rwa [payloadOf, length_command]
    refine ⟨?_, hlen⟩
    rw [Call.compose, composeStmtExecute, if_neg (not_not.2 hcount),
      cmdPacket_eq stmt 0 hargs (by omega)]
    exact composePacket_command hlen
  | stmtReset stmt => exact ⟨composeStmt_eq _ _, by simp [payloadOf]⟩
  | stmtClose stmt => exact ⟨composeStmt_eq _ _, by simp [payloadOf]⟩
  | ping => exact ⟨composePacket_command (by simp), by simp [payloadOf]⟩

theorem decodeCommand_execute {stmt : Stmt} {args : List Value} (h : (Call.execute stmt args).Fits)
    (hknown : t.counts stmt.prepareId.toNat = some stmt.paramCount) :
    decodeCommand t.count (header stmt 0 ++ body args) = some (commandOf t (.execute stmt args)) := by
  obtain ⟨hcount, hargs, hsize⟩ := h
  have hid : takeInt 4 (le 4 stmt.prepareId.toNat ++ ([0] ++ le 4 1 ++ body args))
      = some (stmt.prepareId.toNat, [0] ++ le 4 1 ++ body args) := takeInt_le stmt.prepareId.toNat_lt
  have hdata : header stmt 0 ++ body args
      = 0x17 :: (le 4 stmt.prepareId.toNat ++ ([0] ++ le 4 1 ++ body args)) := by
    simp [header, COM_STMT_EXECUTE]
  rw [hdata, decodeCommand, if_neg (by decide), if_neg (by decide), if_pos rfl, hid,
    Option.bind_some, commandOf]
  cases hn : t.count stmt.prepareId.toNat with
  | none => rfl
  | some n =>
    have hparam : n = args.length := by
      unfold Statements.count at hn
      split_ifs at hn
      rw [hknown] at hn
      exact (Option.some.inj hn).symm.trans hcount.symm
    have hdecode := decodeExecute_command stmt 0 hargs (show commandSize args < 2 ^ 64 by omega)
    rw [hdata, ← hparam] at hdecode
    simp only [hdecode, Option.map_some, reduceCtorEq, if_false]
    rfl

theorem decodeCommand_payload (h : call.Fits) (hknown : Known t call) :
    decodeCommand t.count (payloadOf call) = some (commandOf t call) := by
  cases call with
  | execute stmt args => exact decodeCommand_execute h hknown
  | stmtReset stmt =>
    rw [payloadOf, decodeCommand, takeId_le stmt.prepareId.toNat_lt]
    rfl
  | stmtClose stmt =>
    rw [payloadOf, decodeCommand, takeId_le stmt.prepareId.toNat_lt]
    rfl
  | _ => rfl

end Commands

section Session

open MysqlReplies (WellFormed encodeTextRow encodeBinaryRow)

variable (str2d : Bytes → Option UInt64) (compact : Bool)

/-- What a server answers. Its replies are well-formed, and such as the client can read; and it
gives no statement a number that another one had. -/
def Answers (t : Statements) (v : Command) : Option Answer → Prop
  | none => v.kind = .nothing
  | some (.text reply) => v.kind = .text ∧ WellFormed FitsTextRow encodeTextRow reply
    ∧ ∀ r ∈ reply, ReadableResult (fun _ _ => True) r
  | some (.binary reply) => v.kind = .binary
    ∧ WellFormed (fun _ _ => True) encodeBinaryRow reply
    ∧ (∀ r ∈ reply, ReadableResult (Accepted compact) r) ∧ NoLaterError reply
  | some (.prepared p) => v.kind = .statement ∧ p.Fits ∧ t.counts p.id = none
  | some (.error p) => v.kind = .statement ∧ p.Fits ∧ p.encode.length < 2 ^ 24

def promise : Pipeline.Promise Unit Statements Call Command Answer Outcome where
  Good _ := True
  Sendable t call := call.Fits ∧ Known t call
  Answers := Answers compact
  view := commandOf
  outcome _ := outcomeOf str2d compact

variable {str2d compact} {call : Call} {t : Statements} {v : Command}

theorem Known.serve {a : Option Answer} (h : Known t call) (ha : Answers compact t v a) :
    Known (t.serve v a) call := by
  cases call with
  | execute stmt args =>
    have hcounts : t.counts stmt.prepareId.toNat = some stmt.paramCount := h
    unfold Statements.serve
    split
    · have hne : stmt.prepareId.toNat ≠ _ := fun heq => by
        rw [heq, ha.2.2] at hcounts
        cases hcounts
      exact (Function.update_of_ne hne _ _).trans hcounts
    · exact hcounts
    · exact hcounts
  | _ => trivial

theorem kind_commandOf (t : Statements) (call : Call) : (commandOf t call).kind = call.kind := by
  cases call with
  | execute stmt args =>
    rw [commandOf]
    split <;> rfl
  | _ => rfl

theorem response_text (h : call.kind = .text) (s : Bytes) : call.response str2d compact s
    = (queryResp str2d compact s).map fun x => (.response x.1, x.2) := by
  cases call with
  | query _ | stmtReset _ | ping => rfl
  | prepare _ | execute _ _ | stmtClose _ => cases h

theorem response_binary (h : call.kind = .binary) (s : Bytes) : call.response str2d compact s
    = (executeResp compact s).map fun x => (.response x.1, x.2) := by
  cases call with
  | execute _ _ => rfl
  | query _ | stmtReset _ | ping | prepare _ | stmtClose _ => cases h

theorem response_statement (h : call.kind = .statement) (s : Bytes) :
    call.response str2d compact s
      = (readPrepareResult s).map fun x => (.prepare x.1, x.2) := by
  cases call with
  | prepare _ => rfl
  | query _ | stmtReset _ | ping | execute _ _ | stmtClose _ => cases h

theorem expects_iff : call.expects = true ↔ call.kind ≠ .nothing := by
  cases call <;> simp [Call.expects, Call.kind]

theorem Answers.isSome {a : Option Answer} (h : Answers compact t (commandOf t call) a) :
    a.isSome = call.expects := by
  rw [Bool.eq_iff_iff, expects_iff, ← kind_commandOf t call]
  cases a with
  | none => simp [show (commandOf t call).kind = .nothing from h]
  | some a =>
    cases a with
    | text reply | binary reply | prepared p | error p => simp [h.1]

/-- The response function reads the answer as it is. -/
theorem response_encode {a : Answer} (h : Answers compact t (commandOf t call) (some a))
    (rest : Bytes) : call.response str2d compact (a.encode ++ rest)
      = some (outcomeOf str2d compact a, rest) := by
  have hkind := kind_commandOf t call
  cases a with
  | text reply =>
    obtain ⟨hv, hwell, hreads⟩ := h
    rw [hv] at hkind
    have hresp := (respond_iff (@readsSets_text str2d compact) .whole hwell _).2 ⟨hreads, rfl⟩
    rw [response_text hkind.symm, Answer.encode, queryResp, readResult, hresp]
    rfl
  | binary reply =>
    obtain ⟨hv, hwell, hreads, hlater⟩ := h
    rw [hv] at hkind
    have hresp := (respond_iff readsSets_binary .errOnly hwell _).2
      ⟨hreads, (responseOf_errOnly hwell.chained hreads).2 hlater⟩
    rw [response_binary hkind.symm, Answer.encode, executeResp, readExecuteResult, hresp]
    rfl
  | prepared p =>
    rw [h.1] at hkind
    rw [response_statement hkind.symm, Answer.encode, readPrepareResult_encode h.2.1]
    rfl
  | error p =>
    rw [h.1] at hkind
    rw [response_statement hkind.symm, Answer.encode, readPrepareResult_err h.2.1 h.2.2]
    rfl

theorem response_nil (call : Call) : call.response str2d compact [] = none := by
  cases call <;> rfl

theorem lawful : Pipeline.Lawful (protocol str2d compact) (promise str2d compact) where
  compose _ _ _ := trivial
  move _ _ _ := trivial
  take_nil _ := rfl
  take _ call t rest _ hcall := by
    obtain ⟨hcompose, hlen⟩ := compose_eq hcall.1
    have hbytes : (((protocol str2d compact).compose () call).1)
        = MysqlReplies.packet 0 (payloadOf call) := by
      simp [protocol, hcompose, Except.toOption]
    rw [hbytes]
    exact (takeCommand_packet hlen).trans (by rw [decodeCommand_payload hcall.1 hcall.2]; rfl)
  keeps _ _ _ _ hcall ha := ⟨hcall.1, hcall.2.serve ha⟩
  answered _ _ _ _ ha := ha.isSome
  read_nil := response_nil
  read _ _ _ rest _ ha := response_encode ha rest

/-- A call that fits, of a statement that `prepare` has returned; and the server answers each command
as it should. -/
def Promised (str2d : Bytes → Option UInt64) (compact : Bool) (s : Session) :
    Pipeline.Label Unit Call Answer → Prop
  | .send call => call.Fits ∧ ∀ stmt args, call = .execute stmt args →
    ∃ call' p, (call', .prepare (.prepared p)) ∈ s.got ∧ p.toStmt = stmt
  | .serve a => ∀ x ∈ (protocol str2d compact).take s.server s.wire,
    Answers compact s.server x.1 a
  | _ => True

/-- The server knows each statement that it has announced. -/
def Announced (s : Session) : Prop :=
  ∀ v p, (v, some (.prepared p)) ∈ s.taken →
    p.id < 2 ^ 32 ∧ s.server.counts p.id = some p.params.length

variable {s s' : Session}

theorem Announced.prepared (h : Announced s)
    (hexact : Pipeline.Exact (protocol str2d compact) (promise str2d compact) {} s) {call' : Call}
    {p : Prepared} (hp : (call', .prepare (.prepared p)) ∈ s.got) :
    s.server.counts p.prepareId.toNat = some p.paramCount := by
  obtain ⟨⟨c, a⟩, hmem, heq⟩ := List.mem_map.1 (hexact.got.subset hp)
  obtain ⟨⟨c', x⟩, hzip, hsome⟩ := List.mem_filterMap.1 hmem
  obtain ⟨a', rfl, -, rfl⟩ : ∃ a', x = some a' ∧ c' = c ∧ a' = a := by
    simpa [eq_comm, and_comm] using hsome
  obtain ⟨⟨v, x⟩, htaken, rfl⟩ := List.mem_map.1 (List.of_mem_zip hzip).2
  have hout : outcomeOf str2d compact a' = .prepare (.prepared p) := (Prod.mk.inj heq).2
  cases a' with
  | prepared p₀ =>
    obtain ⟨hid, hcounts⟩ := h v p₀ htaken
    simp only [outcomeOf, Outcome.prepare.injEq, PrepareResult.prepared.injEq] at hout
    rw [← hout, preparedOf, UInt32.toNat_ofNat', Nat.mod_eq_of_lt hid, hcounts]
  | text reply | binary reply | error p => simp [outcomeOf] at hout

theorem Announced.serve {a : Option Answer} (h : Announced s)
    (ha : ∀ x ∈ (protocol str2d compact).take s.server s.wire, Answers compact s.server x.1 a)
    (hs : Pipeline.serve (protocol str2d compact) s a = some s') : Announced s' := by
  obtain ⟨⟨v, rest⟩, htake, rfl⟩ := Option.map_eq_some_iff.1 hs
  have hv : Answers compact s.server v a := ha (v, rest) htake
  rintro v' p hmem
  rcases List.mem_append.1 hmem with hmem | hmem
  · obtain ⟨hid, hcounts⟩ := h v' p hmem
    have hknown : Known s.server (.execute ⟨UInt32.ofNat p.id, p.params.length⟩ []) := by
      rw [Known, UInt32.toNat_ofNat', Nat.mod_eq_of_lt hid, hcounts]
    have hserve := hknown.serve hv
    rw [Known, UInt32.toNat_ofNat', Nat.mod_eq_of_lt hid] at hserve
    exact ⟨hid, hserve⟩
  · obtain ⟨rfl, rfl⟩ := Prod.mk.inj (List.mem_singleton.1 hmem)
    refine ⟨hv.2.1.id, ?_⟩
    cases v' with
    | prepare sql => exact Function.update_self ..
    | _ => cases hv.1

theorem Announced.step {l : Pipeline.Label Unit Call Answer} (h : Announced s)
    (hl : Promised str2d compact s l)
    (hs : Pipeline.step (protocol str2d compact) s l = some s') : Announced s' := by
  cases l with
  | send call | move i =>
    cases hs
    exact h
  | serve a => exact h.serve hl hs
  | receive =>
    simp only [Pipeline.step, Pipeline.receive] at hs
    split at hs
    · cases hs
    · obtain ⟨x, -, rfl⟩ := Option.map_eq_some_iff.1 hs
      exact h

theorem Promised.keeps {l : Pipeline.Label Unit Call Answer} (h : Promised str2d compact s l)
    (hannounced : Announced s)
    (hexact : Pipeline.Exact (protocol str2d compact) (promise str2d compact) {} s) :
    Pipeline.Keeps (protocol str2d compact) (promise str2d compact) s l := by
  cases l with
  | send call =>
    obtain ⟨hfits, hprepared⟩ := h
    refine ⟨hfits, ?_⟩
    cases call with
    | execute stmt args =>
      obtain ⟨call', p, hp, rfl⟩ := hprepared stmt args rfl
      exact hannounced.prepared hexact hp
    | _ => trivial
  | serve a => exact h
  | move _ | receive => trivial

section Example

/-- A statement with one parameter and no columns. -/
def oneParam : Prepare where
  id := 1
  warnings := 0
  params := [intColumn]
  paramsEnd := ⟨0, 2⟩
  columns := []
  columnsEnd := ⟨0, 2⟩

/-- The labels of a session that prepares the statement and executes it. -/
def oneParamCalls : List (Pipeline.Label Unit Call Answer) :=
  [.send (.prepare (ascii "DO ?")), .serve (some (.prepared oneParam)), .receive,
    .send (.execute ⟨1, 1⟩ [.integer 42])]

def oneParamAfter (n : ℕ) : Session :=
  after (Pipeline.step (protocol (fun _ => none) false)) { client := (), server := {} }
    (oneParamCalls.take n)

theorem oneParam_step {n : ℕ} {l : Pipeline.Label Unit Call Answer}
    (h : Pipeline.step (protocol (fun _ => none) false) (oneParamAfter n) l
      = some (oneParamAfter (n + 1))) (hl : Promised (fun _ => none) false (oneParamAfter n) l)
    (hr : Reaches (Pipeline.step (protocol (fun _ => none) false))
      (Promised (fun _ => none) false) { client := (), server := {} } (oneParamAfter n)) :
    Reaches (Pipeline.step (protocol (fun _ => none) false))
      (Promised (fun _ => none) false) { client := (), server := {} } (oneParamAfter (n + 1)) :=
  hr.tail hl h

end Example

end Session

end Mysql

end SkynetCpp
