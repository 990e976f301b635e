import SkynetCpp.MysqlLogin
import SkynetCpp.Proofs.MysqlReplies
import SkynetCpp.Proofs.Sha1

/-!
# Who is let in

The greeting is read as it was sent, and the server reads the answer as the options say. Nothing but
options that do not fit into the answer keeps the two from an end that both know.
-/

namespace SkynetCpp

open Lib LuaString MysqlBinary MysqlHandshake

namespace Mysql

section Packets

variable {p rest : Bytes} {packetNo : ℤ} {number : ℕ}

theorem recvNumbered_packet (hne : p ≠ []) (hlen : p.length < 2 ^ 24) :
    recvNumbered packetNo (MysqlReplies.packet number p ++ rest)
      = some (.ok (p, packetType p), ((UInt8.ofNat number).toNat : ℤ), rest) := by
  have hleft : Left (le 3 p.length ++ [UInt8.ofNat number]) 1
      (le 3 p.length ++ [UInt8.ofNat number]) := ⟨[], rfl, rfl⟩
  have hbyte : byte (le 3 p.length ++ [UInt8.ofNat number]) (1 + (3 : ℕ))
      = some (UInt8.ofNat number) := by
    have hright := hleft.right
    rw [length_le] at hright
    exact hright.at.byte (s := [])
  have hnat : (UInt64.ofNat p.length).toNat = p.length := by
    rw [UInt64.toNat_ofNat', Nat.mod_eq_of_lt (by omega)]
  have hpos : 0 < p.length := List.length_pos_iff.2 hne
  have hzero : UInt64.ofNat p.length ≠ 0 := fun h => by
    rw [← UInt64.toNat_inj, hnat] at h
    exact hpos.ne' h
  rw [MysqlReplies.packet, List.append_assoc, recvNumbered,
    read_append (by rw [List.length_append, length_le]; rfl)]
  simp only [Option.bind_eq_bind, Option.bind_some]
  rw [hleft.at.unpackUnsigned (by omega), Option.bind_some, if_neg hzero, hbyte, hnat,
    Option.bind_some, read_append rfl]
  rfl

end Packets

section Greeting

theorem cstring_left {data s t : Bytes} {pos : ℤ} (h : Left data pos (s ++ 0 :: t)) (hs : 0 ∉ s) :
    ∃ pos', fromCstring data pos = some (s, pos') ∧ Left data pos' t := by
  obtain ⟨pre, rfl, rfl⟩ := h
  have hfind := find_byte (fun b hb => ne_of_mem_of_not_mem hb hs) t
  refine ⟨(s.length + (pre.length + 1) : ℕ) + 1, ?_, pre ++ s ++ [0], by simp, by simp; omega⟩
  have hsub : sub (pre ++ (s ++ 0 :: t)) (pre.length + 1 : ℕ)
      ((s.length + (pre.length + 1) : ℕ) - 1) = s := by
    rw [show ((s.length + (pre.length + 1) : ℕ) : ℤ) - 1 = (pre.length + s.length : ℕ) by omega]
    exact sub_field pre s (0 :: t)
  rw [fromCstring, find_from, hfind, Option.map_some, Option.map_some, hsub]

theorem capabilities_eq {n : ℕ} (h : n < 2 ^ 32) :
    UInt64.ofNat (n % 2 ^ 16) ||| (UInt64.ofNat (n / 2 ^ 16) <<< 16) = UInt64.ofNat n := by
  have hlow : (UInt64.ofNat (n % 2 ^ 16)).toNat = n % 2 ^ 16 := by
    rw [UInt64.toNat_ofNat', Nat.mod_eq_of_lt (by omega)]
  have hhigh : (UInt64.ofNat (n / 2 ^ 16)).toNat = n / 2 ^ 16 := by
    rw [UInt64.toNat_ofNat', Nat.mod_eq_of_lt (by omega)]
  rw [← UInt64.toNat_inj, UInt64.toNat_or, UInt64.toNat_shiftLeft, hlow, hhigh,
    UInt64.toNat_ofNat', Nat.mod_eq_of_lt (show n < 2 ^ 64 by omega), Nat.or_comm,
    show (UInt64.toNat 16) % 64 = 16 by rfl, Nat.mod_eq_of_lt, ← Nat.shiftLeft_add_eq_or_of_lt]
  · rw [Nat.shiftLeft_eq, Nat.div_add_mod']
  · exact Nat.mod_lt _ (by omega)
  · rw [Nat.shiftLeft_eq]
    omega

theorem parseGreeting_encode {g : Greeting} (h : g.Fits) :
    parseGreeting g.encode = .ok (serverOf g, g.scramble) := by
  obtain ⟨hversion, hthread, hscramble, hcap, hcharset, hstatus⟩ := h
  have hdata : g.encode = 10 :: (g.version ++ 0 :: (le 4 g.threadId ++ (g.scramble.take 8
      ++ 0 :: (le 2 (g.capabilities % 2 ^ 16) ++ UInt8.ofNat g.charset :: (le 2 g.status
      ++ (le 2 (g.capabilities / 2 ^ 16) ++ UInt8.ofNat g.authLength :: (List.replicate 10 0
      ++ (g.scramble.drop 8 ++ g.tail)))))))) := by
    simp [Greeting.encode, le]
  have hfirst : orRaise (byte g.encode 1) = .ok 10 :=
    congrArg orRaise (At.byte (s := []) ⟨[], _, hdata, rfl⟩)
  have hleft : Left g.encode 2 _ := ⟨[10], hdata, rfl⟩
  obtain ⟨pos1, hcstring, hleft⟩ := cstring_left hleft hversion
  have hread1 : orRaise (fromCstring g.encode 2) = .ok (g.version, pos1) :=
    congrArg orRaise hcstring
  obtain ⟨pos2, hread2, hleft, -⟩ := int_left hleft hthread (by omega)
  have hpart1 : sub g.encode pos2 (pos2 + 8 - 1) = g.scramble.take 8 :=
    hleft.at.sub (by simp [hscramble])
  have hleft := hleft.right.tail
  rw [show pos2 + (g.scramble.take 8).length + 1 = pos2 + 9 by simp [hscramble]; omega] at hleft
  obtain ⟨pos3, hread3, hleft, -⟩ := int_left hleft (n := g.capabilities % 2 ^ 16)
    (Nat.mod_lt _ (by omega)) (by omega)
  have hlang : byte g.encode pos3 = some (UInt8.ofNat g.charset) := At.byte (s := []) (hleft.at (a := [_]))
  obtain ⟨pos4, hread4, hleft, hnat⟩ := int_left hleft.tail hstatus (by omega)
  obtain ⟨pos5, hread5, hleft, -⟩ := int_left hleft (n := g.capabilities / 2 ^ 16)
    (by omega) (by omega)
  have hleft := hleft.tail.right
  rw [List.length_replicate] at hleft
  have hpart2 : sub g.encode (pos5 + 1 + 10) (pos5 + 1 + 10 + (21 - 8 - 1) - 1)
      = g.scramble.drop 8 := hleft.at.sub (by simp [hscramble])
  simp only [parseGreeting, hfirst, hread1, hread2, hread3, hread4, hread5, hlang, hpart1, hpart2,
    bind, Except.bind, pure, Except.pure, hnat, capabilities_eq hcap,
    List.take_append_drop]
  rfl

end Greeting

section Token

theorem byte_cons {data : Bytes} {x : UInt8} {s : Bytes} {k : ℕ} (h : data.drop k = x :: s)
    (hk : k ≤ data.length) : byte data (k + 1 : ℕ) = some x := by
  refine At.byte (s := s) ⟨data.take k, [], ?_, ?_⟩
  · rw [List.append_nil, ← h, List.take_append_drop]
  · rw [List.length_take, min_eq_left hk]

theorem mapM_maskByte {stage1 s : Bytes} {k : ℕ} (h : s.length + k ≤ stage1.length) :
    (s.zipIdx (k + 1)).mapM (fun p => maskByte stage1 p.1 p.2) = some (mask s (stage1.drop k)) := by
  induction s generalizing k with
  | nil => rfl
  | cons x s ih =>
    rw [List.length_cons] at h
    obtain ⟨y, t, ht⟩ := List.exists_cons_of_length_pos (l := stage1.drop k)
      (by rw [List.length_drop]; omega)
    have hdrop : stage1.drop (k + 1) = t := by rw [← List.tail_drop, ht, List.tail_cons]
    rw [List.zipIdx_cons, List.mapM_cons, ih (by omega), hdrop, ht, maskByte,
      byte_cons ht (by omega)]
    rfl

theorem mapM_mask {stage1 s : Bytes} (h : s.length = stage1.length) :
    (s.zipIdx 1).mapM (fun p => maskByte stage1 p.1 p.2) = some (mask s stage1) := by
  have hmask := mapM_maskByte (k := 0) h.le
  rwa [List.drop_zero] at hmask

theorem computeToken_eq (password scramble : Bytes) :
    computeToken password scramble = some (token Sha1.hash scramble password) := by
  unfold computeToken token
  by_cases hp : password = []
  · rw [if_pos hp, if_pos hp]
    rfl
  · rw [if_neg hp, if_neg hp, Crypt.sha1_eq, Option.bind_eq_bind, Option.bind_some, Crypt.sha1_eq,
      Option.bind_some, Crypt.sha1_eq, Option.bind_some]
    exact mapM_mask (by rw [Crypt.length_hash, Crypt.length_hash])

theorem length_token (scramble password : Bytes) : (token Sha1.hash scramble password).length
    = if password = [] then 0 else 20 := by
  unfold token
  split
  · rfl
  · rw [length_mask (by rw [Crypt.length_hash, Crypt.length_hash]), Crypt.length_hash]

end Token

section Request

variable {opts : Opts} {scramble : Bytes} {charset : ℕ}

/-- What is sent, where the options fit. -/
def request (opts : Opts) (charset : ℕ) (scramble : Bytes) : Bytes :=
  le 4 clientFlags ++ (le 4 opts.maxPacketSize.toUInt64.toNat ++ (UInt8.ofNat charset
    :: (List.replicate 23 0 ++ (opts.user ++ 0 :: (le 1 (token Sha1.hash scramble opts.password).length
    ++ (token Sha1.hash scramble opts.password ++ (opts.database ++ 0 :: [])))))))

theorem length_request : (request opts charset scramble).length
    = opts.user.length + opts.database.length + if opts.password = [] then 35 else 55 := by
  simp only [request, List.length_append, List.length_cons, length_le, List.length_replicate,
    List.length_nil, length_token]
  split <;> omega

theorem packUnsigned_eq (k : ℕ) (n : UInt64) (hk : k < 8) :
    packUnsigned k n = if n.toNat < 2 ^ (8 * k) then some (le k n.toNat) else none := by
  unfold packUnsigned
  split_ifs <;> first | rfl | omega

theorem loginRequest_eq (h : CHARSET_MAP.find? (·.1 = opts.charset) = some (opts.charset, charset)) :
    loginRequest opts scramble
      = if opts.maxPacketSize.toUInt64.toNat < 2 ^ 32 ∧ 0 ∉ opts.user ∧ 0 ∉ opts.database
        then some (request opts charset scramble) else none := by
  have hflags : packUnsigned 4 (UInt64.ofNat clientFlags) = some (le 4 clientFlags) :=
    packUnsigned_ofNat (by decide) (by decide)
  have hsize : packUnsigned 1 (UInt64.ofNat (token Sha1.hash scramble opts.password).length)
      = some (le 1 (token Sha1.hash scramble opts.password).length) :=
    packUnsigned_ofNat (by rw [length_token]; split <;> omega) (by omega)
  simp only [loginRequest, h, Option.map_some, Option.bind_eq_bind, Option.bind_some,
    computeToken_eq, hflags, packUnsigned_eq 4 _ (by omega : 4 < 8), packZ, packS1, hsize]
  by_cases huser : 0 ∈ opts.user
  · simp [huser]
  · by_cases hdatabase : 0 ∈ opts.database
    · simp [hdatabase]
    · by_cases hmax : opts.maxPacketSize.toUInt64.toNat < 2 ^ 32
      · rw [if_pos hmax, if_neg huser, if_neg hdatabase, if_pos ⟨hmax, huser, hdatabase⟩]
        simp [request]
      · rw [if_neg hmax, if_neg fun h : _ ∧ _ => hmax h.1]
        simp

theorem loginRequest_none (h : opts.charset ∉ CHARSET_MAP.map Prod.fst) :
    loginRequest opts scramble = none := by
  have hfind : CHARSET_MAP.find? (·.1 = opts.charset) = none := by
    refine List.find?_eq_none.2 fun e he heq => h ?_
    rw [← of_decide_eq_true heq]
    exact List.mem_map_of_mem he
  rw [loginRequest, hfind]
  rfl

theorem find_charset (h : opts.charset ∈ CHARSET_MAP.map Prod.fst) : ∃ charset,
    CHARSET_MAP.find? (·.1 = opts.charset) = some (opts.charset, charset) ∧ charset < 2 ^ 8 := by
  obtain ⟨e, he, hname⟩ := List.mem_map.1 h
  have hsome : (CHARSET_MAP.find? (·.1 = opts.charset)).isSome = true :=
    List.find?_isSome.2 ⟨e, he, decide_eq_true hname⟩
  obtain ⟨⟨name, charset⟩, hfind⟩ := Option.isSome_iff_exists.1 hsome
  obtain rfl : name = opts.charset := by simpa using List.find?_some hfind
  have hlt : ∀ e ∈ CHARSET_MAP, e.2 < 2 ^ 8 := by decide
  exact ⟨charset, hfind, hlt _ (List.mem_of_find?_eq_some hfind)⟩

theorem decodeLogin_request (hcharset : charset < 2 ^ 8) (hfits : opts.Fits) :
    decodeLogin (request opts charset scramble) = some (loginOf opts charset scramble, []) := by
  have hbyte : (UInt8.ofNat charset).toNat = charset := by
    rw [UInt8.toNat_ofNat', Nat.mod_eq_of_lt hcharset]
  have hsize : (token Sha1.hash scramble opts.password).length < 256 ^ 1 := by
    rw [length_token]
    split <;> omega
  have hmax := hfits.maxPacketSize
  have hfiller : takeBytes 23 (List.replicate 23 0 ++ (opts.user ++ 0 :: (le 1
      (token Sha1.hash scramble opts.password).length ++ (token Sha1.hash scramble opts.password
      ++ (opts.database ++ 0 :: []))))) = some (List.replicate 23 0, _) :=
    takeBytes_append (List.length_replicate ..)
  have h41 : clientFlags.testBit CLIENT_PROTOCOL_41 = true := by decide
  have hsecure : clientFlags.testBit CLIENT_SECURE_CONNECTION = true := by decide
  have hdb : clientFlags.testBit CLIENT_CONNECT_WITH_DB = true := by decide
  rw [request, decodeLogin, takeInt_le (by decide), Option.bind_eq_bind, Option.bind_some]
  simp only [h41, hsecure, hdb, Bool.true_eq_false, if_false, if_true]
  rw [takeInt_le (by omega), Option.bind_eq_bind, Option.bind_some, takeInt_one, Option.bind_some,
    hfiller, Option.bind_some, takeCstring_append hfits.user, Option.bind_some,
    takeInt_le hsize, Option.bind_some, takeBytes_append rfl, Option.bind_some,
    takeCstring_append hfits.database, Option.bind_some, hbyte]
  rfl

end Request

section Session

variable {opts : Opts} {g : Greeting} {account : Account} {number : ℕ} {packetNo : ℤ}

theorem composePacket_packet {req : Bytes} (hn : number < 255) (hlen : req.length < 2 ^ 64) :
    composePacket number req = if req.length < 2 ^ 24
      then .ok (MysqlReplies.packet (number + 1) req, ((number + 1 : ℕ) : ℤ))
      else .error .argument := by
  have hnat : (UInt64.ofNat req.length).toNat = req.length := by
    rw [UInt64.toNat_ofNat', Nat.mod_eq_of_lt hlen]
  have hmod : (((number : ℤ) + 1) % (2 ^ 64 : ℤ)).toNat = number + 1 := by omega
  have hnumber : packUnsigned 1 (UInt64.ofInt ((number : ℤ) + 1))
      = some [UInt8.ofNat (number + 1)] := by
    rw [UInt64.ofInt, hmod, packUnsigned_ofNat (by omega) (by omega)]
    rfl
  rw [composePacket, packUnsigned_eq 3 _ (by omega), hnat]
  split
  · simp only [hnumber, orRaise, bind, Except.bind, pure, Except.pure, MysqlReplies.packet]
    rfl
  · rfl

/-- The greeting is read, and one packet is sent, or something raises. -/
theorem answerGreeting_eq (hg : g.Fits) (hn : number < 255)
    (hlua : opts.user.length + opts.database.length < 2 ^ 63) :
    (opts.Fits ∧ ∃ charset < 2 ^ 8, answerGreeting opts number g.encode
      = .ok (serverOf g, MysqlReplies.packet (number + 1) (request opts charset g.scramble),
        ((number + 1 : ℕ) : ℤ)))
    ∨ (¬ opts.Fits ∧ answerGreeting opts number g.encode = .error .argument) := by
  rw [answerGreeting, parseGreeting_encode hg]
  simp only [bind, Except.bind]
  by_cases hname : opts.charset ∈ CHARSET_MAP.map Prod.fst
  · obtain ⟨charset, hfind, hcharset⟩ := find_charset hname
    rw [loginRequest_eq hfind]
    split_ifs with hok
    · have hlength := @length_request opts g.scramble charset
      have hlt : (request opts charset g.scramble).length < 2 ^ 64 := by
        rw [hlength]
        split <;> omega
      simp only [orRaise, composePacket_packet hn hlt]
      by_cases hshort : (request opts charset g.scramble).length < 2 ^ 24
      · refine .inl ⟨⟨hname, hok.2.1, hok.2.2, hok.1, hlength ▸ hshort⟩, charset, hcharset, ?_⟩
        rw [if_pos hshort]
        rfl
      · refine .inr ⟨fun hfits => hshort (hlength ▸ hfits.length), ?_⟩
        rw [if_neg hshort]
    · exact .inr ⟨fun hfits => hok ⟨hfits.maxPacketSize, hfits.user, hfits.database⟩, rfl⟩
  · rw [loginRequest_none hname]
    exact .inr ⟨fun hfits => hname hfits.charset, rfl⟩

theorem encode_ne_nil (g : Greeting) : g.encode ≠ [] := List.cons_ne_nil _ _

theorem recvDecodePacketResp_ok {p rest : Bytes} (hne : p ≠ []) (hlen : p.length < 2 ^ 24)
    (htype : packetType p = .ok ∨ packetType p = .data) :
    recvDecodePacketResp packetNo (MysqlReplies.packet number p ++ rest)
      = some (.ok p, ((UInt8.ofNat number).toNat : ℤ), rest) := by
  rw [recvDecodePacketResp, recvNumbered_packet hne hlen]
  rcases htype with htype | htype <;> rw [htype] <;> rfl

theorem recvDecodePacketResp_err {p : MysqlReplies.Err} {rest : Bytes} (hp : p.Fits)
    (hlen : p.encode.length < 2 ^ 24) :
    recvDecodePacketResp packetNo (MysqlReplies.packet number p.encode ++ rest)
      = some (.error (failureOf p).text, ((UInt8.ofNat number).toNat : ℤ), rest) := by
  have htype : packetType p.encode = .err := packetType_cons ..
  rw [recvDecodePacketResp, recvNumbered_packet (p := p.encode) (List.cons_ne_nil _ _) hlen, htype]
  simp [parseErrPacket_encode hp, Except.toOption]

theorem admits_request {charset : ℕ} (hcharset : charset < 2 ^ 8) (hfits : opts.Fits) :
    account.admits Sha1.hash g.scramble (request opts charset g.scramble)
      = account.letsIn Sha1.hash g.scramble opts.user
          (token Sha1.hash g.scramble opts.password) := by
  rw [Account.admits, decodeLogin_request hcharset hfits]
  rfl

theorem reply_request {charset : ℕ} (hcharset : charset < 2 ^ 8) (hfits : opts.Fits)
    (hn : number < 255) :
    account.reply Sha1.hash g.scramble
        (MysqlReplies.packet (number + 1) (request opts charset g.scramble))
      = MysqlReplies.packet (number + 1 + 1) (if account.letsIn Sha1.hash g.scramble opts.user
          (token Sha1.hash g.scramble opts.password) then account.ok.encode
        else account.err.encode) := by
  have hlen : (request opts charset g.scramble).length < 2 ^ 24 := length_request ▸ hfits.length
  rw [Account.reply, takePacket_packet (by omega) hlen, ← admits_request hcharset hfits]

theorem recv_greeting (hlen : g.encode.length < 2 ^ 24) (hn : number < 255) :
    recvDecodePacketResp packetNo (MysqlReplies.packet number g.encode)
      = some (.ok g.encode, (number : ℤ), []) := by
  have hnat : (UInt8.ofNat number).toNat = number := by
    rw [UInt8.toNat_ofNat', Nat.mod_eq_of_lt (by omega)]
  have hgreeting := @recvDecodePacketResp_ok number packetNo g.encode [] (encode_ne_nil g) hlen
    (.inr (packetType_cons ..))
  rwa [List.append_nil, hnat] at hgreeting

theorem mysqlLogin_fits (hg : g.Fits) (hlen : g.encode.length < 2 ^ 24) (hn : number < 255)
    (hok : account.ok.encode.length < 2 ^ 24) (hfits : opts.Fits)
    (herr : account.err.Fits ∧ account.err.encode.length < 2 ^ 24) :
    mysqlLogin opts (account.reply Sha1.hash g.scramble) packetNo
      (MysqlReplies.packet number g.encode) = some (outcome opts g account, []) := by
  have hlua : opts.user.length + opts.database.length < 2 ^ 63 := by
    have hlength := hfits.length
    split at hlength <;> omega
  obtain ⟨-, charset, hcharset, hanswer⟩ | ⟨hnot, -⟩ :=
    @answerGreeting_eq opts g number hg hn hlua
  · rw [mysqlLogin, recv_greeting hlen hn, Option.bind_eq_bind, Option.bind_some]
    simp only [hanswer, reply_request hcharset hfits hn, List.nil_append]
    rw [outcome]
    split_ifs with hin
    · have hlast := @recvDecodePacketResp_ok (number + 1 + 1) (number + 1 : ℕ) account.ok.encode []
        (List.cons_ne_nil _ _) hok (.inl (packetType_cons ..))
      rw [List.append_nil] at hlast
      rw [hlast]
      rfl
    · have hlast := @recvDecodePacketResp_err (number + 1 + 1) (number + 1 : ℕ) account.err []
        herr.1 herr.2
      rw [List.append_nil] at hlast
      rw [hlast]
      rfl
  · exact absurd hfits hnot

theorem mysqlLogin_raises (hg : g.Fits) (hlen : g.encode.length < 2 ^ 24) (hn : number < 255)
    (hlua : opts.user.length + opts.database.length < 2 ^ 63) (hnot : ¬ opts.Fits)
    (reply : Bytes → Bytes) : mysqlLogin opts reply packetNo (MysqlReplies.packet number g.encode)
      = some (.error .argument, []) := by
  obtain ⟨hfits, -⟩ | ⟨-, hanswer⟩ := @answerGreeting_eq opts g number hg hn hlua
  · exact absurd hfits hnot
  · rw [mysqlLogin, recv_greeting hlen hn, Option.bind_eq_bind, Option.bind_some]
    simp only [hanswer]
    rfl

theorem outcome_ne : outcome opts g account ≠ .error .argument := by
  rw [outcome]
  split <;> simp

/-- The login ends as the server says, if and only if the options fit into the packet; who has the
password of the server is let in. -/
theorem logs_in_iff (hg : g.Fits) (hlen : g.encode.length < 2 ^ 24) (hn : number < 255)
    (hlua : opts.user.length + opts.database.length < 2 ^ 63)
    (hok : account.ok.encode.length < 2 ^ 24) (herr : account.err.Fits)
    (hshort : account.err.encode.length < 2 ^ 24) :
    LogsIn opts g number account ↔ opts.Fits := by
  refine ⟨fun h => ?_, fun hfits => ⟨fun packetNo => ?_, fun hkept => ?_⟩⟩
  · by_contra hnot
    have hends := h.ends (-1)
    rw [mysqlLogin_raises hg hlen hn hlua hnot, Option.some_inj, Prod.mk.injEq] at hends
    exact outcome_ne hends.1.symm
  · exact mysqlLogin_fits hg hlen hn hok hfits ⟨herr, hshort⟩
  · have hin : account.letsIn Sha1.hash g.scramble opts.user
        (token Sha1.hash g.scramble opts.password) = true := by
      rw [Account.letsIn, hkept]
      exact accepts_token Crypt.length_hash (by omega) g.scramble opts.password
    rw [outcome, if_pos hin]

/-- The options, the greeting and the server of a login with a password and a database. -/
def guestOpts : Opts where
  user := ascii "guest"
  password := ascii "secret"
  database := ascii "test"
  charset := ascii "utf8mb4"

def guestGreeting : Greeting where
  version := ascii "8.0.36"
  threadId := 7
  scramble := (List.range 20).map UInt8.ofNat
  capabilities := 0xdfffffff
  charset := 255
  status := 2
  authLength := 21
  tail := 0 :: ascii "mysql_native_password" ++ [0]

def guestAccount : Account where
  kept := fun user => if user = ascii "guest" then some (kept Sha1.hash (ascii "secret")) else none
  ok := ⟨0, 0, 2, 0, []⟩
  err := ⟨1045, ascii "28000", ascii "Access denied"⟩

theorem guest_logs_in : LogsIn guestOpts guestGreeting 0 guestAccount :=
  (logs_in_iff ⟨by decide, by decide, by decide, by decide, by decide, by decide⟩ (by decide)
    (by decide) (by decide) (by decide) ⟨by decide, by decide⟩ (by decide)).2
    ⟨by decide, by decide, by decide, by decide, by decide⟩

end Session

end Mysql

end SkynetCpp
