import SkynetCpp.MongoSession
import SkynetCpp.Proofs.BsonRoundTrip
import SkynetCpp.Proofs.MysqlReplies

/-!
# Sessions with MongoDB

A server reads each message of the client as the command it is, and each reply is read as what it
is and given to the command that it is for. So the requests are a lawful multiplex; what their
documents come to is known from the encoder and the decoder.
-/

namespace SkynetCpp

open Lib LuaString

namespace Mongo

section Wire

variable {doc rest : Bytes} {m : OpMsg.Message}

theorem packInt_eq_some {n : ℕ} {b : Bytes} (h : packInt 4 n = some b) :
    n < 2 ^ 31 ∧ b = le 4 n := by
  have hn : n < 2 ^ 31 := by
    unfold packInt at h
    split_ifs at h with hrange
    omega
  refine ⟨hn, ?_⟩
  rw [Bson.packInt_length hn] at h
  exact (Option.some.inj h).symm

/-- Where `op_msg` does not raise, it writes a message. -/
theorem opMsg_eq_some {reqid flags : ℕ} {b : Bytes} (h : opMsg reqid flags doc = some b) :
    OpMsg.Message.Fits ⟨reqid, 0, flags, doc⟩ ∧ b = OpMsg.Message.encode ⟨reqid, 0, flags, doc⟩ := by
  simp only [opMsg, Option.bind_eq_bind, Option.bind_eq_some_iff, Option.pure_def] at h
  obtain ⟨bflags, hflags, bsize, hsize, bid, hid, bto, hto, bop, hop, h⟩ := h
  obtain ⟨hflagsLt, rfl⟩ := packInt_eq_some hflags
  obtain ⟨hidLt, rfl⟩ := packInt_eq_some hid
  obtain ⟨-, rfl⟩ := packInt_eq_some (n := 0) hto
  obtain ⟨-, rfl⟩ := packInt_eq_some (n := 2013) hop
  have hlen : (le 4 flags ++ 0 :: doc).length = 5 + doc.length := by
    rw [List.length_append, length_le, List.length_cons]
    omega
  rw [hlen] at hsize
  obtain ⟨hsizeLt, rfl⟩ := packInt_eq_some (n := 16 + (5 + doc.length)) hsize
  refine ⟨⟨hidLt, Nat.two_pow_pos 31, hflagsLt, ?_⟩, ?_⟩
  · show 21 + doc.length < 2 ^ 31
    omega
  · rw [← Option.some.inj h, OpMsg.Message.encode, OpMsg.Message.length_body,
      show 4 + (17 + doc.length) = 16 + (5 + doc.length) by omega, OpMsg.Message.body]
    simp only [List.append_assoc]

theorem mongoResponse_encode (h : m.Fits) (rest : Bytes) :
    mongoResponse (m.encode ++ rest) = some (((m.responseTo : ℤ), m.document), rest) := by
  have hid := h.requestId
  have hto := h.responseTo
  have hflags := h.flags
  have hlen := h.length
  have hbody := m.length_body
  have hheader : At (le 4 (4 + m.body.length)) 1 (le 4 (4 + m.body.length)) :=
    ⟨[], [], by simp, rfl⟩
  have hleft : Left m.body 1 m.body := ⟨[], rfl, rfl⟩
  have hleft5 : Left m.body 5 _ := hleft.right
  have hleft9 : Left m.body 9 _ := hleft5.right
  have hleft13 : Left m.body 13 _ := hleft9.right
  have hleft17 : Left m.body 17 _ := hleft13.right
  have hleft18 : Left m.body 18 m.document := hleft17.tail
  have hdoc : sub m.body 18 (-1) = m.document := by
    obtain ⟨pre, hpre, hpos⟩ := hleft18
    rw [hpre, hpos]
    exact sub_rest pre m.document
  have hopcode : 2013 < 2 ^ 31 := by decide
  have hn : ((4 + m.body.length : ℕ) : ℤ) - 4 = m.body.length := by omega
  rw [mongoResponse, OpMsg.Message.encode, List.append_assoc, Mysql.read_append (length_le _ _)]
  simp only [Option.bind_eq_bind, Option.bind_some]
  rw [hheader.unpackLength (by omega), Option.bind_some, if_neg (by omega), hn, Int.toNat_natCast,
    Mysql.read_append rfl, Option.bind_some, hleft.at.unpackLength hid, Option.bind_some,
    show (1 : ℤ) + 4 = 5 by rfl, hleft5.at.unpackLength hto, Option.bind_some,
    show (5 : ℤ) + 4 = 9 by rfl, hleft9.at.unpackLength hopcode, Option.bind_some,
    hleft13.at.unpackLength hflags, Option.bind_some, hdoc]
  rfl

end Wire

section Session

variable {env : Bson.Env} {s : Session}

theorem compose_eq_some {tag : ℕ} {call : Call} {b : Bytes} (h : call.compose env tag = some b) :
    ∃ doc, encodeOrder env call.document = some doc
      ∧ OpMsg.Message.Fits ⟨tag, 0, call.flags, doc⟩
      ∧ b = OpMsg.Message.encode ⟨tag, 0, call.flags, doc⟩ := by
  obtain ⟨doc, hdoc, h⟩ := Option.bind_eq_some_iff.1 h
  exact ⟨doc, hdoc, opMsg_eq_some h⟩

theorem view_eq {call : Call} {doc : Bytes} (h : encodeOrder env call.document = some doc) :
    (promise env).view call = ⟨!call.expects, doc⟩ := by
  show (⟨_, (encodeOrder env call.document).getD []⟩ : Query) = _
  rw [h, Option.getD_some]

theorem lawful : Multiplex.Lawful (protocol env) (promise env) where
  take_nil := rfl
  take tag call b rest h := by
    obtain ⟨doc, hdoc, hfits, rfl⟩ := compose_eq_some h
    have hmore : OpMsg.Message.moreToCome ⟨tag, 0, call.flags, doc⟩ = !call.expects := by
      cases call
      · exact show Nat.testBit 0 1 = false by decide
      · exact show Nat.testBit 2 1 = true by decide
    show (OpMsg.take _).map _ = _
    rw [OpMsg.take_encode hfits, Option.map_some, hmore, view_eq hdoc]
  wants call := Bool.not_not call.expects
  read_nil := rfl
  read tag call b a rest h ha := by
    obtain ⟨doc, -, hfits, -⟩ := compose_eq_some h
    exact mongoResponse_encode ⟨ha.1, hfits.requestId, ha.2.1, ha.2.2⟩ rest

theorem returns_document {doc : Bson.Fields} (hdoc : Bson.IsDocument (.table doc 0))
    (hclean : Bson.Throughout Bson.Clean (.table doc 0))
    (hlen : (Bson.bytesOf env doc).length < 2 ^ 31) :
    ∃ v, Returns env (Bson.bytesOf env doc) v ∧ Bson.Equals (.table doc 0) v := by
  have hat : At (Bson.bytesOf env doc) 1 (Bson.layout env (.table doc 0)).2 :=
    ⟨[], [], by rw [List.nil_append, List.append_nil, Bson.bytesOf], rfl⟩
  obtain ⟨v, hv, n, hn⟩ := Bson.reads hdoc hclean hlen hat
  refine ⟨v, ⟨n, fun rounds hr depth hd => ?_⟩, hv⟩
  have hread := hn rounds hr depth hd
  have htype : (Bson.layout env (.table doc 0)).1 = 0x03 := by
    rw [Bson.layout_table]
    rfl
  simp only [htype, Bson.decodeValue] at hread
  rw [Bson.decode, hread, Bson.bytesOf, add_comm]

theorem encodeOrder_bytesOf {doc : Bson.Fields} {b : Bytes} (h : encodeOrder env doc = some b)
    (hdoc : Bson.IsDocument (.table doc 0)) (hun : ∀ p ∈ doc, Bson.Throughout Bson.Unmistaken p.2)
    (hlen : (Bson.bytesOf env doc).length < 2 ^ 31) : b = Bson.bytesOf env doc := by
  have henc : Bson.encode env doc = some b := h
  rcases Bson.encode_cases hdoc hlen with ⟨-, hnone⟩ | ⟨-, b', hsome, heq, -⟩
  · rw [hnone] at henc
    cases henc
  · rw [hsome] at henc
    rw [← Option.some.inj henc]
    exact heq hun

section Example

open Bson (integerEnv)

/-- A command to which a server answers with a document that has one field. -/
def pingLabels : List (Multiplex.Label Call Answer) :=
  [.send (.runCommand (ascii "test") [(.string (ascii "ping"), .integer 1)]), .serve,
    .reply 1 ⟨7, 0, Bson.bytesOf integerEnv [(.string (ascii "ok"), .integer 1)]⟩, .receive]

def pingAfter (n : ℕ) : Session :=
  after (Multiplex.step (protocol integerEnv)) {} (pingLabels.take n)

end Example

end Session

end Mongo

end SkynetCpp
