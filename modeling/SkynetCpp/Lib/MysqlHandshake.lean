import SkynetCpp.Lib.MysqlReplies

/-!
# The handshake of MySQL

What a server of the protocol 4.1 sends first (`Greeting`), what a client answers, as a server reads
it (`decodeLogin`), and the method `mysql_native_password`: a server keeps the hash of the hash of
the password, and is shown the hash of the password, masked with one of the scramble and of what it
keeps. The hash is a parameter. A server (`Account`) answers with an OK packet or an ERR packet.
-/

namespace Lib

namespace MysqlHandshake

open MysqlBinary

section Greeting

/-- The packet of the protocol 10; the scramble is sent in two parts, and `tail` is what follows the
second one. -/
structure Greeting where
  version : List UInt8
  threadId : ℕ
  scramble : List UInt8
  capabilities : ℕ
  charset : ℕ
  status : ℕ
  authLength : ℕ
  tail : List UInt8

def Greeting.Fits (g : Greeting) : Prop :=
  0 ∉ g.version ∧ g.threadId < 2 ^ 32 ∧ g.scramble.length = 20 ∧ g.capabilities < 2 ^ 32 ∧
    g.charset < 2 ^ 8 ∧ g.status < 2 ^ 16

def Greeting.encode (g : Greeting) : List UInt8 :=
  10 :: (g.version ++ [0] ++ le 4 g.threadId ++ g.scramble.take 8 ++ [0]
    ++ le 2 (g.capabilities % 2 ^ 16) ++ le 1 g.charset ++ le 2 g.status
    ++ le 2 (g.capabilities / 2 ^ 16) ++ [UInt8.ofNat g.authLength] ++ List.replicate 10 0
    ++ g.scramble.drop 8 ++ g.tail)

end Greeting

section Login

/-- What the client says of itself. -/
structure Login where
  flags : ℕ
  maxPacket : ℕ
  charset : ℕ
  user : List UInt8
  auth : List UInt8
  database : List UInt8
  deriving DecidableEq

/-- The bytes before the first 0, and those behind it. -/
def takeCstring : List UInt8 → Option (List UInt8 × List UInt8)
  | [] => none
  | b :: bs => if b = 0 then some ([], bs) else (takeCstring bs).map fun (s, bs) => (b :: s, bs)

def CLIENT_CONNECT_WITH_DB : ℕ := 3
def CLIENT_PROTOCOL_41 : ℕ := 9
def CLIENT_SECURE_CONNECTION : ℕ := 15

/-- The answer of a client of the protocol 4.1, and the bytes behind what its flags announce. -/
def decodeLogin (bs : List UInt8) : Option (Login × List UInt8) := do
  let (flags, bs) ← takeInt 4 bs
  if flags.testBit CLIENT_PROTOCOL_41 = false then none
  else
    let (maxPacket, bs) ← takeInt 4 bs
    let (charset, bs) ← takeInt 1 bs
    let (_, bs) ← takeBytes 23 bs
    let (user, bs) ← takeCstring bs
    let (auth, bs) ← if flags.testBit CLIENT_SECURE_CONNECTION then
        (takeInt 1 bs).bind fun (n, bs) => takeBytes n bs
      else takeCstring bs
    let (database, bs) ← if flags.testBit CLIENT_CONNECT_WITH_DB then takeCstring bs
      else some ([], bs)
    return ({ flags, maxPacket, charset, user, auth, database }, bs)

theorem takeCstring_append {s : List UInt8} (hs : 0 ∉ s) (rest : List UInt8) :
    takeCstring (s ++ 0 :: rest) = some (s, rest) := by
  induction s with
  | nil => rfl
  | cons b s ih =>
    simp only [List.mem_cons, not_or] at hs
    obtain ⟨hb, hs⟩ := hs
    rw [List.cons_append, takeCstring, if_neg fun h => hb h.symm, ih hs]
    rfl

end Login

section NativePassword

variable (hash : List UInt8 → List UInt8)

def mask (a b : List UInt8) : List UInt8 := List.zipWith (· ^^^ ·) a b

/-- What a server keeps of a password: nothing of an empty one. -/
def kept (password : List UInt8) : List UInt8 :=
  if password = [] then [] else hash (hash password)

/-- What a client that knows the password shows. -/
def token (scramble password : List UInt8) : List UInt8 :=
  if password = [] then []
  else mask (hash (scramble ++ hash (hash password))) (hash password)

/-- A server that keeps `kept` takes what it is shown. -/
def accepts (scramble kept auth : List UInt8) : Bool :=
  if kept = [] then auth = []
  else auth.length = kept.length && hash (mask (hash (scramble ++ kept)) auth) = kept

variable {hash} {size : ℕ}

theorem mask_mask {a b : List UInt8} (h : a.length = b.length) : mask a (mask a b) = b := by
  induction a generalizing b with
  | nil => rw [List.length_eq_zero_iff.1 h.symm]; rfl
  | cons x a ih =>
    obtain ⟨y, b, rfl⟩ := List.exists_cons_of_length_eq_add_one h.symm
    have hxy : x ^^^ (x ^^^ y) = y := by rw [← UInt8.xor_assoc, UInt8.xor_self, UInt8.zero_xor]
    rw [mask, mask, List.zipWith_cons_cons, List.zipWith_cons_cons, hxy]
    exact congrArg (y :: ·) (ih (by simpa using h))

theorem length_mask {a b : List UInt8} (h : a.length = b.length) : (mask a b).length = b.length := by
  rw [mask, List.length_zipWith, h, Nat.min_self]

/-- Who knows the password is let in. -/
theorem accepts_token (hsize : ∀ m, (hash m).length = size) (hpos : 0 < size)
    (scramble password : List UInt8) :
    accepts hash scramble (kept hash password) (token hash scramble password) = true := by
  unfold accepts kept token
  by_cases hp : password = []
  · rw [if_pos hp, if_pos hp]
    rfl
  · have hne : hash (hash password) ≠ [] := List.ne_nil_of_length_pos (by rw [hsize]; exact hpos)
    have hlen : (hash (scramble ++ hash (hash password))).length = (hash password).length := by
      rw [hsize, hsize]
    rw [if_neg hp, if_neg hp, if_neg hne, mask_mask hlen, length_mask hlen, hsize, hsize]
    simp

end NativePassword

section Account

open MysqlReplies

/-- What a server says to those it lets in and to the others. -/
structure Account where
  kept : List UInt8 → Option (List UInt8)
  ok : Ok
  err : Err

variable (hash : List UInt8 → List UInt8) (account : Account) (scramble : List UInt8)

/-- The number of a packet, and what is in it. -/
def takePacket (bs : List UInt8) : Option (ℕ × List UInt8) := do
  let (len, bs) ← takeInt 3 bs
  let (number, bs) ← takeInt 1 bs
  if bs.length = len then some (number, bs) else none

/-- It lets in who shows this for the user. -/
def Account.letsIn (user auth : List UInt8) : Bool :=
  match account.kept user with
  | some kept => accepts hash scramble kept auth
  | none => false

def Account.admits (req : List UInt8) : Bool :=
  match decodeLogin req with
  | some (login, []) => account.letsIn hash scramble login.user login.auth
  | _ => false

/-- What a server answers to the packet of a client. -/
def Account.reply (bs : List UInt8) : List UInt8 :=
  match takePacket bs with
  | none => []
  | some (number, req) => packet (number + 1)
    (if account.admits hash scramble req then account.ok.encode else account.err.encode)

theorem takePacket_packet {number : ℕ} {req : List UInt8} (hn : number < 256)
    (hlen : req.length < 2 ^ 24) : takePacket (packet number req) = some (number, req) := by
  have hnat : (UInt8.ofNat number).toNat = number := by
    rw [UInt8.toNat_ofNat', Nat.mod_eq_of_lt hn]
  rw [packet, List.append_assoc, takePacket, takeInt_le (by omega), List.singleton_append]
  simp [takeInt_one, hnat]

end Account

end MysqlHandshake

end Lib
