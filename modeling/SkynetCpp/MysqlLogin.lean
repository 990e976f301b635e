import SkynetCpp.Crypt
import SkynetCpp.Lib.MysqlHandshake
import SkynetCpp.Lib.Sha1
import SkynetCpp.MysqlReplies

/-!
# The MySQL client: login

The `auth` function of the channel, `_mysql_login`: it reads the greeting of the server, and sends
the packet with the token and reads the answer to it. `on_connect` is left out. Where the bytes do
not come, there is no result.
-/

namespace SkynetCpp

open Lib LuaString

namespace Mysql

section Token

/-- `_from_cstring`: it raises where there is no 0. -/
def fromCstring (data : Bytes) (i : ℤ) : Option (Bytes × ℤ) :=
  (find data [0] i).map fun (e : ℕ) => (sub data i (e - 1), (e : ℤ) + 1)

/-- The function that `strgsub` calls with each byte of `stage3`, the `i`-th time. -/
def maskByte (stage1 : Bytes) (x : UInt8) (i : ℕ) : Option UInt8 :=
  (byte stage1 i).map (x ^^^ ·)

/-- `_compute_token` -/
def computeToken (password scramble : Bytes) : Option Bytes := do
  if password = [] then return []
  else
    let stage1 ← Crypt.sha1 password
    let stage2 ← Crypt.sha1 stage1
    let stage3 ← Crypt.sha1 (scramble ++ stage2)
    (stage3.zipIdx 1).mapM fun p => maskByte stage1 p.1 p.2

end Token

section Packets

/-- `_recv_packet` with the `packet_no` that it leaves. -/
def recvNumbered (packetNo : ℤ) (s : Bytes) :
    Option (Except Bytes (Bytes × PacketType) × ℤ × Bytes) := do
  let (data, s) ← read 4 s
  let (len, pos) ← unpackUnsigned 3 data 1
  if len = 0 then return (.error (ascii "empty packet"), packetNo, s)
  else
    let packetNo ← byte data pos
    let (data, s) ← read len.toNat s
    return (.ok (data, packetType data), packetNo.toNat, s)

/-- The text that an ERR packet raises. -/
def Failure.text (failure : Failure) : Bytes :=
  ascii "errno:" ++ numeral (failure.errno.getD 0) ++ ascii ", msg:" ++ failure.err
    ++ ascii ", sqlstate:" ++ failure.sqlstate.getD []

/-- `_recv_decode_packet_resp`: the packet, or the text of the error that the channel raises. -/
def recvDecodePacketResp (packetNo : ℤ) (s : Bytes) : Option (Except Bytes Bytes × ℤ × Bytes) := do
  match ← recvNumbered packetNo s with
  | (.error err, packetNo, s) =>
    return (.error (ascii "failed to receive the result packet: " ++ err), packetNo, s)
  | (.ok (packet, .err), packetNo, s) =>
    let failure ← (parseErrPacket packet).toOption
    return (.error failure.text, packetNo, s)
  | (.ok (_, .eof), packetNo, s) =>
    return (.error (ascii "old pre-4.1 authentication protocol not supported"), packetNo, s)
  | (.ok (packet, _), packetNo, s) => return (.ok packet, packetNo, s)

end Packets

section Greeting

/-- What the login keeps of the greeting. -/
structure Server where
  protocolVer : UInt8
  serverVer : Bytes
  serverCapabilities : UInt64
  serverLang : Option UInt8
  serverStatus : ℕ
  deriving DecidableEq

/-- The part of `_mysql_login` that reads the greeting: what is kept of it, and the scramble. -/
def parseGreeting (packet : Bytes) : Except Error (Server × Bytes) := do
  let protocolVer ← orRaise (byte packet 1)
  let (serverVer, pos) ← orRaise (fromCstring packet 2)
  let (_, pos) ← orRaise (unpackUnsigned 4 packet pos)
  let scramble1 := sub packet pos (pos + 8 - 1)
  let pos := pos + 9
  let (capabilities, pos) ← orRaise (unpackUnsigned 2 packet pos)
  let serverLang := byte packet pos
  let pos := pos + 1
  let (serverStatus, pos) ← orRaise (unpackUnsigned 2 packet pos)
  let (moreCapabilities, pos) ← orRaise (unpackUnsigned 2 packet pos)
  let len := 21 - 8 - 1
  let pos := pos + 1 + 10
  let scramblePart2 := sub packet pos (pos + len - 1)
  return ({ protocolVer, serverVer, serverLang, serverStatus := serverStatus.toNat,
            serverCapabilities := capabilities ||| (moreCapabilities <<< 16) },
    scramble1 ++ scramblePart2)

end Greeting

section Request

/-- `CHARSET_MAP` -/
def CHARSET_MAP : List (Bytes × ℕ) :=
  [(ascii "_default", 0), (ascii "big5", 1), (ascii "latin1", 8), (ascii "ascii", 11),
    (ascii "gb2312", 24), (ascii "gbk", 28), (ascii "utf8", 33), (ascii "utf8mb4", 45),
    (ascii "binary", 63)]

/-- The options of `connect` that the login uses; `max_packet_size` is an integer of Lua. -/
structure Opts where
  user : Bytes := []
  password : Bytes := []
  database : Bytes := []
  charset : Bytes := ascii "_default"
  maxPacketSize : Int64 := 1024 * 1024

/-- `client_flags` -/
def clientFlags : ℕ := 260047

/-- The format `z` of `string.pack`: it raises where the string has a 0. -/
def packZ (s : Bytes) : Option Bytes := if 0 ∈ s then none else some (s ++ [0])

/-- The format `s1`. -/
def packS1 (s : Bytes) : Option Bytes :=
  (packUnsigned 1 (UInt64.ofNat s.length)).map (· ++ s)

/-- `req`; an unknown charset raises in `strchar`. -/
def loginRequest (opts : Opts) (scramble : Bytes) : Option Bytes := do
  let charset ← (CHARSET_MAP.find? (·.1 = opts.charset)).map Prod.snd
  let token ← computeToken opts.password scramble
  return (← packUnsigned 4 (UInt64.ofNat clientFlags))
    ++ (← packUnsigned 4 opts.maxPacketSize.toUInt64) ++ [UInt8.ofNat charset]
    ++ List.replicate 23 0 ++ (← packZ opts.user) ++ (← packS1 token) ++ (← packZ opts.database)

/-- What is kept of the greeting, the packet that is sent, and its number. -/
def answerGreeting (opts : Opts) (packetNo : ℤ) (packet : Bytes) :
    Except Error (Server × Bytes × ℤ) := do
  let (server, scramble) ← parseGreeting packet
  let (authpacket, packetNo) ← composePacket packetNo (← orRaise (loginRequest opts scramble))
  return (server, authpacket, packetNo)

/-- `_mysql_login`, with a peer that has sent `s` and answers `reply` to what it gets. -/
def mysqlLogin (opts : Opts) (reply : Bytes → Bytes) (packetNo : ℤ) (s : Bytes) :
    Option (Except Error Server × Bytes) := do
  match ← recvDecodePacketResp packetNo s with
  | (.error err, _, s) => return (.error (.message err), s)
  | (.ok packet, packetNo, s) =>
    match answerGreeting opts packetNo packet with
    | .error err => return (.error err, s)
    | .ok (server, authpacket, packetNo) =>
      match ← recvDecodePacketResp packetNo (s ++ reply authpacket) with
      | (.error err, _, s) => return (.error (.message err), s)
      | (.ok _, _, s) => return (.ok server, s)

end Request

section Expected

open MysqlHandshake

/-- What a server reads of the packet. -/
def loginOf (opts : Opts) (charset : ℕ) (scramble : Bytes) : Login where
  flags := clientFlags
  maxPacket := opts.maxPacketSize.toUInt64.toNat
  charset
  user := opts.user
  auth := token Sha1.hash scramble opts.password
  database := opts.database

/-- What the login keeps of a greeting. -/
def serverOf (g : Greeting) : Server where
  protocolVer := 10
  serverVer := g.version
  serverCapabilities := UInt64.ofNat g.capabilities
  serverLang := some (UInt8.ofNat g.charset)
  serverStatus := g.status

/-- The options name a charset of the map and have no 0 in what is sent as a string with a 0 at its
end, and what they give fits into the packet. -/
structure Opts.Fits (opts : Opts) : Prop where
  charset : opts.charset ∈ CHARSET_MAP.map Prod.fst
  user : 0 ∉ opts.user
  database : 0 ∉ opts.database
  maxPacketSize : opts.maxPacketSize.toUInt64.toNat < 2 ^ 32
  length : opts.user.length + opts.database.length + (if opts.password = [] then 35 else 55)
    < 2 ^ 24

/-- How a login with these options ends that the server takes part in: it is let in, and knows then
what the greeting says, or gets the error of the server. -/
def outcome (opts : Opts) (g : Greeting) (account : Account) : Except Error Server :=
  if account.letsIn Sha1.hash g.scramble opts.user (token Sha1.hash g.scramble opts.password)
  then .ok (serverOf g) else .error (.message (failureOf account.err).text)

/-- The login ends as the server wants it to, which lets the client in if it keeps the password of
the options for their user. -/
structure LogsIn (opts : Opts) (g : Greeting) (number : ℕ) (account : Account) : Prop where
  ends : ∀ packetNo, mysqlLogin opts (account.reply Sha1.hash g.scramble) packetNo
    (MysqlReplies.packet number g.encode) = some (outcome opts g account, [])
  right : account.kept opts.user = some (kept Sha1.hash opts.password) →
    outcome opts g account = .ok (serverOf g)

end Expected

end Mysql

end SkynetCpp
