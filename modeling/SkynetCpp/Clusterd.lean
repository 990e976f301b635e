import SkynetCpp.Cluster
import SkynetCpp.LuaSeri

/-!
# Cluster requests in clusterd

`read_loop` of `clusterd.lua` cuts what a connection received into packets, and forks
`dispatch_request` for each of them. `large_request` holds, for each connection, the messages in
parts that are not complete.
-/

namespace SkynetCpp

open Lib

namespace Clusterd

open Cluster

/-- A message in parts: what its first packet said, and what was appended since. -/
structure LargeRequest where
  addr : Option Address
  isPush : Bool
  parts : List Part
  deriving DecidableEq, Repr

/-- `large_request`: a connection's entry is nil until its first packet. -/
abbrev LargeRequests := ℤ → Option (ℕ → Option LargeRequest)

/-- What `dispatch_request` does to others. `raise` is an error that ends the coroutine. -/
inductive Effect
  | rawsend (dest : Handle) (msg : Bytes)
  | rawcall (dest : Handle) (msg : Bytes)
  | send (connId : ℤ) (packet : Bytes)
  | raise (err : Bytes)
  deriving DecidableEq, Repr

/-- What `dispatch_request` asks for: `register_name_cache`, the names that are registered or once
were looked up; `c.query`, the names of this node's services; how Lua writes a double; and the
place in the script that it puts before the text of an error. -/
structure Env where
  registerNameCache : Bytes → Option Address
  query : Bytes → Option Handle
  floatText : UInt64 → Bytes
  position : Bytes

/-- `resolve_addr` -/
def resolveAddr (env : Env) : Address → Except Bytes Handle
  | .number n => .ok n
  | .name name =>
    match env.query name with
    | some h => .ok h
    | none => .error (env.position ++ ascii "Unknown service name: " ++ name)

/-- The end of `dispatch_request`: what is sent back of a result. -/
def respond (connId : ℤ) (session : ℕ) : Except Bytes Bytes → List Effect
  | .ok msg => (packresponse session true msg).map (.send connId)
  | .error err => (packresponse session false err).map (.send connId)

/-- `"@" .. name`, for a value that has a text. -/
def nameKey (env : Env) : Value → Option Bytes
  | .string name => some (0x40 :: name)
  | .integer n => some (0x40 :: ascii (toString n.toInt))
  | .float bits => some (0x40 :: env.floatText bits)
  | _ => none

def addressValue : Address → Value
  | .number n => .integer (Int64.ofNat n)
  | .name name => .string name

/-- A name query: a request to address 0. -/
def queryName (env : Env) (connId : ℤ) (session : ℕ) (msg : Bytes) : List Effect :=
  match LuaSeri.luaseriUnpack msg with
  | .error err => [.raise (ascii err)]
  | .ok values =>
    let name := values.headD .nil
    match nameKey env name with
    | none => [.raise (env.position ++ ascii "attempt to concatenate a " ++ name.typename
        ++ ascii " value (local 'name')")]
    | some key =>
      match env.registerNameCache key with
      | none => respond connId session (.error (ascii "name not found"))
      | some addr =>
        match LuaSeri.luaseriPack [addressValue addr] with
        | .error err => [.raise (ascii err)]
        | .ok response => respond connId session (.ok response)

/-- A complete message is sent on. What follows a `rawcall` is `respond`, with its result. -/
def deliver (env : Env) (connId : ℤ) (addr : Option Address) (session : ℕ) (msg : Bytes)
    (isPush : Bool) : List Effect :=
  if addr = some (.number 0) then queryName env connId session msg
  else
    let addr := match addr with
      | some (.name name) => if isname addr then env.registerNameCache name else addr
      | _ => addr
    match addr with
    | none => respond connId session (.error (ascii "Invalid name"))
    | some addr =>
      match resolveAddr env addr with
      | .ok dest => if isPush then [.rawsend dest msg] else [.rawcall dest msg]
      | .error err => if isPush then [.raise err] else respond connId session (.error err)

/-- The session's entry of the connection. -/
def entry (large : LargeRequests) (connId : ℤ) (session : ℕ) : Option LargeRequest :=
  (large connId).bind fun sessions => sessions session

/-- `large[session] = req` -/
def setEntry (large : LargeRequests) (connId : ℤ) (session : ℕ) (req : Option LargeRequest) :
    LargeRequests :=
  Function.update large connId
    (some (Function.update ((large connId).getD fun _ => none) session req))

/-- `dispatch_request` -/
def dispatchRequest (env : Env) (connId : ℤ) (large : LargeRequests) (r : Request) :
    LargeRequests × List Effect :=
  let req := entry large connId r.session
  if r.padding then
    let req := req.getD { addr := r.addr, isPush := r.isPush, parts := [] }
    let parts := if r.msg.isSome then append req.parts r.msg r.sz else req.parts
    (setEntry large connId r.session (some { req with parts }), [])
  else
    match req with
    | some req =>
      let parts := if r.msg.isSome then append req.parts r.msg r.sz else req.parts
      (setEntry large connId r.session none,
        match concat parts with
        | some (msg, _) => deliver env connId req.addr r.session msg req.isPush
        | none => respond connId r.session (.error (ascii "Invalid large req")))
    | none =>
      (setEntry large connId r.session none,
        match r.msg with
        | some msg => deliver env connId r.addr r.session msg r.isPush
        | none => respond connId r.session (.error (ascii "Invalid large req")))

/-- The forked `dispatch_request`s, in the order they were forked, and the effects of each. -/
def dispatchAll (env : Env) (connId : ℤ) :
    LargeRequests → List Request → LargeRequests × List (List Effect)
  | large, [] => (large, [])
  | large, r :: rs =>
    let (large, effects) := dispatchRequest env connId large r
    let (large, rest) := dispatchAll env connId large rs
    (large, effects :: rest)

/-- Where `read_loop` is when all that was received is read: in `socket.read`, with these bytes
of the next packet, or at its end, or ended by an error. -/
inductive Exit
  | reading (buffer : Bytes)
  | broken
  | raised (err : String)
  deriving DecidableEq, Repr

/-- `read_loop` on what was received: the arguments of the `dispatch_request`s it forks. `fuel` is
enough if it is not less than the number of bytes. -/
def readLoop : ℕ → Bytes → List Request × Exit
  | 0, buffer => ([], .reading buffer)
  | fuel + 1, buffer =>
    if buffer.length < 2 then ([], .reading buffer)
    else
      let sz := unpackHeader (buffer.take 2)
      if sz = 0 then ([], .broken)
      else if buffer.length < 2 + sz then ([], .reading buffer)
      else
        match unpackrequest ((buffer.drop 2).take sz) with
        | .error err => ([], .raised err)
        | .ok r =>
          let (rs, exit) := readLoop fuel (buffer.drop (2 + sz))
          (r :: rs, exit)

end Clusterd

end SkynetCpp
