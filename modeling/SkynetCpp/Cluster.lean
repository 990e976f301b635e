import SkynetCpp.Lib.Endian
import SkynetCpp.Message

/-!
# The cluster packets

`lua_cluster.cpp`: what one node sends another. A packet is two bytes with the length of the rest,
most significant first, and the rest. A message of `MULTI_PART` bytes or more is cut into a head,
which tells its size, and parts.
-/

namespace SkynetCpp

open Lib

namespace Cluster

def TEMP_LENGTH : ℕ := 0x8200
def MULTI_PART : ℕ := 0x8000
def INT32_MAX : ℕ := 2 ^ 31 - 1

/-- An address: a number, of which the code takes the low 32 bits, or a name. -/
inductive Address
  | number (n : ℕ)
  | name (name : Bytes)
  deriving DecidableEq, Repr

def fillUint32 (n : ℕ) : Bytes := le 4 n

def unpackUint32 (buf : Bytes) : ℕ := ofLe (buf.take 4)

def fillHeader (sz : ℕ) : Bytes := [UInt8.ofNat (sz / 256), UInt8.ofNat sz]

def unpackHeader : Bytes → ℕ
  | b :: b' :: _ => b.toNat * 256 + b'.toNat
  | _ => 0

/-- How many parts a message of `MULTI_PART` bytes or more has. -/
def partCount (sz : ℕ) : ℕ := (sz - 1) / MULTI_PART + 1

/-- `packreq_number`: the first packet, and the number of parts that follow. -/
def packreqNumber (addr session : ℕ) (msg : Bytes) (isPush : Bool) : Bytes × ℕ :=
  let sz := msg.length
  if sz < MULTI_PART then
    (fillHeader (sz + 9) ++ [0] ++ fillUint32 addr ++ fillUint32 (if isPush then 0 else session)
      ++ msg, 0)
  else
    (fillHeader 13 ++ [if isPush then 0x41 else 1] ++ fillUint32 addr ++ fillUint32 session
      ++ fillUint32 sz, partCount sz)

def packreqString (name : Bytes) (session : ℕ) (msg : Bytes) (isPush : Bool) :
    Except String (Bytes × ℕ) :=
  let namelen := name.length
  let sz := msg.length
  if namelen < 1 ∨ 255 < namelen then .error "name length must be 1-255"
  else if sz < MULTI_PART then
    .ok (fillHeader (sz + 6 + namelen) ++ [0x80, UInt8.ofNat namelen] ++ name
      ++ fillUint32 (if isPush then 0 else session) ++ msg, 0)
  else
    .ok (fillHeader (10 + namelen) ++ [if isPush then 0xc1 else 0x81, UInt8.ofNat namelen] ++ name
      ++ fillUint32 session ++ fillUint32 sz, partCount sz)

/-- `packreq_multi`: the parts, of which `part` are still to be written. -/
def packreqMulti (session : ℕ) : ℕ → Bytes → List Bytes
  | 0, _ => []
  | part + 1, msg =>
    let s := min msg.length MULTI_PART
    (fillHeader (s + 5) ++ [if MULTI_PART < msg.length then 2 else 3] ++ fillUint32 session
      ++ msg.take s) :: packreqMulti session part (msg.drop s)

/-- `packrequest`: the first packet, the next session, and the table of the parts if there are
any. The size of the message is a `uint32_t`. -/
def packrequestImpl (addr : Address) (session : ℤ) (msg : Bytes) (isPush : Bool) :
    Except String (Bytes × ℕ × Option (List Bytes)) := do
  let msg := msg.take (msg.length % 2 ^ 32)
  let session := toSigned 32 session
  if session ≤ 0 then .error ("invalid session " ++ toString session)
  else
    let session := session.toNat
    let (packet, multipak) ← match addr with
      | .number n => .ok (packreqNumber n session msg isPush)
      | .name name => packreqString name session msg isPush
    let newSession := if INT32_MAX < session + 1 then 1 else session + 1
    if multipak ≠ 0 then
      pure (packet, newSession, some (packreqMulti session multipak msg))
    else pure (packet, newSession, none)

def packrequest (addr : Address) (session : ℤ) (msg : Bytes) :=
  packrequestImpl addr session msg false

def packpush (addr : Address) (session : ℤ) (msg : Bytes) :=
  packrequestImpl addr session msg true

/-- What `cluster.unpackrequest` returns. A later part has no address and no `is_push`; `msg` is
nil in the head of a message in parts, and `sz` is the size of the whole message there. -/
structure Request where
  addr : Option Address
  session : ℕ
  msg : Option Bytes
  sz : ℕ
  padding : Bool
  isPush : Bool
  deriving DecidableEq, Repr

def unpackreqNumber (buf : Bytes) : Except String Request :=
  let sz := buf.length
  if sz < 9 then .error ("Invalid cluster message (size=" ++ toString sz ++ ")")
  else
    let session := unpackUint32 (buf.drop 5)
    .ok { addr := some (.number (unpackUint32 (buf.drop 1))), session, msg := some (buf.drop 9),
          sz := sz - 9, padding := false, isPush := session = 0 }

def unpackmreqNumber (buf : Bytes) (isPush : Bool) : Except String Request :=
  let sz := buf.length
  if sz ≠ 13 then .error ("Invalid cluster multi-req (size=" ++ toString sz ++ ", must be 13)")
  else
    .ok { addr := some (.number (unpackUint32 (buf.drop 1))), session := unpackUint32 (buf.drop 5),
          msg := none, sz := unpackUint32 (buf.drop 9), padding := true, isPush }

def unpackmreqPart (buf : Bytes) : Except String Request :=
  let sz := buf.length
  if sz < 5 then .error "Invalid cluster multi part message"
  else
    .ok { addr := none, session := unpackUint32 (buf.drop 1), msg := some (buf.drop 5),
          sz := sz - 5, padding := buf.head? = some 2, isPush := false }

/-- The second byte of a packet with a name. -/
def nameSize (buf : Bytes) : ℕ := ((buf.drop 1).headD 0).toNat

def unpackreqString (buf : Bytes) : Except String Request :=
  let sz := buf.length
  let namesz := nameSize buf
  if sz < 2 ∨ sz < namesz + 6 then .error ("Invalid cluster message (size=" ++ toString sz ++ ")")
  else
    let session := unpackUint32 (buf.drop (namesz + 2))
    .ok { addr := some (.name ((buf.drop 2).take namesz)), session,
          msg := some (buf.drop (namesz + 6)), sz := sz - (namesz + 6), padding := false,
          isPush := session = 0 }

def unpackmreqString (buf : Bytes) (isPush : Bool) : Except String Request :=
  let sz := buf.length
  let namesz := nameSize buf
  if sz < 2 ∨ sz < namesz + 10 then .error ("Invalid cluster message (size=" ++ toString sz ++ ")")
  else
    .ok { addr := some (.name ((buf.drop 2).take namesz)),
          session := unpackUint32 (buf.drop (namesz + 2)), msg := none,
          sz := unpackUint32 (buf.drop (namesz + 6)), padding := true, isPush }

/-- `cluster.unpackrequest`, of a packet without its header. The type in the error is a `char`. -/
def unpackrequest : Bytes → Except String Request
  | [] => .error "Invalid req package: size == 0"
  | t :: rest =>
    if t = 0 then unpackreqNumber (t :: rest)
    else if t = 1 then unpackmreqNumber (t :: rest) false
    else if t = 0x41 then unpackmreqNumber (t :: rest) true
    else if t = 2 ∨ t = 3 then unpackmreqPart (t :: rest)
    else if t = 0x80 then unpackreqString (t :: rest)
    else if t = 0x81 then unpackmreqString (t :: rest) false
    else if t = 0xc1 then unpackmreqString (t :: rest) true
    else .error ("Invalid req package type " ++ toString (signed 8 t.toNat))

/-- The parts of a response, `part` of them. -/
def packresponseMulti (session : ℕ) : ℕ → Bytes → List Bytes
  | 0, _ => []
  | part + 1, msg =>
    let s := min msg.length MULTI_PART
    (fillHeader (s + 5) ++ fillUint32 session ++ [if MULTI_PART < msg.length then 3 else 4]
      ++ msg.take s) :: packresponseMulti session part (msg.drop s)

/-- `cluster.packresponse`: the packets, which the code returns as a table if there are more than
one. -/
def packresponse (session : ℕ) (ok : Bool) (msg : Bytes) : List Bytes :=
  if ok ∧ MULTI_PART < msg.length then
    (fillHeader 9 ++ fillUint32 session ++ [2] ++ fillUint32 msg.length)
      :: packresponseMulti session (partCount msg.length) msg
  else
    let msg := if ok then msg else msg.take MULTI_PART
    [fillHeader (msg.length + 5) ++ fillUint32 session ++ [if ok then 1 else 0] ++ msg]

/-- An element of the table that `cluster.append` fills. -/
inductive Part
  | number (n : ℕ)
  | string (s : Bytes)
  deriving DecidableEq, Repr

/-- What `cluster.unpackresponse` returns: `data` is a string, or the size of a message in parts. -/
structure Response where
  session : ℕ
  ok : Bool
  data : Part
  padding : Bool
  deriving DecidableEq, Repr

/-- `cluster.unpackresponse`, of a packet without its header: no values for what is no response. -/
def unpackresponse (buf : Bytes) : Option Response :=
  let sz := buf.length
  if sz < 5 then none
  else
    let session := unpackUint32 buf
    let t := (buf.drop 4).headD 0
    if t = 0 then some { session, ok := false, data := .string (buf.drop 5), padding := false }
    else if t = 1 ∨ t = 4 then
      some { session, ok := true, data := .string (buf.drop 5), padding := false }
    else if t = 2 then
      if sz ≠ 9 then none
      else some { session, ok := true, data := .number (unpackUint32 (buf.drop 5)),
                  padding := true }
    else if t = 3 then
      some { session, ok := true, data := .string (buf.drop 5), padding := true }
    else none

/-- `cluster.append`: a nil message appends the size. -/
def append (req : List Part) (msg : Option Bytes) (sz : ℕ) : List Part :=
  match msg with
  | none => req ++ [.number sz]
  | some msg => req ++ [.string msg]

/-- The strings at the head of a table. -/
def leadingStrings : List Part → List Bytes
  | .string s :: parts => s :: leadingStrings parts
  | _ => []

/-- `cluster.concat`: nothing, unless the first element is the size of the rest. -/
def concat : List Part → Option (Bytes × ℕ)
  | .number sz :: parts =>
    let b := (leadingStrings parts).flatten
    if b.length ≠ sz then none else some (b, sz)
  | _ => none

/-- `cluster.isname` -/
def isname : Option Address → Bool
  | some (.name name) => name.head? = some 0x40
  | _ => false

/-! ## The reads of the decoders

The same decoders, with every read of the buffer checked: `outside` is a read past its end. -/

inductive Fault
  | outside
  | raised (err : String)
  deriving DecidableEq, Repr

namespace Checked

def readUint32 (buf : Bytes) (off : ℕ) : Except Fault ℕ :=
  if off + 4 ≤ buf.length then .ok (unpackUint32 (buf.drop off)) else .error .outside

def readByte (buf : Bytes) (off : ℕ) : Except Fault UInt8 :=
  if off < buf.length then .ok ((buf.drop off).headD 0) else .error .outside

/-- `lua_pushlstring(L, buf + off, len)` -/
def readBytes (buf : Bytes) (off len : ℕ) : Except Fault Bytes :=
  if off + len ≤ buf.length then .ok ((buf.drop off).take len) else .error .outside

def unpackreqNumber (buf : Bytes) : Except Fault Request := do
  let sz := buf.length
  if sz < 9 then .error (.raised ("Invalid cluster message (size=" ++ toString sz ++ ")"))
  else
    let address ← readUint32 buf 1
    let session ← readUint32 buf 5
    let msg ← readBytes buf 9 (sz - 9)
    pure { addr := some (.number address), session, msg := some msg, sz := sz - 9,
           padding := false, isPush := session = 0 }

def unpackmreqNumber (buf : Bytes) (isPush : Bool) : Except Fault Request := do
  let sz := buf.length
  if sz ≠ 13 then
    .error (.raised ("Invalid cluster multi-req (size=" ++ toString sz ++ ", must be 13)"))
  else
    let address ← readUint32 buf 1
    let session ← readUint32 buf 5
    let size ← readUint32 buf 9
    pure { addr := some (.number address), session, msg := none, sz := size, padding := true,
           isPush }

def unpackmreqPart (buf : Bytes) : Except Fault Request := do
  let sz := buf.length
  if sz < 5 then .error (.raised "Invalid cluster multi part message")
  else
    let t ← readByte buf 0
    let session ← readUint32 buf 1
    let msg ← readBytes buf 5 (sz - 5)
    pure { addr := none, session, msg := some msg, sz := sz - 5, padding := t = 2,
           isPush := false }

def unpackreqString (buf : Bytes) : Except Fault Request := do
  let sz := buf.length
  if sz < 2 then .error (.raised ("Invalid cluster message (size=" ++ toString sz ++ ")"))
  else
    let namesz := (← readByte buf 1).toNat
    if sz < namesz + 6 then
      .error (.raised ("Invalid cluster message (size=" ++ toString sz ++ ")"))
    else
      let name ← readBytes buf 2 namesz
      let session ← readUint32 buf (namesz + 2)
      let dataOffset := namesz + 6
      let msg ← readBytes buf dataOffset (sz - dataOffset)
      pure { addr := some (.name name), session, msg := some msg, sz := sz - dataOffset,
             padding := false, isPush := session = 0 }

def unpackmreqString (buf : Bytes) (isPush : Bool) : Except Fault Request := do
  let sz := buf.length
  if sz < 2 then .error (.raised ("Invalid cluster message (size=" ++ toString sz ++ ")"))
  else
    let namesz := (← readByte buf 1).toNat
    if sz < namesz + 10 then
      .error (.raised ("Invalid cluster message (size=" ++ toString sz ++ ")"))
    else
      let name ← readBytes buf 2 namesz
      let session ← readUint32 buf (namesz + 2)
      let size ← readUint32 buf (namesz + 6)
      pure { addr := some (.name name), session, msg := none, sz := size, padding := true,
             isPush }

def unpackrequest (msg : Bytes) : Except Fault Request := do
  if msg.length = 0 then .error (.raised "Invalid req package: size == 0")
  else
    let t ← readByte msg 0
    if t = 0 then unpackreqNumber msg
    else if t = 1 then unpackmreqNumber msg false
    else if t = 0x41 then unpackmreqNumber msg true
    else if t = 2 ∨ t = 3 then unpackmreqPart msg
    else if t = 0x80 then unpackreqString msg
    else if t = 0x81 then unpackmreqString msg false
    else if t = 0xc1 then unpackmreqString msg true
    else .error (.raised ("Invalid req package type " ++ toString (signed 8 t.toNat)))

def unpackresponse (buf : Bytes) : Except Fault (Option Response) := do
  let sz := buf.length
  if sz < 5 then pure none
  else
    let session ← readUint32 buf 0
    let t ← readByte buf 4
    if t = 0 then
      let data ← readBytes buf 5 (sz - 5)
      pure (some { session, ok := false, data := .string data, padding := false })
    else if t = 1 ∨ t = 4 then
      let data ← readBytes buf 5 (sz - 5)
      pure (some { session, ok := true, data := .string data, padding := false })
    else if t = 2 then
      if sz ≠ 9 then pure none
      else
        let total ← readUint32 buf 5
        pure (some { session, ok := true, data := .number total, padding := true })
    else if t = 3 then
      let data ← readBytes buf 5 (sz - 5)
      pure (some { session, ok := true, data := .string data, padding := true })
    else pure none

end Checked

end Cluster

end SkynetCpp
