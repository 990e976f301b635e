import SkynetCpp.LuaString

/-!
# The MySQL client: integers, strings and statements

The helpers of `mysql.lua` for the wire, `_compose_packet`, and `_compose_stmt_execute`. A position
that `_from_length_coded_str` returns is not cut down to 64 bits.
-/

namespace SkynetCpp

open Lib LuaString

namespace Mysql

/-- What is raised: by `error` with this text, or by `string.pack`, `string.unpack` or an operator
that got something else than it takes. -/
inductive Error
  | message (text : Bytes)
  | argument
  deriving DecidableEq

/-- A function of the library that raises for `none`. -/
def orRaise {α : Type} (x : Option α) : Except Error α :=
  match x with
  | some a => .ok a
  | none => .error .argument

section Wire

/-- An integer as Lua has it, of its 64 bits. -/
def ofBits (n : UInt64) : Value := .integer n.toInt64

/-- `_from_length_coded_bin`: an integer, nil, or false for a first byte that it does not know. -/
def fromLengthCodedBin (data : Bytes) (pos : ℤ) : Except Error (Value × ℤ) := do
  match byte data pos with
  | none => return (.nil, pos)
  | some first =>
    if first.toNat ≤ 250 then return (.integer (Int64.ofNat first.toNat), pos + 1)
    else if first = 251 then return (.nil, pos + 1)
    else if first = 252 then
      let (n, pos) ← orRaise (unpackUnsigned 2 data (pos + 1))
      return (ofBits n, pos)
    else if first = 253 then
      let (n, pos) ← orRaise (unpackUnsigned 3 data (pos + 1))
      return (ofBits n, pos)
    else if first = 254 then
      let (n, pos) ← orRaise (unpackUnsigned 8 data (pos + 1))
      return (ofBits n, pos)
    else return (.boolean false, pos + 1)

/-- `_set_length_coded_bin`, of a length. -/
def setLengthCodedBin (n : ℕ) : Except Error Bytes := do
  if n < 251 then return [UInt8.ofNat n]
  else if n < 1 <<< 16 then return 0xfc :: (← orRaise (packUnsigned 2 (UInt64.ofNat n)))
  else if n < 1 <<< 24 then return 0xfd :: (← orRaise (packUnsigned 3 (UInt64.ofNat n)))
  else return 0xfe :: (← orRaise (packUnsigned 8 (UInt64.ofNat n)))

/-- `_from_length_coded_str`: nil, or a string. -/
def fromLengthCodedStr (data : Bytes) (pos : ℤ) : Except Error (Value × ℤ) := do
  let (len, pos) ← fromLengthCodedBin data pos
  match len with
  | .nil => return (.nil, pos)
  | .integer len => return (.string (sub data pos (pos + len.toInt - 1)), pos + len.toInt)
  | _ => .error .argument

/-- `_compose_packet` and the `packet_no` after it. -/
def composePacket (packetNo : ℤ) (req : Bytes) : Except Error (Bytes × ℤ) := do
  let packetNo := packetNo + 1
  let size ← orRaise (packUnsigned 3 (UInt64.ofNat req.length))
  let number ← orRaise (packUnsigned 1 (UInt64.ofInt packetNo))
  return (size ++ number ++ req, packetNo)

end Wire

section Execute

def COM_STMT_EXECUTE : UInt8 := 0x17

/-- The fields of a prepared statement that `execute` reads. -/
structure Stmt where
  prepareId : UInt32
  paramCount : ℕ

def setByte2 (n : ℕ) : Bytes := le 2 n

def setInt8 (n : Int64) : Bytes := le 8 (n.toInt % 2 ^ 64).toNat

def setDouble (bits : UInt64) : Bytes := le 8 bits.toNat

/-- `store_types[type(v)]`: the type and the value. -/
def storeType : Value → Except Error (Bytes × Bytes)
  | .integer n => .ok (setByte2 0x08, setInt8 n)
  | .float bits =>
    match Value.floatToInteger bits with
    | none => .ok (setByte2 0x05, setDouble bits)
    | some n => .ok (setByte2 0x08, setInt8 n)
  | .string s => do return (setByte2 0x0f, (← setLengthCodedBin s.length) ++ s)
  | .boolean b => .ok (setByte2 0x01, if b then [1] else [0])
  | .nil => .ok (setByte2 0x06, [])
  | v => .error (.message (ascii "invalid parameter type " ++ v.typename))

/-- The byte `i` of `null_map`, where `field_index` begins at `8 * i + 1`. -/
def nullByte (args : List Value) (i : ℕ) : ℕ :=
  (List.range 8).foldl (fun byte j =>
    if 8 * i + j < args.length ∧ (args.getD (8 * i + j) .nil).isNil then byte ||| (1 <<< j)
    else byte) 0

def nullMap (args : List Value) : Bytes :=
  (List.range ((args.length + 7) / 8)).map fun i => UInt8.ofNat (nullByte args i)

/-- `types_buf` and `values_buf` -/
def storeTypes : List Value → Except Error (Bytes × Bytes)
  | [] => .ok ([], [])
  | v :: args => do
    let (ts, vs) ← storeType v
    let (types, values) ← storeTypes args
    return (ts ++ types, vs ++ values)

/-- `cmd_packet` -/
def cmdPacket (stmt : Stmt) (cursorType : UInt8) (args : List Value) : Except Error Bytes := do
  let cmd := [COM_STMT_EXECUTE] ++ le 4 stmt.prepareId.toNat ++ [cursorType] ++ le 4 1
  if 0 < args.length then
    let (types, values) ← storeTypes args
    return cmd ++ nullMap args ++ [1] ++ types ++ values
  else return cmd

/-- `_compose_stmt_execute` of what `table.pack` has packed, and the `packet_no` after it. -/
def composeStmtExecute (stmt : Stmt) (cursorType : UInt8) (args : List Value) :
    Except Error (Bytes × ℤ) := do
  if args.length ≠ stmt.paramCount then
    .error (.message (ascii "require param_count " ++ numeral stmt.paramCount ++ ascii " got "
      ++ numeral args.length))
  else composePacket (-1) (← cmdPacket stmt cursorType args)

end Execute

end Mysql

end SkynetCpp
