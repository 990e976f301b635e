import SkynetCpp.LuaActor
import SkynetCpp.LuaString

/-!
# The text of socket events

A socket event reaches Lua in one of two ways: `LuaActor::on_message` writes it as a text, which
`parse_socket_event` takes apart at its blanks, and `socketdriver.unpackevent` pushes the fields of
the event itself.
-/

namespace SkynetCpp

open LuaString

namespace Payload

/-- The values `unpackevent` returns. -/
def unpackEvent : Payload → List Value
  | socketAccept l c address port =>
    [.string (ascii "accept"), .integer (Int64.ofInt l), .integer (Int64.ofInt c), .string address,
      .integer (Int64.ofNat port)]
  | socketData l c data =>
    [.string (ascii "data"), .integer (Int64.ofInt l), .integer (Int64.ofInt c), .string data]
  | socketClose l c =>
    [.string (ascii "close"), .integer (Int64.ofInt l), .integer (Int64.ofInt c)]
  | socketOpen c address port =>
    [.string (ascii "open"), .integer (Int64.ofInt c), .string address,
      .integer (Int64.ofNat port)]
  | socketWarning l c pending =>
    [.string (ascii "warning"), .integer (Int64.ofInt l), .integer (Int64.ofInt c),
      .integer (Int64.ofNat pending)]
  | socketUDP id data address port =>
    [.string (ascii "udp"), .integer (Int64.ofInt id), .string address,
      .integer (Int64.ofNat port), .string data]
  | _ => [.string (ascii "unknown")]

/-- An `int`. -/
def IsInt (n : ℤ) : Prop := -2 ^ 31 ≤ n ∧ n < 2 ^ 31

/-- The fields are values of their types, a count of bytes held in memory is below `PTRDIFF_MAX`,
and an address is a word. -/
def Fits : Payload → Prop
  | socketAccept l c address port => IsInt l ∧ IsInt c ∧ IsWord address ∧ port < 2 ^ 16
  | socketData l c _ | socketClose l c => IsInt l ∧ IsInt c
  | socketOpen c address port => IsInt c ∧ IsWord address ∧ port < 2 ^ 16
  | socketWarning l c pending => IsInt l ∧ IsInt c ∧ pending < 2 ^ 63
  | socketUDP id _ address port => IsInt id ∧ IsWord address ∧ port < 2 ^ 16
  | _ => True
where
  IsWord (address : Bytes) : Prop := address ≠ [] ∧ ∀ b ∈ address, isSpace b = false

end Payload

namespace Socket

variable (str2d : Bytes → Option UInt64)

/-- `x or 0` -/
def orZero : Value → Value
  | .nil => .integer 0
  | v => v

/-- The kinds without a payload: the words of the text are the fields. -/
def fieldsOfWords (parts : List Bytes) : List Value :=
  let part (i : ℕ) : Value := (parts[i - 1]?.map Value.string).getD .nil
  let number (i : ℕ) : Value := (parts[i - 1]?.map (tonumber str2d)).getD .nil
  if parts[0]? = some (ascii "accept") then
    [part 1, orZero (number 2), number 3, part 4, number 5]
  else if parts[0]? = some (ascii "close") then [part 1, orZero (number 2), number 3]
  else if parts[0]? = some (ascii "warning") then
    [part 1, orZero (number 2), number 3, number 4]
  else [part 1, number 2, part 3, number 4]

/-- `parse_socket_event` -/
def parseSocketEvent (msg : Bytes) : List Value :=
  match LuaString.find msg (ascii " ") 1 with
  | none => [.string msg]
  | some space1 =>
    let subtype := sub msg 1 (space1 - 1)
    let next (space : ℕ) : Option ℕ := LuaString.find msg (ascii " ") (space + 1)
    -- the field between two blanks
    let field (i j : ℕ) : Bytes := sub msg (i + 1) (j - 1)
    let rest (i : ℕ) : Bytes := sub msg (i + 1) (-1)
    if subtype = ascii "data" then
      match next space1 with
      | none => [.string subtype, .integer 0, tonumber str2d (rest space1)]
      | some space2 =>
        match next space2 with
        | none =>
          [.string subtype, .integer 0, tonumber str2d (field space1 space2),
            .string (rest space2)]
        | some space3 =>
          [.string subtype, orZero (tonumber str2d (field space1 space2)),
            tonumber str2d (field space2 space3), .string (rest space3)]
    else if subtype = ascii "udp" then
      match (next space1).bind fun space2 => (next space2).bind fun space3 =>
        (next space3).map fun space4 => (space2, space3, space4) with
      | none => [.string subtype]
      | some (space2, space3, space4) =>
        [.string subtype, tonumber str2d (field space1 space2), .string (field space2 space3),
          tonumber str2d (field space3 space4), .string (rest space4)]
    else fieldsOfWords str2d (words msg)

end Socket

end SkynetCpp
