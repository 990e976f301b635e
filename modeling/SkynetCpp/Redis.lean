import SkynetCpp.Lib.Resp
import SkynetCpp.LuaString
import SkynetCpp.SocketStream

/-!
# The redis client

What `redis.lua` makes of the bytes of a connection, and the bytes it sends. `read_response` takes
its bytes by `readline` and `read` of the channel; where it raises, or waits for bytes that do not
come, there is no result. What `#` says of a table that was read is a parameter, and so are
`tostring` and the reader of floats.
-/

namespace SkynetCpp

open Lib LuaString

namespace Redis

section Replies

variable (str2d : Bytes → Option UInt64) (border : Fields → ℕ)

/-- What a read returns, and the bytes after it. -/
def take (op : Socket.ReadOp) (s : Bytes) : Option (Bytes × Bytes) :=
  (op.takes false s).map fun (data, sep) => (data, s.drop (data.length + sep.length))

/-- `ok`, the value, and the bytes after the reply. -/
structure Reply where
  ok : Bool
  value : Value
  rest : Bytes

/-- The loop of an array, from the index `i` on. -/
def readItems (read : Bytes → Option Reply) (i : ℕ) :
    ℕ → Bool → Fields → Bytes → Option (Bool × Fields × Bytes)
  | 0, noerr, bulk, s => some (noerr, bulk, s)
  | n + 1, noerr, bulk, s => do
    let reply ← read s
    readItems read (i + 1) n (noerr && reply.ok)
      (Fields.rawset.put bulk (.integer (Int64.ofNat i)) reply.value) reply.rest

/-- `redcmd[36]` -/
def bulkString (data s : Bytes) : Option Reply := do
  let bytes ← checkinteger str2d (.string data)
  if bytes < 0 then some { ok := true, value := .nil, rest := s }
  else
    let (firstline, s) ← take (.read (bytes.toNatClampNeg + 2)) s
    some { ok := true, value := .string (sub firstline 1 (-3)), rest := s }

/-- `redcmd[42]` -/
def array (read : Bytes → Option Reply) (data s : Bytes) : Option Reply := do
  let n ← checkinteger str2d (.string data)
  if n < 0 then some { ok := true, value := .nil, rest := s }
  else
    let (noerr, bulk, s) ← readItems read 1 n.toNatClampNeg true [] s
    some { ok := noerr, value := .table bulk (border bulk), rest := s }

/-- `redcmd[firstchar](fd, data)`; it raises where there is no such entry. -/
def redcmd (read : Bytes → Option Reply) (firstchar : Option UInt8) (data s : Bytes) :
    Option Reply :=
  match firstchar with
  | some 36 => bulkString str2d data s
  | some 43 => some { ok := true, value := .string data, rest := s }
  | some 45 => some { ok := false, value := .string data, rest := s }
  | some 58 => some { ok := true, value := tonumber str2d data, rest := s }
  | some 42 => array str2d border read data s
  | _ => none

/-- `read_response`, with arrays nested less than `fuel` deep. -/
def readFuel : ℕ → Bytes → Option Reply
  | 0, _ => none
  | fuel + 1, s => do
    let (result, s) ← take (.readline (ascii "\r\n")) s
    redcmd str2d border (readFuel fuel) result.head? (sub result 2 (-1)) s

/-- Each array takes a line, so that this is deep enough. -/
def readResponse (s : Bytes) : Option Reply := readFuel str2d border (s.length + 1) s

/-- What the response function of a pipeline does with `resp`: each reply is appended. -/
def pipelineInto : ℕ → List (Bool × Value) → Bytes → Option (List (Bool × Value) × Bytes)
  | 0, resp, s => some (resp, s)
  | n + 1, resp, s => do
    let reply ← readResponse str2d border s
    pipelineInto n (resp ++ [(reply.ok, reply.value)]) reply.rest

/-- And without: the last reply is returned. -/
def pipelineLast : ℕ → Bool × Value → Bytes → Option ((Bool × Value) × Bytes)
  | 0, out, s => some (out, s)
  | n + 1, _, s => do
    let reply ← readResponse str2d border s
    pipelineLast n (reply.ok, reply.value) reply.rest

end Replies

section Values

variable (border : Fields → ℕ)

mutual

/-- The Lua value of a reply. -/
def value : Resp → Value
  | .simple s | .error s | .bulk s => .string s
  | .integer n => .integer (Int64.ofInt n)
  | .nullBulk | .nullArray => .nil
  | .array items => .table (fieldsFrom 1 items) (border (fieldsFrom 1 items))

/-- The elements that are not nil, at the indices from `i` on. -/
def fieldsFrom (i : ℕ) : List Resp → Fields
  | [] => []
  | v :: vs =>
    (if (value v).isNil then [] else [(.integer (Int64.ofNat i), value v)])
      ++ fieldsFrom (i + 1) vs

end

mutual

/-- It is, or contains, an error. -/
def HasError : Resp → Prop
  | .error _ => True
  | .array items => AnyError items
  | _ => False

def AnyError : List Resp → Prop
  | [] => False
  | v :: vs => HasError v ∨ AnyError vs

end

mutual

def ok : Resp → Bool
  | .error _ => false
  | .array items => allOk items
  | _ => true

def allOk : List Resp → Bool
  | [] => true
  | v :: vs => ok v && allOk vs

end

mutual

/-- The integers have 64 bits, and the strings and the arrays are of a size that memory can hold. -/
def Fits : Resp → Prop
  | .integer n => -2 ^ 63 ≤ n ∧ n < 2 ^ 63
  | .bulk s => s.length < 2 ^ 63
  | .array items => items.length < 2 ^ 63 ∧ AllFit items
  | _ => True

def AllFit : List Resp → Prop
  | [] => True
  | v :: vs => Fits v ∧ AllFit vs

end

end Values

section Requests

/-- `toupper` -/
def upperByte (b : UInt8) : UInt8 := if 97 ≤ b.toNat ∧ b.toNat ≤ 122 then b - 32 else b

/-- `cmd:upper()` -/
def upper (cmd : Bytes) : Bytes := cmd.map upperByte

/-- The functions given to `make_cache`. -/
def headerText (k : ℕ) : Bytes := ascii "\r\n$" ++ numeral k ++ ascii "\r\n"

def commandText (cmd : Bytes) : Bytes :=
  ascii "\r\n$" ++ numeral cmd.length ++ ascii "\r\n" ++ upper cmd

def countText (k : ℤ) : Bytes := ascii "*" ++ intNumeral k

/-- The entries of the four tables that `make_cache` made. -/
structure Caches where
  header : ℕ → Option Bytes := fun _ => none
  command : Bytes → Option Bytes := fun _ => none
  count : ℤ → Option Bytes := fun _ => none
  commandNp : Bytes → Option Bytes := fun _ => none

/-- The second argument of `compose_message`: none, a table with its `n` or `#` and its elements, or
another value. -/
inductive Msg
  | nil
  | table (n : ℤ) (item : ℤ → Value)
  | scalar (v : Value)

namespace Caches

variable (c : Caches)

/-- `header_cache[k]` -/
def headerAt (k : ℕ) : Bytes × Caches :=
  match c.header k with
  | some s => (s, c)
  | none =>
    let s := headerText k
    (s, { c with header := Function.update c.header k (some s) })

/-- `command_cache[cmd]` -/
def commandAt (cmd : Bytes) : Bytes × Caches :=
  match c.command cmd with
  | some s => (s, c)
  | none =>
    let s := commandText cmd
    (s, { c with command := Function.update c.command cmd (some s) })

/-- `count_cache[k]` -/
def countAt (k : ℤ) : Bytes × Caches :=
  match c.count k with
  | some s => (s, c)
  | none =>
    let s := countText k
    (s, { c with count := Function.update c.count k (some s) })

/-- `command_np_cache[cmd]` -/
def commandNpAt (cmd : Bytes) : Bytes × Caches :=
  match c.commandNp cmd with
  | some s => (s, c)
  | none =>
    let (command, c) := c.commandAt cmd
    let s := ascii "*1" ++ command ++ ascii "\r\n"
    (s, { c with commandNp := Function.update c.commandNp cmd (some s) })

end Caches

variable (tostring : Value → Bytes)

/-- The loop over the elements of a message, from `i` on; the lines and the caches. -/
def composeItems (item : ℤ → Value) (i : ℤ) : ℕ → Caches → List Bytes × Caches
  | 0, c => ([], c)
  | n + 1, c =>
    match item i with
    | .nil =>
      let (lines, c) := composeItems item (i + 1) n c
      (ascii "\r\n$-1" :: lines, c)
    | v =>
      let v := tostring v
      let (header, c) := c.headerAt v.length
      let (lines, c) := composeItems item (i + 1) n c
      (header :: v :: lines, c)

/-- `compose_message`: the parts that are sent. -/
def composeMessage (c : Caches) (cmd : Bytes) : Msg → List Bytes × Caches
  | .nil =>
    let (s, c) := c.commandNpAt cmd
    ([s], c)
  | .table n item =>
    let (count, c) := c.countAt (n + 1)
    let (command, c) := c.commandAt cmd
    let (lines, c) := composeItems tostring item 1 n.toNat c
    (count :: command :: lines ++ [ascii "\r\n"], c)
  | .scalar v =>
    let msg := tostring v
    let (command, c) := c.commandAt cmd
    let (header, c) := c.headerAt msg.length
    ([ascii "*2", command, header, msg, ascii "\r\n"], c)

/-- The loop of `compose_table` over the elements of a command without holes. -/
def composeValues : List Value → Caches → List Bytes × Caches
  | [], c => ([], c)
  | v :: vs, c =>
    let val := tostring v
    let (header, c) := c.headerAt val.length
    let (lines, c) := composeValues vs c
    (header :: val :: lines, c)

/-- `compose_table` -/
def composeTable (c : Caches) (lines : List Bytes) (msg : List Value) : List Bytes × Caches :=
  let (count, c) := c.countAt msg.length
  let (values, c) := composeValues tostring msg c
  (lines ++ count :: values ++ [ascii "\r\n"], c)

/-- The loop of `command:pipeline` that composes the commands. -/
def composePipeline : List (List Value) → Caches → List Bytes → List Bytes × Caches
  | [], c, lines => (lines, c)
  | msg :: ops, c, lines =>
    let (lines, c) := composeTable tostring c lines msg
    composePipeline ops c lines

/-- A message that is a list of arguments, as `table.pack` makes it. -/
def Msg.ofArgs (args : List Value) : Msg :=
  .table args.length fun i => args.getD (i - 1).toNat .nil

/-- A table that is given as the message; `none` is one whose field `n` is no integer. -/
def Msg.ofTable (fields : Fields) (rawlen : ℕ) : Option Msg :=
  let item (i : ℤ) : Value := Fields.rawget fields (.integer (Int64.ofInt i))
  match Fields.rawget fields (.string (ascii "n")) with
  | .nil | .boolean false => some (.table rawlen item)
  | .integer n => some (.table n.toInt item)
  | _ => none

/-- The message of a command that is called by its name: `f(self, v, ...)`. -/
def Msg.ofCall : List Value → Option Msg
  | [] | .nil :: _ => some .nil
  | .table fields rawlen :: _ => Msg.ofTable fields rawlen
  | args => some (.ofArgs args)

inductive Label
  | message (cmd : Bytes) (msg : Msg)
  | pipeline (ops : List (List Value))
  /-- the tables are weak -/
  | collect (header : ℕ → Bool) (command : Bytes → Bool) (count : ℤ → Bool)
      (commandNp : Bytes → Bool)

/-- The requests that are composed one after another. -/
def step (c : Caches) : Label → Option Caches
  | .message cmd msg => some (composeMessage tostring c cmd msg).2
  | .pipeline ops => some (composePipeline tostring ops c []).2
  | .collect header command count commandNp => some {
      header k := if header k then none else c.header k
      command k := if command k then none else c.command k
      count k := if count k then none else c.count k
      commandNp k := if commandNp k then none else c.commandNp k }

/-- An array of bulk strings. -/
def strings (args : List Value) : List Resp := args.map fun v => .bulk (tostring v)

/-- A request for `cmd` with these arguments. -/
def request (cmd : Bytes) (args : List Value) : Resp :=
  .array (.bulk (upper cmd) :: strings tostring args)

/-- No hole, and no table that would be taken for the message. -/
def Plain (v : Value) : Prop := v.isNil = false ∧ ∀ fields n, v ≠ .table fields n

/-- What is composed next is one request each time, whole and with nothing after it. -/
structure Composes (c : Caches) : Prop where
  nil : ∀ cmd, Resp.parse (composeMessage tostring c cmd .nil).1.flatten
    = some (request tostring cmd [], [])
  scalar : ∀ cmd v, Resp.parse (composeMessage tostring c cmd (.scalar v)).1.flatten
    = some (request tostring cmd [v], [])
  list : ∀ cmd args item, (∀ v ∈ args, v.isNil = false) →
    (∀ (k : ℕ) v, args[k]? = some v → item (k + 1) = v) →
    Resp.parse (composeMessage tostring c cmd (.table args.length item)).1.flatten
      = some (request tostring cmd args, [])
  call : ∀ cmd args, (∀ v ∈ args, Plain v) → ∃ msg, Msg.ofCall args = some msg ∧
    Resp.parse (composeMessage tostring c (upper cmd) msg).1.flatten
      = some (request tostring cmd args, [])
  pipeline : ∀ ops : List (List Value), (∀ msg ∈ ops, ∀ v ∈ msg, v.isNil = false) →
    Resp.parseAll Resp.parse ops.length (composePipeline tostring ops c []).1.flatten
      = some (ops.map fun msg => .array (strings tostring msg), [])

end Requests

end Redis

end SkynetCpp
