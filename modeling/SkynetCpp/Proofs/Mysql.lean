import SkynetCpp.Lib.MysqlBinary
import SkynetCpp.Mysql
import SkynetCpp.Proofs.LuaString

/-!
# The parameters of a statement

The command that executes a statement has the layout of the protocol: bit by bit the bitmap says
which parameters are nil, and a server that leaves these out reads the values one after the other.
-/

namespace SkynetCpp

open Lib LuaString MysqlBinary

namespace Mysql

section Lengths

variable {data : Bytes} {pos : ℤ} {n : ℕ}

theorem packUnsigned_ofNat {k : ℕ} (hn : n < 2 ^ (8 * k)) (hk : k ≤ 8) :
    packUnsigned k (UInt64.ofNat n) = some (le k n) := by
  have h64 : n < 2 ^ 64 := hn.trans_le (Nat.pow_le_pow_right (by omega) (by omega))
  rw [packUnsigned, UInt64.toNat_ofNat', Nat.mod_eq_of_lt h64, if_neg (by omega)]

theorem setLengthCodedBin_eq (hn : n < 2 ^ 64) : setLengthCodedBin n = .ok (lenenc n) := by
  rw [setLengthCodedBin, lenenc]
  have h16 : 1 <<< 16 = 2 ^ 16 := rfl
  have h24 : 1 <<< 24 = 2 ^ 24 := rfl
  rw [h16, h24]
  split_ifs with h1 h2 h3
  · rfl
  · rw [packUnsigned_ofNat (by omega) (by omega)]
    rfl
  · rw [packUnsigned_ofNat (by omega) (by omega)]
    rfl
  · rw [packUnsigned_ofNat (by omega) (by omega)]
    rfl

theorem ofBits_ofNat (n : ℕ) : ofBits (UInt64.ofNat n) = .integer (Int64.ofNat n) := rfl

/-- A length that follows a byte. -/
theorem unpack_after {first : UInt8} {k : ℕ} (h : At data pos (first :: le k n))
    (hn : n < 256 ^ k) :
    unpackUnsigned k data (pos + 1) = some (UInt64.ofNat n, pos + (first :: le k n).length) := by
  have hright : At data (pos + 1) (le k n) := At.right (a := [first]) h
  rw [hright.unpackUnsigned hn, List.length_cons, length_le]
  push_cast
  congr 2
  omega

/-- A length is read back, and the position goes behind it. -/
theorem fromLengthCodedBin_at (h : At data pos (lenenc n)) (hn : n < 2 ^ 64) :
    fromLengthCodedBin data pos = .ok (.integer (Int64.ofNat n), pos + (lenenc n).length) := by
  unfold lenenc at h ⊢
  split_ifs at h ⊢ with h1 h2 h3
  · have hb : (UInt8.ofNat n).toNat = n := by
      rw [UInt8.toNat_ofNat', Nat.mod_eq_of_lt (by omega)]
    rw [fromLengthCodedBin, h.byte]
    simp only [hb]
    rw [if_pos (by omega)]
    rfl
  · rw [fromLengthCodedBin, h.byte]
    simp only []
    rw [if_neg (by decide), if_neg (by decide), if_pos trivial, unpack_after (k := 2) h (by omega)]
    rfl
  · rw [fromLengthCodedBin, h.byte]
    simp only []
    rw [if_neg (by decide), if_neg (by decide), if_neg (by decide), if_pos trivial,
      unpack_after (k := 3) h (by omega)]
    rfl
  · rw [fromLengthCodedBin, h.byte]
    simp only []
    rw [if_neg (by decide), if_neg (by decide), if_neg (by decide), if_neg (by decide),
      if_pos trivial, unpack_after (k := 8) h (by omega)]
    rfl

end Lengths

section Values

/-- What `execute` can send. -/
def Sendable : Value → Prop
  | .nil | .boolean _ | .integer _ | .float _ | .string _ => True
  | _ => False

/-- The parameter that an argument is to be. -/
def paramOf : Value → Param
  | .boolean b => .int 0x01 b.toNat
  | .integer n => .int 0x08 n.toInt
  | .float bits =>
    match Value.floatToInteger bits with
    | some n => .int 0x08 n.toInt
    | none => .double bits.toNat
  | .string s => .string s
  | _ => .null

def typeOf : Value → ℕ
  | .boolean _ => 0x01
  | .integer _ => 0x08
  | .float bits => if (Value.floatToInteger bits).isSome then 0x08 else 0x05
  | .string _ => 0x0f
  | _ => 0x06

def bytesOf : Value → Bytes
  | .boolean b => if b then [1] else [0]
  | .integer n => setInt8 n
  | .float bits =>
    match Value.floatToInteger bits with
    | some n => setInt8 n
    | none => setDouble bits
  | .string s => lenencStr s
  | _ => []

theorem storeType_eq {v : Value} (hv : Sendable v) (hlen : (bytesOf v).length < 2 ^ 64) :
    storeType v = .ok (le 2 (typeOf v), bytesOf v) := by
  cases v with
  | nil | boolean | integer => rfl
  | float bits =>
    rw [storeType, typeOf, bytesOf]
    cases Value.floatToInteger bits <;> rfl
  | string s =>
    rw [bytesOf, lenencStr, List.length_append] at hlen
    rw [storeType, setLengthCodedBin_eq (by omega)]
    rfl
  | lightuserdata | table | other => exact hv.elim

theorem takeValue_setInt8 (n : Int64) (rest : Bytes) :
    takeValue 0x08 0 (setInt8 n ++ rest) = some (.int 0x08 n.toInt, rest) := by
  have h0 := n.minValue_le_toInt
  have h1 := n.toInt_le
  have hmin : Int64.minValue.toInt = -2 ^ 63 := rfl
  have hmax : Int64.maxValue.toInt = 2 ^ 63 - 1 := rfl
  have hlt : (n.toInt % 2 ^ 64).toNat < 256 ^ 8 := by omega
  have hsigned := signed_emod (w := 64) (v := n.toInt) (by omega) (by omega)
  simp only [takeValue, intWidth, setInt8, takeInt_le hlt, Option.map_some]
  rw [if_neg (by decide), hsigned]

/-- A value that is not nil is read as it was stored. -/
theorem takeValue_bytesOf {v : Value} (hv : Sendable v) (hnil : v.isNil = false)
    (hlen : (bytesOf v).length < 2 ^ 64) (rest : Bytes) :
    takeValue (typeOf v) 0 (bytesOf v ++ rest) = some (paramOf v, rest) := by
  cases v with
  | nil => cases hnil
  | boolean b => cases b <;> rfl
  | integer n => exact takeValue_setInt8 n rest
  | float bits =>
    rw [typeOf, bytesOf, paramOf]
    cases Value.floatToInteger bits with
    | some n => exact takeValue_setInt8 n rest
    | none =>
      have hlt : bits.toNat < 256 ^ 8 := bits.toNat_lt
      simp [takeValue, intWidth, setDouble, takeInt_le hlt]
  | string s =>
    rw [bytesOf, lenencStr, List.length_append] at hlen
    rw [typeOf, bytesOf, takeValue, paramOf]
    simp [intWidth, takeLenencStr_lenencStr (show s.length < 2 ^ 64 by omega)]
  | lightuserdata | table | other => exact hv.elim

end Values

section Bitmap

/-- The bitmap says of each argument whether it is nil. -/
theorem bitAt_nullMap {args : List Value} {i : ℕ} (hi : i < args.length) :
    bitAt (nullMap args) i = (args.getD i .nil).isNil := by
  have hbyte : (nullMap args).getD (i / 8) 0 = UInt8.ofNat (nullByte args (i / 8)) := by
    have hlt : i / 8 < (args.length + 7) / 8 := by omega
    simp [nullMap, List.getD, hlt]
  have hbit := testBit_foldl (fun j => decide (8 * (i / 8) + j < args.length
    ∧ (args.getD (8 * (i / 8) + j) .nil).isNil)) 8 (i % 8)
  have hdiv : 8 * (i / 8) + i % 8 = i := Nat.div_add_mod i 8
  have hmod : i % 8 < 8 := Nat.mod_lt _ (by omega)
  simp only [decide_eq_true_eq, hdiv, hmod, hi, decide_true, true_and, Bool.true_and] at hbit
  rw [bitAt, hbyte, UInt8.toNat_ofNat', Nat.testBit_mod_two_pow, nullByte, hbit]
  simp [hmod]

end Bitmap

section Execute

variable {args : List Value} {stmt : Stmt}

theorem storeTypes_eq (hargs : ∀ v ∈ args, Sendable v)
    (hlen : (args.flatMap bytesOf).length < 2 ^ 64) :
    storeTypes args = .ok (args.flatMap fun v => le 2 (typeOf v), args.flatMap bytesOf) := by
  induction args with
  | nil => rfl
  | cons v args ih =>
    obtain ⟨hv, hargs⟩ := List.forall_mem_cons.1 hargs
    rw [List.flatMap_cons, List.length_append] at hlen
    rw [storeTypes, storeType_eq hv (by omega), ih hargs (by omega)]
    rfl

theorem typeOf_lt (v : Value) : typeOf v < 256 := by
  cases v with
  | float bits =>
    rw [typeOf]
    split_ifs <;> omega
  | _ =>
    simp only [typeOf]
    omega

theorem takeTypes_typeOf (args : List Value) (rest : Bytes) :
    takeTypes args.length ((args.flatMap fun v => le 2 (typeOf v)) ++ rest)
      = some (args.map fun v => (typeOf v, 0), rest) := by
  induction args with
  | nil => rfl
  | cons v args ih =>
    have hv := typeOf_lt v
    have hle : le 2 (typeOf v) = [UInt8.ofNat (typeOf v), 0] := by
      simp [le, Nat.div_eq_of_lt hv]
    have hb : (UInt8.ofNat (typeOf v)).toNat = typeOf v := by
      rw [UInt8.toNat_ofNat', Nat.mod_eq_of_lt hv]
    simp only [List.flatMap_cons, hle, List.cons_append, List.nil_append, List.length_cons,
      takeTypes, takeInt_one, hb, ih, Option.bind_eq_bind, Option.bind_some, List.map_cons]
    rfl

theorem takeValues_bytesOf (bitmap : Bytes) (i : ℕ) (hargs : ∀ v ∈ args, Sendable v)
    (hlen : (args.flatMap bytesOf).length < 2 ^ 64)
    (hbits : ∀ j < args.length, bitAt bitmap (i + j) = (args.getD j .nil).isNil) (rest : Bytes) :
    takeValues bitmap i (args.map fun v => (typeOf v, 0)) (args.flatMap bytesOf ++ rest)
      = some (args.map paramOf, rest) := by
  induction args generalizing i with
  | nil => rfl
  | cons v args ih =>
    obtain ⟨hv, hargs⟩ := List.forall_mem_cons.1 hargs
    rw [List.flatMap_cons, List.length_append] at hlen
    have hhead : bitAt bitmap i = v.isNil := hbits 0 (Nat.succ_pos _)
    have htail := ih (i := i + 1) hargs (by omega) fun j hj => by
      rw [Nat.add_assoc, Nat.add_comm 1]
      exact hbits (j + 1) (Nat.succ_lt_succ hj)
    have hfirst : (if bitAt bitmap i then
          some (Param.null, bytesOf v ++ (args.flatMap bytesOf ++ rest))
        else takeValue (typeOf v) 0 (bytesOf v ++ (args.flatMap bytesOf ++ rest)))
        = some (paramOf v, args.flatMap bytesOf ++ rest) := by
      rw [hhead]
      cases hnil : v.isNil with
      | true =>
        obtain rfl : v = .nil := by
          cases v with
          | nil => rfl
          | _ => cases hnil
        rfl
      | false => exact takeValue_bytesOf hv hnil (by omega) _
    rw [List.map_cons, List.flatMap_cons, List.append_assoc, takeValues, hfirst]
    simp only [Option.bind_eq_bind, Option.bind_some, htail]
    rfl

/-- How long the command is. -/
def commandSize (args : List Value) : ℕ :=
  10 + if 0 < args.length then
    (args.length + 7) / 8 + 1 + 2 * args.length + (args.flatMap bytesOf).length else 0

/-- The command before the parameters. -/
def header (stmt : Stmt) (cursorType : UInt8) : Bytes :=
  [COM_STMT_EXECUTE] ++ le 4 stmt.prepareId.toNat ++ [cursorType] ++ le 4 1

/-- The parameters, if there are any. -/
def body (args : List Value) : Bytes :=
  if 0 < args.length then nullMap args ++ ([1] ++ ((args.flatMap fun v => le 2 (typeOf v))
    ++ args.flatMap bytesOf)) else []

theorem cmdPacket_eq (stmt : Stmt) (cursorType : UInt8) (hargs : ∀ v ∈ args, Sendable v)
    (hsize : commandSize args < 2 ^ 64) :
    cmdPacket stmt cursorType args = .ok (header stmt cursorType ++ body args) := by
  unfold cmdPacket body
  unfold commandSize at hsize
  split_ifs at hsize ⊢ with h
  · rw [storeTypes_eq hargs (by omega)]
    simp [header, pure, Except.pure, bind, Except.bind]
  · simp [header, pure, Except.pure]

theorem length_command (stmt : Stmt) (cursorType : UInt8) (args : List Value) :
    (header stmt cursorType ++ body args).length = commandSize args := by
  unfold commandSize body
  split_ifs with h
  · simp [header, nullMap]
    omega
  · simp [header]

/-- A server reads from the command the statement, the flags, the count 1 and the arguments. -/
theorem decodeExecute_command (stmt : Stmt) (cursorType : UInt8)
    (hargs : ∀ v ∈ args, Sendable v) (hsize : commandSize args < 2 ^ 64) :
    decodeExecute args.length (header stmt cursorType ++ body args)
      = some ⟨stmt.prepareId.toNat, cursorType.toNat, 1, args.map paramOf⟩ := by
  have hid : stmt.prepareId.toNat < 256 ^ 4 := stmt.prepareId.toNat_lt
  have hone : (1 : ℕ) < 256 ^ 4 := by decide
  have hmap : (nullMap args).length = (args.length + 7) / 8 := by simp [nullMap]
  unfold commandSize at hsize
  simp only [decodeExecute, header, List.append_assoc, List.cons_append, List.nil_append,
    takeInt_one, takeInt_le hid, takeInt_le hone, Option.bind_eq_bind, Option.bind_some]
  rw [if_neg (by decide)]
  by_cases h : 0 < args.length
  · rw [if_pos h] at hsize
    have hvalues := takeValues_bytesOf (nullMap args) 0 hargs (by omega)
      (fun j hj => by rw [Nat.zero_add, bitAt_nullMap hj]) []
    rw [List.append_nil] at hvalues
    rw [if_neg (by omega), body, if_pos h, takeBytes_append hmap, Option.bind_some,
      List.singleton_append]
    simp only [takeInt_one, Option.bind_some, takeTypes_typeOf, hvalues]
    rfl
  · have hnil : args = [] := List.eq_nil_of_length_eq_zero (by omega)
    subst hnil
    rfl

theorem composePacket_command {req : Bytes} (h : req.length < 2 ^ 24) :
    composePacket (-1) req = .ok (le 3 req.length ++ [0] ++ req, 0) := by
  rw [composePacket, packUnsigned_ofNat (by omega) (by omega)]
  rfl

/-- The packet of an execution has the layout of the protocol and keeps the arguments in order; and
lengths are read back as they were written. -/
theorem execute_decodes :
    (∀ (stmt : Stmt) (cursorType : UInt8) (args : List Value), args.length = stmt.paramCount →
      (∀ v ∈ args, Sendable v) → commandSize args < 2 ^ 24 - 1 →
      ∃ req : Bytes, req.length = commandSize args
        ∧ composeStmtExecute stmt cursorType args = .ok (le 3 req.length ++ [0] ++ req, 0)
        ∧ decodeExecute stmt.paramCount req
          = some ⟨stmt.prepareId.toNat, cursorType.toNat, 1, args.map paramOf⟩)
      ∧ ∀ n < 2 ^ 63, ∃ bytes, setLengthCodedBin n = .ok bytes ∧ ∀ pre post : Bytes,
        fromLengthCodedBin (pre ++ (bytes ++ post)) (pre.length + 1 : ℕ)
          = .ok (.integer (Int64.ofNat n), (pre.length + 1 : ℕ) + bytes.length) := by
  refine ⟨fun stmt cursorType args hcount hargs hsize => ?_, fun n hn => ?_⟩
  · have hlen := length_command stmt cursorType args
    refine ⟨_, hlen, ?_, ?_⟩
    · rw [composeStmtExecute, if_neg (not_not.2 hcount),
        cmdPacket_eq stmt cursorType hargs (by omega)]
      exact composePacket_command (by omega)
    · rw [← hcount]
      exact decodeExecute_command stmt cursorType hargs (by omega)
  · exact ⟨_, setLengthCodedBin_eq (by omega), fun pre post =>
      fromLengthCodedBin_at ⟨pre, post, rfl, rfl⟩ (by omega)⟩

/-- Nil between two arguments, and a length of three bytes. -/
theorem execute_decodes_nil :
    (∃ req : Bytes, req.length = commandSize [.integer 3, .nil, .string (ascii "ab")]
        ∧ composeStmtExecute ⟨7, 3⟩ 0 [.integer 3, .nil, .string (ascii "ab")]
          = .ok (le 3 req.length ++ [0] ++ req, 0)
        ∧ decodeExecute 3 req
          = some ⟨7, 0, 1, [.int 0x08 3, .null, .string (ascii "ab")]⟩)
      ∧ ∃ bytes, setLengthCodedBin 300 = .ok bytes ∧ ∀ pre post : Bytes,
        fromLengthCodedBin (pre ++ (bytes ++ post)) (pre.length + 1 : ℕ)
          = .ok (.integer (Int64.ofNat 300), (pre.length + 1 : ℕ) + bytes.length) :=
  ⟨execute_decodes.1 ⟨7, 3⟩ 0 [.integer 3, .nil, .string (ascii "ab")] rfl (by simp [Sendable])
    (by decide), execute_decodes.2 300 (by decide)⟩

end Execute

end Mysql

end SkynetCpp
