import SkynetCpp.Proofs.LuaString
import SkynetCpp.SocketEvents

/-!
# A socket event and its text

`parse_socket_event` finds in the text of an event the blanks that `on_message` put there. The
fields before an arbitrary payload have no blank, so for "data" and "udp" the third and the fourth
blank end them whatever the payload is; the texts of the other kinds are words, and the words of
the text are the fields. Both ways to Lua give the same values (`parse_encoded`).
-/

namespace SkynetCpp

open Lib LuaString

namespace Payload

theorem toString_eq (n : ℤ) : toString n = intNumeral n := by
  have numeral_eq : ∀ m : ℕ, ascii (Nat.repr m) = numeral m := by
    intro m
    rw [ascii, Nat.toList_repr, numeral]
  cases n with
  | ofNat n => exact numeral_eq n
  | negSucc n =>
    rw [intNumeral, ← numeral_eq]
    simp [toString, ascii, ToString.toString, Int.repr]

end Payload

namespace Socket

variable {str2d : Bytes → Option UInt64} {msg pre w rest : Bytes} {i j : ℕ}

section Fields

theorem no_space (h : w.any isSpace = false) : ∀ b ∈ w, isSpace b = false :=
  fun b hb => Bool.eq_false_iff.2 (List.any_eq_false.1 h b hb)

theorem next_blank (h : msg = pre ++ (w ++ 32 :: rest)) (hi : i = pre.length)
    (hw : ∀ b ∈ w, isSpace b = false) :
    LuaString.find msg (ascii " ") (i + 1) = some (i + w.length + 1) := by
  have hne : ∀ b ∈ w, b ≠ 32 := by
    rintro b hb rfl
    exact absurd (hw _ hb) (by decide)
  subst hi
  rw [h, show ((pre.length : ℤ) + 1) = (pre.length + 1 : ℕ) by push_cast; rfl, find_from,
    show ascii " " = [32] by rfl, find_byte hne, Option.map_some]
  congr 1
  omega

theorem field_eq (h : msg = pre ++ (w ++ rest)) (hi : i = pre.length)
    (hj : j = i + w.length + 1) : sub msg (i + 1) (j - 1) = w := by
  subst hi
  rw [h, hj, show ((pre.length + w.length + 1 : ℕ) : ℤ) - 1 = (pre.length + w.length : ℕ) by
    push_cast; omega]
  exact sub_field pre w rest

theorem rest_eq (h : msg = pre ++ w) (hi : i = pre.length) : sub msg (i + 1) (-1) = w := by
  subst hi
  rw [h]
  exact sub_rest pre w

theorem first_blank (h : msg = w ++ 32 :: rest) (hw : ∀ b ∈ w, isSpace b = false) :
    LuaString.find msg (ascii " ") 1 = some (w.length + 1) := by
  have h' : msg = [] ++ (w ++ 32 :: rest) := h
  have := next_blank (i := 0) h' rfl hw
  rwa [Nat.zero_add] at this

theorem first_field (h : msg = w ++ rest) : sub msg 1 ((w.length + 1 : ℕ) - 1) = w := by
  have h' : msg = [] ++ (w ++ rest) := h
  exact field_eq (i := 0) h' rfl (by omega)

end Fields

section Kinds

variable {a b c data : Bytes}

/-- Three blanks are looked for, and the payload is what follows. -/
theorem parse_data (h : msg = ascii "data" ++ 32 :: (a ++ 32 :: (b ++ 32 :: data)))
    (ha : ∀ x ∈ a, isSpace x = false) (hb : ∀ x ∈ b, isSpace x = false) :
    parseSocketEvent str2d msg
      = [.string (ascii "data"), orZero (tonumber str2d a), tonumber str2d b, .string data] := by
  have h1 : msg = ascii "data " ++ (a ++ 32 :: (b ++ 32 :: data)) := h
  have h2 : msg = (ascii "data " ++ a ++ [32]) ++ (b ++ 32 :: data) := by
    rw [h1]; simp
  have h3 : msg = (ascii "data " ++ a ++ [32] ++ b ++ [32]) ++ data := by
    rw [h1]; simp
  have hblank1 := first_blank h (no_space rfl)
  have hblank2 := next_blank (i := 5) h1 rfl ha
  have hblank3 := next_blank (i := 5 + a.length + 1) h2 (by simp [ascii]; omega) hb
  unfold parseSocketEvent
  rw [hblank1]
  simp only [first_field h, if_true]
  rw [show ((ascii "data").length + 1 : ℕ) = 5 by rfl, hblank2]
  simp only []
  rw [hblank3]
  simp only []
  rw [field_eq (i := 5) h1 rfl rfl, field_eq h2 (by simp [ascii]; omega) rfl,
    rest_eq h3 (by simp [ascii]; omega)]

/-- Four blanks. -/
theorem parse_udp (h : msg = ascii "udp" ++ 32 :: (a ++ 32 :: (b ++ 32 :: (c ++ 32 :: data))))
    (ha : ∀ x ∈ a, isSpace x = false) (hb : ∀ x ∈ b, isSpace x = false)
    (hc : ∀ x ∈ c, isSpace x = false) :
    parseSocketEvent str2d msg
      = [.string (ascii "udp"), tonumber str2d a, .string b, tonumber str2d c,
          .string data] := by
  have h1 : msg = ascii "udp " ++ (a ++ 32 :: (b ++ 32 :: (c ++ 32 :: data))) := h
  have h2 : msg = (ascii "udp " ++ a ++ [32]) ++ (b ++ 32 :: (c ++ 32 :: data)) := by
    rw [h1]; simp
  have h3 : msg = (ascii "udp " ++ a ++ [32] ++ b ++ [32]) ++ (c ++ 32 :: data) := by
    rw [h1]; simp
  have h4 : msg = (ascii "udp " ++ a ++ [32] ++ b ++ [32] ++ c ++ [32]) ++ data := by
    rw [h1]; simp
  have hlen2 : 4 + a.length + 1 = (ascii "udp " ++ a ++ [32]).length := by
    simp [ascii]; omega
  have hlen3 : 4 + a.length + 1 + b.length + 1
      = (ascii "udp " ++ a ++ [32] ++ b ++ [32]).length := by
    simp [ascii]; omega
  have hlen4 : 4 + a.length + 1 + b.length + 1 + c.length + 1
      = (ascii "udp " ++ a ++ [32] ++ b ++ [32] ++ c ++ [32]).length := by
    simp [ascii]; omega
  unfold parseSocketEvent
  rw [first_blank h (no_space rfl)]
  simp only [first_field h]
  rw [if_neg (by decide), if_pos trivial, show ((ascii "udp").length + 1 : ℕ) = 4 by rfl,
    next_blank (i := 4) h1 rfl ha, Option.bind_some, next_blank h2 hlen2 hb, Option.bind_some,
    next_blank h3 hlen3 hc]
  simp only [Option.map_some]
  rw [field_eq (i := 4) h1 rfl rfl, field_eq h2 hlen2 rfl, field_eq h3 hlen3 rfl, rest_eq h4 hlen4]

/-- The kinds without a payload are told apart by their first word. -/
theorem parse_words (h : msg = w ++ 32 :: rest) (hw : ∀ x ∈ w, isSpace x = false)
    (hdata : w ≠ ascii "data") (hudp : w ≠ ascii "udp") :
    parseSocketEvent str2d msg = fieldsOfWords str2d (words msg) := by
  unfold parseSocketEvent
  rw [first_blank h hw]
  simp only [first_field h]
  rw [if_neg hdata, if_neg hudp]

end Kinds

end Socket

open Payload Socket

variable (str2d : Bytes → Option UInt64)

/-- The words of a text whose fields have no blank. -/
theorem words_intNumeral (n : ℤ) (s : Bytes) :
    words (intNumeral n ++ 32 :: s) = intNumeral n :: words s :=
  words_cons (intNumeral_ne_nil n) (fun _ => isSpace_of_mem_intNumeral) s

theorem words_last_intNumeral (n : ℤ) : words (intNumeral n) = [intNumeral n] :=
  words_last (intNumeral_ne_nil n) fun _ => isSpace_of_mem_intNumeral

theorem parse_kind {kind : String} (hn : ascii kind ≠ []) (hw : (ascii kind).any isSpace = false)
    (hdata : ascii kind ≠ ascii "data") (hudp : ascii kind ≠ ascii "udp") (s : Bytes) :
    parseSocketEvent str2d (ascii kind ++ 32 :: s)
      = fieldsOfWords str2d (ascii kind :: words s) := by
  rw [parse_words rfl (no_space hw) hdata hudp, words_cons hn (no_space hw)]

/-- The numbers of an event are read as they are. -/
theorem tonumber_int {n : ℤ} (hn : IsInt n) :
    tonumber str2d (intNumeral n) = .integer (Int64.ofInt n) := by
  obtain ⟨h0, h1⟩ := hn
  exact tonumber_intNumeral str2d (by omega) (by omega)

theorem tonumber_nat {n : ℕ} (hn : n < 2 ^ 63) :
    tonumber str2d (intNumeral n) = .integer (Int64.ofNat n) :=
  tonumber_intNumeral str2d (by omega) (by omega)

/-- The parser of the text and `unpackevent` agree on every payload. -/
theorem parse_encoded {d : Payload} (hd : d.Fits) :
    parseSocketEvent str2d d.encoded = d.unpackEvent := by
  have hspace : ∀ n : ℤ, ∀ b ∈ intNumeral n, isSpace b = false :=
    fun n b => isSpace_of_mem_intNumeral
  cases d with
  | socketAccept l c address port =>
    obtain ⟨hl, hc, ⟨hne, hword⟩, hport⟩ := hd
    have h : (socketAccept l c address port).encoded = ascii "accept" ++ 32 :: (intNumeral l
        ++ 32 :: (intNumeral c ++ 32 :: (address ++ 32 :: intNumeral port))) := by
      simp [encoded, toString_eq, ascii]
    rw [h, parse_kind str2d (by decide) rfl (by decide) (by decide),
      words_intNumeral, words_intNumeral, words_cons hne hword, words_last_intNumeral]
    simp [fieldsOfWords, tonumber_int str2d hl, tonumber_int str2d hc,
      tonumber_nat str2d (n := port) (by omega), orZero, unpackEvent]
  | socketData l c data =>
    obtain ⟨hl, hc⟩ := hd
    have h : (socketData l c data).encoded = ascii "data" ++ 32 :: (intNumeral l
        ++ 32 :: (intNumeral c ++ 32 :: data)) := by
      simp [encoded, toString_eq, ascii]
    rw [parse_data h (hspace l) (hspace c), tonumber_int str2d hl, tonumber_int str2d hc, orZero,
      unpackEvent]
    exact fun h => Value.noConfusion h
  | socketClose l c =>
    obtain ⟨hl, hc⟩ := hd
    have h : (socketClose l c).encoded = ascii "close" ++ 32 :: (intNumeral l
        ++ 32 :: intNumeral c) := by
      simp [encoded, toString_eq, ascii]
    rw [h, parse_kind str2d (by decide) rfl (by decide) (by decide),
      words_intNumeral, words_last_intNumeral]
    simp [fieldsOfWords, tonumber_int str2d hl, tonumber_int str2d hc, orZero, unpackEvent, ascii]
  | socketOpen c address port =>
    obtain ⟨hc, ⟨hne, hword⟩, hport⟩ := hd
    have h : (socketOpen c address port).encoded = ascii "open" ++ 32 :: (intNumeral c
        ++ 32 :: (address ++ 32 :: intNumeral port)) := by
      simp [encoded, toString_eq, ascii]
    rw [h, parse_kind str2d (by decide) rfl (by decide) (by decide),
      words_intNumeral, words_cons hne hword, words_last_intNumeral]
    simp [fieldsOfWords, tonumber_int str2d hc, tonumber_nat str2d (n := port) (by omega),
      unpackEvent, ascii]
  | socketWarning l c pending =>
    obtain ⟨hl, hc, hpending⟩ := hd
    have h : (socketWarning l c pending).encoded = ascii "warning" ++ 32 :: (intNumeral l
        ++ 32 :: (intNumeral c ++ 32 :: intNumeral pending)) := by
      simp [encoded, toString_eq, ascii]
    rw [h, parse_kind str2d (by decide) rfl (by decide) (by decide),
      words_intNumeral, words_intNumeral, words_last_intNumeral]
    simp [fieldsOfWords, tonumber_int str2d hl, tonumber_int str2d hc,
      tonumber_nat str2d hpending, orZero, unpackEvent, ascii]
  | socketUDP id data address port =>
    obtain ⟨hid, ⟨hne, hword⟩, hport⟩ := hd
    have h : (socketUDP id data address port).encoded = ascii "udp" ++ 32 :: (intNumeral id
        ++ 32 :: (address ++ 32 :: (intNumeral port ++ 32 :: data))) := by
      simp [encoded, toString_eq, ascii]
    rw [parse_udp h (hspace id) hword (hspace port), tonumber_int str2d hid,
      tonumber_nat str2d (n := port) (by omega), unpackEvent]
  | monostate => rfl
  | string s => rfl
  | seri p n => rfl

/-- An event of the least id, with a payload of blanks. -/
theorem parse_encoded_udp :
    parseSocketEvent (fun _ => none)
        (socketUDP (-2 ^ 31) (ascii "a b\n  ") (ascii "::1") 65535).encoded
      = [.string (ascii "udp"), .integer (-2 ^ 31), .string (ascii "::1"), .integer 65535,
          .string (ascii "a b\n  ")] := by
  have hfits : (socketUDP (-2 ^ 31) (ascii "a b\n  ") (ascii "::1") 65535).Fits :=
    ⟨⟨by decide, by decide⟩, ⟨by decide, no_space rfl⟩, by decide⟩
  exact parse_encoded (fun _ => none) hfits

end SkynetCpp
