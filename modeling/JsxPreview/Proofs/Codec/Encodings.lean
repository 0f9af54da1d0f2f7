import JsxPreview.Codec.Encoding
import JsxPreview.Proofs.Text.Numerals
import JsxPreview.Proofs.Text.Utf8

/-! # Bytes read back from their text

A text is its UTF-16 units (`ofUnits_toUnits`), and the encodings that spell bytes give back what they
spell: base 64 through the digits of six bits each (`Base64.sextets`), with either alphabet, any padding
and blanks anywhere (`Base64.decode_of_kept`), and hexadecimal byte by byte.  UTF-16 loses a byte that is
left over (`units_pairUnits`), and UTF-8 whatever is not UTF-8.

Hexadecimal is read pair by pair, up to the first pair that denotes no byte.  Pairs of digits denote
bytes (`Spells`), and so does a digit behind a plus sign, so that reading stops at the end of the
longest front that spells bytes unless such a pair follows (`Hex.decode_eq_iff`).  It makes no
difference whether pairs are cut from the characters of the text or from the bytes of its UTF-8 form
(`Hex.decodeBytes_encodeUtf8`). -/
set_option autoImplicit false
namespace JsxPreview.Codec

open JsxPreview.Text

/-! ## UTF-16 units -/

theorem ofUnits_single {u : UInt16} (alone : isHighSurrogate u = false) (rest : List UInt16) :
    ofUnits (u :: rest) = charOfUnit u :: ofUnits rest := by
  cases rest with
  | nil => rfl
  | cons v rest => rw [ofUnits, alone, Bool.false_and, if_neg Bool.false_ne_true]

theorem ofUnits_pair {u v : UInt16} (high : isHighSurrogate u = true)
    (low : isLowSurrogate v = true) (rest : List UInt16) : ofUnits (u :: v :: rest) =
      Char.ofNat (0x10000 + (u.toNat - 0xd800) * 0x400 + (v.toNat - 0xdc00)) :: ofUnits rest := by
  rw [ofUnits, high, low, Bool.true_and, if_pos rfl]

theorem isHighSurrogate_iff (u : UInt16) :
    isHighSurrogate u = true ↔ 0xd800 ≤ u.toNat ∧ u.toNat < 0xdc00 := by
  simp [isHighSurrogate, UInt16.le_iff_toNat_le, UInt16.lt_iff_toNat_lt]

theorem isLowSurrogate_iff (u : UInt16) :
    isLowSurrogate u = true ↔ 0xdc00 ≤ u.toNat ∧ u.toNat < 0xe000 := by
  simp [isLowSurrogate, UInt16.le_iff_toNat_le, UInt16.lt_iff_toNat_lt]

theorem toNat_unit {n : Nat} (small : n < 0x10000) : (UInt16.ofNat n).toNat = n :=
  UInt16.toNat_ofNat_of_lt' small

/-- A text is read back from its units. -/
theorem ofUnits_toUnits (s : List Char) : ofUnits (toUnits s) = s := by
  induction s with
  | nil => rfl
  | cons c s ih =>
      have valid : c.toNat < 0xD800 ∨ 0xDFFF < c.toNat ∧ c.toNat < 0x110000 := c.valid
      rw [Text.toUnits]
      split
      case isTrue small =>
        have unit := toNat_unit small
        have noHigh : isHighSurrogate (UInt16.ofNat c.toNat) = false := by
          rw [← Bool.not_eq_true, isHighSurrogate_iff]
          omega
        have noLow : isLowSurrogate (UInt16.ofNat c.toNat) = false := by
          rw [← Bool.not_eq_true, isLowSurrogate_iff]
          omega
        rw [ofUnits_single noHigh, ih, charOfUnit, noHigh, noLow, Bool.or_self,
          if_neg Bool.false_ne_true, unit, Char.ofNat_toNat]
      case isFalse large =>
        have first := toNat_unit (n := 0xd800 + (c.toNat - 0x10000) / 0x400) (by omega)
        have second := toNat_unit (n := 0xdc00 + (c.toNat - 0x10000) % 0x400) (by omega)
        have value : 0x10000 + (0xd800 + (c.toNat - 0x10000) / 0x400 - 0xd800) * 0x400 +
            (0xdc00 + (c.toNat - 0x10000) % 0x400 - 0xdc00) = c.toNat := by omega
        rw [ofUnits_pair (by rw [isHighSurrogate_iff]; omega) (by rw [isLowSurrogate_iff]; omega),
          first, second, value, Char.ofNat_toNat, ih]

/-! ## Base 64 -/

namespace Base64

/-- The values of the digits of bytes: six bits each. -/
def sextets : List UInt8 → List Nat
  | [] => []
  | [a] => [a.toNat / 4, a.toNat % 4 * 16]
  | [a, b] => [a.toNat / 4, a.toNat % 4 * 16 + b.toNat / 16, b.toNat % 16 * 4]
  | a :: b :: c :: rest =>
      [a.toNat / 4, a.toNat % 4 * 16 + b.toNat / 16, b.toNat % 16 * 4 + c.toNat / 64,
        c.toNat % 64] ++ sextets rest

theorem sextets_lt (bytes : List UInt8) : ∀ n ∈ sextets bytes, n < 64 := by
  induction bytes using sextets.induct with
  | case1 => exact nofun
  | case2 a =>
      have first := a.toNat_lt
      simp [sextets]
      omega
  | case3 a b =>
      have first := a.toNat_lt
      have second := b.toNat_lt
      simp [sextets]
      omega
  | case4 a b c rest ih =>
      have first := a.toNat_lt
      have second := b.toNat_lt
      have third := c.toNat_lt
      simp only [sextets, List.cons_append, List.nil_append, List.forall_mem_cons]
      exact ⟨by omega, by omega, by omega, by omega, ih⟩

theorem decodeDigits_sextets (bytes : List UInt8) : decodeDigits (sextets bytes) = some bytes := by
  have byte {n : Nat} {b : UInt8} (same : n = b.toNat) : UInt8.ofNat n = b := by
    rw [same, UInt8.ofNat_toNat]
  induction bytes using sextets.induct with
  | case1 => rfl
  | case2 a =>
      rw [sextets, decodeDigits, if_pos (by omega), byte (b := a) (by omega)]
  | case3 a b =>
      have second := b.toNat_lt
      rw [sextets, decodeDigits, if_pos (by omega), byte (b := a) (by omega),
        byte (b := b) (by omega)]
  | case4 a b c rest ih =>
      have second := b.toNat_lt
      have third := c.toNat_lt
      rw [sextets, List.cons_append, List.cons_append, List.cons_append, List.cons_append,
        List.nil_append, decodeDigits, ih, byte (b := a) (by omega), byte (b := b) (by omega),
        byte (b := c) (by omega)]
      rfl

/-- Bytes are written as the digits of their values, and padded. -/
theorem encode_eq (bytes : List UInt8) : ∃ padding,
    encode bytes = (sextets bytes).map digit ++ List.replicate padding '=' := by
  induction bytes using sextets.induct with
  | case1 => exact ⟨0, rfl⟩
  | case2 a => exact ⟨2, rfl⟩
  | case3 a b => exact ⟨1, rfl⟩
  | case4 a b c rest ih =>
      obtain ⟨padding, eq⟩ := ih
      refine ⟨padding, ?_⟩
      rw [encode, eq, sextets, List.map_append, List.append_assoc]
      rfl

/-- A character that reading does not pass over. -/
def isKept (c : Char) : Bool := !isBlank c && c != '='

/-- A digit in the form for URLs. -/
def urlDigit (c : Char) : Char := if c = '+' then '-' else if c = '/' then '_' else c

theorem digit_facts : ∀ n < 64, isKept (digit n) = true ∧ digitValue? (digit n) = some n ∧
    isKept (urlDigit (digit n)) = true ∧ digitValue? (urlDigit (digit n)) = some n := by
  decide +kernel

theorem mapM_digits {write : Nat → Char} {values : List Nat}
    (read : ∀ n ∈ values, digitValue? (write n) = some n) :
    (values.map write).mapM digitValue? = some values := by
  induction values with
  | nil => rfl
  | cons n rest ih =>
      rw [List.forall_mem_cons] at read
      rw [List.map_cons, List.mapM_cons, read.1, ih read.2]
      rfl

/-- Bytes are read from their digits, whatever stands between these that is passed over. -/
theorem decode_of_kept {s : List Char} {bytes : List UInt8} {write : Nat → Char}
    (kept : s.filter isKept = (sextets bytes).map write)
    (read : ∀ n < 64, digitValue? (write n) = some n) : decode s = bytes := by
  have values := mapM_digits fun n member => read n (sextets_lt bytes n member)
  change ((s.filter isKept).mapM digitValue? >>= decodeDigits).getD [] = bytes
  rw [kept, values]
  change (decodeDigits (sextets bytes)).getD [] = bytes
  rw [decodeDigits_sextets]
  rfl

theorem filter_digits {write : Nat → Char} (kept : ∀ n < 64, isKept (write n) = true)
    (bytes : List UInt8) (padding : Nat) :
    ((sextets bytes).map write ++ List.replicate padding '=').filter isKept =
      (sextets bytes).map write := by
  have digits : ((sextets bytes).map write).filter isKept = (sextets bytes).map write := by
    refine List.filter_eq_self.mpr fun c member => ?_
    obtain ⟨n, value, rfl⟩ := List.mem_map.mp member
    exact kept n (sextets_lt bytes n value)
  have marks : (List.replicate padding '=').filter isKept = [] := by
    refine List.filter_eq_nil_iff.mpr fun c member => ?_
    rw [List.eq_of_mem_replicate member]
    decide
  rw [List.filter_append, digits, marks, List.append_nil]

theorem filter_encode (bytes : List UInt8) :
    (encode bytes).filter isKept = (sextets bytes).map digit := by
  obtain ⟨padding, eq⟩ := encode_eq bytes
  rw [eq]
  exact filter_digits (fun n small => (digit_facts n small).1) bytes padding

theorem filter_urlForm (bytes : List UInt8) : (Encoding.urlForm (encode bytes)).filter isKept =
    (sextets bytes).map fun n => urlDigit (digit n) := by
  -- only padding is cut off at the end
  have cut (s : List Char) : (s.dropWhile (· == '=')).filter isKept = s.filter isKept := by
    induction s with
    | nil => rfl
    | cons c s ih =>
        rw [List.dropWhile_cons]
        split
        case isTrue padding =>
          rw [ih, beq_iff_eq.mp padding]
          rfl
        case isFalse => rfl
  obtain ⟨padding, eq⟩ := encode_eq bytes
  have replaced : (encode bytes).map urlDigit =
      ((sextets bytes).map fun n => urlDigit (digit n)) ++ List.replicate padding '=' := by
    rw [eq, List.map_append, List.map_map, List.map_replicate]
    rfl
  change ((((encode bytes).map urlDigit).reverse.dropWhile (· == '=')).reverse).filter isKept = _
  rw [List.filter_reverse, cut, List.filter_reverse, List.reverse_reverse, replaced]
  exact filter_digits (fun n small => (digit_facts n small).2.2.1) bytes padding

/-! ### Looser texts -/

/-- A text with blanks anywhere in it, or without its padding. -/
inductive Loosened (s : List Char) : List Char → Prop
  | same : Loosened s s
  | blank {front back : List Char} {c : Char} (before : Loosened s (front ++ back))
      (isBlank : isBlank c = true) : Loosened s (front ++ c :: back)
  | unpadded {front back : List Char} (before : Loosened s (front ++ '=' :: back)) :
      Loosened s (front ++ back)

theorem Loosened.filter_eq {s t : List Char} (loosened : Loosened s t) :
    t.filter isKept = s.filter isKept := by
  induction loosened with
  | same => rfl
  | blank _ blank ih =>
      rw [← ih, List.filter_append, List.filter_append, List.filter_cons_of_neg (by simp [isKept, blank])]
  | unpadded _ ih =>
      rw [← ih, List.filter_append, List.filter_append, List.filter_cons_of_neg (by decide)]

theorem Loosened.decode_encode {bytes : List UInt8} {t : List Char}
    (loosened : Loosened (encode bytes) t) : decode t = bytes :=
  decode_of_kept (loosened.filter_eq.trans (filter_encode bytes))
    fun n small => (digit_facts n small).2.1

theorem Loosened.decode_urlForm {bytes : List UInt8} {t : List Char}
    (loosened : Loosened (Encoding.urlForm (encode bytes)) t) : decode t = bytes :=
  decode_of_kept (loosened.filter_eq.trans (filter_urlForm bytes))
    fun n small => (digit_facts n small).2.2.2

end Base64

/-! ## Hexadecimal -/

namespace Hex

theorem digit_facts : ∀ n < 16, digitValue (Nat.digitChar n) = some n ∧ Nat.digitChar n ≠ '+' := by
  decide

theorem readUnsigned_encodeByte (b : UInt8) : readUnsigned 16 256 (encodeByte b) = some b.toNat := by
  have bound := b.toNat_lt
  have high := digit_facts (b.toNat / 16) (by omega)
  have low := digit_facts (b.toNat % 16) (by omega)
  rw [readUnsigned]
  · simp [encodeByte, readDigits, high.1, low.1]
    omega
  · intro t signed
    exact absurd (List.cons.inj signed).1 high.2

theorem decode_encode (bytes : List UInt8) : decode (encode bytes) = bytes := by
  induction bytes with
  | nil => rfl
  | cons b rest ih =>
      have read := readUnsigned_encodeByte b
      rw [encodeByte] at read
      rw [encode, List.flatMap_cons, encodeByte, List.cons_append, List.cons_append, List.nil_append,
        decode, read]
      change UInt8.ofNat b.toNat :: decode (encode rest) = _
      rw [ih, UInt8.ofNat_toNat]

end Hex

/-! ## Encodings -/

namespace Encoding

theorem bytes_unit (a b : UInt8) :
    lowByte (UInt16.ofNat (a.toNat + b.toNat * 256)) = a ∧
      highByte (UInt16.ofNat (a.toNat + b.toNat * 256)) = b := by
  have first := a.toNat_lt
  have second := b.toNat_lt
  have unit := toNat_unit (n := a.toNat + b.toNat * 256) (by omega)
  have low : (a.toNat + b.toNat * 256) % 256 = a.toNat := by omega
  have high : (a.toNat + b.toNat * 256) / 256 = b.toNat := by omega
  exact ⟨by rw [lowByte, unit, low, UInt8.ofNat_toNat], by rw [highByte, unit, high, UInt8.ofNat_toNat]⟩

/-- Of bytes in pairs one that is left over is lost. -/
theorem encode_pairUnits (bytes : List UInt8) :
    encode utf16le (pairUnits bytes) = bytes.take (bytes.length / 2 * 2) := by
  induction bytes using pairUnits.induct with
  | case1 a b rest ih =>
      have twice : (rest.length + 1 + 1) / 2 * 2 = rest.length / 2 * 2 + 1 + 1 := by omega
      rw [pairUnits, encode, List.flatMap_cons, (bytes_unit a b).1, (bytes_unit a b).2,
        List.length_cons, List.length_cons, twice, List.take_succ_cons, List.take_succ_cons, ← ih]
      rfl
  | case2 bytes few =>
      have none : bytes.length / 2 * 2 = 0 := by
        match bytes, few with
        | [], _ => rfl
        | [a], _ => simp
        | a :: b :: rest, few => exact absurd rfl (few a b rest)
      rw [none, List.take_zero, pairUnits]
      · rfl
      · exact few

/-- Bytes that are spelled are read back, whatever they are. -/
theorem encode_decode_spelled {e : Encoding} (spelled : e = hex ∨ e = base64 ∨ e = base64url)
    (bytes : List UInt8) : e.encode (e.decode bytes) = bytes := by
  rcases spelled with rfl | rfl | rfl
  · rw [decode, encode, ofUnits_toUnits, Hex.decode_encode]
  · rw [decode, encode, ofUnits_toUnits, Base64.Loosened.same.decode_encode]
  · rw [decode, encode, ofUnits_toUnits, Base64.Loosened.same.decode_urlForm]

theorem encode_decode_utf16le (bytes : List UInt8) :
    utf16le.encode (utf16le.decode bytes) = bytes ↔ bytes.length % 2 = 0 := by
  rw [decode, encode_pairUnits]
  constructor
  · intro same
    have length := congrArg List.length same
    rw [List.length_take] at length
    omega
  · intro even
    exact List.take_of_length_le (by omega)

/-- What is read from a text is UTF-8, so nothing else is read back. -/
theorem encode_decode_utf8 (bytes : List UInt8) :
    utf8.encode (utf8.decode bytes) = bytes ↔ ∃ s, bytes = encodeUtf8 s := by
  rw [decode, encode, ofUnits_toUnits]
  constructor
  · intro same
    exact ⟨decodeUtf8 bytes, same.symm⟩
  · rintro ⟨s, rfl⟩
    rw [decodeUtf8_encodeUtf8]

end Encoding

/-! ## Reading hexadecimal -/

namespace Hex

/-- Two hexadecimal digits a byte, the higher first. -/
inductive Spells : List Char → List UInt8 → Prop
  | nil : Spells [] []
  | cons {a b : Char} {byte : UInt8} {s : List Char} {bytes : List UInt8}
      (pair : IsNumeral 16 [a, b] byte.toNat) (rest : Spells s bytes) :
      Spells (a :: b :: s) (byte :: bytes)

/-- The longest front of a text that spells bytes. -/
structure IsLongestSpelled (text front : List Char) (bytes : List UInt8) : Prop where
  leads : front <+: text
  spells : Spells front bytes
  longest : ∀ other read, other <+: text → Spells other read → other.length ≤ front.length

/-- A text starts with a plus sign and a digit. -/
def StartsSigned (text : List Char) : Prop :=
  ∃ c n rest, text = '+' :: c :: rest ∧ IsNumeral 16 [c] n

/-! ### Pairs -/

theorem numeral_lt {s : List Char} {n : Nat} (numeral : IsNumeral 16 s n) : n < 16 ^ s.length := by
  obtain ⟨-, digits, all, rfl⟩ := numeral
  rw [all.length_eq, ← List.length_reverse]
  refine Nat.ofDigits_lt_base_pow_length (by decide) fun d member => ?_
  obtain ⟨i, here, rfl⟩ := List.getElem_of_mem (List.mem_reverse.mp member)
  exact (List.forall₂_iff_get.mp all).2 i (all.length_eq ▸ here) here |>.2

/-- A pair of characters denotes a byte when both are digits, or when a digit stands behind a plus
sign. -/
theorem readPair_eq_some_iff {a b : Char} {n : Nat} : readUnsigned 16 256 [a, b] = some n ↔
    IsNumeral 16 [a, b] n ∨ a = '+' ∧ IsNumeral 16 [b] n := by
  rw [readUnsigned_eq_some_iff]
  constructor
  · rintro ⟨-, numeral | ⟨t, same, numeral⟩⟩
    · exact .inl numeral
    · cases same
      exact .inr ⟨rfl, numeral⟩
  · rintro (numeral | ⟨rfl, numeral⟩)
    · exact ⟨numeral_lt numeral, .inl numeral⟩
    · have small : n < 16 := numeral_lt numeral
      exact ⟨by omega, .inr ⟨_, rfl, numeral⟩⟩

/-- What is read behind spelled bytes comes behind them. -/
theorem Spells.decode_append {front : List Char} {bytes : List UInt8} (spells : Spells front bytes)
    (rest : List Char) : decode (front ++ rest) = bytes ++ decode rest := by
  induction spells with
  | nil => rfl
  | @cons a b byte s bytes pair _ ih =>
      rw [List.cons_append, List.cons_append, decode, readPair_eq_some_iff.mpr (.inl pair)]
      simp only [ih, UInt8.ofNat_toNat, List.cons_append]

/-! ### The longest front -/

/-- A text does not start with two digits. -/
def StartsNoPair (text : List Char) : Prop :=
  ∀ a b rest n, text = a :: b :: rest → ¬ IsNumeral 16 [a, b] n

/-- Every text spells bytes up to where no pair of digits follows. -/
theorem exists_spelled (text : List Char) :
    ∃ front rest bytes, text = front ++ rest ∧ Spells front bytes ∧ StartsNoPair rest := by
  fun_induction decode text with
  | case1 a b rest n read ih =>
      by_cases pair : IsNumeral 16 [a, b] n
      · obtain ⟨front, rest, bytes, rfl, spells, stop⟩ := ih
        have byte : (UInt8.ofNat n).toNat = n := UInt8.toNat_ofNat_of_lt' (numeral_lt pair)
        exact ⟨a :: b :: front, rest, UInt8.ofNat n :: bytes, rfl,
          .cons (byte.symm ▸ pair) spells, stop⟩
      · refine ⟨[], _, [], rfl, .nil, fun a' b' more n' same pair' => ?_⟩
        cases same
        have read' := readPair_eq_some_iff.mpr (.inl pair')
        rw [read, Option.some.injEq] at read'
        exact pair (read' ▸ pair')
  | case2 a b rest unread =>
      refine ⟨[], _, [], rfl, .nil, fun a' b' more n' same pair => ?_⟩
      cases same
      rw [readPair_eq_some_iff.mpr (.inl pair)] at unread
      cases unread
  | case3 text short =>
      exact ⟨[], _, [], rfl, .nil, fun a' b' more n' same _ => short a' b' more same⟩

/-- No front that spells bytes goes on where no pair of digits follows. -/
theorem Spells.length_le {front : List Char} {bytes : List UInt8} (spells : Spells front bytes)
    {rest : List Char} (stop : StartsNoPair rest) :
    ∀ {other : List Char} {read : List UInt8}, other <+: front ++ rest → Spells other read →
      other.length ≤ front.length := by
  induction spells with
  | nil =>
      intro other read leads spelled
      cases spelled with
      | nil => exact Nat.le_refl _
      | cons pair _ =>
          obtain ⟨behind, split⟩ := leads
          exact absurd pair (stop _ _ _ _ split.symm)
  | cons _ _ ih =>
      intro other read leads spelled
      cases spelled with
      | nil => exact Nat.zero_le _
      | cons _ spelled =>
          rw [List.cons_append, List.cons_append, List.cons_prefix_cons, List.cons_prefix_cons]
            at leads
          exact Nat.succ_le_succ (Nat.succ_le_succ (ih leads.2.2 spelled))

/-- Where no pair of digits follows, something is read of a digit behind a plus sign only. -/
theorem decode_eq_nil_iff {rest : List Char} (stop : StartsNoPair rest) :
    decode rest = [] ↔ ¬ StartsSigned rest := by
  fun_cases decode rest with
  | case1 a b more n read =>
      refine iff_of_false (List.cons_ne_nil _ _) (not_not_intro ?_)
      obtain ⟨rfl, digit⟩ := (readPair_eq_some_iff.mp read).resolve_left (stop _ _ _ _ rfl)
      exact ⟨b, n, more, rfl, digit⟩
  | case2 a b more unread =>
      refine iff_of_true rfl ?_
      rintro ⟨c, n, behind, same, digit⟩
      cases same
      rw [readPair_eq_some_iff.mpr (.inr ⟨rfl, digit⟩)] at unread
      cases unread
  | case3 _ short =>
      refine iff_of_true rfl ?_
      rintro ⟨c, n, behind, rfl, -⟩
      exact short _ _ _ rfl

/-! ### Pairs of bytes -/

/-- The text that has bytes for its UTF-8 form. -/
def textOf? (bytes : List UInt8) : Option (List Char) :=
  if encodeUtf8 (decodeUtf8 bytes) = bytes then some (decodeUtf8 bytes) else none

/-- Reading by pairs of bytes: a pair denotes what its text denotes, if it has one. -/
def decodeBytes : List UInt8 → List UInt8
  | a :: b :: rest =>
      match textOf? [a, b] >>= readUnsigned 16 256 with
      | some n => UInt8.ofNat n :: decodeBytes rest
      | none => []
  | _ => []

theorem textOf?_encodeUtf8 (s : List Char) : textOf? (encodeUtf8 s) = some s := by
  rw [textOf?, decodeUtf8_encodeUtf8, if_pos rfl]

theorem encodeUtf8_of_textOf? {bytes : List UInt8} {s : List Char} (text : textOf? bytes = some s) :
    encodeUtf8 s = bytes := by
  unfold textOf? at text
  split at text
  case isTrue whole => exact Option.some.inj text ▸ whole
  case isFalse => cases text

/-- A character is one byte, or its first byte lies beyond ASCII as it does. -/
theorem encodeChar_first (c : Char) :
    (c.toNat < 0x80 ∧ ∃ w, String.utf8EncodeChar c = [w] ∧ w.toNat < 0x80) ∨
    (0x80 ≤ c.toNat ∧ ∃ w x tail, String.utf8EncodeChar c = w :: x :: tail ∧ 0x80 ≤ w.toNat) := by
  rcases encodeChar_cases c with ⟨small, w, bytes, first⟩ | ⟨low, -, w, x, bytes, first, -⟩ |
    ⟨low, -, w, x, y, bytes, first, -⟩ | ⟨low, w, x, y, z, bytes, first, -⟩
  · exact .inl ⟨small, w, bytes, by omega⟩
  · exact .inr ⟨low, w, x, [], bytes, by omega⟩
  · exact .inr ⟨by omega, w, x, [y], bytes, by omega⟩
  · exact .inr ⟨by omega, w, x, [y, z], bytes, by omega⟩

/-- What denotes a byte is ASCII. -/
theorem ascii_of_read {s : List Char} {n : Nat} (read : readUnsigned 16 256 s = some n) :
    ∀ c ∈ s, c.toNat < 0x80 := by
  have digits {t : List Char} (numeral : IsNumeral 16 t n) : ∀ c ∈ t, c.toNat < 0x80 := by
    intro c member
    obtain ⟨d, digit⟩ := numeral.digits c member
    have := digit.range
    omega
  obtain ⟨-, numeral | ⟨t, rfl, numeral⟩⟩ := readUnsigned_eq_some_iff.mp read
  · exact digits numeral
  · exact List.forall_mem_cons.mpr ⟨by decide, digits numeral⟩

theorem encodeUtf8_ascii {s : List Char} (ascii : ∀ c ∈ s, c.toNat < 0x80) :
    ∀ b ∈ encodeUtf8 s, b.toNat < 0x80 := by
  intro b member
  obtain ⟨c, within, member⟩ := List.mem_flatMap.mp member
  have small := ascii c within
  obtain ⟨-, w, bytes, first⟩ := (encodeChar_first c).resolve_right fun large => by omega
  rw [bytes, List.mem_singleton] at member
  exact member ▸ first

/-- A byte beyond ASCII is in no pair that denotes a byte. -/
theorem unread_of_large {a b : UInt8} (large : 0x80 ≤ a.toNat ∨ 0x80 ≤ b.toNat) :
    (textOf? [a, b] >>= readUnsigned 16 256) = none := by
  rw [Option.bind_eq_bind, Option.bind_eq_none_iff]
  intro s text
  rw [← Option.not_isSome_iff_eq_none, Option.isSome_iff_exists]
  rintro ⟨n, read⟩
  have small := encodeUtf8_ascii (ascii_of_read read)
  rw [encodeUtf8_of_textOf? text] at small
  have first := small a (List.mem_cons_self ..)
  have second := small b (List.mem_cons_of_mem _ (List.mem_singleton_self b))
  omega

/-- Pairs of characters denote what pairs of bytes do. -/
theorem decodeBytes_encodeUtf8 : ∀ text : List Char, decodeBytes (encodeUtf8 text) = decode text
  | [] => rfl
  | [c] => by
      rw [encodeUtf8_cons]
      rcases encodeChar_first c with ⟨-, w, bytes, -⟩ | ⟨-, w, x, tail, bytes, large⟩
      · rw [bytes]
        rfl
      · rw [bytes, List.cons_append, List.cons_append, decodeBytes, unread_of_large (.inl large)]
        rfl
  | a :: b :: rest => by
      have ascii {n : Nat} (read : readUnsigned 16 256 [a, b] = some n) :=
        ascii_of_read read
      have unread (large : 0x80 ≤ a.toNat ∨ 0x80 ≤ b.toNat) : readUnsigned 16 256 [a, b] = none := by
        rw [← Option.not_isSome_iff_eq_none, Option.isSome_iff_exists]
        rintro ⟨n, read⟩
        have first := ascii read a (List.mem_cons_self ..)
        have second := ascii read b (List.mem_cons_of_mem _ (List.mem_singleton_self b))
        omega
      rw [decode, encodeUtf8_cons, encodeUtf8_cons]
      rcases encodeChar_first a with ⟨-, w, first, -⟩ | ⟨beyond, w, x, tail, first, large⟩
      · rcases encodeChar_first b with ⟨-, v, second, -⟩ | ⟨beyond, v, x, tail, second, large⟩
        · have pair : encodeUtf8 [a, b] = [w, v] := by
            rw [encodeUtf8_cons, encodeUtf8_cons, first, second]
            rfl
          have text : textOf? [w, v] = some [a, b] := pair ▸ textOf?_encodeUtf8 [a, b]
          cases read : readUnsigned 16 256 [a, b] <;>
            simp only [first, second, List.singleton_append, decodeBytes, text, Option.bind_eq_bind,
              Option.bind_some, read, decodeBytes_encodeUtf8 rest]
        · rw [first, second, List.singleton_append, List.cons_append, decodeBytes,
            unread_of_large (.inr large), unread (.inr beyond)]
      · rw [first, List.cons_append, List.cons_append, decodeBytes, unread_of_large (.inl large),
          unread (.inl beyond)]

/-! ### What is read -/

/-- The bytes of the longest front that spells bytes are what is read, by characters and by bytes, if
and only if no digit behind a plus sign follows that front. -/
theorem decode_eq_iff (text : List Char) : decodeBytes (encodeUtf8 text) = decode text ∧
    ∃ front rest bytes, text = front ++ rest ∧ IsLongestSpelled text front bytes ∧
      (decode text = bytes ↔ ¬ StartsSigned rest) := by
  refine ⟨decodeBytes_encodeUtf8 text, ?_⟩
  obtain ⟨front, rest, bytes, rfl, spells, stop⟩ := exists_spelled text
  refine ⟨front, rest, bytes, rfl, ⟨List.prefix_append .., spells, fun other read => ?_⟩, ?_⟩
  · exact spells.length_le stop
  · rw [spells.decode_append, List.append_right_eq_self, decode_eq_nil_iff stop]

/-- A plus sign and a digit are read as a byte, although they are no two digits. -/
theorem decode_signed : IsLongestSpelled ['+', 'f'] [] [] ∧ decode ['+', 'f'] = [15] := by
  refine ⟨⟨List.nil_prefix, .nil, fun other read leads spells => ?_⟩, by decide⟩
  refine Spells.length_le .nil (fun a b rest n same pair => ?_) leads spells
  cases same
  exact pair.not_mem rfl (List.mem_cons_self ..)

end Hex

end JsxPreview.Codec
