import JsxPreview.Proofs.Text.Split
import JsxPreview.Proofs.Text.Utf8
import JsxPreview.Url.Form

/-! # Query strings read back

What is written for a name or a value holds no mark that parts pairs or names from values
(`isWritten_encode`), and each character of it is read back with anything behind it
(`unescapeBytes_encodeChar`).  So the pairs of a query string are those it was written from
(`parse_serialize`), and a query is read back from its text (`Query.parse_text`).  Setting a name and
sorting are told by the pairs of one name, those of the other names, and their places. -/
set_option autoImplicit false
namespace JsxPreview.Url

open JsxPreview.Text

/-! ## Escapes -/

theorem digitValue_upperHexDigit {n : Nat} (digit : n < 16) :
    digitValue (upperHexDigit n) = some n := by
  revert n
  decide

theorem isPlain_upperHexDigit {n : Nat} (digit : n < 16) :
    Form.isPlain (upperHexDigit n) = true := by
  revert n
  decide

theorem unescapeBytes_cons {c : Char} (noEscape : c ≠ '%') (rest : List Char) :
    unescapeBytes (c :: rest) = String.utf8EncodeChar c ++ unescapeBytes rest := by
  rw [unescapeBytes]
  intro a b rest' escape
  exact absurd escape noEscape

theorem unescapeBytes_escapeByte (b : UInt8) (rest : List Char) :
    unescapeBytes (escapeByte b ++ rest) = b :: unescapeBytes rest := by
  have bound := b.toNat_lt
  have value : b.toNat / 16 * 16 + b.toNat % 16 = b.toNat := by omega
  rw [escapeByte, List.cons_append, List.cons_append, List.cons_append, List.nil_append,
    unescapeBytes, digitValue_upperHexDigit (by omega), digitValue_upperHexDigit (by omega)]
  simp only [value, UInt8.ofNat_toNat]

theorem unescapeBytes_escapeBytes (bytes : List UInt8) (rest : List Char) :
    unescapeBytes (bytes.flatMap escapeByte ++ rest) = bytes ++ unescapeBytes rest := by
  induction bytes with
  | nil => rfl
  | cons b bytes ih =>
      rw [List.flatMap_cons, List.append_assoc, unescapeBytes_escapeByte, ih, List.cons_append]

namespace Form

/-! ## Names and values -/

theorem isPlain_eq (c : Char) : isPlain c = (c.isAlphanum || decide (c ∈ ['*', '-', '.', '_'])) := by
  rw [isPlain, String.contains_char_eq]
  rfl

theorem isPlain_mark {c : Char} (mark : c ∈ ['+', '%', '&', '=', '?']) : isPlain c = false := by
  have marks : ['+', '%', '&', '=', '?'].all (fun c =>
      !(c.isAlphanum || decide (c ∈ ['*', '-', '.', '_']))) = true := by decide
  rw [isPlain_eq]
  simpa using List.all_eq_true.mp marks c mark

/-- What a name or a value is written with. -/
def isWritten (c : Char) : Bool := isPlain c || c == '+' || c == '%'

/-- A plus sign is read as a space. -/
def spaced (s : List Char) : List Char := s.map fun c => if c = '+' then ' ' else c

theorem isWritten_mark {c : Char} (mark : c ∈ ['&', '=', '?']) : isWritten c = false := by
  have marks : ['&', '=', '?'].all (fun c => !(c == '+' || c == '%')) = true := by decide
  rw [isWritten, isPlain_mark (List.mem_cons_of_mem _ (List.mem_cons_of_mem _ mark)),
    Bool.false_or]
  simpa using List.all_eq_true.mp marks c mark

theorem isWritten_of_isPlain {c : Char} (plain : isPlain c = true) : isWritten c = true := by
  rw [isWritten, plain]
  rfl

theorem plain_escapeByte (b : UInt8) : ∀ c ∈ escapeByte b, isPlain c = true ∨ c = '%' := by
  have bound := b.toNat_lt
  intro c member
  simp only [escapeByte, List.mem_cons, List.not_mem_nil, or_false] at member
  rcases member with rfl | rfl | rfl
  · exact .inr rfl
  · exact .inl (isPlain_upperHexDigit (by omega))
  · exact .inl (isPlain_upperHexDigit (by omega))

/-- A character is written as a plus sign, as itself, or with the escapes of its bytes. -/
theorem encodeChar_eq (c : Char) :
    c = ' ' ∧ encodeChar c = ['+'] ∨ isPlain c = true ∧ encodeChar c = [c] ∨
      encodeChar c = (String.utf8EncodeChar c).flatMap escapeByte := by
  by_cases space : c = ' '
  · exact .inl ⟨space, if_pos space⟩
  · rw [encodeChar, if_neg space, escapeChar]
    cases isPlain c with
    | true => exact .inr (.inl ⟨rfl, rfl⟩)
    | false => exact .inr (.inr rfl)

theorem isWritten_encode (s : List Char) : ∀ c ∈ encode s, isWritten c = true := by
  intro c member
  obtain ⟨d, -, here⟩ := List.mem_flatMap.mp member
  rcases encodeChar_eq d with ⟨-, written⟩ | ⟨plain, written⟩ | written
  · rw [written, List.mem_singleton] at here
    rw [here]
    simp [isWritten]
  · rw [written, List.mem_singleton] at here
    rw [here]
    exact isWritten_of_isPlain plain
  · rw [written] at here
    obtain ⟨b, -, escape⟩ := List.mem_flatMap.mp here
    rcases plain_escapeByte b c escape with plain | rfl
    · exact isWritten_of_isPlain plain
    · simp [isWritten]

theorem not_mem_encode {c : Char} (mark : c ∈ ['&', '=', '?']) (s : List Char) : c ∉ encode s :=
  fun member => Bool.false_ne_true ((isWritten_mark mark).symm.trans (isWritten_encode s c member))

theorem spaced_eq_self {s : List Char} (noPlus : '+' ∉ s) : spaced s = s := by
  refine (List.map_congr_left fun c member => if_neg ?_).trans (List.map_id _)
  rintro rfl
  exact noPlus member

theorem unescapeBytes_encodeChar (c : Char) (rest : List Char) :
    unescapeBytes (spaced (encodeChar c) ++ rest) =
      String.utf8EncodeChar c ++ unescapeBytes rest := by
  rcases encodeChar_eq c with ⟨rfl, written⟩ | ⟨plain, written⟩ | written
  · rw [written]
    exact unescapeBytes_cons (by decide) rest
  · have noMark {m : Char} (mark : m ∈ ['+', '%', '&', '=', '?']) : c ≠ m := by
      rintro rfl
      exact Bool.false_ne_true ((isPlain_mark mark).symm.trans plain)
    have noPlus : c ≠ '+' := noMark (by decide)
    have noEscape : c ≠ '%' := noMark (by decide)
    rw [written, spaced, List.map_singleton, if_neg noPlus]
    exact unescapeBytes_cons noEscape rest
  · have noPlus : '+' ∉ (String.utf8EncodeChar c).flatMap escapeByte := by
      intro member
      obtain ⟨b, -, escape⟩ := List.mem_flatMap.mp member
      rcases plain_escapeByte b _ escape with plain | percent
      · exact Bool.false_ne_true ((isPlain_mark (by decide)).symm.trans plain)
      · exact absurd percent (by decide)
    rw [written, spaced_eq_self noPlus, unescapeBytes_escapeBytes]

theorem unescapeBytes_encode (s : List Char) : unescapeBytes (spaced (encode s)) = encodeUtf8 s := by
  induction s with
  | nil => exact unescapeBytes.eq_def []
  | cons c s ih =>
      have split : spaced (encode (c :: s)) = spaced (encodeChar c) ++ spaced (encode s) :=
        List.map_append
      rw [split, unescapeBytes_encodeChar, ih, encodeUtf8_cons]

theorem decode_encode (s : List Char) : decode (encode s) = s := by
  have bytes : unescapeBytes ((encode s).map fun c => if c = '+' then ' ' else c) = encodeUtf8 s :=
    unescapeBytes_encode s
  rw [decode, bytes, decodeUtf8_encodeUtf8]

/-! ## Pairs -/

theorem decodePair_encodePair (pair : List Char × List Char) :
    decodePair (encodePair pair) = pair := by
  have name : ∀ c ∈ encode pair.1, decide (c ≠ '=') = true := by
    intro c member
    rw [decide_eq_true_eq]
    rintro rfl
    exact not_mem_encode (by decide) pair.1 member
  have first : (encodePair pair).takeWhile (· ≠ '=') = encode pair.1 := by
    rw [encodePair, List.takeWhile_append_of_pos name]
    simp
  have second : (encodePair pair).dropWhile (· ≠ '=') = '=' :: encode pair.2 := by
    rw [encodePair, List.dropWhile_append_of_pos name]
    simp
  rw [decodePair, first, second, List.tail_cons, decode_encode, decode_encode]

theorem not_mem_encodePair {c : Char} (mark : c ∈ ['&', '=', '?']) (noEquals : c ≠ '=')
    (pair : List Char × List Char) : c ∉ encodePair pair := by
  rw [encodePair, List.mem_append, List.mem_cons]
  rintro (name | equals | value)
  · exact not_mem_encode mark _ name
  · exact noEquals equals
  · exact not_mem_encode mark _ value

/-- The pairs of a query string are those it was written from. -/
theorem parse_serialize (pairs : List (List Char × List Char)) : parse (serialize pairs) = pairs := by
  by_cases none : pairs = []
  · rw [none]
    rfl
  · have parts : splitOn '&' (serialize pairs) = pairs.map encodePair := by
      refine splitOn_joinWith (by simpa using none) fun part member => ?_
      obtain ⟨pair, -, rfl⟩ := List.mem_map.mp member
      exact not_mem_encodePair (by decide) (by decide) pair
    have some : (pairs.map encodePair).filter (!·.isEmpty) = pairs.map encodePair := by
      refine List.filter_eq_self.mpr fun part member => ?_
      obtain ⟨pair, -, rfl⟩ := List.mem_map.mp member
      simp [encodePair]
    rw [parse, parts, some, List.map_map]
    exact (List.map_congr_left fun pair _ => decodePair_encodePair pair).trans (List.map_id _)

/-- No question mark begins what is written. -/
theorem not_mem_serialize (pairs : List (List Char × List Char)) : '?' ∉ serialize pairs := by
  intro member
  rcases mem_joinWith member with separator | ⟨part, member, here⟩
  · exact absurd (List.mem_singleton.mp separator) (by decide)
  · obtain ⟨pair, -, rfl⟩ := List.mem_map.mp member
    exact not_mem_encodePair (by decide) (by decide) pair here

end Form

/-! ## Queries -/

namespace Query

theorem parse_text (q : Query) : parse q.text = q := by
  have pairs : ofPairs (Form.parse q.text.toList) = q := by
    rw [text, String.toList_ofList, Form.parse_serialize, ofPairs, List.map_map]
    refine congrArg Query.mk ((List.map_congr_left fun p _ => ?_).trans (List.map_id _))
    exact Prod.ext String.ofList_toList String.ofList_toList
  rw [parse]
  split
  case h_1 rest marked =>
    have noMark : '?' ∉ q.text.toList := by
      rw [text, String.toList_ofList]
      exact Form.not_mem_serialize _
    rw [marked] at noMark
    exact absurd (List.mem_cons_self ..) noMark
  case h_2 => exact pairs

section

variable (name value : String) (pairs : List (String × String))

theorem setPairs_cons (p : String × String) : setPairs name value (p :: pairs) =
    if p.1 = name then (name, value) :: pairs.filter (·.1 != name)
    else p :: setPairs name value pairs := rfl

theorem filter_setPairs :
    (setPairs name value pairs).filter (·.1 == name) = [(name, value)] := by
  induction pairs with
  | nil => simp [setPairs]
  | cons p rest ih =>
      rw [setPairs_cons]
      split
      case isTrue => simp
      case isFalse other => simp [other, ih]

theorem filter_setPairs_others :
    (setPairs name value pairs).filter (·.1 != name) = pairs.filter (·.1 != name) := by
  induction pairs with
  | nil => simp [setPairs]
  | cons p rest ih =>
      rw [setPairs_cons]
      split
      case isTrue same => simp [same]
      case isFalse other => simp [other, ih]

/-- A name that is set stands where the first one of it stood, and last if there was none. -/
theorem findIdx_setPairs :
    (setPairs name value pairs).findIdx (·.1 == name) = pairs.findIdx (·.1 == name) := by
  induction pairs with
  | nil => simp [setPairs]
  | cons p rest ih =>
      rw [setPairs_cons]
      split
      case isTrue same => simp [List.findIdx_cons, same]
      case isFalse => simp [List.findIdx_cons, ih]

end

theorem names_trans (a b c : String × String) (first : comesBefore a.1 b.1 = true)
    (second : comesBefore b.1 c.1 = true) : comesBefore a.1 c.1 = true :=
  comesBefore_trans first second

theorem names_total (a b : String × String) :
    (comesBefore a.1 b.1 || comesBefore b.1 a.1) = true :=
  comesBefore_total a.1 b.1

theorem sort_ascending (q : Query) :
    q.sort.pairs.Pairwise fun a b => Text.toUnits a.1.toList ≤ Text.toUnits b.1.toList :=
  (List.pairwise_mergeSort names_trans names_total q.pairs).imp (comesBefore_iff _ _).mp

/-- Sorting keeps the order of the pairs of a name. -/
theorem filter_sort (q : Query) (name : String) :
    q.sort.pairs.filter (·.1 == name) = q.pairs.filter (·.1 == name) := by
  refine filter_mergeSort names_trans names_total ?_ q.pairs
  intro a b first second
  rw [beq_iff_eq] at first second
  rw [comesBefore_iff, first, second]
  exact List.le_refl _

end Query

end JsxPreview.Url
