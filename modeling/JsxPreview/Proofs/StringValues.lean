import JsxPreview.Proofs.Scanner.Literals
import JsxPreview.Proofs.Scanner.Termination
import JsxPreview.Proofs.Text.Numerals
import JsxPreview.Proofs.Text.Split
import JsxPreview.Source.Lexeme
import JsxPreview.Text.Lines

/-! # Values of string literals

`StringValue` is the value that the script language gives what stands between the quotes of a literal,
as UTF-16 units.  The units of `unquote` are this value exactly for literals all of whose escapes are
among those that `unquote` knows (`unquote_value_iff`): a newline, a tab, a carriage return, a null, a
line feed that is left out, and characters that stand for themselves. -/
set_option autoImplicit false
namespace JsxPreview.Source

open JsxPreview.Text

/-- The units of a code point. -/
def codeUnits (n : Nat) : List UInt16 :=
  if n < 0x10000 then [UInt16.ofNat n]
  else [UInt16.ofNat (0xd800 + (n - 0x10000) / 0x400), UInt16.ofNat (0xdc00 + (n - 0x10000) % 0x400)]

/-- What a backslash and one character stand for: a control character, nothing in front of a line end,
and otherwise the character itself, digits other than zero included (there are no octal escapes).  An
`x` and a `u` need digits behind them. -/
def singleValue : Char → Option (List UInt16)
  | 'n' => some [0x0a]
  | 't' => some [0x09]
  | 'r' => some [0x0d]
  | 'b' => some [0x08]
  | 'f' => some [0x0c]
  | 'v' => some [0x0b]
  | '0' => some [0x00]
  | '\n' | '\r' | '\u2028' | '\u2029' => some []
  | 'x' | 'u' => none
  | c => some (codeUnits c.toNat)

/-- What follows a backslash, and the units that both stand for. -/
inductive EscapeValue : List Char → List UInt16 → Prop
  | single {c : Char} {v : List UInt16} (value : singleValue c = some v) : EscapeValue [c] v
  | lineEnd : EscapeValue ['\r', '\n'] []
  | hexadecimal {a b : Char} {n : Nat} (number : IsNumeral 16 [a, b] n) :
      EscapeValue ['x', a, b] [UInt16.ofNat n]
  | unit {a b c d : Char} {n : Nat} (number : IsNumeral 16 [a, b, c, d] n) :
      EscapeValue ['u', a, b, c, d] [UInt16.ofNat n]
  | codePoint {digits : List Char} {n : Nat} (number : IsNumeral 16 digits n) (known : n ≤ 0x10ffff) :
      EscapeValue ('u' :: '\x7b' :: (digits ++ ['\x7d'])) (codeUnits n)

/-- What stands between quotes, and its value. -/
inductive StringValue (quote : Char) : List Char → List UInt16 → Prop
  | nil : StringValue quote [] []
  | plain {c : Char} {s : List Char} {u : List UInt16} (plain : c ∉ ['\\', quote, '\n', '\r'])
      (behind : StringValue quote s u) : StringValue quote (c :: s) (codeUnits c.toNat ++ u)
  | escape {e s : List Char} {v u : List UInt16} (escape : EscapeValue e v)
      (behind : StringValue quote s u) : StringValue quote ('\\' :: (e ++ s)) (v ++ u)

/-- The characters behind the backslashes that start escapes. -/
def escapeHeads : List Char → List Char
  | '\\' :: c :: s => c :: escapeHeads s
  | _ :: s => escapeHeads s
  | [] => []

/-- The characters with which escapes start that are taken for the character itself and stand for
something else. -/
def misread : List Char := ['b', 'f', 'v', 'x', 'u', '\r', '\u2028', '\u2029']

/-! ## One value -/

theorem StringValue.head {quote : Char} {c : Char} {s : List Char} {u : List UInt16}
    (value : StringValue quote (c :: s) u) : c ≠ '\n' := by
  rintro rfl
  generalize whole : '\n' :: s = text at value
  cases value with
  | nil => cases whole
  | plain plain _ =>
      cases whole
      exact plain (by simp)
  | escape => cases whole

/-- An escape ends where it ends, and has one value. -/
theorem EscapeValue.unique {quote : Char} {e e' s s' : List Char} {v v' u u' : List UInt16}
    (first : EscapeValue e v) (second : EscapeValue e' v') (same : e ++ s = e' ++ s')
    (behind : StringValue quote s u) (behind' : StringValue quote s' u') : v = v' ∧ s = s' := by
  have bare {a b c d : Char} {n : Nat} (number : IsNumeral 16 [a, b, c, d] n) : a ≠ '\x7b' := by
    rintro rfl
    exact number.not_mem rfl (List.mem_cons_self ..)
  cases first with
  | single value =>
      cases second with
      | single value' =>
          cases same
          exact ⟨Option.some.inj (value.symm.trans value'), rfl⟩
      | lineEnd =>
          cases same
          exact absurd rfl behind.head
      | hexadecimal | unit | codePoint =>
          cases same
          cases value
  | lineEnd =>
      cases second with
      | single value' =>
          cases same
          exact absurd rfl behind'.head
      | lineEnd =>
          cases same
          exact ⟨rfl, rfl⟩
      | hexadecimal | unit | codePoint => cases same
  | hexadecimal number =>
      cases second with
      | single value' =>
          cases same
          cases value'
      | hexadecimal number' =>
          cases same
          exact ⟨by rw [number.unique number'], rfl⟩
      | lineEnd | unit | codePoint => cases same
  | unit number =>
      cases second with
      | single value' =>
          cases same
          cases value'
      | unit number' =>
          cases same
          exact ⟨by rw [number.unique number'], rfl⟩
      | codePoint => exact absurd (List.cons.inj (List.cons.inj same).2).1 (bare number)
      | lineEnd | hexadecimal => cases same
  | codePoint number =>
      cases second with
      | single value' =>
          cases same
          cases value'
      | unit number' => exact absurd (List.cons.inj (List.cons.inj same).2).1.symm (bare number')
      | codePoint number' =>
          simp only [List.cons_append, List.append_assoc, List.cons.injEq, true_and] at same
          obtain ⟨rfl, rfl⟩ := append_sep_unique (number.not_mem rfl) (number'.not_mem rfl) same
          exact ⟨by rw [number.unique number'], rfl⟩
      | lineEnd | hexadecimal => cases same

theorem StringValue.unique {quote : Char} {s : List Char} {u : List UInt16}
    (first : StringValue quote s u) : ∀ {u' : List UInt16}, StringValue quote s u' → u = u' := by
  induction first with
  | nil =>
      intro u' second
      cases second
      rfl
  | plain plain _ ih =>
      intro u' second
      cases second with
      | plain _ behind => rw [ih behind]
      | escape => exact absurd (List.mem_cons_self ..) plain
  | @escape e s v u escape behind ih =>
      intro u' second
      generalize whole : '\\' :: (e ++ s) = text at second
      cases second with
      | nil => cases whole
      | plain plain _ =>
          cases whole
          exact absurd (List.mem_cons_self ..) plain
      | escape escape' behind' =>
          obtain ⟨rfl, rfl⟩ := escape.unique escape' (List.cons.inj whole).2 behind behind'
          rw [ih behind']

/-! ## What is read -/

theorem toUnits_cons (c : Char) (s : List Char) :
    Text.toUnits (c :: s) = codeUnits c.toNat ++ Text.toUnits s := by
  rw [Text.toUnits, codeUnits]
  split <;> rfl

theorem toUnits_append (s t : List Char) :
    Text.toUnits (s ++ t) = Text.toUnits s ++ Text.toUnits t := by
  induction s with
  | nil => rfl
  | cons c s ih => rw [List.cons_append, toUnits_cons, toUnits_cons, ih, List.append_assoc]

theorem unescape_plain {c : Char} (plain : c ≠ '\\') (s : List Char) :
    unescape (c :: s) = c :: unescape s := by
  rw [unescape] <;> simp [plain]

theorem escapeHeads_plain {c : Char} (plain : c ≠ '\\') (s : List Char) :
    escapeHeads (c :: s) = escapeHeads s := by
  rw [escapeHeads]
  simp [plain]

theorem unescape_escape {c : Char} (inLine : c ≠ '\n') (s : List Char) :
    unescape ('\\' :: c :: s) = escapedChar c :: unescape s := by
  rw [unescape]
  simp [inLine]

/-- Characters that no escape starts with are copied. -/
theorem unescape_run {run : List Char} (plain : '\\' ∉ run) (s : List Char) :
    unescape (run ++ s) = run ++ unescape s ∧ escapeHeads (run ++ s) = escapeHeads s := by
  induction run with
  | nil => exact ⟨rfl, rfl⟩
  | cons c run ih =>
      rw [List.mem_cons, not_or] at plain
      obtain ⟨text, heads⟩ := ih plain.2
      rw [List.cons_append, unescape_plain (Ne.symm plain.1), escapeHeads_plain (Ne.symm plain.1), text,
        heads]
      exact ⟨rfl, rfl⟩

theorem codeUnits_length (n : Nat) : 1 ≤ (codeUnits n).length := by
  unfold codeUnits
  split <;> simp

theorem length_toUnits (s : List Char) : s.length ≤ (Text.toUnits s).length := by
  induction s with
  | nil => exact Nat.le_refl _
  | cons c s ih =>
      have := codeUnits_length c.toNat
      rw [toUnits_cons, List.length_append, List.length_cons]
      omega

/-- One character behind a backslash is read as its value, unless it is among those misread. -/
theorem singleValue_reads {c : Char} {v : List UInt16} (value : singleValue c = some v)
    (inLine : c ≠ '\n') : v.length ≤ (Text.toUnits [escapedChar c]).length ∧
      (v = Text.toUnits [escapedChar c] ↔ c ∉ misread) := by
  unfold singleValue at value
  split at value
  case h_14 =>
    have itself : escapedChar c = c := by simp_all [escapedChar]
    have known : c ∉ misread := by simp_all [misread]
    have units : v = Text.toUnits [c] := by
      rw [toUnits_cons]
      exact (Option.some.inj value).symm.trans (List.append_nil _).symm
    rw [itself, ← units]
    exact ⟨Nat.le_refl _, iff_of_true rfl known⟩
  case h_8 => exact absurd rfl inLine
  all_goals cases value <;> decide

/-- What is read of an escape, and when it is the value. -/
theorem EscapeValue.reads {e : List Char} {v : List UInt16} (escape : EscapeValue e v) :
    ∃ c w, (∀ s, unescape ('\\' :: (e ++ s)) = w ++ unescape s ∧
        escapeHeads ('\\' :: (e ++ s)) = c :: escapeHeads s) ∧
      v.length ≤ (Text.toUnits w).length ∧ (v = Text.toUnits w ↔ c ∉ misread) := by
  -- what starts with an `x`, a `u` or a carriage return is copied as a whole
  have copied {c : Char} {run : List Char} {v : List UInt16} (inLine : c ≠ '\n')
      (itself : escapedChar c = c) (bad : c ∈ misread) (plain : '\\' ∉ run)
      (longer : v.length < (c :: run).length) :
      ∃ c' w, (∀ s, unescape ('\\' :: (c :: run ++ s)) = w ++ unescape s ∧
          escapeHeads ('\\' :: (c :: run ++ s)) = c' :: escapeHeads s) ∧
        v.length ≤ (Text.toUnits w).length ∧ (v = Text.toUnits w ↔ c' ∉ misread) := by
    have longer := Nat.lt_of_lt_of_le longer (length_toUnits (c :: run))
    refine ⟨c, c :: run, fun s => ?_, Nat.le_of_lt longer, iff_of_false ?_ (not_not_intro bad)⟩
    · obtain ⟨text, heads⟩ := unescape_run plain s
      rw [List.cons_append, unescape_escape inLine, itself, text, escapeHeads, heads]
      exact ⟨rfl, rfl⟩
    · intro same
      rw [same] at longer
      exact Nat.lt_irrefl _ longer
  cases escape with
  | @single c v value =>
      by_cases feed : c = '\n'
      · subst feed
        cases value
        exact ⟨'\n', [], fun s => ⟨rfl, rfl⟩, Nat.le_refl _, by decide⟩
      · exact ⟨c, [escapedChar c], fun s => ⟨unescape_escape feed s, rfl⟩,
          singleValue_reads value feed⟩
  | lineEnd => exact copied (by decide) (by decide) (by decide) (by decide) (by decide)
  | hexadecimal number =>
      exact copied (by decide) (by decide) (by decide) (number.not_mem rfl) (by simp)
  | unit number =>
      exact copied (by decide) (by decide) (by decide) (number.not_mem rfl) (by simp)
  | @codePoint digits n number known =>
      have short : (codeUnits n).length ≤ 2 := by
        unfold codeUnits
        split <;> simp
      have plain : '\\' ∉ '\x7b' :: (digits ++ ['\x7d']) := by
        have digits := number.not_mem (x := '\\') rfl
        simp [digits]
      refine copied (by decide) (by decide) (by decide) plain ?_
      simp only [List.length_cons, List.length_append, List.length_nil]
      omega

/-- Whatever its escapes, what is read is no shorter than the value, and it is the value only if no
escape is misread. -/
theorem StringValue.reads {quote : Char} {s : List Char} {u : List UInt16}
    (value : StringValue quote s u) : u.length ≤ (Text.toUnits (unescape s)).length ∧
      (u = Text.toUnits (unescape s) → ∀ c ∈ escapeHeads s, c ∉ misread) := by
  induction value with
  | nil => exact ⟨Nat.le_refl _, fun _ => nofun⟩
  | @plain c s u plain _ ih =>
      have start : c ≠ '\\' := by
        rintro rfl
        exact plain (List.mem_cons_self ..)
      obtain ⟨le, known⟩ := ih
      rw [unescape_plain start, escapeHeads_plain start, toUnits_cons, List.length_append,
        List.length_append]
      exact ⟨Nat.add_le_add_left le _, fun same => known (List.append_cancel_left same)⟩
  | @escape e s v u escape _ ih =>
      obtain ⟨le, known⟩ := ih
      obtain ⟨c, w, read, short, same⟩ := escape.reads
      rw [(read s).1, (read s).2, toUnits_append, List.length_append, List.length_append]
      refine ⟨Nat.add_le_add short le, fun whole => ?_⟩
      -- neither part is shorter than its value, so both have its length
      have lengths := congrArg List.length whole
      rw [List.length_append, List.length_append] at lengths
      obtain ⟨first, rest⟩ := List.append_inj whole (by omega)
      exact List.forall_mem_cons.mpr ⟨same.mp first, known rest⟩

/-- Without a misread escape the value is what is read. -/
theorem IsInside.value {quote : Char} {s : List Char} (inside : IsInside quote s)
    (known : ∀ c ∈ escapeHeads s, c ∉ misread) : StringValue quote s (Text.toUnits (unescape s)) := by
  induction inside with
  | nil => exact .nil
  | @plain c s plain _ ih =>
      have start : c ≠ '\\' := by
        rintro rfl
        exact plain (List.mem_cons_self ..)
      rw [escapeHeads_plain start] at known
      rw [unescape_plain start, toUnits_cons]
      exact .plain plain (ih known)
  | @escape c s _ ih =>
      rw [escapeHeads] at known
      obtain ⟨here, known⟩ := List.forall_mem_cons.mp known
      obtain ⟨v, value⟩ : ∃ v, singleValue c = some v := by
        unfold singleValue
        split <;> first | exact ⟨_, rfl⟩ | exact absurd (by decide) here
      obtain ⟨c', w, read, -, same⟩ := (EscapeValue.single value).reads
      have head : c' = c := by
        have heads := (read s).2
        rw [List.singleton_append, escapeHeads] at heads
        exact (List.cons.inj heads).1.symm
      have text := (read s).1
      rw [List.singleton_append] at text
      rw [text, toUnits_append, ← same.mpr (head ▸ here)]
      exact .escape (.single value) (ih known)
  | @lineEnd s _ ih => exact absurd (by decide) (known '\r' (List.mem_cons_self ..))

/-! ## The value of a literal -/

theorem unquote_quoted {quote : Char} {inner : List Char} (isQuote : quote = '\'' ∨ quote = '"')
    {literal : String} (text : literal.toList = quote :: (inner ++ [quote])) :
    (unquote literal).toList = unescape inner := by
  have size : quote.utf8Size = 1 := by
    rcases isQuote with rfl | rfl <;> decide
  have long : ¬ byteLength (quote :: (inner ++ [quote])) < 2 := by
    rw [byteLength_cons, byteLength_append, byteLength_cons, byteLength_nil, size]
    omega
  simp only [unquote, text]
  rw [if_neg long, String.toList_ofList, List.drop_one, List.tail_cons, List.dropLast_concat]

/-- A text is what stands between two quotes, and these quotes. -/
def IsStringLiteral (text : String) : Prop :=
  ∃ quote inner, (quote = '\'' ∨ quote = '"') ∧ text.toList = quote :: (inner ++ [quote]) ∧
    IsInside quote inner

theorem tokenize_stringLiterals {d : Dialect} {source : String} {ts : List Token}
    (success : tokenize d source = .ok ts) : Strings IsStringLiteral ts := by
  refine tokenize_strings (fun here => ?_) success
  obtain ⟨quote, s, tail, isQuote, found, text⟩ := lexLeaf_str here
  obtain ⟨inner, rfl, inside⟩ := stringTail_inside found
  exact ⟨quote, inner, isQuote, text, inside⟩

/-- The text of each string token, at any depth, is the inside of a literal between quotes that has at
most one value; its `unquote` is this value if and only if none of its escapes is misread. -/
theorem unquote_value_iff {d : Dialect} {source : String} {ts : List Token} {t : Token}
    (success : tokenize d source = .ok ts) (within : t.Within ts) (isStr : t.isStr = true) :
    ∃ quote inner, (quote = '\'' ∨ quote = '"') ∧ t.text.toList = quote :: (inner ++ [quote]) ∧
      (∀ u u', StringValue quote inner u → StringValue quote inner u' → u = u') ∧
      (StringValue quote inner (Text.toUnits (unquote t.text).toList) ↔
        ∀ c ∈ escapeHeads inner, c ∉ misread) := by
  obtain ⟨quote, inner, isQuote, text, inside⟩ := (tokenize_stringLiterals success).of_within within isStr
  refine ⟨quote, inner, isQuote, text, fun u u' first second => first.unique second, ?_⟩
  rw [unquote_quoted isQuote text]
  exact ⟨fun value => value.reads.2 rfl, inside.value⟩

/-- The text of the first string among tokens. -/
def firstString (ts : List Token) : Option String := (ts.find? (·.isStr)).map (·.text)

theorem within_of_firstString {ts : List Token} {text : String} (first : firstString ts = some text) :
    ∃ t : Token, t.Within ts ∧ t.isStr = true ∧ t.text = text := by
  obtain ⟨t, found, same⟩ := Option.map_eq_some_iff.mp first
  exact ⟨t, .here (List.mem_of_find?_eq_some found), List.find?_some found, same⟩

/-- A literal with escapes that are known. -/
theorem unquote_value_known : ∃ (ts : List Token) (t : Token),
    tokenize ⟨false, false⟩ "x = 'a\\t\\'\\0\\\né';" = .ok ts ∧
    t.Within ts ∧ t.isStr = true ∧ t.text = "'a\\t\\'\\0\\\né'" ∧
    ∃ quote inner, (quote = '\'' ∨ quote = '"') ∧ t.text.toList = quote :: (inner ++ [quote]) ∧
      (∀ u u', StringValue quote inner u → StringValue quote inner u' → u = u') ∧
      (StringValue quote inner (Text.toUnits (unquote t.text).toList) ↔
        ∀ c ∈ escapeHeads inner, c ∉ misread) := by
  have read : (tokenizeWithin (allowance "x = 'a\\t\\'\\0\\\né';".toList) ⟨false, false⟩
      "x = 'a\\t\\'\\0\\\né';").toOption.bind firstString = some "'a\\t\\'\\0\\\né'" := by
    decide +kernel
  obtain ⟨ts, success, first⟩ := tokenize_of_read read
  obtain ⟨t, within, isStr, text⟩ := within_of_firstString first
  exact ⟨ts, t, success, within, isStr, text, unquote_value_iff success within isStr⟩

/-- An escape with hexadecimal digits is read as its characters. -/
theorem unquote_hexadecimal : ∃ (ts : List Token) (t : Token),
    tokenize ⟨false, false⟩ "x = '\\x41';" = .ok ts ∧
    t.Within ts ∧ t.isStr = true ∧ t.text = "'\\x41'" ∧
    StringValue '\'' ['\\', 'x', '4', '1'] (Text.toUnits ['A']) ∧ unquote t.text = "x41" := by
  have read : (tokenizeWithin (allowance "x = '\\x41';".toList) ⟨false, false⟩
      "x = '\\x41';").toOption.bind firstString = some "'\\x41'" := by decide +kernel
  obtain ⟨ts, success, first⟩ := tokenize_of_read read
  obtain ⟨t, within, isStr, text⟩ := within_of_firstString first
  have number : IsNumeral 16 ['4', '1'] 0x41 :=
    ⟨by decide, [4, 1], .cons ⟨rfl, by decide⟩ (.cons ⟨rfl, by decide⟩ .nil), by decide⟩
  refine ⟨ts, t, success, within, isStr, text, .escape (.hexadecimal number) .nil, ?_⟩
  rw [text]
  decide

end JsxPreview.Source
