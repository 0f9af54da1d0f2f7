import JsxPreview.Proofs.Scanner.Spans
import JsxPreview.Proofs.Scanner.Spelling

/-! # Literals stand between quotes

What holds of every string literal as it is scanned holds of all the strings of a text, at any depth
(`tokenize_strings`).  The text of a literal starts and ends with the same quote (`Token.IsLiteral`), so
that what stands between its first and its last byte can be cut out (`tokenize_literals`). -/
set_option autoImplicit false
namespace JsxPreview.Source

open JsxPreview.Text

/-! ## Strings at any depth -/

/-- Something holds of the texts of the strings among the tokens, at any depth. -/
inductive Strings (holds : String → Prop) : List Token → Prop
  | intro {ts : List Token}
      (here : ∀ t ∈ ts, t.isStr = true → holds t.text)
      (inside : ∀ t ∈ ts, ∀ b ∈ t.shape.bodies, Strings holds b.tokens) : Strings holds ts

section

variable {holds : String → Prop}

theorem Strings.nil : Strings holds [] :=
  .intro (fun _ member => absurd member List.not_mem_nil) fun _ member =>
    absurd member List.not_mem_nil

theorem Strings.cons {t : Token} {ts : List Token} (here : t.isStr = true → holds t.text)
    (inside : ∀ b ∈ t.shape.bodies, Strings holds b.tokens) (others : Strings holds ts) :
    Strings holds (t :: ts) := by
  obtain ⟨hereOf, insideOf⟩ := others
  exact .intro (List.forall_mem_cons.mpr ⟨here, hereOf⟩)
    (List.forall_mem_cons.mpr ⟨inside, insideOf⟩)

theorem Strings.of_within {ts : List Token} (strings : Strings holds ts) {t : Token}
    (within : t.Within ts) (isStr : t.isStr = true) : holds t.text := by
  induction within with
  | here member =>
      obtain ⟨here, _⟩ := strings
      exact here _ member isStr
  | inside member container _ ih =>
      obtain ⟨_, inside⟩ := strings
      exact ih (inside _ member _ container)

/-- What holds of the strings that a call reads. -/
def Call.Strings (holds : String → Prop) : (call : Call) → call.Result → Prop
  | .tokens .., r => Source.Strings holds r.1
  | .token _ c, r => ((tokenBetween r.1 c r.2).isStr = true → holds (tokenBetween r.1 c r.2).text) ∧
      ∀ b ∈ r.1.bodies, Source.Strings holds b.tokens
  | .template .., r => ∀ b ∈ (Shape.template r.1).bodies, Source.Strings holds b.tokens
  | .body _, r => Source.Strings holds r.1.tokens
  | .element _, r => ∀ b ∈ r.1.bodies, Source.Strings holds b.tokens
  | .attributes _, r => ∀ b ∈ Attribute.bodiesAll r.1, Source.Strings holds b.tokens
  | .value _, r => ∀ b ∈ r.1.bodies, Source.Strings holds b.tokens
  | .children .., r => ∀ b ∈ Child.bodiesAll r.1, Source.Strings holds b.tokens

variable (scanned : ∀ {operand : Bool} {c after : Cursor},
  lexLeaf operand c = .ok (.str, after) → holds (c.upTo after))

include scanned

theorem Reads.strings {d : Dialect} {call : Call} {r : call.Result} (reads : Reads d call r) :
    call.Strings holds r := by
  induction reads with
  | tokensEnd _ => exact .nil
  | tokensMore _ _ _ first others => exact .cons first.1 first.2 others
  | tokenTemplate _ _ ih => exact ⟨fun isStr => absurd isStr Bool.false_ne_true, ih⟩
  | tokenElement _ _ ih => exact ⟨fun isStr => absurd isStr Bool.false_ne_true, ih⟩
  | @tokenLeaf operand c shape after _ _ here =>
      refine ⟨fun isStr => ?_, fun b member => ?_⟩
      · cases shape with
        | str => exact scanned here
        | _ => exact absurd isStr Bool.false_ne_true
      · rw [(containers_leaf (lexLeaf_isLeaf here)).1] at member
        exact absurd member List.not_mem_nil
  | templateEnd _ => exact fun _ member => absurd member List.not_mem_nil
  | templateMore _ _ _ inner others => exact List.forall_mem_cons.mpr ⟨inner, others⟩
  | body _ ih => exact ih
  | elementFragment _ _ ih => exact ih
  | elementClosed _ _ ih =>
      intro b member
      refine ih b ?_
      simpa [Element.bodies, Child.bodiesAll] using member
  | elementOpen _ _ _ tag children =>
      intro b member
      rw [Element.bodies] at member
      exact (List.mem_append.mp member).elim (tag b) (children b)
  | attributesStop _ => exact fun _ member => absurd member List.not_mem_nil
  | attributesSpread _ _ _ inner others =>
      intro b member
      rw [Attribute.bodiesAll, Attribute.bodies] at member
      rcases List.mem_cons.mp member with rfl | member
      · exact inner
      · exact others b member
  | attributesName _ _ _ value others =>
      intro b member
      rw [Attribute.bodiesAll, Attribute.bodies] at member
      exact (List.mem_append.mp member).elim (value b) (others b)
  | valueBare _ | valueStr _ => exact fun _ member => absurd member List.not_mem_nil
  | valueExpr _ _ ih =>
      intro b member
      rw [List.mem_singleton.mp member]
      exact ih
  | valueElement _ _ ih => exact ih
  | childrenStop _ =>
      intro b member
      rw [bodiesAll_textChild] at member
      exact absurd member List.not_mem_nil
  | childrenExpr _ _ _ inner others =>
      intro b member
      rw [bodiesAll_append, bodiesAll_append, bodiesAll_textChild, List.nil_append] at member
      rcases List.mem_append.mp member with member | member
      · rw [mem_bodiesAll_bodyChild member]
        exact inner
      · exact others b member
  | childrenElement _ _ _ inner others =>
      intro b member
      rw [bodiesAll_append, bodiesAll_textChild, List.nil_append, Child.bodiesAll,
        Child.bodies] at member
      exact (List.mem_append.mp member).elim (inner b) (others b)


/-- What holds of each string as it is scanned holds of the strings of a text. -/
theorem tokenize_strings {d : Dialect} {source : String} {ts : List Token}
    (success : tokenize d source = .ok ts) : Strings holds ts := by
  obtain ⟨tokens, final, rfl, reads⟩ := tokenize_cases success
  have read : Strings holds tokens := reads.strings scanned
  unfold firstLine
  simp only
  split
  · exact .cons (fun isStr => absurd isStr Bool.false_ne_true)
      (fun _ member => absurd member List.not_mem_nil) read
  · exact read

end

/-! ## Quotes -/

/-- A quote, anything, and the quote again. -/
def IsQuoted (text : List Char) : Prop :=
  ∃ quote inner, text = quote :: (inner ++ [quote]) ∧ (quote = '\'' ∨ quote = '"')

def Token.IsLiteral (t : Token) : Prop := t.isStr = true → IsQuoted t.text.toList

/-- The strings among the tokens stand between quotes, at any depth. -/
inductive Literals : List Token → Prop
  | intro {ts : List Token}
      (here : ∀ t ∈ ts, t.IsLiteral)
      (inside : ∀ t ∈ ts, ∀ b ∈ t.shape.bodies, Literals b.tokens) : Literals ts

theorem Strings.literals {ts : List Token} (strings : Strings (IsQuoted ·.toList) ts) :
    Literals ts := by
  induction strings with
  | intro here _ ih => exact .intro here ih

/-- What stands between the quotes of an accepted literal: characters other than the quote and line ends,
and escapes. -/
inductive IsInside (quote : Char) : List Char → Prop
  | nil : IsInside quote []
  | plain {c : Char} {s : List Char} (plain : c ∉ ['\\', quote, '\n', '\r'])
      (behind : IsInside quote s) : IsInside quote (c :: s)
  | escape {c : Char} {s : List Char} (behind : IsInside quote s) : IsInside quote ('\\' :: c :: s)
  | lineEnd {s : List Char} (behind : IsInside quote s) : IsInside quote ('\\' :: '\r' :: '\n' :: s)

/-- What is read behind a quote is the inside of a literal and the quote. -/
theorem stringTail_inside {quote : Char} {s t : List Char} (found : stringTail quote s = some t) :
    ∃ inner, t = inner ++ [quote] ∧ IsInside quote inner := by
  fun_induction stringTail quote s generalizing t with
  | case1 => cases found
  | case2 s ih =>
      obtain ⟨tail, inside, rfl⟩ := Option.map_eq_some_iff.mp found
      obtain ⟨inner, rfl, is⟩ := ih inside
      exact ⟨'\\' :: '\r' :: '\n' :: inner, rfl, .lineEnd is⟩
  | case3 c s _ ih =>
      obtain ⟨tail, inside, rfl⟩ := Option.map_eq_some_iff.mp found
      obtain ⟨inner, rfl, is⟩ := ih inside
      exact ⟨'\\' :: c :: inner, rfl, .escape is⟩
  | case4 => cases found
  | case5 c s _ _ _ same =>
      cases found
      exact ⟨[], congrArg (· :: []) (eq_of_beq same), .nil⟩
  | case6 c s _ noEscape inLine goesOn ih =>
      obtain ⟨tail, inside, rfl⟩ := Option.map_eq_some_iff.mp found
      obtain ⟨inner, rfl, is⟩ := ih inside
      refine ⟨c :: inner, rfl, .plain ?_ is⟩
      -- a backslash that starts no escape is the last character, where no quote follows
      have start : c ≠ '\\' := by
        rintro rfl
        cases s with
        | nil => cases inside
        | cons x s => exact noEscape x s rfl rfl
      simp only [isLineEnd, Bool.or_eq_true, beq_iff_eq, not_or] at inLine
      simp only [List.mem_cons, List.not_mem_nil, or_false, not_or]
      exact ⟨start, fun same => goesOn (beq_iff_eq.mpr same), inLine⟩

/-- A string is its quote and what is read behind it. -/
theorem lexLeaf_str {operand : Bool} {c after : Cursor}
    (here : lexLeaf operand c = .ok (.str, after)) : ∃ quote s tail, (quote = '\'' ∨ quote = '"') ∧
      stringTail quote s = some tail ∧ (c.upTo after).toList = quote :: tail := by
  unfold lexLeaf at here
  split at here
  case h_1 => exact absurd here Cursor.fail_ne_ok
  case h_2 => exact absurd here (by simp)
  case h_3 =>
    split at here
    · exact absurd here (by simp)
    · exact absurd here Cursor.fail_ne_ok
  case h_4 x s _ _ ahead =>
    split at here
    · split at here
      · exact absurd here (by simp)
      · exact absurd here Cursor.fail_ne_ok
    split at here
    case isTrue quote =>
      have quote' : x = '\'' ∨ x = '"' := by
        rcases Bool.or_eq_true_iff.mp quote with quote | quote
        · exact .inl (beq_iff_eq.mp quote)
        · exact .inr (beq_iff_eq.mp quote)
      split at here
      case h_2 => exact absurd here Cursor.fail_ne_ok
      case h_1 tail found =>
        cases here
        have plain : x ≠ '\\' := by
          rcases quote' with rfl | rfl <;> decide
        obtain ⟨rest, split, _⟩ := stringTail_append plain found
        obtain ⟨pos, text⟩ := c
        cases show text = x :: tail ++ rest by rw [List.cons_append, ← split]; exact ahead
        refine ⟨x, s, tail, quote', found, ?_⟩
        rw [Cursor.past_append, Cursor.upTo_append, String.toList_ofList]
    case isFalse =>
      split at here
      · exact absurd here (by simp)
      split at here
      · exact absurd here (by simp)
      split at here
      · exact absurd here (by simp)
      · exact absurd here Cursor.fail_ne_ok

theorem isQuoted_of_lexLeaf {operand : Bool} {c after : Cursor}
    (here : lexLeaf operand c = .ok (.str, after)) : IsQuoted (c.upTo after).toList := by
  obtain ⟨quote, s, tail, isQuote, found, text⟩ := lexLeaf_str here
  obtain ⟨inner, rfl, -⟩ := stringTail_inside found
  exact ⟨quote, inner, text, isQuote⟩

/-- The string literals of a text stand between quotes. -/
theorem tokenize_literals {d : Dialect} {source : String} {ts : List Token}
    (success : tokenize d source = .ok ts) : Literals ts :=
  (tokenize_strings isQuoted_of_lexLeaf success).literals

/-! ## The inside of a literal -/

/-- The inside of a literal starts and ends between two characters of it. -/
theorem IsQuoted.isBoundary {text : List Char} (quoted : IsQuoted text) :
    isBoundary 1 text = true ∧ isBoundary (byteLength text - 1) text = true := by
  obtain ⟨quote, inner, rfl, same⟩ := quoted
  have size : quote.utf8Size = 1 := by
    rcases same with rfl | rfl <;> decide
  have first := isBoundary_append [quote] (inner ++ [quote])
  have last := isBoundary_append (quote :: inner) [quote]
  have length : byteLength (quote :: (inner ++ [quote])) - 1 = byteLength (quote :: inner) := by
    rw [byteLength_cons, byteLength_append, byteLength_cons, byteLength_cons, byteLength_nil, size]
    omega
  rw [byteLength_cons, byteLength_nil, size] at first
  exact ⟨first, length ▸ last⟩

end JsxPreview.Source
