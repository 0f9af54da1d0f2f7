import JsxPreview.Proofs.Scanner.Spans
import JsxPreview.Source.TokenRow

/-! # Rows of tokens

What a row answers about a token says that the token is there, and a token has one kind.  The tokens
of a row lie one behind the other (`TokenRow.stop_le_start`).  A bracket that is found to match lies
in the searched stretch (`TokenRow.matching_spec`). -/
set_option autoImplicit false
namespace JsxPreview.Source.TokenRow

open JsxPreview.Text

variable {row : TokenRow} {i j k : Nat} {w p : String}

/-! ## Tokens that are there -/

theorem lt_of_get? {t : Token} (found : row.get? i = some t) : i < row.size :=
  (Array.getElem?_eq_some_iff.mp found).1

/-- A token of which something is known is there. -/
theorem get?_of_any {known : Token → Bool} (holds : (row.get? i).any known = true) :
    ∃ t, row.get? i = some t ∧ known t = true := by
  cases found : row.get? i with
  | none =>
      rw [found] at holds
      exact absurd holds (by simp)
  | some t =>
      rw [found] at holds
      exact ⟨t, rfl, holds⟩

theorem text_of_get? {t : Token} (found : row.get? i = some t) : row.text i = t.text := by
  rw [text, found]
  rfl

theorem isWord_iff : row.isWord i w = true ↔
    ∃ t, row.get? i = some t ∧ t.isWord = true ∧ t.text = w := by
  constructor
  · intro holds
    obtain ⟨t, found, known⟩ := get?_of_any holds
    rw [Bool.and_eq_true, beq_iff_eq] at known
    exact ⟨t, found, known⟩
  · rintro ⟨t, found, word, rfl⟩
    simp [isWord, found, word]

theorem isPunct_iff : row.isPunct i p = true ↔
    ∃ t, row.get? i = some t ∧ t.isPunct = true ∧ t.text = p := by
  constructor
  · intro holds
    obtain ⟨t, found, known⟩ := get?_of_any holds
    rw [Bool.and_eq_true, beq_iff_eq] at known
    exact ⟨t, found, known⟩
  · rintro ⟨t, found, punct, rfl⟩
    simp [isPunct, found, punct]

theorem text_of_isWord (word : row.isWord i w = true) : row.text i = w := by
  obtain ⟨t, found, _, same⟩ := isWord_iff.mp word
  exact (text_of_get? found).trans same

theorem text_of_isPunct (punct : row.isPunct i p = true) : row.text i = p := by
  obtain ⟨t, found, _, same⟩ := isPunct_iff.mp punct
  exact (text_of_get? found).trans same

theorem lt_of_isWord (word : row.isWord i w = true) : i < row.size := by
  obtain ⟨t, found, _⟩ := isWord_iff.mp word
  exact lt_of_get? found

theorem lt_of_isPunct (punct : row.isPunct i p = true) : i < row.size := by
  obtain ⟨t, found, _⟩ := isPunct_iff.mp punct
  exact lt_of_get? found

theorem lt_of_isAnyWord (word : row.isAnyWord i = true) : i < row.size := by
  obtain ⟨t, found, _⟩ := get?_of_any word
  exact lt_of_get? found

theorem lt_of_isStr (literal : row.isStr i = true) : i < row.size := by
  obtain ⟨t, found, _⟩ := get?_of_any literal
  exact lt_of_get? found

/-! ## Kinds -/

/-- A punctuator is known by its text. -/
theorem any_of_isPunct (punct : row.isPunct i p = true) {known : Token → Bool} {b : Bool}
    (same : ∀ start stop, known ⟨.punct, start, stop, p⟩ = b) : (row.get? i).any known = b := by
  obtain ⟨⟨shape, start, stop, _⟩, found, kind, rfl⟩ := isPunct_iff.mp punct
  rw [found]
  cases shape <;> first | exact same start stop | cases kind

theorem any_of_isWord (word : row.isWord i w = true) {known : Token → Bool} {b : Bool}
    (same : ∀ start stop, known ⟨.word, start, stop, w⟩ = b) : (row.get? i).any known = b := by
  obtain ⟨⟨shape, start, stop, _⟩, found, kind, rfl⟩ := isWord_iff.mp word
  rw [found]
  cases shape <;> first | exact same start stop | cases kind

theorem isPunct_eq (punct : row.isPunct i p = true) (q : String) : row.isPunct i q = (p == q) :=
  any_of_isPunct punct fun _ _ => rfl

theorem isWord_eq (word : row.isWord i w = true) (v : String) : row.isWord i v = (w == v) :=
  any_of_isWord word fun _ _ => rfl

theorem isPunct_of_isWord (word : row.isWord i w = true) (p : String) : row.isPunct i p = false :=
  any_of_isWord word fun _ _ => rfl

theorem isWord_of_isPunct (punct : row.isPunct i p = true) (w : String) : row.isWord i w = false :=
  any_of_isPunct punct fun _ _ => rfl

theorem isStr_of_isWord (word : row.isWord i w = true) : row.isStr i = false :=
  any_of_isWord word fun _ _ => rfl

theorem isStr_of_isPunct (punct : row.isPunct i p = true) : row.isStr i = false :=
  any_of_isPunct punct fun _ _ => rfl

theorem isAnyPunct_of_isPunct (punct : row.isPunct i p = true) : row.isAnyPunct i = true :=
  any_of_isPunct punct fun _ _ => rfl

/-- A punctuator has one text. -/
theorem isPunct_unique {q : String} (punct : row.isPunct i p = true) (other : q ≠ p) :
    row.isPunct i q = false :=
  (isPunct_eq punct q).trans (beq_false_of_ne other.symm)

theorem isWord_unique {v : String} (word : row.isWord i w = true) (other : v ≠ w) :
    row.isWord i v = false :=
  (isWord_eq word v).trans (beq_false_of_ne other.symm)

theorem isWord_of_isStr (literal : row.isStr i = true) (w : String) : row.isWord i w = false := by
  obtain ⟨⟨shape, _, _, _⟩, found, kind⟩ := get?_of_any literal
  rw [isWord, found]
  cases shape <;> first | rfl | exact absurd kind (by simp [Token.isStr])

theorem isPunct_of_isStr (literal : row.isStr i = true) (p : String) : row.isPunct i p = false := by
  obtain ⟨⟨shape, _, _, _⟩, found, kind⟩ := get?_of_any literal
  rw [isPunct, found]
  cases shape <;> first | rfl | exact absurd kind (by simp [Token.isStr])

/-! ## Brackets -/

/-- A closing bracket is one of three. -/
theorem isPunct_of_closesBracket (closes : row.closesBracket i = true) :
    row.isPunct i ")" = true ∨ row.isPunct i "]" = true ∨ row.isPunct i "\x7d" = true := by
  obtain ⟨t, found, known⟩ := get?_of_any closes
  simp only [Bool.and_eq_true, Bool.or_eq_true, beq_iff_eq] at known
  obtain ⟨punct, (same | same) | same⟩ := known
  · exact .inl (isPunct_iff.mpr ⟨t, found, punct, same⟩)
  · exact .inr (.inl (isPunct_iff.mpr ⟨t, found, punct, same⟩))
  · exact .inr (.inr (isPunct_iff.mpr ⟨t, found, punct, same⟩))

theorem opensBracket_of_closes (closes : row.closesBracket i = true) : row.opensBracket i = false := by
  obtain ⟨t, found, known⟩ := get?_of_any closes
  rw [opensBracket, found]
  simp only [Bool.and_eq_true, Bool.or_eq_true, beq_iff_eq] at known
  obtain ⟨-, (same | same) | same⟩ := known <;> simp [same]

theorem closing_spec {n depth : Nat} (found : row.closing n depth i = some j) :
    i ≤ j ∧ j < i + n ∧ row.closesBracket j = true := by
  induction n generalizing depth i with
  | zero => exact absurd found (by simp [closing])
  | succ n ih =>
      unfold closing at found
      split at found
      · obtain ⟨begins, ends, closes⟩ := ih found
        exact ⟨by omega, by omega, closes⟩
      · split at found
        · rename_i closes
          split at found
          · exact absurd found (by simp)
          · cases found
            exact ⟨Nat.le_refl _, by omega, closes⟩
          · obtain ⟨begins, ends, closes⟩ := ih found
            exact ⟨by omega, by omega, closes⟩
        · obtain ⟨begins, ends, closes⟩ := ih found
          exact ⟨by omega, by omega, closes⟩

theorem matching_spec {stop : Nat} (found : row.matching i stop = some j) :
    i ≤ j ∧ j < stop ∧ j < row.size ∧ row.closesBracket j = true := by
  obtain ⟨begins, ends, closes⟩ := closing_spec found
  exact ⟨begins, by omega, by omega, closes⟩

/-! ## Matched brackets -/

/-- Between two indices every bracket that opens is closed, and none else is. -/
def Level (row : TokenRow) (i j : Nat) : Prop :=
  i ≤ j ∧ ∀ n d, row.closing (j - i + n) (d + 1) i = row.closing n (d + 1) j

theorem closing_succ (row : TokenRow) (n depth i : Nat) : row.closing (n + 1) depth i =
    if row.opensBracket i then row.closing n (depth + 1) (i + 1)
    else if row.closesBracket i then
      match depth with
      | 0 => none
      | 1 => some i
      | d + 2 => row.closing n (d + 1) (i + 1)
    else row.closing n depth (i + 1) := by
  rcases depth with _ | _ | d <;> rfl

namespace Level

theorem refl (row : TokenRow) (i : Nat) : row.Level i i :=
  ⟨Nat.le_refl i, fun n d => by rw [Nat.sub_self, Nat.zero_add]⟩

theorem trans (first : row.Level i j) (second : row.Level j k) : row.Level i k := by
  refine ⟨Nat.le_trans first.1 second.1, fun n d => ?_⟩
  have whole : k - i + n = j - i + (k - j + n) := by
    have := first.1
    have := second.1
    omega
  rw [whole, first.2, second.2]

theorem token (plain : row.opensBracket i = false ∧ row.closesBracket i = false) :
    row.Level i (i + 1) := by
  refine ⟨Nat.le_succ i, fun n d => ?_⟩
  rw [Nat.add_sub_cancel_left, Nat.add_comm 1, closing_succ, plain.1, plain.2]
  rfl

theorem group (opens : row.opensBracket i = true) (inside : row.Level (i + 1) j)
    (open' : row.opensBracket j = false) (closes : row.closesBracket j = true) :
    row.Level i (j + 1) := by
  refine ⟨Nat.le_trans (Nat.le_succ i) (Nat.le_succ_of_le inside.1), fun n d => ?_⟩
  have whole : j + 1 - i + n = (j - (i + 1) + (n + 1)) + 1 := by
    have := inside.1
    omega
  rw [whole, closing_succ, if_pos opens, inside.2, closing_succ, open', closes]
  rfl

/-- The bracket that closes the one at `i`. -/
theorem matching {stop : Nat} (opens : row.opensBracket i = true) (inside : row.Level (i + 1) j)
    (open' : row.opensBracket j = false) (closes : row.closesBracket j = true) (before : j < stop)
    (within : stop ≤ row.size) : row.matching i stop = some j := by
  have whole : min stop row.size - i = (j - (i + 1) + (stop - j - 1 + 1)) + 1 := by
    have := inside.1
    omega
  rw [TokenRow.matching, whole, closing_succ, if_pos opens, inside.2, closing_succ, open', closes]
  rfl

end Level

/-! ## Places -/

theorem get?_ofTokens (source : List Char) (ts : List Token) (i : Nat) :
    (ofTokens source ts).get? i = (ts.filter (!·.isComment))[i]? := by
  rw [get?, ofTokens, List.getElem?_toArray]

theorem mem_of_get? {source : List Char} {ts : List Token} {t : Token}
    (found : (ofTokens source ts).get? i = some t) : t ∈ ts := by
  rw [get?_ofTokens] at found
  exact (List.mem_filter.mp (List.mem_of_getElem? found)).1

theorem start_of_get? {t : Token} (found : row.get? i = some t) : row.start i = t.start := by
  rw [start, found]
  rfl

theorem stop_of_get? {t : Token} (found : row.get? i = some t) : row.stop i = t.stop := by
  rw [stop, found]
  rfl

theorem get?_of_lt (inRow : i < row.size) : ∃ t, row.get? i = some t :=
  ⟨row.tokens[i], Array.getElem?_eq_some_iff.mpr ⟨inRow, rfl⟩⟩

section Ordered

variable {source : List Char} {low high : Nat} {ts : List Token}

theorem grows (spanned : Spanned low high ts) (inRow : i < (ofTokens source ts).size) :
    (ofTokens source ts).start i < (ofTokens source ts).stop i := by
  obtain ⟨t, found⟩ := get?_of_lt inRow
  obtain ⟨_, grows, _, _, _⟩ := spanned
  rw [start_of_get? found, stop_of_get? found]
  exact grows t (mem_of_get? found)

/-- The tokens of a row lie one behind the other. -/
theorem stop_le_start (spanned : Spanned low high ts) (less : i < j)
    (inRow : j < (ofTokens source ts).size) :
    (ofTokens source ts).stop i ≤ (ofTokens source ts).start j := by
  have inRow' : i < (ofTokens source ts).size := Nat.lt_trans less inRow
  obtain ⟨t, found⟩ := get?_of_lt inRow'
  obtain ⟨u, found'⟩ := get?_of_lt inRow
  rw [stop_of_get? found, start_of_get? found']
  rw [get?_ofTokens] at found found'
  obtain ⟨follow, _, _, _, _⟩ := spanned
  have ordered := (follow.pairwise).filter (!·.isComment)
  obtain ⟨bound, rfl⟩ := List.getElem?_eq_some_iff.mp found
  obtain ⟨bound', rfl⟩ := List.getElem?_eq_some_iff.mp found'
  exact List.pairwise_iff_getElem.mp ordered i j bound bound' less

end Ordered

end JsxPreview.Source.TokenRow
