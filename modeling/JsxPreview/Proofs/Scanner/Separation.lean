import JsxPreview.Proofs.Scanner.Layout
import JsxPreview.Proofs.Scanner.Spelling

/-! # Tokens keep apart

Between two words that are read one behind the other there is white space (`Reads.words_apart`), since a
word takes all that goes on with it.  So the stretch of a text that holds tokens of known lexemes keeps
these apart (`Row.separated`), and with white space behind it, it can stand in front of another
(`Separated.append`). -/
set_option autoImplicit false
namespace JsxPreview.Source

open JsxPreview.Text

/-! ## Words -/

/-- Where a word is read: it takes what goes on with a word. -/
theorem word_of_lexLeaf {operand : Bool} {c after : Cursor}
    (here : lexLeaf operand c = .ok (.word, after)) :
    (∃ x s, c.rest = x :: s ∧ isWordStart x = true) ∧ after = c.skipWhile isWordRest := by
  unfold lexLeaf at here
  split at here
  case h_1 => exact absurd here Cursor.fail_ne_ok
  case h_2 => exact absurd here (by simp)
  case h_3 =>
    split at here
    · exact absurd here (by simp)
    · exact absurd here Cursor.fail_ne_ok
  case h_4 x s _ _ ahead =>
    split at here
    · split at here
      · exact absurd here (by simp)
      · exact absurd here Cursor.fail_ne_ok
    split at here
    · split at here
      · exact absurd here (by simp)
      · exact absurd here Cursor.fail_ne_ok
    split at here
    · exact absurd here (by simp)
    split at here
    case isTrue starts =>
      cases here
      exact ⟨⟨x, s, ahead, starts⟩, rfl⟩
    case isFalse =>
      split at here
      · exact absurd here (by simp)
      · exact absurd here Cursor.fail_ne_ok

/-- White space between two words. -/
def WordsApart (ts : List Token) : Prop :=
  ts.IsChain fun t u => t.isWord = true → u.isWord = true → t.stop < u.start

section Words

variable {d : Dialect} {c final : Cursor} {ts : List Token}

theorem Reads.word {operand : Bool} {after : Cursor} {shape : Shape}
    (reads : Reads d (.token operand c) (shape, after))
    (word : (tokenBetween shape c after).isWord = true) :
    (∃ x s, c.rest = x :: s ∧ isWordStart x = true) ∧ after = c.skipWhile isWordRest := by
  cases reads with
  | tokenTemplate => cases word
  | tokenElement => cases word
  | tokenLeaf _ _ here =>
      cases shape with
      | word => exact word_of_lexLeaf here
      | _ => cases word

theorem Reads.words_apart {inBraces operand : Bool} {depth : Nat}
    (reads : Reads d (.tokens inBraces depth operand c) (ts, final)) : WordsApart ts := by
  induction ts generalizing depth operand c with
  | nil => exact .nil
  | cons t ts ih =>
      cases reads with
      | @tokensMore _ _ _ _ shape after _ _ _ first others =>
          have chain := ih others
          cases others with
          | tokensEnd => exact .singleton _
          | tokensMore _ second _ =>
              refine .cons_cons (fun word word' => ?_) chain
              obtain ⟨_, rfl⟩ := first.word word
              obtain ⟨⟨x, s, ahead, starts⟩, _⟩ := second.word word'
              -- what stands behind the first word starts no other
              obtain ⟨_, _, _, _, stops⟩ := c.skipBlank.skipWhile_split isWordRest
              obtain ⟨gap, split, pos, _, _⟩ := (c.skipBlank.skipWhile isWordRest).skipWhile_split
                fun x => isBlank x || x == '\ufeff'
              have some : gap ≠ [] := by
                rintro rfl
                have refused := stops x (by rw [split]; exact congrArg List.head? ahead)
                rw [isWordRest_of_isWordStart starts] at refused
                cases refused
              have positive := Cursor.byteLength_pos some
              exact Nat.lt_of_lt_of_eq (Nat.lt_add_of_pos_right positive) pos.symm

theorem tokenize_words_apart {source : String} (success : tokenize d source = .ok ts) :
    WordsApart ts := by
  obtain ⟨tokens, final, rfl, reads⟩ := tokenize_cases success
  have read := Reads.words_apart reads
  unfold firstLine
  simp only
  split
  · cases tokens with
    | nil => exact .singleton _
    | cons t ts => exact .cons_cons (fun word => absurd word Bool.false_ne_true) read
  · exact read

end Words

/-! ## Stretches -/

namespace Stretch

variable {source text text' : List Char} {low middle high high' : Nat}

theorem split_eq {front front' back back' : List Char} (same : front ++ back = front' ++ back')
    (length : byteLength front = byteLength front') : front = front' ∧ back = back' := by
  have first := congrArg (takeBytes (byteLength front)) same
  have second := congrArg (dropBytes (byteLength front)) same
  rw [takeBytes_byteLength, length, takeBytes_byteLength] at first
  rw [dropBytes_byteLength, length, dropBytes_byteLength] at second
  exact ⟨first, second⟩

theorem append (first : Stretch source low middle text) (second : Stretch source middle high text') :
    Stretch source low high (text ++ text') := by
  obtain ⟨front, back, rfl, begins, ends⟩ := first
  obtain ⟨front', back', whole, begins', ends'⟩ := second
  rw [List.append_assoc front'] at whole
  obtain ⟨rfl, rfl⟩ := split_eq whole (by rw [byteLength_append]; omega)
  refine ⟨front, back', by simp only [List.append_assoc], begins, ?_⟩
  rw [byteLength_append]
  omega

/-- Two stretches from the same byte on start with the same character. -/
theorem head_eq (first : Stretch source low high text) (second : Stretch source low high' text')
    (some : text ≠ []) (some' : text' ≠ []) : text.head? = text'.head? := by
  obtain ⟨front, back, rfl, begins, _⟩ := first
  obtain ⟨front', back', whole, begins', _⟩ := second
  rw [List.append_assoc, List.append_assoc] at whole
  obtain ⟨_, same⟩ := split_eq whole (begins.trans begins'.symm)
  rw [← List.head?_append_of_ne_nil _ some, same, List.head?_append_of_ne_nil _ some']

theorem eq_nil {text : List Char} (length : byteLength text = 0) : text = [] :=
  Classical.byContradiction fun some => absurd length (Nat.ne_of_gt (Cursor.byteLength_pos some))

/-- A stretch from the first byte on. -/
theorem at_front (stretch : Stretch source 0 high text) :
    ∃ back, source = text ++ back ∧ byteLength text = high := by
  obtain ⟨front, back, whole, begins, ends⟩ := stretch
  rw [eq_nil begins] at whole
  exact ⟨back, whole, (Nat.zero_add _).symm.trans ends⟩

/-- A stretch up to the last byte. -/
theorem at_back (stretch : Stretch source low (byteLength source) text) :
    ∃ front, source = front ++ text ∧ byteLength front = low := by
  obtain ⟨front, back, whole, begins, ends⟩ := stretch
  have length := congrArg byteLength whole
  rw [byteLength_append, byteLength_append] at length
  rw [eq_nil (show byteLength back = 0 by omega), List.append_nil] at whole
  exact ⟨front, whole, begins⟩

end Stretch

/-! ## Lexemes -/

variable {source : List Char} {ls ms : List Lexeme} {ts : List Token}

theorem Token.Shows.isWord {t : Token} {l : Lexeme} (shows : t.Shows l) : t.isWord = l.isWord := by
  obtain ⟨shape, _, _, _⟩ := t
  obtain ⟨rfl, _⟩ := shows
  cases l <;> rfl

/-- Whole lexemes, of which the second of two in a row goes on with the first only if both are words. -/
structure Lexeme.Distinct (ls : List Lexeme) : Prop where
  whole : ∀ l ∈ ls, l.isWhole = true ∧ l ≠ .sign .question
  order : ls.IsChain fun l m => l.goesBefore m = true ∨ l.isWord = true ∧ m.isWord = true

namespace Lexeme.Distinct

theorem nil : Distinct [] := ⟨fun _ member => absurd member List.not_mem_nil, .nil⟩

theorem single {l : Lexeme} (whole : l.isWhole = true) (other : l ≠ .sign .question) : Distinct [l] :=
  ⟨fun m member => by rw [List.mem_singleton.mp member]; exact ⟨whole, other⟩, .singleton l⟩

theorem cons {l m : Lexeme} (whole : l.isWhole = true) (other : l ≠ .sign .question)
    (before : l.goesBefore m = true ∨ l.isWord = true ∧ m.isWord = true)
    (others : Distinct (m :: ls)) : Distinct (l :: m :: ls) :=
  ⟨List.forall_mem_cons.mpr ⟨⟨whole, other⟩, others.whole⟩, .cons_cons before others.order⟩

end Lexeme.Distinct

/-- The lexemes of tokens that lie in a stretch keep apart in it. -/
theorem Row.separated {low high : Nat} (row : Row source low high ts)
    (shows : List.Forall₂ Token.Shows ts ls) (apart : WordsApart ts) (distinct : Lexeme.Distinct ls) :
    ∃ text, Stretch source low high text ∧ Separated ls text := by
  obtain ⟨whole, order⟩ := distinct
  induction shows generalizing low with
  | nil =>
      obtain ⟨gap, stretch, blank⟩ := row
      exact ⟨gap, stretch, .last blank⟩
  | @cons t l ts ls shows others ih =>
      obtain ⟨⟨gap, before, blank⟩, _, here, behind⟩ := row
      obtain ⟨⟨wholeHere, noQuestion⟩, wholeBehind⟩ := List.forall_mem_cons.mp whole
      obtain ⟨rest, stretch, separated⟩ := ih behind apart.tail wholeBehind order.tail
      rw [shows.2] at here
      refine ⟨_, before.append (here.append stretch), .more blank wholeHere ?_ separated⟩
      intro c head
      have some : rest ≠ [] := by
        rintro rfl
        cases head
      cases others with
      | nil => cases separated with
        | last blank => exact goesOn_blank (List.all_eq_true.mp blank c (List.mem_of_head? head)) l
      | @cons u m us ms shows' _ =>
          obtain ⟨⟨gap', between, blank'⟩, _, next, _⟩ := behind
          by_cases nothing : gap' = []
          · obtain ⟨_, _, _, _, meets⟩ := between
            rw [nothing, byteLength_nil, Nat.add_zero] at meets
            have noWords : ¬ (l.isWord = true ∧ m.isWord = true) := fun ⟨word, word'⟩ => by
              rw [← shows.isWord] at word
              rw [← shows'.isWord] at word'
              exact absurd meets (Nat.ne_of_lt ((List.isChain_cons_cons.mp apart).1 word word'))
            have goesBefore := (List.isChain_cons_cons.mp order).1.resolve_right noWords
            obtain ⟨wholeNext, _⟩ := wholeBehind m (List.mem_cons_self ..)
            obtain ⟨x, s, split, _⟩ := Lexeme.head_ink wholeNext
            rw [← meets, shows'.2, split] at next
            rw [stretch.head_eq next some (List.cons_ne_nil x s)] at head
            cases head
            exact goesOn_lexeme goesBefore wholeNext split fun question => absurd question noQuestion
          · rw [stretch.head_eq between some nothing] at head
            exact goesOn_blank (List.all_eq_true.mp blank' c (List.mem_of_head? head)) l

theorem Separated.behind_gap {gap text : List Char} (blank : isGap gap = true)
    (separated : Separated ls text) : Separated ls (gap ++ text) := by
  cases separated with
  | last blank' => exact .last (by rw [isGap, List.all_append, Bool.and_eq_true]; exact ⟨blank, blank'⟩)
  | @more gap' l ls rest blank' whole stops others =>
      rw [← List.append_assoc]
      exact .more (by rw [isGap, List.all_append, Bool.and_eq_true]; exact ⟨blank, blank'⟩)
        whole stops others

/-- White space keeps lexemes apart. -/
theorem Separated.append {text gap text' : List Char} (first : Separated ls text)
    (blank : isGap gap = true) (some : gap ≠ []) (second : Separated ms text') :
    Separated (ls ++ ms) (text ++ (gap ++ text')) := by
  induction first with
  | last blank' => exact (second.behind_gap blank).behind_gap blank'
  | @more gap' l ls rest blank' whole stops _ ih =>
      rw [List.append_assoc, List.append_assoc]
      refine .more blank' whole (fun c head => ?_) ih
      cases rest with
      | cons x rest => exact stops c head
      | nil =>
          rw [List.nil_append, List.head?_append_of_ne_nil _ some] at head
          exact goesOn_blank (List.all_eq_true.mp blank c (List.mem_of_head? head)) l

end JsxPreview.Source
