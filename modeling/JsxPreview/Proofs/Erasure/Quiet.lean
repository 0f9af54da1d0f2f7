import JsxPreview.Proofs.Erasure.Expression
import Mathlib.Logic.Relation

/-! # Where the walk finds nothing

The walk goes over a row that holds a plain expression token by token and finds nothing, unless behind
a parenthesis there is a colon and what follows is taken for a type in front of an arrow
(`TokenRow.Misread`).  What is read of an expression as a type ends in front of no brace, and in front
of an arrow just when the expression starts with the head of an arrow function (`Expr.typeFrom_ends`).
So the walk finds something just when in some conditional a parenthesis and the head of an arrow function
stand around the colon (`Expr.walks`). -/
set_option autoImplicit false
namespace JsxPreview.Source

variable {row : TokenRow} {i j stop n : Nat}

/-! ## Reading types -/

/-- Signs that stand behind an expression. -/
def Sign.isBehind : Sign → Bool
  | .closing | .closingBrace | .comma | .colon | .question | .semicolon => true
  | .equals | .opening | .openingBrace | .arrow => false

theorem Sign.isBehind_other {s : Sign} (isBehind : s.isBehind = true) :
    s ≠ .arrow ∧ s ≠ .openingBrace ∧ (s == .arrow) = false := by
  cases s <;> first | decide | cases isBehind

theorem Name.ne {n : Name} {w : String} (reserved : reservedWords.contains w = true) :
    n.text ≠ w := by
  rintro rfl
  rw [n.free] at reserved
  cases reserved

theorem Name.not_mem (n : Name) {ws : List String}
    (reserved : ws.all reservedWords.contains = true) : ws.contains n.text = false := by
  rw [← Bool.not_eq_true, List.contains_iff_mem]
  intro member
  exact Name.ne (List.all_eq_true.mp reserved _ member) rfl

namespace TokenRow

theorem Shows.typeOperand_atom {a : Atom} (shows : row.Shows i a.lexeme) (conditional : Nat) :
    row.typeOperand stop conditional i = .go (i + 1) false conditional := by
  have atom : row.isTypeAtom i = true := shows.any_eq fun _ _ => by cases a <;> rfl
  have noOperator : (row.isAnyWord i && typeOperators.contains (row.text i)) = false := by
    rw [shows.isAnyWord, shows.text_eq]
    cases a with
    | name n => exact n.not_mem (by decide)
    | number text whole => rfl
    | str text whole => rfl
  rw [typeOperand, noOperator, Bool.false_and, if_neg Bool.false_ne_true, if_pos atom]

/-- A bracketed stretch is one operand of a type. -/
theorem typeOperand_bracketed {opens closes : Sign} {ls : List Lexeme}
    (around : Matched.Around opens closes) (matched : Matched ls)
    (holds : row.Holds i (.sign opens :: (ls ++ [.sign closes]))) (before : i + 1 + ls.length < stop)
    (within : stop ≤ row.size) (conditional : Nat) :
    row.typeOperand stop conditional i = .go (i + 1 + ls.length + 1) false conditional := by
  obtain ⟨first, rest⟩ := holds
  obtain ⟨held, last, -⟩ := holds_append.mp rest
  have noAtom : row.isTypeAtom i = false := first.any_eq fun _ _ => rfl
  rw [typeOperand, first.isAnyWord, noAtom, (around.brackets first last).1,
    matched.matching around first held last before within]
  rfl

/-- A type that reads no conditional ends in front of all signs but an arrow. -/
theorem typeSuffix_sign {s : Sign} (shows : row.Shows i (.sign s)) {stopAtArrow : Bool}
    (ends : s ≠ .arrow ∨ stopAtArrow = true) :
    row.typeSuffix stop stopAtArrow 0 i = .leave := by
  simp only [typeSuffix, shows.isPunct, shows.isWord]
  cases s <;> simp_all [Sign.text, Lexeme.text, Lexeme.isWord, Lexeme.isSign]

theorem typeSuffix_arrow (shows : row.Shows i (.sign .arrow)) :
    row.typeSuffix stop false 0 i = .go (i + 1) true 0 := by
  simp [typeSuffix, shows.isPunct, Sign.text, Lexeme.text, Lexeme.isSign]

/-- What a type that starts at `i` is read as: it ends at a token behind, which is no brace, and an
arrow only if it is one that reading stops at. -/
structure Ends (row : TokenRow) (stopAtArrow opensArrow : Bool) (i : Nat) (answer : Nat × Nat) :
    Prop where
  behind : i < answer.1
  place : answer.2 = row.stop (answer.1 - 1)
  noBrace : row.isPunct answer.1 "\x7b" = false
  arrow : stopAtArrow = true → row.isPunct answer.1 "=>" = opensArrow

/-- An operand in front of a sign that ends a type. -/
theorem typeFrom_operand {s : Sign} {stopAtArrow : Bool} {last : Nat} (begins : i < j)
    (operand : row.typeOperand stop 0 i = .go j false 0) (shows : row.Shows j (.sign s))
    (before : j < stop) (noBrace : s ≠ .openingBrace) (ends : s ≠ .arrow ∨ stopAtArrow = true) :
    row.Ends stopAtArrow (s == .arrow) i (row.typeFrom stop stopAtArrow (n + 2) true 0 i last) := by
  have answer : row.typeFrom stop stopAtArrow (n + 2) true 0 i last = (j, row.stop (j - 1)) := by
    rw [typeFrom, if_neg (by omega)]
    simp only [if_true, operand]
    rw [typeFrom, if_neg (by omega)]
    simp only [Bool.false_eq_true, if_false, typeSuffix_sign shows ends]
  rw [answer]
  refine ⟨begins, rfl, ?_, fun _ => ?_⟩
  · rw [shows.isPunct]
    cases s <;> first | rfl | exact absurd rfl noBrace
  · rw [shows.isPunct]
    cases s <;> rfl

theorem typeFrom_bracketed {opens closes s : Sign} {ls : List Lexeme} {stopAtArrow : Bool}
    {last : Nat} (around : Matched.Around opens closes) (within : stop ≤ row.size)
    (matched : Matched ls) (isBehind : s.isBehind = true)
    (holds : row.Holds i (.sign opens :: (ls ++ [.sign closes])))
    (shows : row.Shows (i + (.sign opens :: (ls ++ [.sign closes])).length) (.sign s))
    (before : i + (Lexeme.sign opens :: (ls ++ [.sign closes])).length < stop)
    (enough : (Lexeme.sign opens :: (ls ++ [.sign closes])).length < n) :
    row.Ends stopAtArrow false i (row.typeFrom stop stopAtArrow n true 0 i last) := by
  have length : (Lexeme.sign opens :: (ls ++ [.sign closes])).length = 1 + ls.length + 1 := by
    rw [List.length_cons, List.length_append, List.length_singleton]
    omega
  rw [length] at shows before enough
  rw [← Nat.add_assoc, ← Nat.add_assoc] at shows before
  obtain ⟨n, rfl⟩ : ∃ m, n = m + 2 := ⟨n - 2, by omega⟩
  obtain ⟨noArrow, noBrace, same⟩ := Sign.isBehind_other isBehind
  rw [← same]
  exact typeFrom_operand (by omega) (typeOperand_bracketed around matched holds (by omega) within 0)
    shows before noBrace (.inl noArrow)

/-- The head of an arrow function: reading stops at the arrow, or goes on with the body. -/
theorem typeFrom_head {stopAtArrow opensArrow : Bool} {last : Nat} (begins : i < j)
    (operand : row.typeOperand stop 0 i = .go j false 0) (arrow : row.Shows j (.sign .arrow))
    (before : j < stop) (body : ∀ last,
      row.Ends stopAtArrow opensArrow (j + 1) (row.typeFrom stop stopAtArrow n true 0 (j + 1) last)) :
    row.Ends stopAtArrow true i (row.typeFrom stop stopAtArrow (n + 2) true 0 i last) := by
  cases stopAtArrow with
  | true => exact typeFrom_operand begins operand arrow before (by decide) (.inr rfl)
  | false =>
      have answer : row.typeFrom stop false (n + 2) true 0 i last =
          row.typeFrom stop false n true 0 (j + 1) (row.stop j) := by
        rw [typeFrom, if_neg (by omega)]
        simp only [if_true, operand]
        rw [typeFrom, if_neg (by omega)]
        simp only [Bool.false_eq_true, if_false, typeSuffix_arrow arrow, Nat.add_sub_cancel]
      obtain ⟨behind, place, noBrace, _⟩ := body (row.stop j)
      rw [answer]
      exact ⟨by omega, place, noBrace, fun stops => by cases stops⟩

end TokenRow

/-- An expression that is read as a type. -/
theorem Expr.typeFrom_ends {stopAtArrow : Bool} (within : stop ≤ row.size) :
    (e : Expr) → ∀ {s : Sign} {i n last : Nat}, s.isBehind = true → row.Holds i e.lexemes →
      row.Shows (i + e.lexemes.length) (.sign s) → i + e.lexemes.length < stop →
      e.lexemes.length < n →
      row.Ends stopAtArrow e.opensArrow i (row.typeFrom stop stopAtArrow n true 0 i last)
  | .atom a, s, i, n, last, isBehind, holds, shows, before, enough => by
      simp only [Expr.lexemes, List.length_singleton] at enough shows before
      obtain ⟨n, rfl⟩ := Nat.exists_eq_add_of_le' enough
      obtain ⟨noArrow, noBrace, same⟩ := Sign.isBehind_other isBehind
      rw [Expr.opensArrow, ← same]
      exact TokenRow.typeFrom_operand (Nat.lt_succ_self i) (holds.1.typeOperand_atom 0) shows before
        noBrace (.inl noArrow)
  | .parens inner, s, i, n, last, isBehind, holds, shows, before, enough =>
      TokenRow.typeFrom_bracketed (.inl ⟨rfl, rfl⟩) within inner.matched isBehind holds shows before
        enough
  | .call callee arguments, s, i, n, last, isBehind, holds, shows, before, enough => by
      simp only [Expr.lexemes, List.length_cons, List.length_append] at enough before
      obtain ⟨n, rfl⟩ : ∃ m, n = m + 2 := ⟨n - 2, by omega⟩
      obtain ⟨name, opens, _⟩ := holds
      exact TokenRow.typeFrom_operand (Nat.lt_succ_self i)
        (TokenRow.Shows.typeOperand_atom (a := .name callee) name 0) opens (by omega) (by decide)
        (.inl (by decide))
  | .conditional test yes no, s, i, n, last, isBehind, holds, shows, before, enough => by
      simp only [Expr.lexemes, List.length_cons, List.length_append] at enough before
      obtain ⟨first, question, _⟩ := TokenRow.holds_append.mp holds
      exact test.typeFrom_ends within rfl first question (by omega) (by omega)
  | .object fields, s, i, n, last, isBehind, holds, shows, before, enough =>
      TokenRow.typeFrom_bracketed (.inr ⟨rfl, rfl⟩) within fields.matched isBehind holds shows before
        enough
  | .arrow parameter body, s, i, n, last, isBehind, holds, shows, before, enough => by
      simp only [Expr.lexemes, List.length_cons] at enough shows before
      obtain ⟨n, rfl⟩ : ∃ m, n = m + 2 := ⟨n - 2, by omega⟩
      obtain ⟨name, arrow, inside⟩ := holds
      have place : i + (body.lexemes.length + 1 + 1) = i + 1 + 1 + body.lexemes.length := by omega
      rw [place] at shows
      have ends (last : Nat) : row.Ends stopAtArrow body.opensArrow (i + 1 + 1)
          (row.typeFrom stop stopAtArrow n true 0 (i + 1 + 1) last) :=
        body.typeFrom_ends within isBehind inside shows (by omega) (by omega)
      exact TokenRow.typeFrom_head (Nat.lt_succ_self i)
        (TokenRow.Shows.typeOperand_atom (a := .name parameter) name 0) arrow (by omega) ends
  | .arrowOfTwo first second body, s, i, n, last, isBehind, holds, shows, before, enough => by
      simp only [Expr.lexemes, List.length_cons] at enough shows before
      obtain ⟨n, rfl⟩ : ∃ m, n = m + 2 := ⟨n - 2, by omega⟩
      obtain ⟨opens, one, comma, two, closes, arrow, inside⟩ := holds
      have place : i + (body.lexemes.length + 1 + 1 + 1 + 1 + 1 + 1) =
          i + 1 + 1 + 1 + 1 + 1 + 1 + body.lexemes.length := by omega
      rw [place] at shows
      have ends (last : Nat) : row.Ends stopAtArrow body.opensArrow (i + 1 + 1 + 1 + 1 + 1 + 1)
          (row.typeFrom stop stopAtArrow n true 0 (i + 1 + 1 + 1 + 1 + 1 + 1) last) :=
        body.typeFrom_ends within isBehind inside shows (by omega) (by omega)
      have head : row.Holds i (.sign .opening ::
          ([first.lexeme, .sign .comma, second.lexeme] ++ [.sign .closing])) :=
        ⟨opens, one, comma, two, closes, trivial⟩
      have closed : i + 1 + [first.lexeme, .sign .comma, second.lexeme].length < stop := by
        simp only [List.length_cons, List.length_nil]
        omega
      have operand : row.typeOperand stop 0 i = .go (i + 1 + 1 + 1 + 1 + 1) false 0 :=
        TokenRow.typeOperand_bracketed (.inl ⟨rfl, rfl⟩) (parameters_matched first second) head closed
          within 0
      exact TokenRow.typeFrom_head (by omega) operand arrow (by omega) ends

/-! ## Steps that find nothing -/

/-- A colon behind a parenthesis is taken for the start of a return type, in front of an arrow. -/
def TokenRow.Misread (row : TokenRow) (k : Nat) : Prop :=
  (row.isPunct k ":" && decide (k + 1 < (row.skipType (k + 1) row.size true).1) &&
    row.isPunct (row.skipType (k + 1) row.size true).1 "=>") = true

theorem TokenRow.Misread.colon {k : Nat} (misread : row.Misread k) : row.isPunct k ":" = true := by
  simp only [Misread, Bool.and_eq_true] at misread
  exact misread.1.1

theorem TokenRow.isPunct_other {p q : String} (here : row.isPunct i p = true) (other : p ≠ q) :
    row.isPunct i q = false := by
  obtain ⟨t, found, shape⟩ := (Option.any_eq_true ..).mp here
  obtain ⟨_, text⟩ := Bool.and_eq_true_iff.mp shape
  rw [isPunct, found, Option.any_some, eq_of_beq text, beq_false_of_ne other, Bool.and_false]

namespace Erase

/-- At token `i` the walk finds nothing and goes on at token `next`. -/
structure QuietStep (row : TokenRow) (i next : Nat) : Prop where
  inside : i < row.size
  forward : i < next
  noDeclaration : (row.isAnyWord i && declarationWords.contains (row.text i)) = false
  run : ∀ (fuel : Nat) (e : Erasure), (step row row.size (fuel + 8) i).run e = .ok (next, e)

theorem quietStep_atom {a : Atom} (shows : row.Shows i a.lexeme) : QuietStep row i (i + 1) := by
  refine ⟨shows.lt_size, Nat.lt_succ_self i, ?_, fun fuel e => ?_⟩
  · rw [shows.isAnyWord, shows.text_eq]
    cases a with
    | name n => exact n.not_mem (by decide)
    | number text whole => rfl
    | str text whole => rfl
  · rw [step, shows.shape_eq]
    cases a with
    | number text whole => rfl
    | str text whole => rfl
    | name n =>
        have text : row.text i = n.text := shows.text_eq
        have other (w : String) (reserved : reservedWords.contains w = true) :
            (n.text == w) = false := beq_eq_false_iff_ne.mpr (Name.ne reserved)
        simp only [Atom.lexeme, Name.lexeme, Lexeme.shape]
        rw [word]
        simp only [StateT.run, bind, StateT.bind, get, getThe, MonadStateOf.get, StateT.get, pure,
          Except.pure, Except.bind, text, other "type" (by decide), other "interface" (by decide),
          other "declare" (by decide), other "abstract" (by decide), other "enum" (by decide),
          other "namespace" (by decide), other "module" (by decide), other "import" (by decide),
          other "export" (by decide), other "function" (by decide), other "class" (by decide),
          other "as" (by decide), other "satisfies" (by decide), Bool.false_and, Bool.or_self,
          Bool.false_eq_true, if_false]
        rfl

theorem noDeclaration_sign {s : Sign} (shows : row.Shows i (.sign s)) :
    (row.isAnyWord i && declarationWords.contains (row.text i)) = false := by
  rw [shows.isAnyWord]
  rfl

theorem step_sign {s : Sign} (shows : row.Shows i (.sign s)) (fuel : Nat) :
    step row stop (fuel + 1) i =
      if s = .opening then parenthesis row stop fuel i else pure (i + 1) := by
  rw [step, shows.shape_eq]
  simp only [Lexeme.shape, shows.isPunct]
  cases s <;> rfl

theorem quietStep_sign {s : Sign} (shows : row.Shows i (.sign s)) (other : s ≠ .opening) :
    QuietStep row i (i + 1) := by
  refine ⟨shows.lt_size, Nat.lt_succ_self i, noDeclaration_sign shows, fun fuel e => ?_⟩
  rw [step_sign shows, if_neg other]
  rfl

/-- A parenthesis that holds no parameters. -/
theorem quietStep_opening {close : Nat} (shows : row.Shows i (.sign .opening))
    (matched : row.matching i row.size = some close)
    (noHead : (row.isPunct (close + 1) "=>" && !row.breakBefore (close + 1)) = false)
    (noMisread : ¬ row.Misread (close + 1)) (noBrace : row.isPunct (close + 1) "\x7b" = false)
    (noType : row.isPunct (close + 1) ":" = true →
      row.isPunct (row.skipType (close + 1 + 1) row.size false).1 "\x7b" = false)
    (noCatch : ∀ k, row.isWord k "catch" = false) : QuietStep row i (i + 1) := by
  refine ⟨shows.lt_size, Nat.lt_succ_self i, noDeclaration_sign shows, fun fuel e => ?_⟩
  rw [TokenRow.Misread, Bool.not_eq_true] at noMisread
  have noCatcher (before : Option Nat) : before.any (row.isWord · "catch") = false := by
    cases before with
    | none => rfl
    | some k => exact noCatch k
  rw [step_sign shows, if_pos rfl, parenthesis, matched]
  simp only [noHead, noMisread, noBrace, noCatcher, StateT.run, bind, StateT.bind, get, getThe,
    MonadStateOf.get, StateT.get, pure, Except.pure, Except.bind, Bool.and_false,
    Bool.false_eq_true, if_false]
  split
  case isFalse => rfl
  case isTrue colon =>
    rw [noType (Bool.and_eq_true_iff.mp colon).2]
    rfl

/-- A parameter that is only a name. -/
theorem parametersFrom_name {close : Nat} {n : Name} {s : Sign} (inside : i < close)
    (name : row.Shows i n.lexeme) (behind : row.Shows (i + 1) (.sign s))
    (ends : s = .comma ∧ i + 1 < close ∨ s = .closing ∧ i + 1 = close) (fuel : Nat) (e : Erasure) :
    (parametersFrom row close (fuel + 1) i).run e = (parametersFrom row close fuel (i + 2)).run e := by
  have noModifier : erasedModifiers.contains (row.text i) = false := by
    rw [name.text_eq]
    exact n.not_mem (by decide)
  have word : row.isAnyWord i = true := name.isAnyWord
  have noDots : row.isPunct i "..." = false := name.isPunct _
  have noMark : row.isPunct (i + 1) "?" = false ∧ row.isPunct (i + 1) ":" = false := by
    rw [behind.isPunct, behind.isPunct]
    rcases ends with ⟨rfl, _⟩ | ⟨rfl, _⟩ <;> decide
  have comma : row.commaFrom false (close - (i + 1)) 0 (i + 1) = i + 1 := by
    rcases ends with ⟨rfl, before⟩ | ⟨rfl, last⟩
    · obtain ⟨m, rest⟩ : ∃ m, close - (i + 1) = m + 1 := ⟨close - (i + 1) - 1, by omega⟩
      have isComma : row.isPunct (i + 1) "," = true := behind.isPunct _
      rw [rest, TokenRow.commaFrom, behind.opensBracket, behind.closesBracket, isComma]
      rfl
    · rw [last, Nat.sub_self, TokenRow.commaFrom]
  rw [parametersFrom, if_neg (by omega)]
  simp only [noModifier, word, noDots, noMark, annotation, comma, Bool.and_false, Bool.false_and,
    Bool.false_eq_true, if_false, if_true, pure_bind, Nat.lt_irrefl]

theorem parameters_two {first second : Name} (opens : row.Shows i (.sign .opening))
    (one : row.Shows (i + 1) first.lexeme) (comma : row.Shows (i + 2) (.sign .comma))
    (two : row.Shows (i + 3) second.lexeme) (closes : row.Shows (i + 4) (.sign .closing))
    (fuel : Nat) (e : Erasure) :
    (parameters row row.size (fuel + 4) i).run e = .ok (i + 4, e) := by
  have matched : row.matching i row.size = some (i + 4) :=
    (parameters_matched first second).matching (.inl ⟨rfl, rfl⟩) opens ⟨one, comma, two, trivial⟩ closes
      closes.lt_size (Nat.le_refl _)
  have noColon : row.isPunct (i + 2) ":" = false := comma.isPunct _
  have run : (parametersFrom row (i + 4) (fuel + 3) (i + 1)).run e = .ok ((), e) := by
    rw [parametersFrom_name (by omega) one comma (.inl ⟨rfl, by omega⟩),
      parametersFrom_name (by omega) two closes (.inr ⟨rfl, rfl⟩), parametersFrom, if_pos (by omega)]
    rfl
  rw [parameters]
  simp only [matching, matched, noColon, Bool.and_false, Bool.false_eq_true, if_false, pure_bind,
    StateT.run_bind, run]
  rfl

/-- The parameters of an arrow function. -/
theorem quiet_head {first second : Name} (opens : row.Shows i (.sign .opening))
    (one : row.Shows (i + 1) first.lexeme) (comma : row.Shows (i + 2) (.sign .comma))
    (two : row.Shows (i + 3) second.lexeme) (closes : row.Shows (i + 4) (.sign .closing))
    (arrow : row.Shows (i + 5) (.sign .arrow)) (noCatch : ∀ k, row.isWord k "catch" = false) :
    Relation.ReflTransGen (QuietStep row) i (i + 5) := by
  have matched : row.matching i row.size = some (i + 4) :=
    (parameters_matched first second).matching (.inl ⟨rfl, rfl⟩) opens ⟨one, comma, two, trivial⟩ closes
      closes.lt_size (Nat.le_refl _)
  have isArrow : row.isPunct (i + 4 + 1) "=>" = true := arrow.isPunct _
  have noColon : row.isPunct (i + 4 + 1) ":" = false := arrow.isPunct _
  cases broken : row.breakBefore (i + 5) with
  | false =>
      refine .single ⟨opens.lt_size, by omega, noDeclaration_sign opens, fun fuel e => ?_⟩
      rw [step_sign opens, if_pos rfl, parenthesis, matched]
      simp only [isArrow, broken, Bool.not_false, Bool.and_self, if_true, StateT.run_bind,
        parameters_two opens one comma two closes (fuel + 2)]
      rfl
  | true =>
      -- behind the end of a line the arrow is not seen, and the walk goes through the parameters
      have opened : QuietStep row i (i + 1) := by
        refine quietStep_opening opens matched (by rw [broken, Bool.not_true, Bool.and_false]) ?_
          (arrow.isPunct _) ?_ noCatch
        · rw [TokenRow.Misread, noColon]
          exact Bool.false_ne_true
        · intro colon
          rw [noColon] at colon
          cases colon
      exact (((Relation.ReflTransGen.single opened).tail
        (quietStep_atom (a := .name first) one)).tail (quietStep_sign comma (by decide))).tail
          (quietStep_atom (a := .name second) two) |>.tail (quietStep_sign closes (by decide))

end Erase

/-! ## Expressions -/

open Erase

/-- What can stand behind an expression; what a colon starts is read as no type in front of a
brace, and as one that ends with a token in front of an arrow. -/
structure TokenRow.Behind (row : TokenRow) (k : Nat) : Prop where
  sign : ∃ s : Sign, s.isBehind = true ∧ row.Shows k (.sign s)
  noBrace : row.isPunct k ":" = true →
    row.isPunct (row.skipType (k + 1) row.size false).1 "\x7b" = false
  place : row.isPunct k ":" = true → (row.skipType (k + 1) row.size true).2 =
    row.stop ((row.skipType (k + 1) row.size true).1 - 1)

namespace TokenRow

theorem behind_sign {s : Sign} (shows : row.Shows i (.sign s)) (isBehind : s.isBehind = true)
    (noColon : s ≠ .colon) : row.Behind i ∧ ¬ row.Misread i := by
  have noPunct : row.isPunct i ":" = false := by
    rw [shows.isPunct]
    cases s <;> first | rfl | exact absurd rfl noColon
  have absent {p : Prop} (colon : row.isPunct i ":" = true) : p := by
    rw [noPunct] at colon
    cases colon
  refine ⟨⟨⟨s, isBehind, shows⟩, absent, absent⟩, fun misread => ?_⟩
  rw [Misread, noPunct] at misread
  exact Bool.false_ne_true misread

/-- A colon in front of an expression is misread in front of an arrow function. -/
theorem behind_colon {e : Expr} (colon : row.Shows i (.sign .colon))
    (holds : row.Holds (i + 1) e.lexemes) (behind : row.Behind (i + 1 + e.lexemes.length)) :
    row.Behind i ∧ (row.Misread i ↔ e.opensArrow = true) := by
  obtain ⟨s, isBehind, shows⟩ := behind.sign
  have before := shows.lt_size
  have ends (stopAtArrow : Bool) : row.Ends stopAtArrow e.opensArrow (i + 1)
      (row.skipType (i + 1) row.size stopAtArrow) :=
    e.typeFrom_ends (Nat.le_refl _) isBehind holds shows before (by omega)
  refine ⟨⟨⟨.colon, rfl, colon⟩, fun _ => (ends false).noBrace, fun _ => (ends true).place⟩, ?_⟩
  have isColon : row.isPunct i ":" = true := colon.isPunct _
  have moves : decide (i + 1 < (row.skipType (i + 1) row.size true).1) = true :=
    decide_eq_true (ends true).behind
  rw [Misread, isColon, moves, (ends true).arrow rfl]
  rfl

end TokenRow

/-- A parenthesis with a misread colon behind the one that closes it. -/
structure TokenRow.MisreadAt (row : TokenRow) (k close : Nat) : Prop where
  opens : row.Shows k (.sign .opening)
  matched : row.matching k row.size = some close
  misread : row.Misread (close + 1)
  place : (row.skipType (close + 1 + 1) row.size true).2 =
    row.stop ((row.skipType (close + 1 + 1) row.size true).1 - 1)

/-- From token `i` on the walk finds nothing up to token `j`, or it comes to a parenthesis whose colon
is misread, which is so when `found` is. -/
def TokenRow.Walks (row : TokenRow) (i j : Nat) (found : Prop) : Prop :=
  ¬ found ∧ Relation.ReflTransGen (QuietStep row) i j ∨
    found ∧ ∃ k close, Relation.ReflTransGen (QuietStep row) i k ∧ row.MisreadAt k close

namespace TokenRow.Walks

variable {found found' : Prop} {k : Nat}

theorem quiet (steps : Relation.ReflTransGen (QuietStep row) i j) : row.Walks i j False :=
  .inl ⟨id, steps⟩

theorem trans (first : row.Walks i j found) (second : row.Walks j k found') :
    row.Walks i k (found ∨ found') := by
  rcases first with ⟨notHere, steps⟩ | ⟨here, misread⟩
  · rcases second with ⟨notThere, others⟩ | ⟨there, m, close, others, misread⟩
    · exact .inl ⟨not_or.mpr ⟨notHere, notThere⟩, steps.trans others⟩
    · exact .inr ⟨.inr there, m, close, steps.trans others, misread⟩
  · exact .inr ⟨.inl here, misread⟩

theorem tail (first : row.Walks i j found) (last : QuietStep row j k) : row.Walks i k found := by
  have whole := first.trans (quiet (.single last))
  rwa [or_false] at whole

theorem head (first : QuietStep row i j) (others : row.Walks j k found) : row.Walks i k found := by
  have whole := (quiet (.single first)).trans others
  rwa [false_or] at whole

theorem of_iff (walks : row.Walks i j found) (same : found ↔ found') : row.Walks i j found' := by
  rwa [propext same] at walks

end TokenRow.Walks

/-- Parentheses in front of which no name stands that takes parameters. -/
theorem walks_parens {ls : List Lexeme} (matched : Matched ls)
    (opens : row.Shows i (.sign .opening)) (inside : row.Holds (i + 1) ls)
    (closes : row.Shows (i + 1 + ls.length) (.sign .closing))
    (behind : row.Behind (i + 1 + ls.length + 1)) (noCatch : ∀ k, row.isWord k "catch" = false) :
    row.Walks i (i + 1) (row.Misread (i + 1 + ls.length + 1)) := by
  obtain ⟨⟨s, isBehind, shows⟩, noType, place⟩ := behind
  have other : row.isPunct (i + 1 + ls.length + 1) "=>" = false ∧
      row.isPunct (i + 1 + ls.length + 1) "\x7b" = false := by
    rw [shows.isPunct, shows.isPunct]
    cases s <;> first | decide | cases isBehind
  have close := matched.matching (.inl ⟨rfl, rfl⟩) opens inside closes closes.lt_size (Nat.le_refl _)
  by_cases misread : row.Misread (i + 1 + ls.length + 1)
  · exact .inr ⟨misread, i, _, .refl, opens, close, misread, place misread.colon⟩
  · exact .inl ⟨misread, .single (quietStep_opening opens close (by rw [other.1, Bool.false_and])
      misread other.2 noType noCatch)⟩

/-- What stands in front of an item. -/
theorem Label.quiet {labelled : Bool} (label : Label labelled) (holds : row.Holds i label.lexemes) :
    Relation.ReflTransGen (QuietStep row) i (i + label.lexemes.length) := by
  cases labelled with
  | false => exact .refl
  | true =>
      obtain ⟨name, colon, -⟩ := holds
      exact (Relation.ReflTransGen.single (quietStep_atom (a := .name label) name)).tail
        (quietStep_sign colon (by decide))

mutual

/-- The walk over an expression finds something when the expression is not clear, or when the colon
behind it is misread. -/
theorem Expr.walks (noCatch : ∀ k, row.isWord k "catch" = false) : (e : Expr) → ∀ {i : Nat},
    row.Holds i e.lexemes → row.Behind (i + e.lexemes.length) →
      row.Walks i (i + e.lexemes.length)
        (e.isClear = false ∨ e.closes = true ∧ row.Misread (i + e.lexemes.length))
  | .atom a, i, holds, _ => by
      refine (TokenRow.Walks.quiet (.single (quietStep_atom holds.1))).of_iff ?_
      simp [Expr.isClear, Expr.closes]
  | .parens inner, i, holds, behind => by
      obtain ⟨opens, rest⟩ := holds
      obtain ⟨inside, closes, -⟩ := TokenRow.holds_append.mp rest
      have place : i + (Expr.parens inner).lexemes.length = i + 1 + inner.lexemes.length + 1 := by
        simp only [Expr.lexemes, List.length_cons, List.length_append, List.length_nil]
        omega
      rw [place] at behind ⊢
      obtain ⟨innerBehind, innerRead⟩ := TokenRow.behind_sign closes rfl (by decide)
      refine ((walks_parens inner.matched opens inside closes behind noCatch).trans
        ((inner.walks noCatch inside innerBehind).tail (quietStep_sign closes (by decide)))).of_iff ?_
      simp [Expr.isClear, Expr.closes, innerRead, or_comm]
  | .call callee arguments, i, holds, behind => by
      obtain ⟨name, opens, rest⟩ := holds
      obtain ⟨inside, closes, -⟩ := TokenRow.holds_append.mp rest
      have place : i + (Expr.call callee arguments).lexemes.length =
          i + 1 + 1 + arguments.lexemes.length + 1 := by
        simp only [Expr.lexemes, List.length_cons, List.length_append, List.length_nil]
        omega
      rw [place] at behind ⊢
      refine (((walks_parens arguments.matched opens inside closes behind noCatch).trans
        ((arguments.walks noCatch rfl (by decide) inside closes).tail
          (quietStep_sign closes (by decide)))).head (quietStep_atom (a := .name callee) name)).of_iff ?_
      simp [Expr.isClear, Expr.closes, or_comm]
  | .conditional test yes no, i, holds, behind => by
      obtain ⟨first, question, rest⟩ := TokenRow.holds_append.mp holds
      obtain ⟨second, colon, third⟩ := TokenRow.holds_append.mp rest
      have place : i + (Expr.conditional test yes no).lexemes.length =
          i + test.lexemes.length + 1 + yes.lexemes.length + 1 + no.lexemes.length := by
        simp only [Expr.lexemes, List.length_cons, List.length_append]
        omega
      rw [place] at behind ⊢
      obtain ⟨testBehind, testRead⟩ := TokenRow.behind_sign question rfl (by decide)
      obtain ⟨yesBehind, yesRead⟩ := TokenRow.behind_colon colon third behind
      have testWalks := (test.walks noCatch first testBehind).tail (quietStep_sign question (by decide))
      have yesWalks := (yes.walks noCatch second yesBehind).tail (quietStep_sign colon (by decide))
      refine ((testWalks.trans yesWalks).trans (no.walks noCatch third behind)).of_iff ?_
      simp only [Expr.isClear, Expr.closes, testRead, yesRead, and_false, or_false,
        Bool.and_eq_false_iff, Bool.not_eq_false', Bool.and_eq_true, or_assoc]
      exact or_congr_right (or_congr_right or_left_comm)
  | .object fields, i, holds, behind => by
      obtain ⟨opens, rest⟩ := holds
      obtain ⟨inside, closes, -⟩ := TokenRow.holds_append.mp rest
      have place : i + (Expr.object fields).lexemes.length = i + 1 + fields.lexemes.length + 1 := by
        simp only [Expr.lexemes, List.length_cons, List.length_append, List.length_nil]
        omega
      rw [place]
      refine (((fields.walks noCatch rfl (by decide) inside closes).head
        (quietStep_sign opens (by decide))).tail (quietStep_sign closes (by decide))).of_iff ?_
      simp [Expr.isClear, Expr.closes]
  | .arrow parameter body, i, holds, behind => by
      obtain ⟨name, arrow, inside⟩ := holds
      have place : i + (Expr.arrow parameter body).lexemes.length =
          i + 1 + 1 + body.lexemes.length := by
        simp only [Expr.lexemes, List.length_cons]
        omega
      rw [place] at behind ⊢
      exact ((body.walks noCatch inside behind).head (quietStep_sign arrow (by decide))).head
        (quietStep_atom (a := .name parameter) name)
  | .arrowOfTwo first second body, i, holds, behind => by
      obtain ⟨opens, one, comma, two, closes, arrow, inside⟩ := holds
      have place : i + (Expr.arrowOfTwo first second body).lexemes.length =
          i + 5 + 1 + body.lexemes.length := by
        simp only [Expr.lexemes, List.length_cons]
        omega
      rw [place] at behind ⊢
      have head := (quiet_head opens one comma two closes arrow noCatch).tail
        (quietStep_sign arrow (by decide))
      exact ((TokenRow.Walks.quiet head).trans (body.walks noCatch inside behind)).of_iff
        (by rw [false_or, Expr.isClear, Expr.closes])

theorem Items.walks (noCatch : ∀ k, row.isWord k "catch" = false) {labelled : Bool} {s : Sign}
    (isBehind : s.isBehind = true) (noColon : s ≠ .colon) : (items : Items labelled) → ∀ {i : Nat},
    row.Holds i items.lexemes → row.Shows (i + items.lexemes.length) (.sign s) →
      row.Walks i (i + items.lexemes.length) (items.isClear = false)
  | .nil, i, _, _ => (TokenRow.Walks.quiet .refl).of_iff (by simp [Items.isClear])
  | .last label e, i, holds, shows => by
      obtain ⟨labelHeld, held⟩ := TokenRow.holds_append.mp holds
      rw [Items.lexemes, List.length_append, ← Nat.add_assoc] at shows ⊢
      obtain ⟨behind, noMisread⟩ := TokenRow.behind_sign shows isBehind noColon
      refine ((TokenRow.Walks.quiet (label.quiet labelHeld)).trans
        (e.walks noCatch held behind)).of_iff ?_
      simp [Items.isClear, noMisread]
  | .more label e others, i, holds, shows => by
      obtain ⟨labelHeld, rest⟩ := TokenRow.holds_append.mp holds
      obtain ⟨held, comma, othersHeld⟩ := TokenRow.holds_append.mp rest
      have place : i + (Items.more label e others).lexemes.length =
          i + label.lexemes.length + e.lexemes.length + 1 + others.lexemes.length := by
        simp only [Items.lexemes, List.length_cons, List.length_append]
        omega
      rw [place] at shows ⊢
      obtain ⟨behind, noMisread⟩ := TokenRow.behind_sign comma rfl (by decide)
      have walks := (e.walks noCatch held behind).tail (quietStep_sign comma (by decide))
      refine (((TokenRow.Walks.quiet (label.quiet labelHeld)).trans walks).trans
        (others.walks noCatch isBehind noColon othersHeld shows)).of_iff ?_
      simp only [Items.isClear, noMisread, and_false, or_false, false_or, Bool.and_eq_false_iff]

end

end JsxPreview.Source
