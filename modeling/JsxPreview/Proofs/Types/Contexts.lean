import JsxPreview.Proofs.Erasure.Plain
import JsxPreview.Proofs.Types.Extent

/-! # Where types stand

A type stands behind the colon of a constant, behind the sign of an alias or behind the parameters of a
function.  When it reaches up to what ends the declaration, the walk blanks it: of a constant and of a
function with the colon in front of it (`scan_constant`, `scan_function`), of an alias with all of the
declaration (`scan_alias`). -/
set_option autoImplicit false
namespace JsxPreview.Source

open Erase

namespace Erase

variable {row : TokenRow} {i j k : Nat}

theorem annotation_run {e : Erasure} {place : Nat} (colon : row.isPunct i ":" = true)
    (type : row.skipType (i + 1) row.size false = (j, place)) (grows : row.start i < place) :
    ( annotation row i row.size).run e =
      .ok (j, { e with blanks := ⟨row.start i, place⟩ :: e.blanks }) := by
  rw [ annotation, if_pos colon, type]
  have blanked : e.blank (row.start i) place =
      { e with blanks := ⟨row.start i, place⟩ :: e.blanks } := if_pos grows
  rw [← blanked]
  rfl

/-- The walk goes on behind a token that is neither a bracket nor a comma. -/
theorem scan_passes (step : QuietStep row i (i + 1)) (noComma : row.isPunct i "," = false)
    (plain : row.opensBracket i = false ∧ row.closesBracket i = false) (fuel depth : Nat)
    (declaring : Option Nat) (e : Erasure) :
    (scan row row.size (fuel + 9) depth declaring i).run e =
      (scan row row.size (fuel + 8) depth
        (if row.isPunct i ";" && declaring == some depth then none else declaring) (i + 1)).run e := by
  obtain ⟨inside, _, noDeclaration, run⟩ := step
  rw [scan, if_neg (Nat.not_le_of_lt inside), noDeclaration, noComma, Bool.and_false]
  simp only [Bool.false_eq_true, if_false]
  rw [StateT.run_bind, bind_of_ok (run fuel e)]
  simp only [plain.1, plain.2, Bool.and_false, beq_self_eq_true, Bool.true_and, Bool.false_eq_true,
    if_false]
  split <;> rfl

theorem binding_name (name : row.isAnyWord i = true) (colon : row.isPunct (i + 1) ":" = true)
    (fuel : Nat) : binding row row.size (fuel + 1) i = annotation row (i + 1) row.size := by
  have noMark : row.isPunct (i + 1) "!" = false := row.isPunct_other colon (by decide)
  rw [binding, if_pos name, pure_bind]
  dsimp only
  rw [noMark, Bool.false_and, if_neg Bool.false_ne_true]

/-- The walk over a constant blanks its type. -/
theorem scan_constant {x : Name} {a : Atom}
    (front : row.Holds 0 [.word "const", x.lexeme, .sign .colon])
    (type : row.skipType 3 row.size false = (j, row.stop (j - 1)))
    (grows : row.start 2 < row.stop (j - 1))
    (back : row.Holds j [.sign .equals, a.lexeme, .sign .semicolon]) (size : row.size = j + 3)
    (fuel : Nat) : (scan row row.size (fuel + 16) 0 none 0).run {} =
      .ok ((), { blanks := [⟨row.start 2, row.stop (j - 1)⟩] }) := by
  obtain ⟨const, name, colon, -⟩ := front
  obtain ⟨equals, value, semicolon, -⟩ := back
  have declares : (row.isAnyWord 0 && declarationWords.contains (row.text 0)) = true := by
    rw [const.isAnyWord, const.text_eq]
    decide
  have noEnum : row.isWord 1 "enum" = false := by
    rw [name.isWord]
    exact beq_false_of_ne (x.ne (by decide))
  have colon' : row.isPunct 2 ":" = true := by
    rw [colon.isPunct]
    decide
  have bound : (binding row row.size (fuel + 15) 1).run {} =
      .ok (j, { blanks := [⟨row.start 2, row.stop (j - 1)⟩] }) := by
    rw [binding_name (by rw [name.isAnyWord]; rfl) colon', annotation_run colon' type grows]
  rw [scan, if_neg (by omega), if_pos declares, noEnum, if_neg Bool.false_ne_true, StateT.run_bind,
    bind_of_ok bound]
  have noBracket {s : Sign} {k : Nat} (shows : row.Shows k (.sign s))
      (other : s = .equals ∨ s = .semicolon) :
      row.opensBracket k = false ∧ row.closesBracket k = false := by
    rw [shows.opensBracket, shows.closesBracket]
    rcases other with rfl | rfl <;> decide
  rw [scan_passes (quietStep_sign equals (by decide)) (by rw [equals.isPunct]; decide)
      (noBracket equals (.inl rfl)),
    scan_passes (quietStep_atom value) (by rw [value.isPunct]; cases a <;> rfl) value.noBracket,
    scan_passes (quietStep_sign semicolon (by decide)) (by rw [semicolon.isPunct]; decide)
      (noBracket semicolon (.inr rfl)), scan, if_pos (Nat.le_of_eq size)]
  rfl

/-- The walk over a word with what belongs to it. -/
theorem scan_word {w : String} {fuel next : Nat} {e e' : Erasure} (shows : row.Shows i (.word w))
    (other : declarationWords.contains w = false)
    (run : (word row row.size fuel i).run e = .ok (next, e')) (depth : Nat) :
    (scan row row.size (fuel + 2) depth none i).run e =
      (scan row row.size (fuel + 1) depth none next).run e' := by
  have noDeclaration : (row.isAnyWord i && declarationWords.contains (row.text i)) = false := by
    rw [shows.text_eq, Lexeme.text, other, Bool.and_false]
  have noBracket : row.opensBracket i = false ∧ row.closesBracket i = false :=
    ⟨shows.any_eq fun _ _ => rfl, shows.any_eq fun _ _ => rfl⟩
  have noList : (none == some depth) = false := rfl
  have stepped : (step row row.size (fuel + 1) i).run e = .ok (next, e') := by
    rw [step, shows.shape_eq]
    exact run
  rw [scan, if_neg (Nat.not_le_of_lt shows.lt_size), noDeclaration, noList, Bool.false_and]
  simp only [Bool.false_eq_true, if_false]
  rw [StateT.run_bind, bind_of_ok stepped]
  simp only [noBracket, Bool.and_false, Bool.false_eq_true, if_false]

/-- The walk over an alias blanks all of it. -/
theorem scan_alias {x : Name} (front : row.Holds 0 [.word "type", x.lexeme, .sign .equals])
    (type : row.skipType 3 row.size false = (j, row.stop (j - 1)))
    (grows : row.start 0 < row.stop j) (back : row.Holds j [.sign .semicolon])
    (size : row.size = j + 1) (fuel : Nat) : (scan row row.size (fuel + 3) 0 none 0).run {} =
      .ok ((), { blanks := [⟨row.start 0, row.stop j⟩], typeNames := [x.text] }) := by
  obtain ⟨type', name, equals, -⟩ := front
  obtain ⟨semicolon, -⟩ := back
  have equals' : row.isPunct 2 "=" = true := by
    rw [equals.isPunct]
    decide
  have semicolon' : row.isPunct j ";" = true := by
    rw [semicolon.isPunct]
    decide
  have noAngle : row.isPunct 2 "<" = false := row.isPunct_other equals' (by decide)
  have read : (typeAlias row 0 row.size).run {} =
      .ok (j + 1, { blanks := [⟨row.start 0, row.stop j⟩], typeNames := [x.text] }) := by
    have text : row.text 1 = x.text := name.text_eq
    have blanked : ({ typeNames := [x.text] } : Erasure).blank (row.start 0) (row.stop j) =
        { blanks := [⟨row.start 0, row.stop j⟩], typeNames := [x.text] } := if_pos grows
    have starts : row.declarationStart 0 = row.start 0 := rfl
    simp only [typeAlias, Nat.zero_add, text, noAngle, equals', type, semicolon', starts, Bool.not_true,
      Bool.false_eq_true, if_false, if_true, pure_bind]
    rw [← blanked]
    rfl
  have run : (word row row.size (fuel + 1) 0).run {} =
      .ok (j + 1, { blanks := [⟨row.start 0, row.stop j⟩], typeNames := [x.text] }) := by
    have text : row.text 0 = "type" := type'.text_eq
    have anyWord : row.isAnyWord 1 = true := name.isAnyWord
    rw [word]
    simp only [StateT.run, bind, StateT.bind, get, getThe, MonadStateOf.get, StateT.get, pure,
      Except.pure, Except.bind, text, anyWord, equals']
    exact read
  rw [scan_word type' (by decide) run, scan, if_pos (Nat.le_of_eq size)]
  rfl

/-- The walk over a function without parameters blanks the type of its result. -/
theorem scan_function {f : Name}
    (front : row.Holds 0 [.word "function", f.lexeme, .sign .opening, .sign .closing, .sign .colon])
    (type : row.skipType 5 row.size false = (j, row.stop (j - 1)))
    (grows : row.start 4 < row.stop (j - 1))
    (back : row.Holds j [.sign .openingBrace, .sign .closingBrace]) (size : row.size = j + 2)
    (fuel : Nat) : (scan row row.size (fuel + 16) 0 none 0).run {} =
      .ok ((), { blanks := [⟨row.start 4, row.stop (j - 1)⟩] }) := by
  obtain ⟨function, name, opening, closing, colon, -⟩ := front
  obtain ⟨brace, brace', -⟩ := back
  have opening' : row.isPunct 2 "(" = true := by
    rw [opening.isPunct]
    decide
  have colon' : row.isPunct 4 ":" = true := by
    rw [colon.isPunct]
    decide
  have brace'' : row.isPunct j "\x7b" = true := by
    rw [brace.isPunct]
    decide
  have read : (parameters row row.size (fuel + 12) 2).run {} = .ok (3, {}) := by
    obtain ⟨opens, open', closes⟩ :=
      Matched.Around.brackets (.inl ⟨rfl, rfl⟩) opening closing
    have matched : row.matching 2 row.size = some 3 :=
      TokenRow.Level.matching opens (.refl row 3) open' closes closing.lt_size (Nat.le_refl _)
    rw [parameters, matching, matched]
    rfl
  have headed : (functionHead row row.size (fuel + 13) 0).run {} =
      .ok (j, { blanks := [⟨row.start 4, row.stop (j - 1)⟩] }) := by
    have noStar : row.isPunct 1 "*" = false := name.isPunct "*"
    have anyWord : row.isAnyWord 1 = true := name.isAnyWord
    have noAngle : row.isPunct 2 "<" = false := row.isPunct_other opening' (by decide)
    rw [functionHead]
    simp only [Nat.zero_add, noStar, anyWord, typeParameters?, noAngle, opening', Bool.not_true,
      Bool.false_eq_true, if_false, if_true, pure_bind]
    rw [StateT.run_bind, bind_of_ok read, StateT.run_bind, bind_of_ok (annotation_run colon' type grows),
      if_pos brace'']
    rfl
  have run : (word row row.size (fuel + 14) 0).run {} =
      .ok (j, { blanks := [⟨row.start 4, row.stop (j - 1)⟩] }) := by
    have text : row.text 0 = "function" := function.text_eq
    rw [word]
    simp only [StateT.run, bind, StateT.bind, get, getThe, MonadStateOf.get, StateT.get, pure,
      Except.pure, Except.bind, text]
    exact headed
  obtain ⟨depth, opened⟩ := scan_step (quietStep_sign brace (by decide)) (fuel + 6) 0
    { blanks := [⟨row.start 4, row.stop (j - 1)⟩] }
  obtain ⟨depth', closed⟩ := scan_step (quietStep_sign brace' (by decide)) (fuel + 5) depth
    { blanks := [⟨row.start 4, row.stop (j - 1)⟩] }
  rw [scan_word function (by decide) run, opened, closed, scan, if_pos (Nat.le_of_eq size)]
  rfl

end Erase

end JsxPreview.Source
