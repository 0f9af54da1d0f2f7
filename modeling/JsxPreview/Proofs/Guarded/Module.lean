import JsxPreview.Proofs.Guarded.Binding
import JsxPreview.Proofs.Scanner.Literals
import JsxPreview.Source.Declaration

/-! # Guarded reading of imports and exports

The readers of declarations at the top level, with what they take for granted: that the inside of a
literal can be cut out, that there is a last token in front of the place where a declaration ends, and
that each declaration ends behind its start.  Where the strings of a row stand between quotes, they
agree with the plain readers (`declarations_agrees`). -/
set_option autoImplicit false
namespace JsxPreview.Source

open JsxPreview.Text

/-- The strings of the row stand between quotes. -/
def TokenRow.Literal (row : TokenRow) : Prop :=
  ∀ i, row.isStr i = true → IsQuoted (row.text i).toList

theorem Literals.row {ts : List Token} (literals : Literals ts) (row : TokenRow)
    (same : row.tokens = (ts.filter (!·.isComment)).toArray) : row.Literal := by
  obtain ⟨here, _⟩ := literals
  intro i literal
  obtain ⟨t, found, isStr⟩ := TokenRow.get?_of_any literal
  rw [TokenRow.text_of_get? found]
  refine here t ?_ isStr
  rw [TokenRow.get?, same, List.getElem?_toArray] at found
  exact List.mem_of_mem_filter (List.mem_of_getElem? found)

namespace Guarded

open GuardedRead (pass fail)

/-! ## Names -/

/-- A reader that takes nothing for granted. -/
def plain {α : Type} (x : Except SyntaxError α) : GuardedRead α := ExceptT.mk (.ok x)

/-- The value of a literal, whose inside is cut out of it. -/
def unquoted (literal : String) : Guarded String := do
  let s := literal.toList
  ensure (byteLength s < 2 ∨ isBoundary 1 s = true ∧ isBoundary (byteLength s - 1) s = true) .slice
  .ok (unquote literal)

def stringValue (row : TokenRow) (i : Nat) : GuardedRead String :=
  if row.isStr i then pass (unquoted (row.text i)) else fail row i (.expectedString (row.found i))

/-- A name under which something is exported: a word or a string. -/
def exportedName (row : TokenRow) (i : Nat) : GuardedRead String :=
  if row.isAnyWord i then pure (row.text i) else stringValue row i

/-- The string at token `i`, with the import attributes and the semicolon behind it. -/
def moduleName (row : TokenRow) (i : Nat) : GuardedRead TokenRow.ModuleName := do
  let specifier ← stringValue row i
  let next := i + 1
  let next ←
    if (row.isWord next "with" || row.isWord next "assert") && row.isPunct (next + 1) "\x7b" then do
      match ← pass (bracketEnd row (next + 1)) with
      | some close => pure (close + 1)
      | none => fail row (next + 1) .unexpectedEnd
    else pure next
  pure ⟨specifier, row.start i, row.skipSemicolon next⟩

/-- Names in braces from token `i` on, each with the name that follows its `as`. -/
def nameList (row : TokenRow) (readAlias : Nat → GuardedRead String) :
    Nat → Nat → GuardedRead (List (String × String) × Nat)
  | 0, _ => pass (.error .depth)
  | fuel + 1, i =>
      if row.isPunct i "\x7d" then pure ([], i + 1)
      else do
        let name ← exportedName row i
        let (renamed, next) ←
          if row.isWord (i + 1) "as" then do
            let renamed ← readAlias (i + 2)
            pure (renamed, i + 3)
          else pure (name, i + 1)
        let next ←
          if row.isPunct next "," then pure (next + 1)
          else if row.isPunct next "\x7d" then pure next
          else fail row next (.expected "\x7d" (row.found next))
        pass (ensure (i < next) .still)
        let (rest, final) ← nameList row readAlias fuel next
        pure ((name, renamed) :: rest, final)

/-- Where the token in front of token `next` ends. -/
def lastStop (row : TokenRow) (next : Nat) : Guarded Nat := do
  ensure (0 < next) .count
  subscript row (next - 1)
  .ok (row.stop (next - 1))

section

variable {row : TokenRow} {α : Type} {holds : α → Prop}

theorem plain_agrees {x : Except SyntaxError α} (ends : Ends x holds) : Agrees (plain x) x holds :=
  ⟨rfl, ends⟩

theorem unquoted_same {literal : String} (quoted : IsQuoted literal.toList) :
    unquoted literal = .ok (unquote literal) :=
  ensure_bind (.inr quoted.isBoundary) _

theorem stringValue_agrees (literal : row.Literal) (i : Nat) :
    Agrees (stringValue row i) (row.stringValue i) fun _ => i < row.size := by
  refine .ite (fun isStr => ?_) fun _ => .fail row i (by simp)
  rw [unquoted_same (literal i isStr)]
  exact .pure (TokenRow.lt_of_isStr isStr)

theorem exportedName_agrees (literal : row.Literal) (i : Nat) :
    Agrees (exportedName row i) (row.exportedName i) fun _ => i < row.size :=
  .ite (fun word => .pure (TokenRow.lt_of_isAnyWord word)) fun _ => stringValue_agrees literal i

theorem expectWord_agrees (row : TokenRow) (i : Nat) (w : String) :
    Agrees (plain (row.expectWord i w)) (row.expectWord i w) fun _ => i < row.size := by
  refine plain_agrees ?_
  unfold TokenRow.expectWord
  split
  case isTrue word => exact TokenRow.lt_of_isWord word
  case isFalse => exact fun same => by cases same

theorem wordText_agrees (row : TokenRow) (i : Nat) :
    Agrees (plain (row.wordText i)) (row.wordText i) fun _ => i < row.size := by
  refine plain_agrees ?_
  unfold TokenRow.wordText
  split
  case isTrue word => exact TokenRow.lt_of_isAnyWord word
  case isFalse => exact fun same => by cases same

theorem skipSemicolon_bounds {i : Nat} (inRow : i ≤ row.size) :
    i ≤ row.skipSemicolon i ∧ row.skipSemicolon i ≤ row.size := by
  unfold TokenRow.skipSemicolon
  split
  case isTrue semicolon => exact ⟨Nat.le_succ i, TokenRow.lt_of_isPunct semicolon⟩
  case isFalse => exact ⟨Nat.le_refl i, inRow⟩

theorem opensBracket_of_isPunct {i : Nat} (brace : row.isPunct i "\x7b" = true) :
    row.opensBracket i = true :=
  TokenRow.any_of_isPunct brace fun _ _ => rfl

theorem moduleName_agrees (literal : row.Literal) (i : Nat) :
    Agrees (moduleName row i) (row.moduleName i) fun m => i < m.next ∧ m.next ≤ row.size := by
  unfold moduleName TokenRow.moduleName
  refine .bind (stringValue_agrees literal i) fun specifier inRow => ?_
  extract_lets next guardedRest rest
  have restAgrees (next : Nat) (within : i < next ∧ next ≤ row.size) :
      Agrees (guardedRest next) (rest next) fun m => i < m.next ∧ m.next ≤ row.size := by
    have bounds := skipSemicolon_bounds within.2
    exact .pure (by dsimp only; omega)
  refine .ite (fun attributes => ?_) fun _ => restAgrees next ⟨Nat.lt_succ_self i, inRow⟩
  have brace := ((Bool.and_eq_true _ _).mp attributes).2
  refine .pass (bracketEnd_same (opensBracket_of_isPunct brace)) ?_
  cases found : row.matching (next + 1) row.size with
  | none => exact .bind (.fail row _ (by simp)) restAgrees
  | some close =>
      have bounds := TokenRow.matching_spec found
      exact restAgrees (close + 1) (by omega)

theorem nameList_agrees (literal : row.Literal) {readAlias : Nat → GuardedRead String}
    {readAlias' : Nat → Except SyntaxError String}
    (reads : ∀ i, Agrees (readAlias i) (readAlias' i) fun _ => i < row.size) : (fuel i : Nat) →
    row.size - i < fuel →
    Agrees (nameList row readAlias fuel i) (row.nameList readAlias' fuel i)
      fun r => i < r.2 ∧ r.2 ≤ row.size
  | 0, _, enough => absurd enough (by omega)
  | fuel + 1, i, enough => by
      unfold nameList TokenRow.nameList
      refine .ite (fun brace => .pure ⟨Nat.lt_succ_self i, TokenRow.lt_of_isPunct brace⟩) fun _ =>
        .bind (exportedName_agrees literal i) fun name inRow => ?_
      extract_lets guardedNamed named
      have namedAgrees (r : String × Nat) (within : i < r.2) :
          Agrees (guardedNamed r) (named r) fun r => i < r.2 ∧ r.2 ≤ row.size := by
        obtain ⟨renamed, next⟩ := r
        unfold guardedNamed named
        dsimp -zeta only at within ⊢
        extract_lets guardedRest rest
        have restAgrees (next : Nat) (behind : i < next) :
            Agrees (guardedRest next) (rest next) fun r => i < r.2 ∧ r.2 ≤ row.size :=
          .ensure behind (.bind (nameList_agrees literal reads fuel next (by omega))
            fun r ends => .pure ⟨Nat.lt_trans behind ends.1, ends.2⟩)
        exact .ite (fun _ => restAgrees (next + 1) (Nat.lt_succ_of_lt within)) fun _ =>
          .ite (fun _ => restAgrees next within) fun _ => .bind (.fail row next (by simp)) restAgrees
      exact .ite (fun _ => .bind (reads (i + 2)) fun renamed _ =>
          namedAgrees (renamed, i + 3) (Nat.lt_add_of_pos_right (Nat.succ_pos 2)))
        fun _ => namedAgrees (name, i + 1) (Nat.lt_succ_self i)

theorem lastStop_same {next : Nat} (positive : 0 < next) (inRow : next ≤ row.size) :
    lastStop row next = .ok (row.stop (next - 1)) := by
  rw [lastStop, ensure_bind positive, subscript_bind (by omega)]

/-! ## Imports -/

/-- The variables that the names of an import at token `j` bind, as code, and where they end. -/
def importedNames (row : TokenRow) (bind : String → String → String) (j : Nat) :
    GuardedRead (String × Nat) :=
  if row.isPunct j "*" then do
    plain (row.expectWord (j + 1) "as")
    let name ← plain (row.wordText (j + 2))
    pure (bind name "", j + 3)
  else if row.isPunct j "\x7b" then do
    let (names, next) ← nameList row (fun i => plain (row.wordText i)) (row.size + 1) (j + 1)
    pure (String.join (names.map fun n => bind n.2 (memberAccess n.1)), next)
  else pure ("", j)

/-- The declaration of imports at token `i`. -/
def importDeclaration (a : Analysis) (row : TokenRow) (i : Nat) : GuardedRead (Analysis × Nat) := do
  if row.isStr (i + 1) then
    let m ← moduleName row (i + 1)
    let stop ← pass (lastStop row m.next)
    let pieces := [.text "require(", .moduleId m.specifier, .text ");"]
    return ((a.depend m.specifier m.offset .importDeclaration).rewrite (row.start i) stop pieces,
      m.next)
  let (default?, j) := row.defaultImport i
  let holder := "__import_" ++ toString a.importCount
  let bind (name access : String) : String := " var " ++ name ++ " = " ++ holder ++ access ++ ";"
  let (code, j) ← importedNames row bind j
  plain (row.expectWord j "from")
  let m ← moduleName row (j + 1)
  let stop ← pass (lastStop row m.next)
  let code := (default?.map (bind · ".default")).getD "" ++ code
  let a := { a with importCount := a.importCount + 1 }
  return ((a.depend m.specifier m.offset .importDeclaration).rewrite (row.start i) stop
    (loadInto holder m.specifier code), m.next)

theorem importedNames_agrees (literal : row.Literal) (bind : String → String → String) (j : Nat) :
    Agrees (importedNames row bind j) (row.importedNames bind j) fun r => j ≤ r.2 := by
  refine .ite (fun _ => ?_) fun _ => .ite (fun _ => ?_) fun _ => .pure (Nat.le_refl j)
  · exact .bind (expectWord_agrees row (j + 1) "as") fun _ _ => .bind (wordText_agrees row (j + 2))
      fun _ _ => .pure (Nat.le_add_right j 3)
  · exact .bind (nameList_agrees literal (wordText_agrees row) (row.size + 1) (j + 1) (by omega))
      fun r ends => .pure (Nat.le_of_lt (Nat.lt_of_succ_lt ends.1))

theorem le_defaultImport (row : TokenRow) (i : Nat) : i ≤ (row.defaultImport i).2 := by
  unfold TokenRow.defaultImport
  split
  · dsimp only
    split <;> omega
  · exact Nat.le_succ i

theorem importDeclaration_agrees (literal : row.Literal) (a : Analysis) (i : Nat) :
    Agrees (importDeclaration a row i) (a.importDeclaration row i) fun r => i < r.2 := by
  unfold importDeclaration Analysis.importDeclaration
  extract_lets stopBefore
  refine .ite (fun _ => ?_) fun _ => ?_
  · refine .bind (moduleName_agrees literal (i + 1)) fun m ends => ?_
    exact .pass (lastStop_same (by omega) ends.2) (.pure (Nat.lt_of_succ_lt ends.1))
  · have begins := le_defaultImport row i
    generalize row.defaultImport i = read at begins ⊢
    obtain ⟨default?, j⟩ := read
    refine .bind (importedNames_agrees literal _ j) fun r names => ?_
    obtain ⟨code, k⟩ := r
    refine .bind (expectWord_agrees row k "from") fun _ _ =>
      .bind (moduleName_agrees literal (k + 1)) fun m ends => ?_
    dsimp only at begins names
    exact .pass (lastStop_same (by omega) ends.2) (.pure (by dsimp only; omega))

/-! ## Exports -/

/-- Where the keyword of a function or class at token `k` stands, behind an `async`. -/
def keywordAt (source : List Char) (row : TokenRow) (k : Nat) : Guarded Nat :=
  if row.isWord k "async" && row.isWord (k + 1) "function" then do
    let broken ← newlineBefore source row (k + 1)
    .ok (if broken then k else k + 1)
  else .ok k

/-- The default export at token `i`. -/
def defaultExport (source : List Char) (a : Analysis) (row : TokenRow) (i : Nat) :
    Guarded (Analysis × Nat) := do
  let k := i + 2
  let keyword ← keywordAt source row k
  let stop ← lastStop row k
  if row.isWord keyword "function" || row.isWord keyword "class" then
    let name := row.nameBehind keyword
    let a := a.rewrite (row.start i) stop []
    if row.isAnyWord name && !(row.isWord keyword "class" && row.isWord name "extends") then
      .ok (a.offer [("default", row.text name)], k)
    else
      let place := row.start name
      .ok ((a.rewrite place place [.text "__preview_default "]).offer
        [("default", "__preview_default")], k)
  else
    .ok ((a.rewrite (row.start i) stop [.text "var __preview_default ="]).offer
      [("default", "__preview_default")], k)

/-- The export of names in braces at token `i`, from this module or from another one. -/
def exportClause (a : Analysis) (row : TokenRow) (i : Nat) : GuardedRead (Analysis × Nat) := do
  let (names, j) ← nameList row (exportedName row) (row.size + 1) (i + 2)
  if row.isWord j "from" then
    let m ← moduleName row (j + 1)
    let stop ← pass (lastStop row m.next)
    let holder := "__reexport_" ++ toString a.reExportCount
    let a := { a with reExportCount := a.reExportCount + 1 }
    let getters := names.map fun n => (n.2, holder ++ memberAccess n.1)
    return (((a.depend m.specifier m.offset .reExport).offer getters).rewrite (row.start i) stop
      (loadInto holder m.specifier ""), m.next)
  else
    let next := row.skipSemicolon j
    let stop ← pass (lastStop row next)
    return ((a.offer (names.map fun n => (n.2, n.1))).rewrite (row.start i) stop [], next)

/-- The name that an export of everything at token `i` gives it, and where that ends. -/
def exportAlias (row : TokenRow) (i : Nat) : GuardedRead (Option String × Nat) :=
  if row.isWord (i + 2) "as" then do
    let name ← exportedName row (i + 3)
    pure (some name, i + 4)
  else pure (none, i + 2)

/-- The export of everything that another module exports, at token `i`. -/
def exportAll (a : Analysis) (row : TokenRow) (i : Nat) : GuardedRead (Analysis × Nat) := do
  let (name?, j) ← exportAlias row i
  plain (row.expectWord j "from")
  let m ← moduleName row (j + 1)
  let holder := "__reexport_" ++ toString a.reExportCount
  let a := { a with reExportCount := a.reExportCount + 1 }
  let a := a.depend m.specifier m.offset .reExport
  let place := row.start i
  let stop ← pass (lastStop row m.next)
  match name? with
  | some name =>
      return ((a.offer [(name, holder)]).rewrite place stop (loadInto holder m.specifier ""), m.next)
  | none =>
      return (a.rewrite place stop
        [.text ("var " ++ holder ++ " = require("), .moduleId m.specifier,
          .text ("); __preview_reexport(exports, " ++ holder ++ ");")], m.next)

/-- The name of the function or class that is declared at token `j`. -/
def declaredName (row : TokenRow) (j : Nat) : GuardedRead String := do
  let k ←
    if row.isWord j "async" then do
      plain (row.expectWord (j + 1) "function")
      pure (j + 2)
    else pure (j + 1)
  plain (row.wordText (if row.isPunct k "*" then k + 1 else k))

/-- The declaration of exports at token `i`. -/
def exportDeclaration (source : List Char) (a : Analysis) (row : TokenRow) (i : Nat) :
    GuardedRead (Analysis × Nat) := do
  let j := i + 1
  if row.isWord j "default" then pass (defaultExport source a row i)
  else if row.isWord j "var" || row.isWord j "let" || row.isWord j "const" then
    let stop ← pass (lastStop row j)
    let names ← declarators source row (row.size + 1) (j + 1)
    return ((a.rewrite (row.start i) stop []).offer (names.map fun n => (n, n)), j)
  else if row.isWord j "function" || row.isWord j "class" || row.isWord j "async" then
    let name ← declaredName row j
    let stop ← pass (lastStop row j)
    return ((a.rewrite (row.start i) stop []).offer [(name, name)], j)
  else if row.isPunct j "\x7b" then exportClause a row i
  else if row.isPunct j "*" then exportAll a row i
  else fail row j (.unexpectedExport (row.found j))

section

variable {source : List Char} {low high : Nat}

theorem keywordAt_same (lies : row.Lies source low high) (k : Nat) :
    keywordAt source row k = .ok (row.keywordAt k) := by
  unfold keywordAt TokenRow.keywordAt
  cases async : row.isWord k "async" && row.isWord (k + 1) "function" with
  | false => rfl
  | true =>
      have inRow := TokenRow.lt_of_isWord ((Bool.and_eq_true _ _).mp async).2
      rw [if_pos rfl, newlineBefore_same lies inRow, ok_bind]
      cases row.breakBefore (k + 1) <;> rfl

theorem defaultExport_same (lies : row.Lies source low high) (a : Analysis) {i : Nat}
    (inRow : i + 1 < row.size) : defaultExport source a row i = .ok (a.defaultExport row i) := by
  unfold defaultExport Analysis.defaultExport
  dsimp only
  rw [keywordAt_same lies, ok_bind, lastStop_same (Nat.succ_pos (i + 1)) inRow, ok_bind]
  split
  · split <;> rfl
  · rfl

theorem lt_defaultExport (a : Analysis) (row : TokenRow) (i : Nat) :
    i < (a.defaultExport row i).2 := by
  have ends : (a.defaultExport row i).2 = i + 2 := by
    unfold Analysis.defaultExport
    dsimp only
    split
    · split <;> rfl
    · rfl
  rw [ends]
  exact Nat.lt_add_of_pos_right (Nat.succ_pos 1)

theorem exportClause_agrees (literal : row.Literal) (a : Analysis) (i : Nat) :
    Agrees (exportClause a row i) (a.exportClause row i) fun r => i < r.2 := by
  refine .bind (nameList_agrees literal (exportedName_agrees literal) (row.size + 1) (i + 2)
    (by omega)) fun r names => ?_
  obtain ⟨names, j⟩ := r
  dsimp only at names
  refine .ite (fun _ => ?_) fun _ => ?_
  · refine .bind (moduleName_agrees literal (j + 1)) fun m ends => ?_
    exact .pass (lastStop_same (by omega) ends.2) (.pure (by dsimp only; omega))
  · have bounds := skipSemicolon_bounds names.2
    exact .pass (lastStop_same (by omega) bounds.2) (.pure (by dsimp only; omega))

theorem exportAlias_agrees (literal : row.Literal) (i : Nat) :
    Agrees (exportAlias row i) (row.exportAlias i) fun r => i < r.2 :=
  .ite (fun _ => .bind (exportedName_agrees literal (i + 3)) fun _ _ =>
      .pure (Nat.lt_add_of_pos_right (Nat.succ_pos 3)))
    fun _ => .pure (Nat.lt_add_of_pos_right (Nat.succ_pos 1))

theorem exportAll_agrees (literal : row.Literal) (a : Analysis) (i : Nat) :
    Agrees (exportAll a row i) (a.exportAll row i) fun r => i < r.2 := by
  refine .bind (exportAlias_agrees literal i) fun r begins => ?_
  obtain ⟨name?, j⟩ := r
  refine .bind (expectWord_agrees row j "from") fun _ _ =>
    .bind (moduleName_agrees literal (j + 1)) fun m ends => ?_
  dsimp only at begins
  have behind : i < m.next := by omega
  refine .pass (lastStop_same (by omega) ends.2) ?_
  cases name? with
  | none => exact .pure behind
  | some name => exact .pure behind

theorem declaredName_agrees (row : TokenRow) (j : Nat) :
    Agrees (declaredName row j) (row.declaredName j) fun _ => True := by
  unfold declaredName TokenRow.declaredName
  extract_lets guardedRest rest
  have restAgrees (k : Nat) : Agrees (guardedRest k) (rest k) fun _ => True :=
    (wordText_agrees row _).mono fun _ _ => trivial
  exact .ite (fun _ => .bind (expectWord_agrees row (j + 1) "function") fun _ _ => restAgrees (j + 2))
    fun _ => restAgrees (j + 1)

theorem exportDeclaration_agrees (lies : row.Lies source low high) (literal : row.Literal)
    (a : Analysis) {i : Nat} (inRow : i < row.size) :
    Agrees (exportDeclaration source a row i) (a.exportDeclaration row i) fun r => i < r.2 := by
  have here : lastStop row (i + 1) = .ok (row.stop i) := lastStop_same (Nat.succ_pos i) inRow
  have behind := Nat.lt_succ_self i
  refine .ite (fun word => ?_) fun _ => .ite (fun _ => ?_) fun _ => .ite (fun _ => ?_) fun _ =>
    .ite (fun _ => exportClause_agrees literal a i) fun _ =>
    .ite (fun _ => exportAll_agrees literal a i) fun _ => .fail row (i + 1) (by simp)
  · rw [defaultExport_same lies a (TokenRow.lt_of_isWord word)]
    exact .pure (lt_defaultExport a row i)
  · exact .pass here (.bind (declarators_agrees lies (row.size + 1) (i + 2) (by omega))
      fun _ _ => .pure behind)
  · exact .bind (declaredName_agrees row (i + 1)) fun _ _ => .pass here (.pure behind)

end

/-! ## Declarations -/

/-- The declarations at the top level, from token `i` on.  `depth` counts open brackets, and goes
below zero by no more than the number of tokens. -/
def declarations (source : List Char) (row : TokenRow) :
    Nat → Int → Nat → Analysis → GuardedRead Analysis
  | 0, _, _, _ => pass (.error .depth)
  | fuel + 1, depth, i, a => do
      if row.size ≤ i then return a
      pass (subscript row i)
      let topLevel := depth == 0 && !row.followsDot i
      if topLevel && row.isWord i "import" && !row.isPunct (i + 1) "(" &&
          !row.isPunct (i + 1) "." then
        let (a, next) ← importDeclaration a row i
        pass (ensure (i < next) .still)
        declarations source row fuel depth next { a with isEsm := true }
      else if topLevel && row.isWord i "export" then
        let (a, next) ← exportDeclaration source a row i
        pass (ensure (i < next) .still)
        declarations source row fuel depth next { a with isEsm := true }
      else if row.opensBracket i then declarations source row fuel (depth + 1) (i + 1) a
      else if row.closesBracket i then
        pass (ensure (-(row.size : Int) ≤ depth - 1) .count)
        declarations source row fuel (depth - 1) (i + 1) a
      else declarations source row fuel depth (i + 1) a

theorem declarations_agrees {source : List Char} {low high : Nat} (lies : row.Lies source low high)
    (literal : row.Literal) : (fuel : Nat) → (depth : Int) → (i : Nat) → (a : Analysis) →
    row.size - i < fuel → -(i : Int) ≤ depth →
    Agrees (declarations source row fuel depth i a) (Analysis.declarations row fuel depth i a)
      fun _ => True
  | 0, _, _, _, enough, _ => absurd enough (by omega)
  | fuel + 1, depth, i, a, enough, above => by
      unfold declarations Analysis.declarations
      refine .ite (fun _ => .pure trivial) fun more => ?_
      have inRow : i < row.size := Nat.lt_of_not_le more
      have rest (next : Nat) (behind : i < next) (depth' : Int) (above' : -(next : Int) ≤ depth')
          (a : Analysis) : Agrees (declarations source row fuel depth' next a)
            (Analysis.declarations row fuel depth' next a) fun _ => True :=
        declarations_agrees lies literal fuel depth' next a (by omega) above'
      refine .ensure inRow (.ite (fun _ => ?_) fun _ => .ite (fun _ => ?_) fun _ =>
        .ite (fun _ => rest _ (Nat.lt_succ_self i) _ (by omega) a) fun _ =>
        .ite (fun _ => ?_) fun _ => rest _ (Nat.lt_succ_self i) _ (by omega) a)
      · exact .bind (importDeclaration_agrees literal a i) fun r behind =>
          .ensure behind (rest _ behind _ (by omega) _)
      · exact .bind (exportDeclaration_agrees lies literal a inRow) fun r behind =>
          .ensure behind (rest _ behind _ (by omega) _)
      · exact .ensure (by omega) (rest _ (Nat.lt_succ_self i) _ (by omega) a)

end

end Guarded

end JsxPreview.Source
