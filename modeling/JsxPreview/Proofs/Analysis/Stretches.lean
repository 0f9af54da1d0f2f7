import JsxPreview.Proofs.Analysis.Rows
import JsxPreview.Proofs.Analysis.Whole

/-! # The stretches that an analysis rewrites

A declaration replaces a run of tokens at the top level, and ends where no use goes on (`EndsClear`); the
next one is read behind it.  A use replaces a run of tokens in the list where it stands.  So of two
rewrites that overlap one holds the other (`Origins.nested`). -/
set_option autoImplicit false
namespace JsxPreview.Source

open JsxPreview.Text

variable {row : TokenRow}

/-- The tokens from `first` to `last`, which lie between two bytes. -/
structure TokenRow.Run (row : TokenRow) (first last start stop : Nat) : Prop where
  le : first ≤ last
  inRow : last < row.size
  starts : row.start first = start
  stops : row.stop last = stop

/-! ## Runs that do not cross -/

/-- The tokens that a use replaces. -/
inductive TokenRow.IsUse (row : TokenRow) : Nat → Nat → Prop
  | requireCall {k : Nat} (name : row.text k = "require") (opens : row.text (k + 1) = "(")
      (literal : row.isStr (k + 2) = true) : IsUse row (k + 2) (k + 2)
  | dynamicImport {k : Nat} (word : row.isWord k "import" = true) (opens : row.text (k + 1) = "(")
      (literal : row.isStr (k + 2) = true) (closes : row.text (k + 3) = ")") : IsUse row k (k + 3)
  | importMeta {k : Nat} (word : row.isWord k "import" = true) (dot : row.text (k + 1) = ".")
      (name : row.text (k + 2) = "meta") : IsUse row k (k + 2)

/-- No use goes on behind this token. -/
structure TokenRow.EndsClear (row : TokenRow) (last : Nat) : Prop where
  word : row.isWord last "import" = false
  opens : row.text last ≠ "("
  dot : row.text last ≠ "."
  literal : row.isStr last = true → ∀ k, k + 1 = last → row.text k ≠ "("

/-- The tokens that a declaration replaces. -/
structure TokenRow.IsDeclaration (row : TokenRow) (first last : Nat) : Prop where
  keyword : row.isWord first "import" = true ∨ row.isWord first "export" = true
  ends : row.EndsClear last

namespace TokenRow

variable {first last first' last' : Nat}

theorem ends_of_isPunct {i : Nat} {p : String} (punct : row.isPunct i p = true) (opens : p ≠ "(")
    (dot : p ≠ ".") : row.EndsClear i where
  word := isWord_of_isPunct punct _
  opens := by rwa [text_of_isPunct punct]
  dot := by rwa [text_of_isPunct punct]
  literal := fun literal => by simp [isStr_of_isPunct punct] at literal

theorem ends_of_isWord {i : Nat} {w : String} (word : row.isWord i w = true) (other : w ≠ "import")
    (opens : w ≠ "(") (dot : w ≠ ".") : row.EndsClear i where
  word := by
    rw [Bool.eq_false_iff]
    exact fun word' => other ((text_of_isWord word).symm.trans (text_of_isWord word'))
  opens := by rwa [text_of_isWord word]
  dot := by rwa [text_of_isWord word]
  literal := fun literal => by simp [isStr_of_isWord word] at literal

/-- A keyword stands in no use but at its start. -/
theorem IsUse.apart_of_word (use : row.IsUse first last) {i : Nat} {w : String}
    (word : row.isWord i w = true) (keyword : w = "import" ∨ w = "export") (behind : first < i) :
    last < i := by
  have text := text_of_isWord word
  have noString := isStr_of_isWord word
  have other : row.text i ≠ "(" ∧ row.text i ≠ ")" ∧ row.text i ≠ "." ∧ row.text i ≠ "meta" := by
    rw [text]
    rcases keyword with rfl | rfl <;> decide
  refine Nat.lt_of_not_le fun le => ?_
  cases use with
  | requireCall => omega
  | dynamicImport _ opens literal closes =>
      obtain rfl | rfl | rfl : i = first + 1 ∨ i = first + 2 ∨ i = first + 3 := by omega
      · exact other.1 opens
      · rw [noString] at literal
        exact absurd literal (by decide)
      · exact other.2.1 closes
  | importMeta _ dot name =>
      obtain rfl | rfl : i = first + 1 ∨ i = first + 2 := by omega
      · exact other.2.2.1 dot
      · exact other.2.2.2 name

theorem IsUse.apart (use : row.IsUse first last) (use' : row.IsUse first' last')
    (behind : first < first') : last < first' := by
  cases use' with
  | dynamicImport word => exact use.apart_of_word word (.inl rfl) behind
  | importMeta word => exact use.apart_of_word word (.inl rfl) behind
  | @requireCall k name opens literal =>
      refine Nat.lt_of_not_le fun le => ?_
      cases use with
      | requireCall => omega
      | dynamicImport word opens' _ _ =>
          have text := text_of_isWord word
          obtain rfl | rfl | rfl : first = k + 1 ∨ first = k ∨ k = first + 1 := by omega
          · rw [text] at opens
            exact absurd opens (by decide)
          · rw [text] at name
            exact absurd name (by decide)
          · rw [opens'] at name
            exact absurd name (by decide)
      | importMeta word _ _ =>
          have text := text_of_isWord word
          obtain rfl | rfl : first = k + 1 ∨ first = k := by omega
          · rw [text] at opens
            exact absurd opens (by decide)
          · rw [text] at name
            exact absurd name (by decide)

/-- A use that starts in front of an end is over there. -/
theorem EndsClear.use_le (ends : row.EndsClear last) (use : row.IsUse first' last') (inside : first' ≤ last) :
    last' ≤ last := by
  refine Nat.le_of_not_lt fun less => ?_
  cases use with
  | requireCall => omega
  | dynamicImport word opens literal _ =>
      obtain rfl | rfl | rfl : last = first' ∨ last = first' + 1 ∨ last = first' + 2 := by omega
      · rw [ends.word] at word
        exact absurd word (by decide)
      · exact ends.opens opens
      · exact ends.literal literal _ rfl opens
  | importMeta word dot _ =>
      obtain rfl | rfl : last = first' ∨ last = first' + 1 := by omega
      · rw [ends.word] at word
        exact absurd word (by decide)
      · exact ends.dot dot

end TokenRow

/-! ## Declarations -/

/-- Strings start with a quote, so none of them looks like these. -/
def TokenRow.Quotes (row : TokenRow) : Prop :=
  ∀ i, row.isStr i = true → row.text i ≠ "(" ∧ row.text i ≠ "."

namespace TokenRow

variable {i next : Nat}

theorem skipSemicolon_cases (row : TokenRow) (i : Nat) :
    row.skipSemicolon i = i ∨ row.skipSemicolon i = i + 1 ∧ row.isPunct i ";" = true := by
  unfold skipSemicolon
  split
  case isTrue here => exact .inr ⟨rfl, here⟩
  case isFalse => exact .inl rfl

theorem isStr_of_stringValue {value : String} (success : row.stringValue i = .ok value) :
    row.isStr i = true := by
  unfold stringValue at success
  split at success
  case isTrue here => exact here
  case isFalse => exact absurd success (by simp [fail])

/-- A declaration that names a module ends there. -/
theorem moduleName_ends (quotes : row.Quotes) {m : ModuleName} (success : row.moduleName i = .ok m)
    (before : ∀ k, k + 1 = i → row.text k ≠ "(") :
    ∃ last, m.next = last + 1 ∧ i ≤ last ∧ last < row.size ∧ row.EndsClear last := by
  unfold moduleName at success
  obtain ⟨specifier, value, success⟩ := ok_of_bind success
  have literal := isStr_of_stringValue value
  have own : row.EndsClear i := {
    word := isWord_of_isStr literal _
    opens := (quotes i literal).1
    dot := (quotes i literal).2
    literal := fun _ => before }
  have ended : ∃ last, m.next = row.skipSemicolon (last + 1) ∧ i ≤ last ∧ last < row.size ∧
      row.EndsClear last := by
    simp only at success
    split at success
    case isTrue =>
      split at success
      case h_1 close found =>
        cases success
        obtain ⟨begins, _, inRow, closes⟩ := matching_spec found
        refine ⟨close, rfl, by omega, inRow, ?_⟩
        rcases isPunct_of_closesBracket closes with punct | punct | punct <;>
          exact ends_of_isPunct punct (by decide) (by decide)
      case h_2 => exact absurd success (by simp [fail, bind, Except.bind])
    case isFalse =>
      cases success
      exact ⟨i, rfl, Nat.le_refl _, lt_of_isStr literal, own⟩
  obtain ⟨last, same, behind, inRow, ends⟩ := ended
  rw [same]
  rcases skipSemicolon_cases row (last + 1) with same | ⟨more, punct⟩
  · exact ⟨last, same, behind, inRow, ends⟩
  · exact ⟨last + 1, more, by omega, lt_of_isPunct punct,
      ends_of_isPunct punct (by decide) (by decide)⟩

theorem nameList_ends {readAlias : Nat → Except SyntaxError String} (fuel : Nat) :
    ∀ {i : Nat} {names : List (String × String)}, row.nameList readAlias fuel i = .ok (names, next) →
      ∃ last, next = last + 1 ∧ i ≤ last ∧ row.isPunct last "\x7d" = true := by
  induction fuel with
  | zero =>
      intro i names success
      exact absurd success (by simp [nameList, fail])
  | succ fuel ih =>
      intro i names success
      unfold nameList at success
      split at success
      case isTrue here =>
        cases success
        exact ⟨i, rfl, Nat.le_refl _, here⟩
      case isFalse =>
        obtain ⟨name, _, success⟩ := ok_of_bind success
        -- the list goes on behind the name, the new name, and a comma
        have others {behind : Nat} {renamed : String} (moved : i < behind)
            (success : (row.nameList readAlias fuel behind >>= fun r =>
              Except.ok ((name, renamed) :: r.1, r.2)) = .ok (names, next)) :
            ∃ last, next = last + 1 ∧ i ≤ last ∧ row.isPunct last "\x7d" = true := by
          obtain ⟨⟨rest, final⟩, listed, success⟩ := ok_of_bind success
          cases success
          obtain ⟨last, same, le, punct⟩ := ih listed
          exact ⟨last, same, by omega, punct⟩
        have behindName {x : String × Nat} (moved : i < x.2)
            (success : (do
              let after ←
                if row.isPunct x.2 "," then Except.ok (x.2 + 1)
                else if row.isPunct x.2 "\x7d" then Except.ok x.2
                else row.fail x.2 (.expected "\x7d" (row.found x.2))
              let r ← row.nameList readAlias fuel after
              Except.ok ((name, x.1) :: r.1, r.2)) = .ok (names, next)) :
            ∃ last, next = last + 1 ∧ i ≤ last ∧ row.isPunct last "\x7d" = true := by
          simp only at success
          split at success
          · exact others (Nat.lt_succ_of_lt moved) success
          · split at success
            · exact others moved success
            · exact absurd success (by simp [fail, bind, Except.bind])
        simp only at success
        split at success
        · obtain ⟨renamed, _, success⟩ := ok_of_bind success
          exact behindName (x := (renamed, i + 3)) (by simp) success
        · exact behindName (x := (name, i + 1)) (by simp) success

theorem importedNames_le {bind : String → String → String} {code : String} {j k : Nat}
    (success : row.importedNames bind j = .ok (code, k)) : j ≤ k := by
  unfold importedNames at success
  split at success
  · obtain ⟨_, _, success⟩ := ok_of_bind success
    obtain ⟨_, _, success⟩ := ok_of_bind success
    cases success
    omega
  · split at success
    · obtain ⟨⟨names, next⟩, listed, success⟩ := ok_of_bind success
      cases success
      obtain ⟨last, rfl, le, _⟩ := nameList_ends _ listed
      omega
    · cases success
      exact Nat.le_refl _

theorem lt_defaultImport (row : TokenRow) (i : Nat) : i < (row.defaultImport i).2 := by
  unfold defaultImport
  split
  · simp only
    split <;> omega
  · exact Nat.lt_succ_self i

theorem exportAlias_le {name? : Option String} {j : Nat}
    (success : row.exportAlias i = .ok (name?, j)) : i + 2 ≤ j := by
  unfold exportAlias at success
  split at success
  · obtain ⟨_, _, success⟩ := ok_of_bind success
    cases success
    omega
  · cases success
    exact Nat.le_refl _

theorem isWord_of_expectWord {w : String} (success : row.expectWord i w = .ok ()) :
    row.isWord i w = true := by
  unfold expectWord at success
  split at success
  case isTrue here => exact here
  case isFalse => exact absurd success (by simp [fail])

end TokenRow

/-- What a declaration at token `i` does to the rewrites: it replaces a run of tokens in front of
`next`, and inserts something at most. -/
inductive Declares (row : TokenRow) (i : Nat) (rs : Rewrites) : Rewrites → Nat → Prop
  | replace {last next : Nat} (pieces : List Piece) (le : i ≤ last) (inRow : last < row.size)
      (ends : row.EndsClear last) (before : last < next) :
      Declares row i rs (rs.insert (row.start i) ⟨row.stop last, pieces⟩) next
  | insert {rs' : Rewrites} {next : Nat} (place : Nat) (pieces : List Piece)
      (first : Declares row i rs rs' next) :
      Declares row i rs (rs'.insert place ⟨place, pieces⟩) next

namespace Analysis

variable {a a' : Analysis} {i next : Nat}

theorem not_opens_of_word {i : Nat} {w : String} (word : row.isWord i w = true) (other : w ≠ "(") :
    ∀ k, k + 1 = i + 1 → row.text k ≠ "(" := by
  intro k same
  rw [Nat.succ.inj same, TokenRow.text_of_isWord word]
  exact other

theorem importDeclaration_declares (quotes : row.Quotes) (word : row.isWord i "import" = true)
    (success : a.importDeclaration row i = .ok (a', next)) :
    Declares row i a.rewrites a'.rewrites next := by
  unfold Analysis.importDeclaration at success
  simp only at success
  split at success
  case isTrue =>
    obtain ⟨m, named, success⟩ := ok_of_bind success
    cases ok_of_pure success
    obtain ⟨last, same, le, inRow, ends⟩ :=
      TokenRow.moduleName_ends quotes named (not_opens_of_word word (by decide))
    rw [same]
    exact .replace _ (by omega) inRow ends (Nat.lt_succ_self _)
  case isFalse =>
    obtain ⟨⟨code, j⟩, names, success⟩ := ok_of_bind success
    obtain ⟨_, from_, success⟩ := ok_of_bind success
    obtain ⟨m, named, success⟩ := ok_of_bind success
    cases ok_of_pure success
    have begins := row.lt_defaultImport i
    have onward := TokenRow.importedNames_le names
    obtain ⟨last, same, le, inRow, ends⟩ := TokenRow.moduleName_ends quotes named
      (not_opens_of_word (TokenRow.isWord_of_expectWord from_) (by decide))
    rw [same]
    exact .replace _ (by omega) inRow ends (Nat.lt_succ_self _)

theorem defaultExport_declares (a : Analysis) (default : row.isWord (i + 1) "default" = true) :
    Declares row i a.rewrites (a.defaultExport row i).1.rewrites (a.defaultExport row i).2 := by
  have dropped (pieces : List Piece) : Declares row i a.rewrites
      (a.rewrite (row.start i) (row.stop (i + 1)) pieces).rewrites (i + 2) :=
    .replace _ (Nat.le_succ i) (TokenRow.lt_of_isWord default)
      (TokenRow.ends_of_isWord default (by decide) (by decide) (by decide)) (Nat.lt_succ_self _)
  unfold Analysis.defaultExport
  simp only
  split
  · split
    · exact dropped _
    · exact .insert _ _ (dropped _)
  · exact dropped _

theorem exportClause_declares (quotes : row.Quotes)
    (success : a.exportClause row i = .ok (a', next)) :
    Declares row i a.rewrites a'.rewrites next := by
  unfold Analysis.exportClause at success
  obtain ⟨⟨names, j⟩, listed, success⟩ := ok_of_bind success
  obtain ⟨brace, rfl, begins, punct⟩ := TokenRow.nameList_ends _ listed
  simp only at success
  split at success
  case isTrue from_ =>
    obtain ⟨m, named, success⟩ := ok_of_bind success
    cases ok_of_pure success
    obtain ⟨last, same, le, inRow, ends⟩ :=
      TokenRow.moduleName_ends quotes named (not_opens_of_word from_ (by decide))
    rw [same]
    exact .replace _ (by omega) inRow ends (Nat.lt_succ_self _)
  case isFalse =>
    cases ok_of_pure success
    rcases row.skipSemicolon_cases (brace + 1) with same | ⟨same, semicolon⟩
    · rw [same]
      exact .replace _ (by omega) (TokenRow.lt_of_isPunct punct)
        (TokenRow.ends_of_isPunct punct (by decide) (by decide)) (Nat.lt_succ_self _)
    · rw [same]
      exact .replace _ (by omega) (TokenRow.lt_of_isPunct semicolon)
        (TokenRow.ends_of_isPunct semicolon (by decide) (by decide)) (Nat.lt_succ_self _)

theorem exportAll_declares (quotes : row.Quotes) (success : a.exportAll row i = .ok (a', next)) :
    Declares row i a.rewrites a'.rewrites next := by
  unfold Analysis.exportAll at success
  obtain ⟨⟨name?, j⟩, alias_, success⟩ := ok_of_bind success
  obtain ⟨_, from_, success⟩ := ok_of_bind success
  obtain ⟨m, named, success⟩ := ok_of_bind success
  have begins := TokenRow.exportAlias_le alias_
  obtain ⟨last, same, le, inRow, ends⟩ := TokenRow.moduleName_ends quotes named
    (not_opens_of_word (TokenRow.isWord_of_expectWord from_) (by decide))
  simp only [same] at success
  cases name? with
  | some name =>
      cases ok_of_pure success
      exact .replace _ (by omega) inRow ends (Nat.lt_succ_self _)
  | none =>
      cases ok_of_pure success
      exact .replace _ (by omega) inRow ends (Nat.lt_succ_self _)

theorem exportDeclaration_declares (quotes : row.Quotes) (word : row.isWord i "export" = true)
    (success : a.exportDeclaration row i = .ok (a', next)) :
    Declares row i a.rewrites a'.rewrites next := by
  have dropped : Declares row i a.rewrites (a.rewrite (row.start i) (row.stop i) []).rewrites
      (i + 1) :=
    .replace _ (Nat.le_refl _) (TokenRow.lt_of_isWord word)
      (TokenRow.ends_of_isWord word (by decide) (by decide) (by decide)) (Nat.lt_succ_self _)
  unfold Analysis.exportDeclaration at success
  simp only at success
  split at success
  case isTrue default =>
    obtain ⟨same, behind⟩ := Prod.mk.inj (ok_of_pure success : a.defaultExport row i = (a', next))
    rw [← same, ← behind]
    exact defaultExport_declares a default
  split at success
  · obtain ⟨names, _, success⟩ := ok_of_bind success
    cases ok_of_pure success
    exact dropped
  split at success
  · obtain ⟨name, _, success⟩ := ok_of_bind success
    cases ok_of_pure success
    exact dropped
  split at success
  · exact exportClause_declares quotes success
  split at success
  · exact exportAll_declares quotes success
  · exact absurd success (by simp [TokenRow.fail])

end Analysis

/-- Runs of tokens that declarations replace, one behind the other, and rewrites of just these that
may also insert something. -/
structure Rewrites.Declared (row : TokenRow) (runs : List (Nat × Nat)) (rs : Rewrites) : Prop where
  apart : runs.Pairwise fun r r' => r.2 < r'.1
  declared : ∀ r ∈ runs, row.IsDeclaration r.1 r.2
  entries : ∀ e ∈ rs.entries, e.2.stop = e.1 ∨ ∃ r ∈ runs, row.Run r.1 r.2 e.1 e.2.stop

namespace Rewrites.Declared

variable {runs : List (Nat × Nat)} {rs rs' : Rewrites} {i next : Nat}

theorem nil (row : TokenRow) : Rewrites.Declared row [] {} :=
  ⟨.nil, fun _ member => absurd member List.not_mem_nil,
    fun _ member => absurd member List.not_mem_nil⟩

/-- A declaration adds a run in front of where it goes on. -/
theorem declares (declared : rs.Declared row runs) (behind : ∀ r ∈ runs, r.2 < i)
    (keyword : row.isWord i "import" = true ∨ row.isWord i "export" = true)
    (declares : Declares row i rs rs' next) :
    ∃ runs', rs'.Declared row runs' ∧ ∀ r ∈ runs', r.2 < next := by
  induction declares with
  | @replace last next pieces le inRow ends before =>
      refine ⟨runs ++ [(i, last)], ⟨?_, ?_, ?_⟩, ?_⟩
      · refine List.pairwise_append.mpr ⟨declared.apart, List.pairwise_singleton .., ?_⟩
        intro r member r' here
        rw [List.mem_singleton.mp here]
        exact behind r member
      · intro r member
        rcases List.mem_append.mp member with member | member
        · exact declared.declared r member
        · rw [List.mem_singleton.mp member]
          exact ⟨keyword, ends⟩
      · intro e entry
        rcases Rewrites.mem_insert entry with rfl | entry
        · exact .inr ⟨(i, last), List.mem_append_right _ (List.mem_singleton_self _),
            le, inRow, rfl, rfl⟩
        · exact (declared.entries e entry).imp_right fun ⟨r, member, run⟩ =>
            ⟨r, List.mem_append_left _ member, run⟩
      · intro r member
        rcases List.mem_append.mp member with member | member
        · have := behind r member
          omega
        · rw [List.mem_singleton.mp member]
          exact before
  | insert place pieces _ ih =>
      obtain ⟨runs', ⟨apart, isDeclaration, entries⟩, before⟩ := ih
      refine ⟨runs', ⟨apart, isDeclaration, fun e entry => ?_⟩, before⟩
      rcases Rewrites.mem_insert entry with rfl | entry
      · exact .inl rfl
      · exact entries e entry

end Rewrites.Declared

theorem Analysis.declarations_declared (quotes : row.Quotes) {a' : Analysis} (fuel : Nat) :
    ∀ {depth : Int} {i : Nat} {a : Analysis} {runs : List (Nat × Nat)},
      Analysis.declarations row fuel depth i a = .ok a' → a.rewrites.Declared row runs →
        (∀ r ∈ runs, r.2 < i) → ∃ runs', a'.rewrites.Declared row runs' := by
  induction fuel with
  | zero =>
      intro depth i a runs success declared _
      cases success
      exact ⟨runs, declared⟩
  | succ fuel ih =>
      intro depth i a runs success declared behind
      have later : ∀ r ∈ runs, r.2 < i + 1 := fun r member => Nat.lt_succ_of_lt (behind r member)
      unfold Analysis.declarations at success
      simp only at success
      split at success
      · cases ok_of_pure success
        exact ⟨runs, declared⟩
      split at success
      · rename_i here
        obtain ⟨⟨a₁, next⟩, declares, success⟩ := ok_of_bind success
        simp only [Bool.and_eq_true] at here
        have word := here.1.1.2
        obtain ⟨runs', declared, before⟩ := declared.declares behind (.inl word)
          (Analysis.importDeclaration_declares quotes word declares)
        exact ih success declared before
      split at success
      · rename_i here
        obtain ⟨⟨a₁, next⟩, declares, success⟩ := ok_of_bind success
        simp only [Bool.and_eq_true] at here
        have word := here.2
        obtain ⟨runs', declared, before⟩ := declared.declares behind (.inr word)
          (Analysis.exportDeclaration_declares quotes word declares)
        exact ih success declared before
      split at success
      · exact ih success declared later
      split at success
      · exact ih success declared later
      · exact ih success declared later

end JsxPreview.Source
