import JsxPreview.Proofs.Guarded.Extent

/-! # Searches for the ends of statements

The walk looks back for what it has not erased, and ahead for a brace, the end of a statement and the
end of a field.  The guarded searches find what the plain ones find. -/
set_option autoImplicit false
namespace JsxPreview.Source

open JsxPreview.Text

namespace TokenRow

variable {row : TokenRow} {i j stop : Nat}

theorem closing_lt {n : Nat} (found : row.closing n 0 i = some j) : i < j := by
  induction n generalizing i with
  | zero => exact absurd found (by simp [closing])
  | succ n ih =>
      unfold closing at found
      split at found
      · exact (closing_spec found).1
      · split at found
        · exact absurd found (by simp)
        · exact Nat.lt_of_succ_lt (ih found)

/-- A bracket stands in front of the one that closes it. -/
theorem matching_lt (found : row.matching i stop = some j) : i < j := closing_lt found

theorem lt_of_blockEnd {close : Nat}
    (found : (if row.isPunct j "\x7b" then row.matching j stop else none) = some close) :
    j < close := by
  split at found
  · exact matching_lt found
  · exact absurd found (by simp)

theorem lastKept_lt {e : Erasure} (found : row.lastKept e i = some j) : j < i := by
  induction i with
  | zero => exact absurd found (by simp [lastKept])
  | succ i ih =>
      unfold lastKept at found
      split at found
      · exact Nat.lt_succ_of_lt (ih found)
      · cases found
        exact Nat.lt_succ_self _

theorem braceFrom_le {n : Nat} : j ≤ row.braceFrom stop n j := by
  induction n generalizing j with
  | zero => exact Nat.le_refl _
  | succ n ih =>
      unfold braceFrom
      split
      · exact Nat.le_refl _
      · split
        case h_1 close place found =>
          have begins : j ≤ close := by
            split at found
            · exact (angleClose_spec found).1
            · exact absurd found (by simp)
          exact Nat.le_trans (Nat.le_succ_of_le begins) ih
        case h_2 => exact Nat.le_of_succ_le ih

end TokenRow

namespace Erase

variable {row : TokenRow}

theorem plainBraceFrom_le {n j : Nat} : j ≤ plainBraceFrom row n j := by
  induction n generalizing j with
  | zero => exact Nat.le_refl _
  | succ n ih =>
      unfold plainBraceFrom
      split
      · exact Nat.le_refl _
      · exact Nat.le_of_succ_le ih

theorem statementEnd_le {n depth j : Nat} : j ≤ statementEnd row n depth j := by
  induction n generalizing depth j with
  | zero => exact Nat.le_refl _
  | succ n ih =>
      unfold statementEnd
      split
      · exact Nat.le_refl _
      · split
        · exact Nat.le_of_succ_le ih
        · split
          · exact Nat.le_of_succ_le ih
          · exact Nat.le_of_succ_le ih

theorem fieldEnd_bounds {first n depth j : Nat} :
    j ≤ fieldEnd row first n depth j ∧ fieldEnd row first n depth j ≤ j + n := by
  induction n generalizing depth j with
  | zero => exact ⟨Nat.le_refl _, Nat.le_refl _⟩
  | succ n ih =>
      have next {depth : Nat} : j ≤ fieldEnd row first n depth (j + 1) ∧
          fieldEnd row first n depth (j + 1) ≤ j + (n + 1) := by
        obtain ⟨begins, ends⟩ : j + 1 ≤ fieldEnd row first n depth (j + 1) ∧
            fieldEnd row first n depth (j + 1) ≤ j + 1 + n := ih
        omega
      unfold fieldEnd
      simp only
      split
      · exact ⟨Nat.le_refl _, Nat.le_add_right _ _⟩
      · split
        · exact next
        · split
          · exact next
          · exact next

end Erase

namespace Guarded

variable {source : List Char} {row : TokenRow} {low high stop : Nat}

/-! ## Searches -/

/-- The closest token in front of token `i` that is not erased. -/
def lastKept (row : TokenRow) (e : Erasure) : Nat → Guarded (Option Nat)
  | 0 => .ok none
  | i + 1 => do
      subscript row i
      if e.isBlank (row.start i) then lastKept row e i else .ok (some i)

def isStatementStart (source : List Char) (row : TokenRow) (e : Erasure) (i : Nat) :
    Guarded Bool := do
  match ← lastKept row e i with
  | none => .ok true
  | some p =>
      subscript row p
      subscript row i
      let broken ← breakBetween source row (row.stop p) (row.start i)
      .ok (broken || (row.isAnyPunct p && [";", "\x7b", "\x7d"].contains (row.text p)) ||
        row.isWord p "export" || row.isWord p "default")

/-- The first brace from token `j` on that stands outside type arguments, among `n` tokens. -/
def braceFrom (row : TokenRow) (stop : Nat) : Nat → Nat → Guarded Nat
  | 0, j => do
      ensure (stop ≤ j) .depth
      .ok j
  | n + 1, j =>
      if stop ≤ j || row.isPunct j "\x7b" then .ok j
      else do
        match ← (if row.isPunct j "<" then angleClose row j stop else .ok none :
            Guarded (Option (Nat × Nat))) with
        | some (close, _) => do
            ensure (j < close + 1) .still
            braceFrom row stop n (close + 1)
        | none => braceFrom row stop n (j + 1)

/-- The brace that closes the one at token `j`, if there is one there. -/
def blockEnd (row : TokenRow) (j stop : Nat) : Guarded (Option Nat) :=
  if row.isPunct j "\x7b" then matching row j stop else .ok none

/-- The first brace from token `j` on, among `n` tokens. -/
def plainBraceFrom (row : TokenRow) (stop : Nat) : Nat → Nat → Guarded Nat
  | 0, j => do
      ensure (stop ≤ j) .depth
      .ok j
  | n + 1, j => if row.isPunct j "\x7b" then .ok j else plainBraceFrom row stop n (j + 1)

/-- The end of a statement: a semicolon or a new line outside brackets. -/
def statementEnd (source : List Char) (row : TokenRow) (stop : Nat) : Nat → Nat → Nat → Guarded Nat
  | 0, _, j => do
      ensure (stop ≤ j) .depth
      .ok j
  | n + 1, depth, j => do
      let broken ← breakBefore source row j
      if depth == 0 && (row.isPunct j ";" || broken) then .ok j
      else do
        subscript row j
        if row.opensBracket j then statementEnd source row stop n (depth + 1) (j + 1)
        else if row.closesBracket j then statementEnd source row stop n (depth - 1) (j + 1)
        else statementEnd source row stop n depth (j + 1)

/-- The end of an initializer of a field: a semicolon, or a new line on which a member starts. -/
def fieldEnd (source : List Char) (row : TokenRow) (stop first : Nat) :
    Nat → Nat → Nat → Guarded Nat
  | 0, _, j => do
      ensure (stop ≤ j) .depth
      .ok j
  | n + 1, depth, j => do
      let broken ← breakBefore source row j
      ensure (broken = true → 0 < j) .count
      let newMember := broken && row.isOperandEnd (j - 1) &&
        (row.isPunct j "#" || (row.isAnyWord j &&
          !(["in", "instanceof", "as", "satisfies"].contains (row.text j))))
      if depth == 0 && first < j && (row.isPunct j ";" || newMember) then .ok j
      else do
        subscript row j
        if row.opensBracket j then fieldEnd source row stop first n (depth + 1) (j + 1)
        else if row.closesBracket j then fieldEnd source row stop first n (depth - 1) (j + 1)
        else fieldEnd source row stop first n depth (j + 1)

theorem lastKept_same (e : Erasure) {i : Nat} (inRow : i ≤ row.size) :
    lastKept row e i = .ok (row.lastKept e i) := by
  induction i with
  | zero => rfl
  | succ i ih =>
      unfold lastKept TokenRow.lastKept
      rw [subscript_bind inRow]
      split
      · exact ih (Nat.le_of_succ_le inRow)
      · rfl

theorem isStatementStart_same (lies : row.Lies source low high) (e : Erasure) {i : Nat}
    (inRow : i < row.size) :
    isStatementStart source row e i = .ok (row.isStatementStart e i) := by
  unfold isStatementStart TokenRow.isStatementStart
  rw [lastKept_same e (Nat.le_of_lt inRow), ok_bind]
  cases found : row.lastKept e i with
  | none => rfl
  | some p =>
      have less := TokenRow.lastKept_lt found
      simp only
      rw [subscript_bind (Nat.lt_trans less inRow), subscript_bind inRow,
        breakBetween_same lies less inRow]
      rfl

theorem braceFrom_same (inRow : stop ≤ row.size) {n j : Nat} (enough : stop ≤ j + n) :
    braceFrom row stop n j = .ok (row.braceFrom stop n j) := by
  induction n generalizing j with
  | zero => exact ensure_bind enough _
  | succ n ih =>
      unfold braceFrom TokenRow.braceFrom
      split
      case isTrue => rfl
      case isFalse =>
        have search : (if row.isPunct j "<" then angleClose row j stop else .ok none :
            Guarded (Option (Nat × Nat))) =
            .ok (if row.isPunct j "<" then row.angleClose j stop else none) := by
          split
          · exact angleClose_same inRow j
          · rfl
        rw [search, ok_bind]
        cases found : if row.isPunct j "<" then row.angleClose j stop else none with
        | none => exact ih (by omega)
        | some angle =>
            have begins : j ≤ angle.1 := by
              split at found
              · exact (TokenRow.angleClose_spec found).1
              · exact absurd found (by simp)
            simp only
            rw [ensure_bind (by omega)]
            exact ih (by omega)

theorem blockEnd_same (row : TokenRow) (j stop : Nat) :
    blockEnd row j stop = .ok (if row.isPunct j "\x7b" then row.matching j stop else none) := by
  unfold blockEnd
  split
  · exact matching_same row j stop
  · rfl

theorem plainBraceFrom_same {n j : Nat} (enough : stop ≤ j + n) :
    plainBraceFrom row stop n j = .ok (Erase.plainBraceFrom row n j) := by
  induction n generalizing j with
  | zero => exact ensure_bind enough _
  | succ n ih =>
      unfold plainBraceFrom Erase.plainBraceFrom
      split
      · rfl
      · exact ih (by omega)

theorem statementEnd_same (lies : row.Lies source low high) (inRow : stop ≤ row.size)
    {n depth j : Nat} (enough : stop ≤ j + n) (exact' : n = 0 ∨ j + n ≤ stop) :
    statementEnd source row stop n depth j = .ok (Erase.statementEnd row n depth j) := by
  induction n generalizing depth j with
  | zero => exact ensure_bind enough _
  | succ n ih =>
      have next {depth : Nat} : statementEnd source row stop n depth (j + 1) =
          .ok (Erase.statementEnd row n depth (j + 1)) := ih (by omega) (by omega)
      unfold statementEnd Erase.statementEnd
      rw [breakBefore_same lies, ok_bind]
      split
      · rfl
      · rw [subscript_bind (by omega)]
        split
        · exact next
        · split
          · exact next
          · exact next

theorem fieldEnd_same (lies : row.Lies source low high) (inRow : stop ≤ row.size)
    {first n depth j : Nat} (enough : stop ≤ j + n) (exact' : n = 0 ∨ j + n ≤ stop) :
    fieldEnd source row stop first n depth j = .ok (Erase.fieldEnd row first n depth j) := by
  induction n generalizing depth j with
  | zero => exact ensure_bind enough _
  | succ n ih =>
      have next {depth : Nat} : fieldEnd source row stop first n depth (j + 1) =
          .ok (Erase.fieldEnd row first n depth (j + 1)) := ih (by omega) (by omega)
      unfold fieldEnd Erase.fieldEnd
      rw [breakBefore_same lies, ok_bind, ensure_bind]
      · simp only
        split
        · rfl
        · rw [subscript_bind (by omega)]
          split
          · exact next
          · split
            · exact next
            · exact next
      · intro broken
        cases j with
        | zero => exact absurd broken (by simp [TokenRow.breakBefore])
        | succ j => exact Nat.succ_pos j

end Guarded

end JsxPreview.Source
