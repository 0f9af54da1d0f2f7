import JsxPreview.Proofs.Guarded.Search
import JsxPreview.Source.Binding

/-! # Guarded reading of declarators

The targets of a declaration are read with an allowance of three calls for each token, and each call on
a target works on fewer tokens than the pattern that holds it.  The guarded readers agree with the plain
ones (`bindingTarget_agrees`, `declarators_agrees`), and what they read ends behind its start and in the
row. -/
set_option autoImplicit false
namespace JsxPreview.Source

open JsxPreview.Text

namespace Guarded

open GuardedRead (pass fail)

/-! ## Brackets -/

/-- The bracket that closes the ones open in front of token `i`, among `n` tokens; none is closed that
was not opened. -/
def closingBracket (row : TokenRow) : Nat → Nat → Nat → Guarded (Option Nat)
  | 0, _, _ => .ok none
  | n + 1, depth, i => do
      subscript row i
      if row.opensBracket i then closingBracket row n (depth + 1) (i + 1)
      else if row.closesBracket i then do
        ensure (0 < depth) .count
        if depth = 1 then .ok (some i) else closingBracket row n (depth - 1) (i + 1)
      else closingBracket row n depth (i + 1)

/-- The bracket that closes the one at `i`. -/
def bracketEnd (row : TokenRow) (i : Nat) : Guarded (Option Nat) :=
  closingBracket row (row.size - i) 0 i

/-! ## Targets -/

/-- Makes sure that the tokens from `i'` on are among those from `i` on, and fewer. -/
def shorter (row : TokenRow) (i i' : Nat) : Guarded Unit :=
  ensure (Narrower i row.size i' row.size) .range

/-- The token behind the default at token `k`, if there is one. -/
def skipDefault (row : TokenRow) (k : Nat) : Guarded Nat :=
  if row.isPunct k "=" then commaFrom row true (row.size - (k + 1)) 0 (k + 1) else .ok k

mutual

/-- The names that the target at token `k` binds. -/
def bindingTarget (row : TokenRow) : Nat → Nat → GuardedRead (List String × Nat)
  | 0, _ => pass (.error .depth)
  | fuel + 1, k =>
      if row.isPunct k "\x7b" || row.isPunct k "[" then
        patternItems row fuel k (row.isPunct k "\x7b") (k + 1)
      else if row.isAnyWord k then pure ([row.text k], k + 1)
      else fail row k (.expectedIdentifier (row.found k))
termination_by structural fuel => fuel

/-- The names bound from token `k` on to the end of the pattern that was opened at `opening`. -/
def patternItems (row : TokenRow) : Nat → Nat → Bool → Nat → GuardedRead (List String × Nat)
  | 0, _, _, _ => pass (.error .depth)
  | fuel + 1, opening, object, k =>
      if row.size ≤ k then fail row opening .endInPattern
      else if row.isPunct k (if object then "\x7d" else "]") then pure ([], k + 1)
      else if row.isPunct k "," then patternItems row fuel opening object (k + 1)
      else if row.isPunct k "..." then do
        pass (shorter row opening (k + 1))
        let (names, next) ← bindingTarget row fuel (k + 1)
        pass (ensure (k < next) .still)
        let (more, final) ← patternItems row fuel opening object next
        pure (names ++ more, final)
      else do
        pass (shorter row opening k)
        let (names, next) ←
          if object then patternProperty row fuel k else bindingTarget row fuel k
        let next ← pass (skipDefault row next)
        pass (ensure (k < next) .still)
        let (more, final) ← patternItems row fuel opening object next
        pure (names ++ more, final)
termination_by structural fuel => fuel

/-- The names bound by one property of an object pattern. -/
def patternProperty (row : TokenRow) : Nat → Nat → GuardedRead (List String × Nat)
  | 0, _ => pass (.error .depth)
  | fuel + 1, k =>
      if row.isPunct k "[" then do
        match ← pass (bracketEnd row k) with
        | none => fail row k .unexpectedEnd
        | some close =>
            if row.isPunct (close + 1) ":" then do
              pass (shorter row k (close + 2))
              bindingTarget row fuel (close + 2)
            else fail row (close + 1) (.expected ":" (row.found (close + 1)))
      else if row.isPunct (k + 1) ":" then do
        pass (shorter row k (k + 2))
        bindingTarget row fuel (k + 2)
      else if row.isAnyWord k then pure ([row.text k], k + 1)
      else fail row k (.unexpectedInPattern (row.found k))
termination_by structural fuel => fuel

end

/-! ## Agreement -/

theorem closingBracket_same {row : TokenRow} {n depth i : Nat} (inRow : n = 0 ∨ i + n ≤ row.size) :
    closingBracket row n (depth + 1) i = .ok (row.closing n (depth + 1) i) := by
  induction n generalizing depth i with
  | zero => rfl
  | succ n ih =>
      have next : n = 0 ∨ i + 1 + n ≤ row.size := by omega
      unfold closingBracket
      rw [TokenRow.closing_succ, subscript_bind (by omega)]
      split
      · exact ih next
      · split
        · rw [ensure_bind (Nat.succ_pos depth)]
          cases depth with
          | zero => rfl
          | succ depth => exact ih next
        · exact ih next

/-- The search starts at a bracket, so at each closing one some bracket is open. -/
theorem bracketEnd_same {row : TokenRow} {i : Nat} (opens : row.opensBracket i = true) :
    bracketEnd row i = .ok (row.matching i row.size) := by
  have inRow : i < row.size := by
    obtain ⟨t, found, -⟩ := TokenRow.get?_of_any opens
    exact TokenRow.lt_of_get? found
  obtain ⟨n, size⟩ : ∃ n, row.size - i = n + 1 := ⟨row.size - i - 1, by omega⟩
  rw [bracketEnd, TokenRow.matching, Nat.min_self, size, closingBracket, TokenRow.closing_succ,
    subscript_bind inRow, if_pos opens, if_pos opens]
  exact closingBracket_same (by omega)

theorem skipDefault_same (row : TokenRow) (k : Nat) : skipDefault row k =
    .ok (if row.isPunct k "=" then row.commaFrom true (row.size - (k + 1)) 0 (k + 1) else k) := by
  unfold skipDefault
  split
  · exact commaFrom_same true 0 (by omega)
  · rfl

theorem le_skipDefault (row : TokenRow) (k : Nat) :
    k ≤ if row.isPunct k "=" then row.commaFrom true (row.size - (k + 1)) 0 (k + 1) else k := by
  split
  · exact Nat.le_of_succ_le (TokenRow.le_commaFrom ..)
  · exact Nat.le_refl k

mutual

theorem bindingTarget_agrees (row : TokenRow) : (fuel k : Nat) → 0 < fuel →
    3 * (row.size - k) ≤ fuel →
    Agrees (bindingTarget row fuel k) (row.bindingTarget fuel k) fun r => k < r.2 ∧ r.2 ≤ row.size
  | 0, _, some', _ => absurd some' (by omega)
  | fuel + 1, k, _, enough => by
      unfold bindingTarget TokenRow.bindingTarget
      refine .ite (fun opens => ?_) fun _ => .ite (fun word => .pure ?_) fun _ => .fail row k (by simp)
      · have inRow : k < row.size := by
          rcases Bool.or_eq_true_iff.mp opens with opens | opens <;> exact TokenRow.lt_of_isPunct opens
        exact (patternItems_agrees row fuel k _ (k + 1) (Nat.lt_succ_self k) inRow (by omega)).mono
          fun r ends => ⟨Nat.lt_of_succ_lt ends.1, ends.2⟩
      · exact ⟨Nat.lt_succ_self k, TokenRow.lt_of_isAnyWord word⟩
termination_by structural fuel => fuel

theorem patternItems_agrees (row : TokenRow) : (fuel opening : Nat) → (object : Bool) → (k : Nat) →
    opening < k → opening < row.size → 3 * (row.size - k) + 1 ≤ fuel →
    Agrees (patternItems row fuel opening object k) (row.patternItems fuel opening object k)
      fun r => k < r.2 ∧ r.2 ≤ row.size
  | 0, _, _, _, _, _, enough => absurd enough (by omega)
  | fuel + 1, opening, object, k, inside, there, enough => by
      unfold patternItems TokenRow.patternItems
      refine .ite (fun _ => .fail row opening (by simp)) fun inRow =>
        .ite (fun closes => .pure ⟨Nat.lt_succ_self k, TokenRow.lt_of_isPunct closes⟩) fun _ => ?_
      have rest (next : Nat) (behind : k < next) :
          Agrees (patternItems row fuel opening object next) (row.patternItems fuel opening object next)
            fun r => k < r.2 ∧ r.2 ≤ row.size :=
        (patternItems_agrees row fuel opening object next (by omega) there (by omega)).mono
          fun r ends => ⟨by omega, ends.2⟩
      refine .ite (fun _ => rest (k + 1) (Nat.lt_succ_self k)) fun _ => .ite (fun _ => ?_) fun _ => ?_
      · refine .ensure (.of_lt (by omega) (Nat.le_refl _) (by omega)) ?_
        refine .bind (bindingTarget_agrees row fuel (k + 1) (by omega) (by omega)) fun r ends => ?_
        refine .ensure (by omega) ?_
        exact .bind (rest r.2 (by omega)) fun r' ends => .pure ends
      · refine .ensure (.of_lt (by omega) (Nat.le_refl _) (by omega)) ?_
        extract_lets after after'
        have tail (r : List String × Nat) (ends : k < r.2 ∧ r.2 ≤ row.size) :
            Agrees (after r) (after' r) fun r => k < r.2 ∧ r.2 ≤ row.size := by
          have begins := le_skipDefault row r.2
          refine .pass (skipDefault_same row r.2) (.ensure (by omega) ?_)
          exact .bind (rest _ (by omega)) fun r' ends' => .pure ends'
        exact .ite (fun _ => .bind (patternProperty_agrees row fuel k (by omega) (by omega)) tail)
          fun _ => .bind (bindingTarget_agrees row fuel k (by omega) (by omega)) tail
termination_by structural fuel => fuel

theorem patternProperty_agrees (row : TokenRow) : (fuel k : Nat) → k < row.size →
    3 * (row.size - k) ≤ fuel →
    Agrees (patternProperty row fuel k) (row.patternProperty fuel k)
      fun r => k < r.2 ∧ r.2 ≤ row.size
  | 0, _, _, enough => absurd enough (by omega)
  | fuel + 1, k, inRow, enough => by
      unfold patternProperty TokenRow.patternProperty
      refine .ite (fun opens => ?_) fun _ => .ite (fun _ => ?_) fun _ =>
        .ite (fun word => .pure ⟨Nat.lt_succ_self k, TokenRow.lt_of_isAnyWord word⟩)
          fun _ => .fail row k (by simp)
      · have opens' : row.opensBracket k = true := by
          obtain ⟨t, found, punct, same⟩ := TokenRow.isPunct_iff.mp opens
          simp [TokenRow.opensBracket, found, punct, same]
        refine .pass (bracketEnd_same opens') ?_
        cases found : row.matching k row.size with
        | none => exact .fail row k (by simp)
        | some close =>
            have begins := (TokenRow.matching_spec found).1
            refine .ite (fun _ => ?_) fun _ => .fail row _ (by simp)
            refine .ensure (.of_lt (by omega) (Nat.le_refl _) (by omega)) ?_
            exact (bindingTarget_agrees row fuel (close + 2) (by omega) (by omega)).mono
              fun r ends => ⟨by omega, ends.2⟩
      · refine .ensure (.of_lt (by omega) (Nat.le_refl _) (by omega)) ?_
        exact (bindingTarget_agrees row fuel (k + 2) (by omega) (by omega)).mono
          fun r ends => ⟨by omega, ends.2⟩
termination_by structural fuel => fuel

end

/-! ## Declarators -/

/-- Whether a line ends in front of a token that is there. -/
def newlineBefore (source : List Char) (row : TokenRow) (i : Nat) : Guarded Bool :=
  if i = 0 then .ok false
  else do
    subscript row (i - 1)
    subscript row i
    breakBetween source row (row.stop (i - 1)) (row.start i)

/-- Whether a word on a new line cannot go on with the expression in front of it. -/
def startsStatement (source : List Char) (row : TokenRow) (k : Nat) : Guarded Bool := do
  let broken ← newlineBefore source row k
  if !broken || !row.isAnyWord k || ["instanceof", "in", "of"].contains (row.text k) then .ok false
  else do
    ensure (0 < k) .count
    subscript row (k - 1)
    .ok (!row.isAnyPunct (k - 1) || [")", "]", "\x7d", "++", "--"].contains (row.text (k - 1)))

/-- Whether a statement that starts at token `k` ends an initializer that starts at token `first`. -/
def statementAt (source : List Char) (row : TokenRow) (first depth k : Nat) : Guarded Bool :=
  if depth = 0 && first < k && !row.isAnyPunct k then startsStatement source row k else .ok false

/-- The end of an initializer that starts at token `first`, and whether a comma ends it. -/
def initializerEnd (source : List Char) (row : TokenRow) (first : Nat) :
    Nat → Nat → Nat → Guarded (Nat × Bool)
  | 0, _, k => do
      ensure (row.size ≤ k) .depth
      .ok (k, false)
  | n + 1, depth, k => do
      subscript row k
      if row.opensBracket k then initializerEnd source row first n (depth + 1) (k + 1)
      else if row.closesBracket k then
        if depth = 0 then .ok (k, false)
        else do
          ensure (0 < depth) .count
          initializerEnd source row first n (depth - 1) (k + 1)
      else if depth = 0 && row.isPunct k "," then .ok (k, true)
      else if depth = 0 && row.isPunct k ";" then .ok (k, false)
      else do
        let starts ← statementAt source row first depth k
        if starts then .ok (k, false) else initializerEnd source row first n depth (k + 1)

/-- The names bound by the declarators from token `k` on. -/
def declarators (source : List Char) (row : TokenRow) : Nat → Nat → GuardedRead (List String)
  | 0, _ => pass (.error .depth)
  | fuel + 1, k => do
      let (names, next) ← bindingTarget row row.patternAllowance k
      let (stop, more) ← pass (initializerEnd source row next (row.size - next) 0 next)
      if more then do
        pass (ensure (k < stop + 1) .still)
        let rest ← declarators source row fuel (stop + 1)
        pure (names ++ rest)
      else pure names

section

variable {source : List Char} {row : TokenRow} {low high : Nat}

theorem newlineBefore_same (lies : row.Lies source low high) {i : Nat} (inRow : i < row.size) :
    newlineBefore source row i = .ok (row.breakBefore i) := by
  unfold newlineBefore
  cases i with
  | zero => rfl
  | succ i =>
      rw [if_neg (Nat.succ_ne_zero i), Nat.add_sub_cancel, subscript_bind (Nat.lt_of_succ_lt inRow),
        subscript_bind inRow, breakBetween_same lies (Nat.lt_succ_self i) inRow]
      obtain ⟨first, found⟩ := TokenRow.get?_of_lt (Nat.lt_of_succ_lt inRow)
      obtain ⟨token, found'⟩ := TokenRow.get?_of_lt inRow
      rw [TokenRow.stop_of_get? found, TokenRow.start_of_get? found', TokenRow.breakBefore, found, found']

theorem startsStatement_same (lies : row.Lies source low high) {k : Nat} (inRow : k < row.size) :
    startsStatement source row k = .ok (row.startsStatement k) := by
  unfold startsStatement TokenRow.startsStatement
  rw [newlineBefore_same lies inRow, ok_bind]
  cases broken : row.breakBefore k with
  | false => rfl
  | true =>
      have positive : 0 < k := by
        cases k with
        | zero => cases broken
        | succ k => exact Nat.succ_pos k
      cases row.isAnyWord k with
      | false => rfl
      | true =>
          cases ["instanceof", "in", "of"].contains (row.text k) with
          | true => rfl
          | false =>
              show (ensure (0 < k) .count >>= fun _ => _) = _
              rw [ensure_bind positive, subscript_bind (by omega)]
              simp only [Bool.not_false, Bool.and_true, Bool.true_and]

theorem statementAt_same (lies : row.Lies source low high) {first depth k : Nat}
    (inRow : k < row.size) : statementAt source row first depth k =
      .ok (depth = 0 && first < k && !row.isAnyPunct k && row.startsStatement k) := by
  unfold statementAt
  split
  case isTrue here => rw [here, startsStatement_same lies inRow, Bool.true_and]
  case isFalse here => rw [Bool.eq_false_iff.mpr here, Bool.false_and]

theorem initializerEnd_same (lies : row.Lies source low high) {first n depth k : Nat}
    (enough : n = row.size - k) :
    initializerEnd source row first n depth k = .ok (row.initializerEnd first n depth k) := by
  induction n generalizing depth k with
  | zero => exact ensure_bind (by omega) _
  | succ n ih =>
      have next {depth : Nat} : initializerEnd source row first n depth (k + 1) =
          .ok (row.initializerEnd first n depth (k + 1)) := ih (by omega)
      have inRow : k < row.size := by omega
      unfold initializerEnd TokenRow.initializerEnd
      rw [subscript_bind inRow]
      split
      · exact next
      · split
        · split
          · rfl
          · rw [ensure_bind (by omega)]
            exact next
        · split
          · rfl
          · split
            · rfl
            · rw [statementAt_same lies inRow, ok_bind]
              split
              · rfl
              · exact next

theorem le_initializerEnd {first n depth k : Nat} : k ≤ (row.initializerEnd first n depth k).1 := by
  induction n generalizing depth k with
  | zero => exact Nat.le_refl _
  | succ n ih =>
      unfold TokenRow.initializerEnd
      repeat' split
      all_goals first | exact Nat.le_refl _ | exact Nat.le_of_succ_le ih

theorem declarators_agrees (lies : row.Lies source low high) : (fuel k : Nat) → row.size - k < fuel →
    Agrees (declarators source row fuel k) (row.declarators fuel k) fun _ => True
  | 0, _, enough => absurd enough (by omega)
  | fuel + 1, k, enough => by
      unfold declarators TokenRow.declarators
      refine .bind (bindingTarget_agrees row row.patternAllowance k ?_ ?_) fun r ends => ?_
      · rw [TokenRow.patternAllowance]; omega
      · rw [TokenRow.patternAllowance]; omega
      · have begins : r.2 ≤ (row.initializerEnd r.2 (row.size - r.2) 0 r.2).1 := le_initializerEnd
        refine .pass (initializerEnd_same lies rfl) ?_
        refine .ite (fun _ => ?_) fun _ => .pure trivial
        refine .ensure (by omega) ?_
        exact .bind (declarators_agrees lies fuel _ (by omega)) fun _ _ => .pure trivial

end

end Guarded

end JsxPreview.Source
