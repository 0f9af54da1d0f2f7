import JsxPreview.Proofs.Guarded.Declaration

/-! # Guarded readers of expressions and classes

Type arguments, assertions, the heads of classes and what stands around the name of a member: each
reader agrees with its guarded copy, and gives a token behind the one at which it starts, or that one
where nothing need be there. -/
set_option autoImplicit false
namespace JsxPreview.Source

open JsxPreview.Text

theorem TokenRow.isAnyWord_of_closesBracket {row : TokenRow} {i : Nat}
    (closes : row.closesBracket i = true) : row.isAnyWord i = false := by
  obtain ⟨⟨shape, _, _, _⟩, found, known⟩ := get?_of_any closes
  rw [isAnyWord, found]
  rw [Bool.and_eq_true] at known
  have punct := known.1
  cases shape <;> first | rfl | exact absurd punct (by simp [Token.isPunct])

namespace Guarded

variable {source : List Char} {row : TokenRow} {low high stop : Nat}

open GuardedErase (pass fail)

/-- Whether the parentheses at token `i` are followed by an arrow, maybe behind a type. -/
def arrowFollows (source : List Char) (row : TokenRow) (i stop : Nat) : Guarded Bool := do
  match ← matching row i stop with
  | none => .ok false
  | some paren =>
      let (next, _) ← skipType source row (paren + 2) stop true
      .ok (row.isPunct (paren + 1) "=>" || (row.isPunct (paren + 1) ":" && row.isPunct next "=>"))

/-- Erases `f<T>` down to `f` in front of a call, and the type parameters of an arrow function. -/
def typeArguments (source : List Char) (row : TokenRow) (i stop : Nat) : GuardedErase Nat := do
  match ← pass (angleClose row i stop) with
  | none => pure (i + 1)
  | some (close, place) =>
      if place != row.stop close || !row.isPunct (close + 1) "(" then pure (i + 1)
      else
        let kept ← pass (lastKept row (← get) i)
        let broken ← pass (breakBefore source row i)
        let arrow ← pass (arrowFollows source row (close + 1) stop)
        let afterOperand := (kept.map row.isOperandEnd).getD false
        if (afterOperand && !broken) || (!afterOperand && arrow) then
          blank (row.start i) place
          pure (close + 1)
        else pure (i + 1)

/-- Erases the `!` at token `i` if it asserts that the operand in front is there. -/
def nonNullAssertion (row : TokenRow) (i : Nat) : GuardedErase Nat := do
  let kept ← pass (lastKept row (← get) i)
  let asserted := match kept with
    | none => false
    | some p =>
        row.stop p == row.start i && (row.isName p || row.isPunct p ")" || row.isPunct p "]")
  if asserted then blankTokens row i i
  pure (i + 1)

/-- Erases the `as` or `satisfies` at token `i` with its type, if it follows an operand. -/
def assertion (source : List Char) (row : TokenRow) (i stop : Nat) : GuardedErase Nat := do
  let kept ← pass (lastKept row (← get) i)
  let broken ← pass (breakBefore source row i)
  let afterOperand := (kept.map row.isOperandEnd).getD false
  if !broken && afterOperand && row.startsType (i + 1) stop then
    let (next, place) ← pass (skipType source row (i + 1) stop false)
    blank (row.start i) place
    pure next
  else pure (i + 1)

/-- The first brace or `implements` of a class that extends an expression. -/
def heritage (row : TokenRow) (stop : Nat) : Nat → Nat → GuardedErase Nat
  | 0, j => do
      pass (ensure (stop ≤ j) .depth)
      pure j
  | n + 1, j =>
      if stop ≤ j || row.isPunct j "\x7b" || row.isWord j "implements" then pure j
      else do
        let last ← pass (before j)
        if row.isPunct j "<" && row.isName last then do
          let next ← typeParameters row j stop
          pass (ensure (j < next) .still)
          heritage row stop n next
        else if row.isPunct j "(" || row.isPunct j "[" then do
          let close ← bracket row j stop ")"
          pass (ensure (j < close + 1) .still)
          heritage row stop n (close + 1)
        else heritage row stop n (j + 1)

/-- Reads the head of a class up to its brace. -/
def classHead (row : TokenRow) (i stop : Nat) : GuardedErase Nat := do
  let isNamed :=
    row.isAnyWord (i + 1) && !row.isWord (i + 1) "extends" && !row.isWord (i + 1) "implements"
  let j ← typeParameters? row (if isNamed then i + 2 else i + 1) stop
  let j ← if row.isWord j "extends" then heritage row stop (stop - j) (j + 1) else pure j
  if row.isWord j "implements" then
    let brace ← pass (braceFrom row stop (stop - j) j)
    let last ← pass (before brace)
    blank (row.start j) (row.stop last)
    pure brace
  else pure j

/-- Reads the modifiers of a member: the token behind them, and whether they say that the member
does not exist. -/
def modifiers (row : TokenRow) : Nat → Nat → Bool → GuardedErase (Nat × Bool)
  | 0, j, dropped => do
      pass (ensure (row.isAnyWord j = false) .depth)
      pure (j, dropped)
  | n + 1, j, dropped =>
      if row.isAnyWord j && Erase.memberModifiers.contains (row.text j) &&
          Erase.memberNameFollows row (j + 1) then do
        if Erase.erasedModifiers.contains (row.text j) then blankTokens row j j
        modifiers row n (j + 1) (dropped || ["abstract", "declare"].contains (row.text j))
      else pure (j, dropped)

/-- Erases the index signature at token `j`, with all of the member from its first token on. -/
def indexSignature (source : List Char) (row : TokenRow) (member j close : Nat) :
    GuardedErase Nat := do
  let close' ← bracket row j close "]"
  let (k, place) ← pass (if row.isPunct (close' + 1) ":" then
    skipType source row (close' + 2) close false else .ok (close' + 1, row.stop close'))
  if row.isPunct k ";" then
    blank (row.start member) (row.stop k)
    pure (k + 1)
  else
    blank (row.start member) place
    pure k

/-- Erases the mark that a member is optional, or surely there. -/
def memberMark (source : List Char) (row : TokenRow) (j close : Nat) : GuardedErase Nat := do
  let broken ← pass (breakBefore source row (j + 1))
  if (row.isPunct j "?" || row.isPunct j "!") &&
      (j + 1 == close || broken || [":", "(", ";", "=", "<"].any (row.isPunct (j + 1))) then do
    blankTokens row j j
    pure (j + 1)
  else pure j

section Runs

variable (lies : row.Lies source low high) (inRow : stop ≤ row.size) (i : Nat)
include lies inRow

theorem arrowFollows_same : arrowFollows source row i stop =
    .ok (match row.matching i stop with
      | none => false
      | some paren =>
          row.isPunct (paren + 1) "=>" ||
            (row.isPunct (paren + 1) ":" &&
              row.isPunct (row.skipType (paren + 2) stop true).1 "=>")) := by
  unfold arrowFollows
  rw [matching_same, ok_bind]
  cases row.matching i stop with
  | none => rfl
  | some paren =>
      simp only
      rw [skipType_same lies inRow]
      rfl

theorem typeArguments_runs (there : i < row.size) :
    Runs (typeArguments source row i stop) (Erase.typeArguments row i stop)
      fun next => i < next := by
  unfold typeArguments Erase.typeArguments
  refine .pass (angleClose_same inRow i) ?_
  cases found : row.angleClose i stop with
  | none => exact .pure (Nat.lt_succ_self i)
  | some angle =>
      have begins := (TokenRow.angleClose_spec found).1
      refine .ite (fun _ => .pure (Nat.lt_succ_self i)) fun _ => .state fun e =>
        .pass (lastKept_same e (Nat.le_of_lt there)) (.pass (breakBefore_same lies i)
          (.pass (arrowFollows_same lies inRow _) ?_))
      exact .ite (fun _ => blank_runs _ _ (.pure (Nat.lt_succ_of_le begins)))
        fun _ => .pure (Nat.lt_succ_self i)

omit lies inRow in
theorem nonNullAssertion_runs (there : i < row.size) :
    Runs (nonNullAssertion row i) (Erase.nonNullAssertion row i) fun next => i < next := by
  unfold nonNullAssertion Erase.nonNullAssertion
  refine .state fun e => .pass (lastKept_same e (Nat.le_of_lt there)) ?_
  exact .ite (fun _ => blank_runs _ _ (.pure (Nat.lt_succ_self i)))
    fun _ => .pure (Nat.lt_succ_self i)

theorem assertion_runs (there : i < row.size) :
    Runs (assertion source row i stop) (Erase.assertion row i stop) fun next => i < next := by
  unfold assertion Erase.assertion
  refine .state fun e => .pass (lastKept_same e (Nat.le_of_lt there))
    (.pass (breakBefore_same lies i) (.ite (fun _ => ?_) fun _ => .pure (Nat.lt_succ_self i)))
  exact .pass (skipType_same lies inRow (i + 1) false)
    (blank_runs _ _ (.pure (row.skipType_le (i + 1) stop false)))

omit lies in
theorem heritage_runs {n j : Nat} (positive : 0 < j) (enough : stop ≤ j + n) :
    Runs (heritage row stop n j) (Erase.heritage row stop n j) fun next => j ≤ next := by
  induction n generalizing j with
  | zero => exact .ensure enough (.pure (Nat.le_refl j))
  | succ n ih =>
      unfold heritage Erase.heritage
      refine .ite (fun _ => .pure (Nat.le_refl j)) fun _ => .pass (before_same positive)
        (.ite (fun _ => ?_) fun _ => .ite (fun _ => ?_) fun _ => ?_)
      · exact .bind (typeParameters_runs inRow j) fun next moves => .ensure moves
          ((ih (by omega) (by omega)).mono fun last ends => Nat.le_trans (Nat.le_of_lt moves) ends)
      · refine .bind (bracket_runs j ")") fun close ends => .ensure (by omega) ?_
        exact (ih (by omega) (by omega)).mono fun last ends' => by omega
      · exact (ih (by omega) (by omega)).mono fun last => Nat.le_of_succ_le

omit lies in
theorem classHead_runs : Runs (classHead row i stop) (Erase.classHead row i stop)
    fun next => i < next := by
  unfold classHead Erase.classHead
  extract_lets isNamed guardedRest rest
  have restRuns (j : Nat) (behind : i < j) : Runs (guardedRest j) (rest j) fun next => i < next := by
    have ends : j ≤ row.braceFrom stop (stop - j) j := TokenRow.braceFrom_le
    exact .ite (fun _ => .pass (braceFrom_same inRow (by omega)) (.pass (before_same (by omega))
      (blank_runs _ _ (.pure (by omega))))) fun _ => .pure behind
  refine .bind (maybeTypeParameters_runs inRow _) fun j ends => ?_
  have behind : i < j := by
    refine Nat.lt_of_lt_of_le ?_ ends
    split
    · omega
    · omega
  exact .ite (fun _ => .bind (heritage_runs inRow (Nat.succ_pos j) (by omega))
      fun k ends => restRuns k (by omega))
    fun _ => .bind (.pure behind) restRuns

omit lies inRow in
theorem modifiers_runs {close n j : Nat} (enough : j + n = close)
    (closes : row.closesBracket close = true) (dropped : Bool) :
    Runs (modifiers row n j dropped) (Erase.modifiers row n j dropped) fun r => j ≤ r.1 := by
  induction n generalizing j dropped with
  | zero =>
      cases enough
      exact .ensure (TokenRow.isAnyWord_of_closesBracket closes) (.pure (Nat.le_refl j))
  | succ n ih =>
      have rest (dropped : Bool) := (ih (j := j + 1) (by omega) dropped).mono
        fun _ => Nat.le_of_succ_le
      exact .ite (fun _ => .ite (fun _ => blank_runs _ _ (rest _)) fun _ => rest _)
        fun _ => .pure (Nat.le_refl j)

theorem indexSignature_runs (member : Nat) :
    Runs (indexSignature source row member i stop) (Erase.indexSignature row member i stop)
      fun next => i < next := by
  unfold indexSignature Erase.indexSignature
  refine .bind (bracket_runs i "]") fun close ends => ?_
  have search : (if row.isPunct (close + 1) ":" then skipType source row (close + 2) stop false
      else .ok (close + 1, row.stop close)) = .ok (if row.isPunct (close + 1) ":" then
        row.skipType (close + 2) stop false else (close + 1, row.stop close)) := by
    split
    · exact skipType_same lies inRow (close + 2) false
    · rfl
  have behind : i < (if row.isPunct (close + 1) ":" then row.skipType (close + 2) stop false
      else (close + 1, row.stop close)).1 := by
    split
    · exact Nat.lt_of_lt_of_le (by omega) (row.skipType_le (close + 2) stop false)
    · exact Nat.lt_succ_of_lt ends.1
  exact .pass search (.ite (fun _ => blank_runs _ _ (.pure (Nat.lt_succ_of_lt behind)))
    fun _ => blank_runs _ _ (.pure behind))

omit inRow in
theorem memberMark_runs : Runs (memberMark source row i stop) (Erase.memberMark row i stop)
    fun next => i ≤ next := by
  unfold memberMark Erase.memberMark
  exact .pass (breakBefore_same lies (i + 1)) (.ite
    (fun _ => blank_runs _ _ (.pure (Nat.le_succ i))) fun _ => .pure (Nat.le_refl i))

end Runs

end Guarded

end JsxPreview.Source
