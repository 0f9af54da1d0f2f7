import JsxPreview.Proofs.Guarded.Basic
import JsxPreview.Proofs.Guarded.Room

/-! # Searches in a row

The searches for a bracket, a comma and the end of a type read a token only where there is one, and
each round moves on: the guarded ones find what the plain ones find (`matching_same`,
`skipType_same`), in a range that ends in the row. -/
set_option autoImplicit false
namespace JsxPreview.Source

open JsxPreview.Text

namespace Guarded

variable {source : List Char} {row : TokenRow} {low high stop : Nat}

/-! ## Lines -/

/-- Whether a line ends in a stretch that is cut out of the source. -/
def breakBetween (source : List Char) (row : TokenRow) (start stop : Nat) : Guarded Bool := do
  ensure (start ≤ stop ∧ isBoundary start source = true ∧ isBoundary stop source = true) .slice
  .ok (row.breakBetween start stop)

/-- Whether a line ends right in front of a token that is not the first one. -/
def breakBefore (source : List Char) (row : TokenRow) : Nat → Guarded Bool
  | 0 => .ok false
  | i + 1 =>
      match row.get? i, row.get? (i + 1) with
      | some before, some token => breakBetween source row before.stop token.start
      | _, _ => .ok false

/-- What lies between two tokens of a row is a stretch of the source. -/
theorem breakBetween_same (lies : row.Lies source low high) {i j : Nat} (less : i < j)
    (inRow : j < row.size) : breakBetween source row (row.stop i) (row.start j) =
      .ok (row.breakBetween (row.stop i) (row.start j)) :=
  ensure_bind ⟨lies.stop_le_start less inRow, lies.isBoundary_stop (Nat.lt_trans less inRow),
    lies.isBoundary_start inRow⟩ _

theorem breakBefore_same (lies : row.Lies source low high) (i : Nat) :
    breakBefore source row i = .ok (row.breakBefore i) := by
  cases i with
  | zero => rfl
  | succ i =>
      cases found : row.get? i with
      | none => simp only [breakBefore, TokenRow.breakBefore, found]
      | some first =>
          cases found' : row.get? (i + 1) with
          | none => simp only [breakBefore, TokenRow.breakBefore, found, found']
          | some token =>
              simp only [breakBefore, TokenRow.breakBefore, found, found']
              rw [← TokenRow.stop_of_get? found, ← TokenRow.start_of_get? found']
              exact breakBetween_same lies (Nat.lt_succ_self i) (TokenRow.lt_of_get? found')

/-- The number in front of another one. -/
def before (i : Nat) : Guarded Nat := do
  ensure (0 < i) .count
  .ok (i - 1)

theorem before_same {i : Nat} (positive : 0 < i) : before i = .ok (i - 1) := ensure_bind positive _

/-! ## Brackets and commas -/

/-- The bracket that closes the ones open in front of token `i`, among `n` tokens. -/
def closing (row : TokenRow) : Nat → Nat → Nat → Guarded (Option Nat)
  | 0, _, _ => .ok none
  | n + 1, depth, i => do
      subscript row i
      if row.opensBracket i then closing row n (depth + 1) (i + 1)
      else if row.closesBracket i then
        match depth with
        | 0 => .ok none
        | 1 => .ok (some i)
        | d + 2 => closing row n (d + 1) (i + 1)
      else closing row n depth (i + 1)

/-- The bracket that closes the one at `i`, if it stands before token `stop`. -/
def matching (row : TokenRow) (i stop : Nat) : Guarded (Option Nat) :=
  closing row (min stop row.size - i) 0 i

/-- The first comma outside brackets among `n` tokens from `i` on, or the end of them. -/
def commaFrom (row : TokenRow) (bounded : Bool) : Nat → Nat → Nat → Guarded Nat
  | 0, _, i => .ok i
  | n + 1, depth, i => do
      subscript row i
      if row.opensBracket i then commaFrom row bounded n (depth + 1) (i + 1)
      else if row.closesBracket i then
        if bounded && depth == 0 then .ok i
        else do
          ensure (bounded = true → 0 < depth) .count
          commaFrom row bounded n (depth - 1) (i + 1)
      else if depth == 0 && row.isPunct i "," then .ok i
      else commaFrom row bounded n depth (i + 1)

theorem closing_same {n depth i : Nat} (inRow : n = 0 ∨ i + n ≤ row.size) :
    closing row n depth i = .ok (row.closing n depth i) := by
  induction n generalizing depth i with
  | zero => rfl
  | succ n ih =>
      have next : n = 0 ∨ i + 1 + n ≤ row.size := by omega
      unfold closing TokenRow.closing
      rw [subscript_bind (by omega)]
      split
      · exact ih next
      · split
        · split
          · rfl
          · rfl
          · exact ih next
        · exact ih next

theorem matching_same (row : TokenRow) (i stop : Nat) :
    matching row i stop = .ok (row.matching i stop) :=
  closing_same (by omega)

theorem commaFrom_same (bounded : Bool) {n : Nat} (depth : Nat) {i : Nat}
    (inRow : n = 0 ∨ i + n ≤ row.size) :
    commaFrom row bounded n depth i = .ok (row.commaFrom bounded n depth i) := by
  induction n generalizing depth i with
  | zero => rfl
  | succ n ih =>
      have next : n = 0 ∨ i + 1 + n ≤ row.size := by omega
      unfold commaFrom TokenRow.commaFrom
      rw [subscript_bind (by omega)]
      split
      · exact ih _ next
      · split
        · split
          case isTrue => rfl
          case isFalse inside =>
            rw [ensure_bind]
            · exact ih _ next
            · rintro rfl
              simpa [Nat.pos_iff_ne_zero] using inside
        · split
          · rfl
          · exact ih _ next

end Guarded

namespace TokenRow

variable (row : TokenRow) (bounded : Bool) (n depth i : Nat)

theorem le_commaFrom : i ≤ row.commaFrom bounded n depth i := by
  induction n generalizing depth i with
  | zero => exact Nat.le_refl i
  | succ n ih =>
      unfold commaFrom
      repeat' split
      all_goals first | exact Nat.le_refl i | exact Nat.le_of_succ_le (ih _ _)

theorem commaFrom_le : row.commaFrom bounded n depth i ≤ i + n := by
  induction n generalizing depth i with
  | zero => exact Nat.le_refl i
  | succ n ih =>
      have next {depth : Nat} : row.commaFrom bounded n depth (i + 1) ≤ i + (n + 1) := by
        have := ih depth (i + 1)
        omega
      unfold commaFrom
      repeat' split
      all_goals first | exact Nat.le_add_right i _ | exact next

end TokenRow

namespace Guarded

variable {source : List Char} {row : TokenRow} {low high stop : Nat}

/-! ## Angles -/

/-- The token that closes `depth` open angles, among `n` tokens from `j` on. -/
def angleFrom (row : TokenRow) (stop : Nat) : Nat → Nat → Nat → Guarded (Option (Nat × Nat))
  | 0, _, j => do
      ensure (stop ≤ j) .depth
      .ok none
  | n + 1, depth, j =>
      if stop ≤ j then .ok none
      else do
        subscript row j
        if row.isAnyPunct j then
          if row.text j == "<" then angleFrom row stop n (depth + 1) (j + 1)
          else if 0 < row.closers j then
            if depth ≤ row.closers j then .ok (some (j, row.start j + depth))
            else do
              ensure (row.closers j ≤ depth) .count
              angleFrom row stop n (depth - row.closers j) (j + 1)
          else if row.opensBracket j then do
            match ← matching row j stop with
            | some close => do
                ensure (j < close + 1) .still
                angleFrom row stop n depth (close + 1)
            | none => .ok none
          else if TokenRow.angleListPuncts.contains (row.text j) then
            angleFrom row stop n depth (j + 1)
          else .ok none
        else if row.isTypeAtom j then angleFrom row stop n depth (j + 1)
        else .ok none

/-- The token that closes the `<` at token `i`, and the byte behind the closing `>`. -/
def angleClose (row : TokenRow) (i stop : Nat) : Guarded (Option (Nat × Nat)) :=
  angleFrom row stop (stop - i) 0 i

theorem angleFrom_same (inRow : stop ≤ row.size) {n depth j : Nat} (enough : stop ≤ j + n) :
    angleFrom row stop n depth j = .ok (row.angleFrom stop n depth j) := by
  induction n generalizing depth j with
  | zero => exact ensure_bind enough _
  | succ n ih =>
      have next : stop ≤ j + 1 + n := by omega
      unfold angleFrom TokenRow.angleFrom
      split
      case isTrue => rfl
      case isFalse less =>
        rw [subscript_bind (by omega)]
        split
        · split
          · exact ih next
          · split
            · split
              · rfl
              · rw [ensure_bind (by omega)]
                exact ih next
            · split
              · rw [matching_same, ok_bind]
                cases found : row.matching j stop with
                | none => rfl
                | some close =>
                    have begins := (TokenRow.matching_spec found).1
                    simp only
                    rw [ensure_bind (by omega)]
                    exact ih (by omega)
              · split
                · exact ih next
                · rfl
        · split
          · exact ih next
          · rfl

theorem angleClose_same (inRow : stop ≤ row.size) (i : Nat) :
    angleClose row i stop = .ok (row.angleClose i stop) :=
  angleFrom_same inRow (by omega)

end Guarded

/-- The token that closes an angle is in the searched range. -/
theorem TokenRow.angleFrom_spec {row : TokenRow} {stop n depth j close place : Nat}
    (found : row.angleFrom stop n depth j = some (close, place)) : j ≤ close ∧ close < stop := by
  induction n generalizing depth j with
  | zero => exact absurd found (by simp [angleFrom])
  | succ n ih =>
      have next {depth : Nat} (found : row.angleFrom stop n depth (j + 1) = some (close, place)) :
          j ≤ close ∧ close < stop := by
        obtain ⟨begins, ends⟩ := ih found
        exact ⟨by omega, ends⟩
      unfold angleFrom at found
      split at found
      case isTrue => exact absurd found (by simp)
      case isFalse less =>
        split at found
        · split at found
          · exact next found
          · split at found
            · split at found
              · cases found
                exact ⟨Nat.le_refl _, by omega⟩
              · exact next found
            · split at found
              · split at found
                case h_1 close' found' =>
                  have begins := (matching_spec found').1
                  obtain ⟨begins', ends⟩ := ih found
                  exact ⟨by omega, ends⟩
                case h_2 => exact absurd found (by simp)
              · split at found
                · exact next found
                · exact absurd found (by simp)
        · split at found
          · exact next found
          · exact absurd found (by simp)

theorem TokenRow.angleClose_spec {row : TokenRow} {i stop close place : Nat}
    (found : row.angleClose i stop = some (close, place)) : i ≤ close ∧ close < stop :=
  angleFrom_spec found

/-! ## Types -/

namespace Guarded

variable {source : List Char} {row : TokenRow} {low high stop : Nat}

open TokenRow (TypeStep typeOperators)

/-- Reads an operand of a type, or something in front of one. -/
def typeOperand (row : TokenRow) (stop conditional j : Nat) : Guarded TypeStep :=
  if row.isAnyWord j && typeOperators.contains (row.text j) && row.startsType (j + 1) stop then
    .ok (.go (j + 1) true conditional)
  else if row.isTypeAtom j then .ok (.go (j + 1) false conditional)
  else if row.opensBracket j then do
    match ← matching row j stop with
    | some close => .ok (.go (close + 1) false conditional)
    | none => .ok .leave
  else if row.isPunct j "<" then do
    match ← angleClose row j stop with
    | some (close, place) =>
        if place = row.stop close then .ok (.go (close + 1) true conditional) else .ok .leave
    | none => .ok .leave
  else if row.isAnyPunct j && ["|", "&", "-", "..."].contains (row.text j) then
    .ok (.go (j + 1) true conditional)
  else .ok .leave

/-- Reads what follows an operand of a type. -/
def typeSuffix (source : List Char) (row : TokenRow) (stop : Nat) (stopAtArrow : Bool)
    (conditional j : Nat) : Guarded TypeStep := do
  let broken ← breakBefore source row j
  if row.isPunct j "|" || row.isPunct j "&" || row.isPunct j "." then
    .ok (.go (j + 1) true conditional)
  else if row.isPunct j "[" && !broken then
    match ← matching row j stop with
    | some close => .ok (.go (close + 1) false conditional)
    | none => .ok .leave
  else if row.isPunct j "<" && !broken then
    match ← angleClose row j stop with
    | some (close, place) =>
        if place = row.stop close then .ok (.go (close + 1) false conditional)
        else .ok (.leaveAt (close + 1) place)
    | none => .ok .leave
  else if row.isPunct j "=>" && !stopAtArrow then .ok (.go (j + 1) true conditional)
  else if row.isPunct j "?" && 0 < conditional then .ok (.go (j + 1) true conditional)
  else if row.isPunct j ":" && 0 < conditional then do
    let conditional ← before conditional
    .ok (.go (j + 1) true conditional)
  else if row.isWord j "is" then .ok (.go (j + 1) true conditional)
  else if row.isWord j "extends" then .ok (.go (j + 1) true (conditional + 1))
  else .ok .leave

/-- Reads on at token `j` of a type that reaches to byte `last` so far. -/
def typeFrom (source : List Char) (row : TokenRow) (stop : Nat) (stopAtArrow : Bool) :
    Nat → Bool → Nat → Nat → Nat → Guarded (Nat × Nat)
  | 0, _, _, j, last => do
      ensure (stop ≤ j) .depth
      .ok (j, last)
  | n + 1, operand, conditional, j, last =>
      if stop ≤ j then .ok (j, last)
      else do
        subscript row j
        match ← (if operand then typeOperand row stop conditional j
          else typeSuffix source row stop stopAtArrow conditional j : Guarded TypeStep) with
        | .leave => .ok (j, last)
        | .leaveAt next place => do
            ensure (j < next) .still
            .ok (next, place)
        | .go next operand conditional => do
            ensure (j < next) .still
            let behind ← before next
            typeFrom source row stop stopAtArrow n operand conditional next (row.stop behind)

/-- The token behind the type that starts at token `i`, and the byte where the type ends. -/
def skipType (source : List Char) (row : TokenRow) (i stop : Nat) (stopAtArrow : Bool) :
    Guarded (Nat × Nat) :=
  typeFrom source row stop stopAtArrow (stop - i) true 0 i (if i = 0 then 0 else row.stop (i - 1))

theorem typeOperand_same (inRow : stop ≤ row.size) (conditional j : Nat) :
    typeOperand row stop conditional j = .ok (row.typeOperand stop conditional j) := by
  unfold typeOperand TokenRow.typeOperand
  rw [matching_same, angleClose_same inRow, ok_bind, ok_bind]
  split
  · rfl
  · split
    · rfl
    · split
      · cases row.matching j stop <;> rfl
      · split
        · cases row.angleClose j stop with
          | none => rfl
          | some found =>
              simp only
              split <;> rfl
        · split <;> rfl

theorem typeSuffix_same (lies : row.Lies source low high) (inRow : stop ≤ row.size)
    (stopAtArrow : Bool) (conditional j : Nat) :
    typeSuffix source row stop stopAtArrow conditional j =
      .ok (row.typeSuffix stop stopAtArrow conditional j) := by
  unfold typeSuffix TokenRow.typeSuffix
  rw [breakBefore_same lies, matching_same, angleClose_same inRow, ok_bind, ok_bind, ok_bind]
  split
  · rfl
  · split
    · cases row.matching j stop <;> rfl
    · split
      · cases row.angleClose j stop with
        | none => rfl
        | some found =>
            simp only
            split <;> rfl
      · split
        · rfl
        · split
          · rfl
          · split
            case isTrue colon =>
              rw [Bool.and_eq_true, decide_eq_true_iff] at colon
              rw [before_same colon.2]
              rfl
            case isFalse =>
              split
              · rfl
              · split <;> rfl

end Guarded

namespace TokenRow

variable {row : TokenRow} {stop conditional j : Nat}

/-- Whether a step of reading a type moves on from token `j`. -/
def TypeStep.MovesOn (j : Nat) : TypeStep → Prop
  | .leave => True
  | .leaveAt next _ => j < next
  | .go next _ _ => j < next

theorem typeOperand_movesOn : (row.typeOperand stop conditional j).MovesOn j := by
  have next := Nat.lt_succ_self j
  unfold typeOperand
  split
  · exact next
  · split
    · exact next
    · split
      · split
        case h_1 close found => exact Nat.lt_succ_of_le (matching_spec found).1
        case h_2 => trivial
      · split
        · split
          case h_1 close place found =>
            split
            · exact Nat.lt_succ_of_le (angleClose_spec found).1
            · trivial
          case h_2 => trivial
        · split
          · exact next
          · trivial

theorem typeSuffix_movesOn {stopAtArrow : Bool} :
    (row.typeSuffix stop stopAtArrow conditional j).MovesOn j := by
  have next := Nat.lt_succ_self j
  unfold typeSuffix
  split
  · exact next
  · split
    · split
      case h_1 close found => exact Nat.lt_succ_of_le (matching_spec found).1
      case h_2 => trivial
    · split
      · split
        case h_1 close place found =>
          have behind := Nat.lt_succ_of_le (angleClose_spec found).1
          split
          · exact behind
          · exact behind
        case h_2 => trivial
      · repeat' split
        all_goals first | exact next | trivial

theorem typeFrom_le {stopAtArrow operand : Bool} {n last : Nat} :
    j ≤ (row.typeFrom stop stopAtArrow n operand conditional j last).1 := by
  induction n generalizing operand conditional j last with
  | zero => exact Nat.le_refl _
  | succ n ih =>
      unfold typeFrom
      split
      · exact Nat.le_refl _
      · have moves : (if operand then row.typeOperand stop conditional j
            else row.typeSuffix stop stopAtArrow conditional j).MovesOn j := by
          split
          · exact typeOperand_movesOn
          · exact typeSuffix_movesOn
        split
        case h_1 => exact Nat.le_refl _
        case h_2 next place step =>
          rw [step] at moves
          exact Nat.le_of_lt moves
        case h_3 next operand' conditional' step =>
          rw [step] at moves
          exact Nat.le_trans (Nat.le_of_lt moves) ih

/-- What follows a type does not stand in front of it. -/
theorem skipType_le (row : TokenRow) (i stop : Nat) (stopAtArrow : Bool) :
    i ≤ (row.skipType i stop stopAtArrow).1 :=
  typeFrom_le

end TokenRow

namespace Guarded

variable {source : List Char} {row : TokenRow} {low high stop : Nat}

theorem typeFrom_same (lies : row.Lies source low high) (inRow : stop ≤ row.size)
    {stopAtArrow operand : Bool} {n conditional j last : Nat} (enough : stop ≤ j + n) :
    typeFrom source row stop stopAtArrow n operand conditional j last =
      .ok (row.typeFrom stop stopAtArrow n operand conditional j last) := by
  induction n generalizing operand conditional j last with
  | zero => exact ensure_bind enough _
  | succ n ih =>
      unfold typeFrom TokenRow.typeFrom
      split
      case isTrue => rfl
      case isFalse less =>
        have moves : (if operand then row.typeOperand stop conditional j
            else row.typeSuffix stop stopAtArrow conditional j).MovesOn j := by
          split
          · exact TokenRow.typeOperand_movesOn
          · exact TokenRow.typeSuffix_movesOn
        have step : (if operand then typeOperand row stop conditional j
            else typeSuffix source row stop stopAtArrow conditional j) =
            .ok (if operand then row.typeOperand stop conditional j
              else row.typeSuffix stop stopAtArrow conditional j) := by
          split
          · exact typeOperand_same inRow conditional j
          · exact typeSuffix_same lies inRow stopAtArrow conditional j
        rw [subscript_bind (by omega), step, ok_bind]
        generalize (if operand then row.typeOperand stop conditional j
          else row.typeSuffix stop stopAtArrow conditional j) = found at moves
        cases found with
        | leave => rfl
        | leaveAt next place =>
            have behind : j < next := moves
            exact ensure_bind behind _
        | go next operand' conditional' =>
            have behind : j < next := moves
            simp only
            rw [ensure_bind behind, before_same (by omega), ok_bind]
            exact ih (by omega)

theorem skipType_same (lies : row.Lies source low high) (inRow : stop ≤ row.size) (i : Nat)
    (stopAtArrow : Bool) :
    skipType source row i stop stopAtArrow = .ok (row.skipType i stop stopAtArrow) :=
  typeFrom_same lies inRow (by omega)

end Guarded

end JsxPreview.Source
