import JsxPreview.Source.TokenRow

/-! # How far a type reaches

A type is read as operands and what may follow them, without a grammar of types: brackets are
skipped as a whole, and a token that can neither start nor go on with a type ends it.  All reading
stays in front of a token `stop`. -/
set_option autoImplicit false
namespace JsxPreview.Source.TokenRow

def typeOperators : List String :=
  ["keyof", "typeof", "readonly", "unique", "infer", "asserts", "abstract", "new"]

def angleListPuncts : List String := [",", ".", "|", "&", ":", "?", "=", "=>", "...", "-"]

def isTypeAtom (row : TokenRow) (i : Nat) : Bool :=
  (row.get? i).any fun t => t.isWord || t.isStr || t.isNumber || t.isTemplate

def startsType (row : TokenRow) (i stop : Nat) : Bool :=
  i < stop && (row.isTypeAtom i ||
    (row.isAnyPunct i && ["(", "[", "\x7b", "<", "-", "|", "&"].contains (row.text i)))

/-- The number of `>` that a token starts with. -/
def closers (row : TokenRow) (i : Nat) : Nat :=
  ((row.text i).toList.takeWhile (· == '>')).length

/-- The token that closes `depth` open angles, among `n` tokens from `j` on, and the byte behind
the `>` that does; the token may go on behind it. -/
def angleFrom (row : TokenRow) (stop : Nat) : Nat → Nat → Nat → Option (Nat × Nat)
  | 0, _, _ => none
  | n + 1, depth, j =>
      if stop ≤ j then none
      else if row.isAnyPunct j then
        if row.text j == "<" then angleFrom row stop n (depth + 1) (j + 1)
        else if 0 < row.closers j then
          if depth ≤ row.closers j then some (j, row.start j + depth)
          else angleFrom row stop n (depth - row.closers j) (j + 1)
        else if row.opensBracket j then
          match row.matching j stop with
          | some close => angleFrom row stop n depth (close + 1)
          | none => none
        else if angleListPuncts.contains (row.text j) then angleFrom row stop n depth (j + 1)
        else none
      else if row.isTypeAtom j then angleFrom row stop n depth (j + 1)
      else none

/-- The token that closes the `<` at token `i`, and the byte behind the closing `>`. -/
def angleClose (row : TokenRow) (i stop : Nat) : Option (Nat × Nat) :=
  row.angleFrom stop (stop - i) 0 i

inductive TypeStep where
  | leave
  /-- The type ends at byte `place`, inside the token in front of `next`. -/
  | leaveAt (next place : Nat)
  /-- An operand is expected at `next`, or not; `conditional` counts conditionals left open. -/
  | go (next : Nat) (operand : Bool) (conditional : Nat)

/-- Reads an operand of a type, or something in front of one. -/
def typeOperand (row : TokenRow) (stop conditional j : Nat) : TypeStep :=
  if row.isAnyWord j && typeOperators.contains (row.text j) && row.startsType (j + 1) stop then
    .go (j + 1) true conditional
  else if row.isTypeAtom j then .go (j + 1) false conditional
  else if row.opensBracket j then
    match row.matching j stop with
    | some close => .go (close + 1) false conditional
    | none => .leave
  else if row.isPunct j "<" then
    match row.angleClose j stop with
    | some (close, place) =>
        if place = row.stop close then .go (close + 1) true conditional else .leave
    | none => .leave
  else if row.isAnyPunct j && ["|", "&", "-", "..."].contains (row.text j) then
    .go (j + 1) true conditional
  else .leave

/-- Reads what follows an operand of a type. -/
def typeSuffix (row : TokenRow) (stop : Nat) (stopAtArrow : Bool) (conditional j : Nat) :
    TypeStep :=
  if row.isPunct j "|" || row.isPunct j "&" || row.isPunct j "." then .go (j + 1) true conditional
  else if row.isPunct j "[" && !row.breakBefore j then
    match row.matching j stop with
    | some close => .go (close + 1) false conditional
    | none => .leave
  else if row.isPunct j "<" && !row.breakBefore j then
    match row.angleClose j stop with
    | some (close, place) =>
        if place = row.stop close then .go (close + 1) false conditional
        else .leaveAt (close + 1) place
    | none => .leave
  else if row.isPunct j "=>" && !stopAtArrow then .go (j + 1) true conditional
  else if row.isPunct j "?" && 0 < conditional then .go (j + 1) true conditional
  else if row.isPunct j ":" && 0 < conditional then .go (j + 1) true (conditional - 1)
  else if row.isWord j "is" then .go (j + 1) true conditional
  else if row.isWord j "extends" then .go (j + 1) true (conditional + 1)
  else .leave

/-- Reads on at token `j` of a type that reaches to byte `last` so far. -/
def typeFrom (row : TokenRow) (stop : Nat) (stopAtArrow : Bool) :
    Nat → Bool → Nat → Nat → Nat → Nat × Nat
  | 0, _, _, j, last => (j, last)
  | n + 1, operand, conditional, j, last =>
      if stop ≤ j then (j, last)
      else
        match if operand then row.typeOperand stop conditional j
          else row.typeSuffix stop stopAtArrow conditional j with
        | .leave => (j, last)
        | .leaveAt next place => (next, place)
        | .go next operand conditional =>
            typeFrom row stop stopAtArrow n operand conditional next (row.stop (next - 1))

/-- The token behind the type that starts at token `i`, and the byte where the type ends. -/
def skipType (row : TokenRow) (i stop : Nat) (stopAtArrow : Bool) : Nat × Nat :=
  row.typeFrom stop stopAtArrow (stop - i) true 0 i (if i = 0 then 0 else row.stop (i - 1))

end JsxPreview.Source.TokenRow
