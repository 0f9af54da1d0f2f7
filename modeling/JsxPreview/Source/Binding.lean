import JsxPreview.Source.TokenRow

/-! # Names that a declaration binds

A binding target is a name or a pattern; patterns nest.  `bindingTarget` and `declarators` give the
bound names in the order of the source, and the index of the token behind what they read. -/
set_option autoImplicit false
namespace JsxPreview.Source.TokenRow

mutual

/-- The names that the target at token `k` binds. -/
def bindingTarget (row : TokenRow) : Nat → Nat → Except SyntaxError (List String × Nat)
  | 0, k => row.fail k .tooDeep
  | fuel + 1, k =>
      if row.isPunct k "\x7b" || row.isPunct k "[" then
        patternItems row fuel k (row.isPunct k "\x7b") (k + 1)
      else if row.isAnyWord k then .ok ([row.text k], k + 1)
      else row.fail k (.expectedIdentifier (row.found k))

/-- The names bound from token `k` on to the end of the pattern that was opened at `opening`. -/
def patternItems (row : TokenRow) : Nat → Nat → Bool → Nat →
    Except SyntaxError (List String × Nat)
  | 0, _, _, k => row.fail k .tooDeep
  | fuel + 1, opening, object, k =>
      if row.size ≤ k then row.fail opening .endInPattern
      else if row.isPunct k (if object then "\x7d" else "]") then .ok ([], k + 1)
      else if row.isPunct k "," then patternItems row fuel opening object (k + 1)
      else if row.isPunct k "..." then do
        let (names, next) ← bindingTarget row fuel (k + 1)
        let (more, final) ← patternItems row fuel opening object next
        .ok (names ++ more, final)
      else do
        let (names, next) ←
          if object then patternProperty row fuel k else bindingTarget row fuel k
        let next :=
          if row.isPunct next "=" then row.commaFrom true (row.size - (next + 1)) 0 (next + 1)
          else next
        let (more, final) ← patternItems row fuel opening object next
        .ok (names ++ more, final)

/-- The names bound by one property of an object pattern. -/
def patternProperty (row : TokenRow) : Nat → Nat → Except SyntaxError (List String × Nat)
  | 0, k => row.fail k .tooDeep
  | fuel + 1, k =>
      if row.isPunct k "[" then
        match row.matching k row.size with
        | none => row.fail k .unexpectedEnd
        | some close =>
            if row.isPunct (close + 1) ":" then bindingTarget row fuel (close + 2)
            else row.fail (close + 1) (.expected ":" (row.found (close + 1)))
      else if row.isPunct (k + 1) ":" then bindingTarget row fuel (k + 2)
      else if row.isAnyWord k then .ok ([row.text k], k + 1)
      else row.fail k (.unexpectedInPattern (row.found k))

end

/-- More than the calls that reading a pattern nests. -/
def patternAllowance (row : TokenRow) : Nat := 3 * (row.size + 2)

/-- Whether a word on a new line cannot go on with the expression in front of it. -/
def startsStatement (row : TokenRow) (k : Nat) : Bool :=
  row.breakBefore k && row.isAnyWord k && !(["instanceof", "in", "of"].contains (row.text k)) &&
    (!row.isAnyPunct (k - 1) || [")", "]", "\x7d", "++", "--"].contains (row.text (k - 1)))

/-- The end of an initializer that starts at token `first`, and whether a comma ends it; the search
goes on from `k` over `n` tokens, inside `depth` brackets. -/
def initializerEnd (row : TokenRow) (first : Nat) : Nat → Nat → Nat → Nat × Bool
  | 0, _, k => (k, false)
  | n + 1, depth, k =>
      if row.opensBracket k then initializerEnd row first n (depth + 1) (k + 1)
      else if row.closesBracket k then
        if depth = 0 then (k, false) else initializerEnd row first n (depth - 1) (k + 1)
      else if depth = 0 && row.isPunct k "," then (k, true)
      else if depth = 0 && row.isPunct k ";" then (k, false)
      else if depth = 0 && first < k && !row.isAnyPunct k && row.startsStatement k then (k, false)
      else initializerEnd row first n depth (k + 1)

/-- The names bound by the declarators from token `k` on. -/
def declarators (row : TokenRow) : Nat → Nat → Except SyntaxError (List String)
  | 0, k => row.fail k .tooDeep
  | fuel + 1, k => do
      let (names, next) ← row.bindingTarget row.patternAllowance k
      let (stop, more) := row.initializerEnd next (row.size - next) 0 next
      if more then
        let rest ← declarators row fuel (stop + 1)
        .ok (names ++ rest)
      else .ok names

end JsxPreview.Source.TokenRow
