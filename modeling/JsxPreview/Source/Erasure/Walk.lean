import JsxPreview.Source.Erasure.Declaration
import JsxPreview.Source.Lexer

/-! # Finding types

The walk reads a row of tokens from the left.  Words that start declarations, parentheses that may
hold parameters, and angles that may hold type arguments are looked at more closely; inside
parameters, patterns, bodies of classes and substitutions the walk starts anew.  `eraseTypes` gives
the text with all that was found erased. -/
set_option autoImplicit false
namespace JsxPreview.Source

open JsxPreview.Text

namespace Erase

def memberModifiers : List String :=
  ["public", "private", "protected", "readonly", "override", "abstract", "declare", "static",
   "async", "get", "set", "accessor"]

/-- Modifiers that say something to the type checker alone. -/
def erasedModifiers : List String := ["public", "private", "protected", "readonly", "override"]

def declarationWords : List String := ["const", "let", "var"]

def memberNameFollows (row : TokenRow) (i : Nat) : Bool :=
  row.isAnyWord i || row.isStr i || row.isNumber i ||
    (row.isAnyPunct i && ["[", "#", "*"].contains (row.text i))

/-- Erases `f<T>` down to `f` in front of a call, and the type parameters of an arrow function. -/
def typeArguments (row : TokenRow) (i stop : Nat) : Erase Nat := do
  match row.angleClose i stop with
  | none => pure (i + 1)
  | some (close, place) =>
      if place != row.stop close || !row.isPunct (close + 1) "(" then pure (i + 1)
      else
        let afterOperand := ((row.lastKept (← get) i).map row.isOperandEnd).getD false
        let isCall := afterOperand && !row.breakBefore i
        let isArrow := !afterOperand &&
          match row.matching (close + 1) stop with
          | none => false
          | some paren =>
              row.isPunct (paren + 1) "=>" ||
                (row.isPunct (paren + 1) ":" &&
                  row.isPunct (row.skipType (paren + 2) stop true).1 "=>")
        if isCall || isArrow then
          blank (row.start i) place
          pure (close + 1)
        else pure (i + 1)

/-- Erases the `!` at token `i` if it asserts that the operand in front is there. -/
def nonNullAssertion (row : TokenRow) (i : Nat) : Erase Nat := do
  let asserted := match row.lastKept (← get) i with
    | none => false
    | some p =>
        row.stop p == row.start i && (row.isName p || row.isPunct p ")" || row.isPunct p "]")
  if asserted then blankTokens row i i
  pure (i + 1)

/-- Erases the `as` or `satisfies` at token `i` with its type, if it follows an operand. -/
def assertion (row : TokenRow) (i stop : Nat) : Erase Nat := do
  let afterOperand := ((row.lastKept (← get) i).map row.isOperandEnd).getD false
  if !row.breakBefore i && afterOperand && row.startsType (i + 1) stop then
    let (next, place) := row.skipType (i + 1) stop false
    blank (row.start i) place
    pure next
  else pure (i + 1)

/-- The first brace or `implements` of a class that extends an expression. -/
def heritage (row : TokenRow) (stop : Nat) : Nat → Nat → Erase Nat
  | 0, j => pure j
  | n + 1, j =>
      if stop ≤ j || row.isPunct j "\x7b" || row.isWord j "implements" then pure j
      else if row.isPunct j "<" && row.isName (j - 1) then do
        heritage row stop n (← typeParameters row j stop)
      else if row.isPunct j "(" || row.isPunct j "[" then do
        heritage row stop n ((← matching row j stop ")") + 1)
      else heritage row stop n (j + 1)

/-- Reads the head of a class up to its brace. -/
def classHead (row : TokenRow) (i stop : Nat) : Erase Nat := do
  let isNamed :=
    row.isAnyWord (i + 1) && !row.isWord (i + 1) "extends" && !row.isWord (i + 1) "implements"
  let j ← typeParameters? row (if isNamed then i + 2 else i + 1) stop
  let j ← if row.isWord j "extends" then heritage row stop (stop - j) (j + 1) else pure j
  if row.isWord j "implements" then
    let brace := row.braceFrom stop (stop - j) j
    blank (row.start j) (row.stop (brace - 1))
    pure brace
  else pure j

/-- The end of an initializer of a field: a semicolon, or a new line on which a member starts. -/
def fieldEnd (row : TokenRow) (first : Nat) : Nat → Nat → Nat → Nat
  | 0, _, j => j
  | n + 1, depth, j =>
      let newMember := row.breakBefore j && row.isOperandEnd (j - 1) &&
        (row.isPunct j "#" || (row.isAnyWord j &&
          !(["in", "instanceof", "as", "satisfies"].contains (row.text j))))
      if depth == 0 && first < j && (row.isPunct j ";" || newMember) then j
      else if row.opensBracket j then fieldEnd row first n (depth + 1) (j + 1)
      else if row.closesBracket j then fieldEnd row first n (depth - 1) (j + 1)
      else fieldEnd row first n depth (j + 1)

/-- Reads the modifiers of a member: the token behind them, and whether they say that the member
does not exist. -/
def modifiers (row : TokenRow) : Nat → Nat → Bool → Erase (Nat × Bool)
  | 0, j, dropped => pure (j, dropped)
  | n + 1, j, dropped =>
      if row.isAnyWord j && memberModifiers.contains (row.text j) &&
          memberNameFollows row (j + 1) then do
        if erasedModifiers.contains (row.text j) then blankTokens row j j
        modifiers row n (j + 1) (dropped || ["abstract", "declare"].contains (row.text j))
      else pure (j, dropped)

/-- Erases the index signature at token `j`, with all of the member from its first token on. -/
def indexSignature (row : TokenRow) (member j close : Nat) : Erase Nat := do
  let bracket ← matching row j close "]"
  let (k, place) :=
    if row.isPunct (bracket + 1) ":" then row.skipType (bracket + 2) close false
    else (bracket + 1, row.stop bracket)
  if row.isPunct k ";" then
    blank (row.start member) (row.stop k)
    pure (k + 1)
  else
    blank (row.start member) place
    pure k

/-- Erases the mark that a member is optional, or surely there. -/
def memberMark (row : TokenRow) (j close : Nat) : Erase Nat :=
  if (row.isPunct j "?" || row.isPunct j "!") &&
      (j + 1 == close || row.breakBefore (j + 1) ||
        [":", "(", ";", "=", "<"].any (row.isPunct (j + 1))) then do
    blankTokens row j j
    pure (j + 1)
  else pure j

mutual

/-- Walks over the tokens from `i` up to `stop`; `declaring` is the bracket depth of the list of
declarators that the walk is in. -/
def scan (row : TokenRow) (stop : Nat) : Nat → Nat → Option Nat → Nat → Erase Unit
  | 0, _, _, i => fail row i .tooDeep
  | fuel + 1, depth, declaring, i =>
      if stop ≤ i then pure ()
      else if row.isAnyWord i && declarationWords.contains (row.text i) then
        if row.isWord (i + 1) "enum" then fail row (i + 1) .enumDeclaration
        else do
          scan row stop fuel depth (some depth) (← binding row stop fuel (i + 1))
      else if declaring == some depth && row.isPunct i "," then do
        scan row stop fuel depth declaring (← binding row stop fuel (i + 1))
      else do
        let next ← step row stop fuel i
        if next == i + 1 && row.opensBracket i then scan row stop fuel (depth + 1) declaring next
        else if next == i + 1 && row.closesBracket i then
          let declaring := declaring.filter (· ≤ depth - 1)
          scan row stop fuel (depth - 1) declaring next
        else if next == i + 1 && row.isPunct i ";" && declaring == some depth then
          scan row stop fuel depth none next
        else scan row stop fuel depth declaring next
termination_by structural fuel => fuel

/-- Reads the token at `i` with what belongs to it. -/
def step (row : TokenRow) (stop : Nat) : Nat → Nat → Erase Nat
  | 0, i => fail row i .tooDeep
  | fuel + 1, i =>
      match row.shape? i with
      | some (.template parts) => do
          templateParts row fuel parts
          pure (i + 1)
      | some (.jsx element) => do
          bodies row fuel element.bodies
          pure (i + 1)
      | some .word => word row stop fuel i
      | some .punct =>
          if row.isPunct i "(" then parenthesis row stop fuel i
          else if row.isPunct i "<" then typeArguments row i stop
          else if row.isPunct i "!" then nonNullAssertion row i
          else pure (i + 1)
      | _ => pure (i + 1)
termination_by structural fuel => fuel

def templateParts (row : TokenRow) : Nat → List TemplatePart → Erase Unit
  | 0, _ => fail row row.size .tooDeep
  | _ + 1, [] => pure ()
  | fuel + 1, .raw _ _ :: rest => templateParts row fuel rest
  | fuel + 1, .subst body :: rest => do
      let inner := row.nested body.tokens
      scan inner inner.size fuel 0 none 0
      templateParts row fuel rest
termination_by structural fuel => fuel

def bodies (row : TokenRow) : Nat → List Body → Erase Unit
  | 0, _ => fail row row.size .tooDeep
  | _ + 1, [] => pure ()
  | fuel + 1, body :: rest => do
      let inner := row.nested body.tokens
      scan inner inner.size fuel 0 none 0
      bodies row fuel rest
termination_by structural fuel => fuel

/-- Reads the word at `i` with what belongs to it. -/
def word (row : TokenRow) (stop : Nat) : Nat → Nat → Erase Nat
  | 0, i => fail row i .tooDeep
  | fuel + 1, i => do
      let text := row.text i
      let atStart := row.isStatementStart (← get) i
      if text == "type" && atStart && row.isAnyWord (i + 1) &&
          (row.isPunct (i + 2) "=" || row.isPunct (i + 2) "<") then typeAlias row i stop
      else if text == "interface" && atStart && row.isAnyWord (i + 1) then interface row i stop
      else if text == "declare" && atStart && row.isAnyWord (i + 1) &&
          !row.breakBefore (i + 1) then ambient row i stop
      else if text == "abstract" && row.isWord (i + 1) "class" then do
        blankTokens row i i
        pure (i + 1)
      else if text == "enum" && atStart && row.isAnyWord (i + 1) then
        fail row i .enumDeclaration
      else if (text == "namespace" || text == "module") && atStart &&
          (row.isAnyWord (i + 1) || row.isStr (i + 1)) && row.isPunct (i + 2) "\x7b" then
        fail row i .namespaceDeclaration
      else if text == "import" && atStart && !row.isPunct (i + 1) "(" &&
          !row.isPunct (i + 1) "." then importStatement row i stop
      else if text == "export" && atStart then exportStatement row i stop
      else if text == "function" then functionHead row stop fuel i
      else if text == "class" then do
        let brace ← classHead row i stop
        if !row.isPunct brace "\x7b" then pure brace
        else
          let close ← matching row brace stop "\x7d"
          members row close fuel (brace + 1)
          pure (close + 1)
      else if text == "as" || text == "satisfies" then assertion row i stop
      else pure (i + 1)
termination_by structural fuel => fuel

/-- Reads a declared name or pattern at token `j`, with its annotation. -/
def binding (row : TokenRow) (stop : Nat) : Nat → Nat → Erase Nat
  | 0, j => fail row j .tooDeep
  | fuel + 1, j => do
      let target ←
        if row.isAnyWord j then pure (some (j + 1))
        else if row.isPunct j "\x7b" || row.isPunct j "[" then
          match row.matching j stop with
          | none => pure none
          | some close => do
              scan row close fuel 0 none (j + 1)
              pure (some (close + 1))
        else pure none
      match target with
      | none => pure j
      | some k =>
          if row.isPunct k "!" && row.isPunct (k + 1) ":" then
            blankTokens row k k
            annotation row (k + 1) stop
          else annotation row k stop
termination_by structural fuel => fuel

/-- Reads the head of the function at `i`; one without a body goes as a whole. -/
def functionHead (row : TokenRow) (stop : Nat) : Nat → Nat → Erase Nat
  | 0, i => fail row i .tooDeep
  | fuel + 1, i => do
      let j := if row.isPunct (i + 1) "*" then i + 2 else i + 1
      let j ← typeParameters? row (if row.isAnyWord j then j + 1 else j) stop
      if !row.isPunct j "(" then pure j
      else
        let close ← parameters row stop fuel j
        let k ← annotation row (close + 1) stop
        if row.isPunct k "\x7b" then pure k
        else
          let next := if row.isPunct k ";" then k + 1 else k
          blank (row.declarationStart i) (row.stop (next - 1))
          pure next
termination_by structural fuel => fuel

/-- Reads the parameters that the parenthesis at `i` opens, and gives the one that closes it. -/
def parameters (row : TokenRow) (stop : Nat) : Nat → Nat → Erase Nat
  | 0, i => fail row i .tooDeep
  | fuel + 1, i => do
      let close ← matching row i stop ")"
      if i + 1 < close && row.isWord (i + 1) "this" && row.isPunct (i + 2) ":" then
        -- the type of the receiver is no parameter
        let (next, place) := row.skipType (i + 3) close false
        if next < close && row.isPunct next "," then
          blank (row.start (i + 1)) (row.stop next)
          parametersFrom row close fuel (next + 1)
        else
          blank (row.start (i + 1)) place
          parametersFrom row close fuel next
      else parametersFrom row close fuel (i + 1)
      pure close
termination_by structural fuel => fuel

/-- Reads the parameters from token `j` on to the parenthesis at `close`. -/
def parametersFrom (row : TokenRow) (close : Nat) : Nat → Nat → Erase Unit
  | 0, j => fail row j .tooDeep
  | fuel + 1, j =>
      if close ≤ j then pure ()
      else if row.isAnyWord j && erasedModifiers.contains (row.text j) &&
          (row.isAnyWord (j + 1) || row.isPunct (j + 1) "\x7b" || row.isPunct (j + 1) "[") then
        fail row j .parameterProperty
      else do
        let j := if row.isPunct j "..." then j + 1 else j
        let target ←
          if row.isAnyWord j then pure (some (j + 1))
          else if row.isPunct j "\x7b" || row.isPunct j "[" then
            match row.matching j close with
            | none => pure none
            | some patternEnd => do
                scan row patternEnd fuel 0 none (j + 1)
                pure (some (patternEnd + 1))
          else pure (some j)
        match target with
        | none => pure ()
        | some j =>
            let isOptional := row.isPunct j "?" &&
              (j + 1 == close || row.isPunct (j + 1) ":" || row.isPunct (j + 1) "," ||
                row.isPunct (j + 1) "=")
            if isOptional then blankTokens row j j
            let j ← annotation row (if isOptional then j + 1 else j) close
            let comma := row.commaFrom false (close - j) 0 j
            if j < comma then scan row comma fuel 0 none j
            parametersFrom row close fuel (comma + 1)
termination_by structural fuel => fuel

/-- Reads the parenthesis at `i`, with the parameters that it may hold. -/
def parenthesis (row : TokenRow) (stop : Nat) : Nat → Nat → Erase Nat
  | 0, i => fail row i .tooDeep
  | fuel + 1, i =>
      match row.matching i stop with
      | none => pure (i + 1)
      | some close => do
          let after := close + 1
          if row.isPunct after "=>" && !row.breakBefore after then
            let _ ← parameters row stop fuel i
            pure after
          else
            let (next, place) := row.skipType (after + 1) stop true
            if row.isPunct after ":" && after + 1 < next && row.isPunct next "=>" then
              let _ ← parameters row stop fuel i
              blank (row.start after) place
              pure next
            else
              let before := row.lastKept (← get) i
              if before.any (row.isWord · "catch") then
                let _ ← parameters row stop fuel i
                pure after
              else if before.any row.isName && row.isPunct after "\x7b" then
                let _ ← parameters row stop fuel i
                pure after
              else if before.any row.isName && row.isPunct after ":" then
                let (next, place) := row.skipType (after + 1) stop false
                if row.isPunct next "\x7b" then
                  let _ ← parameters row stop fuel i
                  blank (row.start after) place
                  pure next
                else pure (i + 1)
              else pure (i + 1)
termination_by structural fuel => fuel

/-- Reads the members of a class from token `j` on to the brace at `close`. -/
def members (row : TokenRow) (close : Nat) : Nat → Nat → Erase Unit
  | 0, j => fail row j .tooDeep
  | fuel + 1, member =>
      if close ≤ member then pure ()
      else if row.isPunct member ";" then members row close fuel (member + 1)
      else if row.isWord member "static" && row.isPunct (member + 1) "\x7b" then do
        let block ← matching row (member + 1) close "\x7d"
        scan row block fuel 0 none (member + 2)
        members row close fuel (block + 1)
      else do
        let (j, dropped) ← modifiers row (close - member) member false
        if row.isPunct j "[" && row.isAnyWord (j + 1) && row.isPunct (j + 2) ":" then
          members row close fuel (← indexSignature row member j close)
        else
          let j := if row.isPunct j "*" then j + 1 else j
          let j := if row.isPunct j "#" then j + 1 else j
          let named ←
            if row.isPunct j "[" then
              match row.matching j close with
              | none => pure none
              | some computed => do
                  scan row computed fuel 0 none (j + 1)
                  pure (some (computed + 1))
            else if row.isAnyWord j || row.isStr j || row.isNumber j then pure (some (j + 1))
            else pure (some j)
          match named with
          | none => pure ()
          | some j =>
              let j ← memberMark row j close
              let j ← typeParameters? row j close
              let next ←
                if row.isPunct j "(" then method row close fuel member dropped j
                else field row close fuel member dropped j
              members row close fuel next
termination_by structural fuel => fuel

def method (row : TokenRow) (close : Nat) : Nat → Nat → Bool → Nat → Erase Nat
  | 0, _, _, j => fail row j .tooDeep
  | fuel + 1, member, dropped, j => do
      let paren ← parameters row close fuel j
      let k ← annotation row (paren + 1) close
      if row.isPunct k "\x7b" then
        let body ← matching row k close "\x7d"
        if dropped then blank (row.start member) (row.stop body)
        else scan row body fuel 0 none (k + 1)
        pure (body + 1)
      else
        let next := if row.isPunct k ";" then k + 1 else k
        blank (row.start member) (row.stop (next - 1))
        pure next
termination_by structural fuel => fuel

def field (row : TokenRow) (close : Nat) : Nat → Nat → Bool → Nat → Erase Nat
  | 0, _, _, j => fail row j .tooDeep
  | fuel + 1, member, dropped, j => do
      let j ← annotation row j close
      let j ←
        if row.isPunct j "=" then do
          let stop := fieldEnd row (j + 1) (close - (j + 1)) 0 (j + 1)
          scan row stop fuel 0 none (j + 1)
          pure stop
        else pure j
      let j := if row.isPunct j ";" then j + 1 else j
      if dropped && member < j then blank (row.start member) (row.stop (j - 1))
      pure (if j == member then j + 1 else j)
termination_by structural fuel => fuel

end

end Erase

/-! ## Whole texts -/

/-- More than the calls that the walk over a text nests. -/
def erasureAllowance (source : List Char) : Nat := 16 * (source.length + 2)

def erasureOf (source : List Char) (tokens : List Token) : Except SyntaxError Erasure := do
  let row := TokenRow.ofTokens source tokens
  let (_, e) ← (Erase.scan row row.size (erasureAllowance source) 0 none 0).run {}
  return e.dropTypeExports.dropUnusedImports tokens

/-- The text with its types erased. -/
def eraseTypes (jsx : Bool) (source : String) : Except SyntaxError String := do
  let tokens ← tokenize ⟨jsx, true⟩ source
  let e ← erasureOf source.toList tokens
  return String.ofList (Erasure.sweep (Erasure.joined e.blanks) 0 source.toList)

end JsxPreview.Source
