import JsxPreview.Source.Erasure.Basic
import JsxPreview.Source.TypeExtent

/-! # Declarations of types, imports and exports

Declarations of types go as a whole, with the words `export` and `default` in front of them.
Imports are recorded, to be judged when it is known which names are in use; so are exports of local
names. -/
set_option autoImplicit false
namespace JsxPreview.Source

/-- A step of the walk that finds what to erase. -/
abbrev Erase (α : Type) : Type := StateT Erasure (Except SyntaxError) α

namespace Erase

def blank (start stop : Nat) : Erase Unit := modify (·.blank start stop)

def blankTokens (row : TokenRow) (first last : Nat) : Erase Unit :=
  blank (row.start first) (row.stop last)

def fail {α : Type} (row : TokenRow) (i : Nat) (cause : SyntaxError.Cause) : Erase α :=
  throw ⟨cause, row.start i⟩

def expected {α : Type} (row : TokenRow) (i : Nat) (what : String) : Erase α :=
  fail row i (.expected what (row.found i))

/-- The bracket that closes the one at token `i`; `what` is missing if there is none. -/
def matching (row : TokenRow) (i stop : Nat) (what : String) : Erase Nat :=
  match row.matching i stop with
  | some close => pure close
  | none => expected row i what

end Erase

/-- Words that never end an operand. -/
def erasureKeywords : List String :=
  ["as", "async", "await", "break", "case", "catch", "class", "const", "continue", "debugger",
   "default", "delete", "do", "else", "enum", "export", "extends", "finally", "for", "function",
   "if", "implements", "import", "in", "instanceof", "let", "new", "of", "return", "satisfies",
   "switch", "throw", "try", "typeof", "var", "void", "while", "with", "yield"]

namespace TokenRow

def isOperandEnd (row : TokenRow) (i : Nat) : Bool :=
  match row.get? i with
  | none => false
  | some t =>
      if t.isWord then !erasureKeywords.contains t.text
      else if t.isPunct then [")", "]", "\x7d"].contains t.text
      else true

def isName (row : TokenRow) (i : Nat) : Bool :=
  row.isAnyWord i && !erasureKeywords.contains (row.text i)

/-- The closest token in front of token `i` that is not erased. -/
def lastKept (row : TokenRow) (e : Erasure) : Nat → Option Nat
  | 0 => none
  | i + 1 => if e.isBlank (row.start i) then lastKept row e i else some i

def isStatementStart (row : TokenRow) (e : Erasure) (i : Nat) : Bool :=
  match row.lastKept e i with
  | none => true
  | some p =>
      row.breakBetween (row.stop p) (row.start i) ||
        (row.isAnyPunct p && [";", "\x7b", "\x7d"].contains (row.text p)) ||
        row.isWord p "export" || row.isWord p "default"

/-- Where the declaration at token `i` starts, with the words that export it. -/
def declarationStart (row : TokenRow) (i : Nat) : Nat :=
  if 2 ≤ i && row.isWord (i - 1) "default" && row.isWord (i - 2) "export" then row.start (i - 2)
  else if 1 ≤ i && row.isWord (i - 1) "export" then row.start (i - 1)
  else row.start i

/-- The first brace from token `j` on that stands outside type arguments, among `n` tokens. -/
def braceFrom (row : TokenRow) (stop : Nat) : Nat → Nat → Nat
  | 0, j => j
  | n + 1, j =>
      if stop ≤ j || row.isPunct j "\x7b" then j
      else
        match if row.isPunct j "<" then row.angleClose j stop else none with
        | some (close, _) => braceFrom row stop n (close + 1)
        | none => braceFrom row stop n (j + 1)

end TokenRow

namespace Erase

/-- Erases the type annotation that the colon at token `i` starts, if there is one there. -/
def annotation (row : TokenRow) (i stop : Nat) : Erase Nat :=
  if row.isPunct i ":" then do
    let (next, place) := row.skipType (i + 1) stop false
    blank (row.start i) place
    pure next
  else pure i

def typeParameters (row : TokenRow) (i stop : Nat) : Erase Nat :=
  match row.angleClose i stop with
  | some (close, place) => do
      blank (row.start i) place
      pure (close + 1)
  | none => expected row i ">"

def typeParameters? (row : TokenRow) (i stop : Nat) : Erase Nat :=
  if row.isPunct i "<" then typeParameters row i stop else pure i

def typeAlias (row : TokenRow) (i stop : Nat) : Erase Nat := do
  modify fun e => { e with typeNames := row.text (i + 1) :: e.typeNames }
  let j ←
    if row.isPunct (i + 2) "<" then
      match row.angleClose (i + 2) stop with
      | some (close, _) => pure (close + 1)
      | none => expected row (i + 2) ">"
    else pure (i + 2)
  if !row.isPunct j "=" then expected row j "="
  else
    let (next, place) := row.skipType (j + 1) stop false
    if row.isPunct next ";" then
      blank (row.declarationStart i) (row.stop next)
      pure (next + 1)
    else
      blank (row.declarationStart i) place
      pure next

def interface (row : TokenRow) (i stop : Nat) : Erase Nat := do
  modify fun e => { e with typeNames := row.text (i + 1) :: e.typeNames }
  let j := row.braceFrom stop (stop - (i + 2)) (i + 2)
  match if row.isPunct j "\x7b" then row.matching j stop else none with
  | some close =>
      blank (row.declarationStart i) (row.stop close)
      pure (close + 1)
  | none => expected row j "\x7b"

/-- The first brace from token `j` on, among `n` tokens. -/
def plainBraceFrom (row : TokenRow) : Nat → Nat → Nat
  | 0, j => j
  | n + 1, j => if row.isPunct j "\x7b" then j else plainBraceFrom row n (j + 1)

/-- The end of a statement: a semicolon or a new line outside brackets. -/
def statementEnd (row : TokenRow) : Nat → Nat → Nat → Nat
  | 0, _, j => j
  | n + 1, depth, j =>
      if depth == 0 && (row.isPunct j ";" || row.breakBefore j) then j
      else if row.opensBracket j then statementEnd row n (depth + 1) (j + 1)
      else if row.closesBracket j then statementEnd row n (depth - 1) (j + 1)
      else statementEnd row n depth (j + 1)

/-- A declaration of what exists elsewhere: the whole statement goes. -/
def ambient (row : TokenRow) (i stop : Nat) : Erase Nat := do
  let hasBody := ["module", "namespace", "global", "class", "enum", "interface", "abstract"]
  let j ←
    if hasBody.contains (row.text (i + 1)) then
      let brace := plainBraceFrom row (stop - (i + 1)) (i + 1)
      match if row.isPunct brace "\x7b" then row.matching brace stop else none with
      | some close => pure (close + 1)
      | none => expected row brace "\x7b"
    else pure (statementEnd row (stop - (i + 2)) 0 (i + 2))
  let next := if row.isPunct j ";" then j + 1 else j
  blank (row.declarationStart i) (row.stop (next - 1))
  pure next

/-! ## Imports -/

/-- The specifiers from token `k` on to the brace at `close`: those that bind values, and the
stretches of those that bind types. -/
def importSpecifiers (row : TokenRow) (typeOnly : Bool) (close : Nat) :
    Nat → Nat → List ImportBinding × List Span
  | 0, _ => ([], [])
  | n + 1, first =>
      if close ≤ first then ([], [])
      else
        let ofType := row.isWord first "type" &&
          ((row.isAnyWord (first + 1) && !row.isWord (first + 1) "as") || row.isStr (first + 1))
        let k := if ofType then first + 1 else first
        let (name, k) :=
          if row.isWord (k + 1) "as" then (row.text (k + 2), k + 3) else (row.text k, k + 1)
        let (stop, next) :=
          if row.isPunct k "," then (row.stop k, k + 1) else (row.stop (k - 1), k)
        let (bindings, types) := importSpecifiers row typeOnly close n next
        if typeOnly || ofType then (bindings, ⟨row.start first, stop⟩ :: types)
        else (⟨name, ⟨row.start first, stop⟩, true⟩ :: bindings, types)

/-- The default binding of an import at token `j`, and the token behind it. -/
def defaultBinding (row : TokenRow) (j : Nat) : List ImportBinding × Nat :=
  if row.isAnyWord j && (row.isPunct (j + 1) "," || row.isWord (j + 1) "from") then
    let last := if row.isPunct (j + 1) "," then j + 1 else j
    ([⟨row.text j, ⟨row.start j, row.stop last⟩, false⟩], last + 1)
  else ([], j)

/-- The namespace binding of an import at token `j`, and the token behind it. -/
def namespaceBinding (row : TokenRow) (j : Nat) : List ImportBinding × Nat :=
  if row.isPunct j "*" && row.isWord (j + 1) "as" && row.isAnyWord (j + 2) then
    ([⟨row.text (j + 2), ⟨row.start j, row.stop (j + 2)⟩, false⟩], j + 3)
  else ([], j)

/-- The token behind the module name, attributes and semicolon of an import. -/
def importEnd (row : TokenRow) (j stop : Nat) : Nat :=
  let attributes :=
    (row.isWord (j + 2) "with" || row.isWord (j + 2) "assert") && row.isPunct (j + 3) "\x7b" &&
      !row.breakBefore (j + 2)
  let j := match if attributes then row.matching (j + 3) stop else none with
    | some close => close + 1
    | none => j + 2
  if row.isPunct j ";" then j + 1 else j

def importStatement (row : TokenRow) (i stop : Nat) : Erase Nat := do
  if row.isStr (i + 1) then return i + 2
  let typeOnly :=
    row.isWord (i + 1) "type" && !row.isPunct (i + 2) "," && !row.isWord (i + 2) "from"
  let (default, j) := defaultBinding row (if typeOnly then i + 2 else i + 1)
  let (space, j) := namespaceBinding row j
  let (named, hasSpecifiers, j) ←
    if row.isPunct j "\x7b" then do
      let close ← matching row j stop "\x7d"
      let (named, types) := importSpecifiers row typeOnly close (close - j) (j + 1)
      modify (·.blankAll types)
      pure (named, decide (j + 1 < close), close + 1)
    else pure ([], false, j)
  if !row.isWord j "from" || !row.isStr (j + 1) then return j
  let next := importEnd row j stop
  let span : Span := ⟨row.start i, row.stop (next - 1)⟩
  if typeOnly then blank span.start span.stop
  else
    let statement : ImportStatement := ⟨span, default ++ space ++ named, hasSpecifiers⟩
    modify fun e => { e with imports := e.imports ++ [statement] }
  return next

/-! ## Exports -/

/-- The specifiers from token `k` on to the brace at `close`: those that name values, and the
stretches of those that name types. -/
def exportSpecifiers (row : TokenRow) (close : Nat) : Nat → Nat → List ExportSpecifier × List Span
  | 0, _ => ([], [])
  | n + 1, first =>
      if close ≤ first then ([], [])
      else
        let ofType :=
          row.isWord first "type" && row.isAnyWord (first + 1) && !row.isWord (first + 1) "as"
        let k := if ofType then first + 1 else first
        let name := row.text k
        let k := if row.isWord (k + 1) "as" then k + 3 else k + 1
        let (stop, next) :=
          if row.isPunct k "," then (row.stop k, k + 1) else (row.stop (k - 1), k)
        let (values, types) := exportSpecifiers row close n next
        if ofType then (values, ⟨row.start first, stop⟩ :: types)
        else (⟨name, ⟨row.start first, stop⟩⟩ :: values, types)

/-- The last token of a list of exports that starts at token `j`. -/
def exportEnd (row : TokenRow) (j stop : Nat) : Erase Nat := do
  let k ←
    if row.isPunct j "\x7b" then matching row j stop "\x7d"
    else if row.isWord (j + 1) "as" then pure (j + 2)
    else pure j
  let k := if row.isWord (k + 1) "from" && row.isStr (k + 2) then k + 2 else k
  pure (if row.isPunct (k + 1) ";" then k + 1 else k)

def exportStatement (row : TokenRow) (i stop : Nat) : Erase Nat := do
  let j := i + 1
  if row.isWord j "type" && (row.isPunct (j + 1) "\x7b" || row.isPunct (j + 1) "*") then
    let last ← exportEnd row (j + 1) stop
    blankTokens row i last
    pure (last + 1)
  else if row.isPunct j "\x7b" then
    let close ← matching row j stop "\x7d"
    let (values, types) := exportSpecifiers row close (close - j) (j + 1)
    let isLocal := !row.isWord (close + 1) "from"
    modify fun e =>
      let e := e.blankAll types
      if isLocal then { e with exported := e.exported ++ values } else e
    let last ← exportEnd row j stop
    pure (last + 1)
  else if row.isPunct j "*" then
    let last ← exportEnd row j stop
    pure (last + 1)
  else if row.isPunct j "=" then fail row j .exportAssignment
  else pure (i + 1)

end Erase

end JsxPreview.Source
