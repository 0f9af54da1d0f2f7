import JsxPreview.Source.Analysis
import JsxPreview.Source.Binding
import JsxPreview.Source.Lexeme

/-! # Declarations of imports and exports

At the top level of a module a declaration becomes assignments and getters.  An import binds plain
variables to members of the loaded module, an export only adds getters and leaves the declared
thing in place, and a re-export does both.  Each reader gives the index of the token where the scan
goes on. -/
set_option autoImplicit false
namespace JsxPreview.Source

open JsxPreview.Text

namespace TokenRow

def expectWord (row : TokenRow) (i : Nat) (w : String) : Except SyntaxError Unit :=
  if row.isWord i w then .ok () else row.fail i (.expected w (row.found i))

def stringValue (row : TokenRow) (i : Nat) : Except SyntaxError String :=
  if row.isStr i then .ok (unquote (row.text i)) else row.fail i (.expectedString (row.found i))

def wordText (row : TokenRow) (i : Nat) : Except SyntaxError String :=
  if row.isAnyWord i then .ok (row.text i) else row.fail i (.expectedIdentifier (row.found i))

/-- A name under which something is exported: a word or a string. -/
def exportedName (row : TokenRow) (i : Nat) : Except SyntaxError String :=
  if row.isAnyWord i then .ok (row.text i) else row.stringValue i

def skipSemicolon (row : TokenRow) (i : Nat) : Nat := if row.isPunct i ";" then i + 1 else i

/-- The module that a declaration names, where it names it, and where the declaration ends. -/
structure ModuleName where
  specifier : String
  offset : Nat
  next : Nat

/-- The string at token `i`, with the import attributes and the semicolon behind it. -/
def moduleName (row : TokenRow) (i : Nat) : Except SyntaxError ModuleName := do
  let specifier ← row.stringValue i
  let next := i + 1
  let next ←
    if (row.isWord next "with" || row.isWord next "assert") && row.isPunct (next + 1) "\x7b" then
      match row.matching (next + 1) row.size with
      | some close => .ok (close + 1)
      | none => row.fail (next + 1) .unexpectedEnd
    else .ok next
  .ok ⟨specifier, row.start i, row.skipSemicolon next⟩

/-- Names in braces from token `i` on, each with the name that follows its `as`; `readAlias` reads
that name. -/
def nameList (row : TokenRow) (readAlias : Nat → Except SyntaxError String) :
    Nat → Nat → Except SyntaxError (List (String × String) × Nat)
  | 0, i => row.fail i .tooDeep
  | fuel + 1, i =>
      if row.isPunct i "\x7d" then .ok ([], i + 1)
      else do
        let name ← row.exportedName i
        let (renamed, next) ←
          if row.isWord (i + 1) "as" then do .ok (← readAlias (i + 2), i + 3) else .ok (name, i + 1)
        let next ←
          if row.isPunct next "," then .ok (next + 1)
          else if row.isPunct next "\x7d" then .ok next
          else row.fail next (.expected "\x7d" (row.found next))
        let (rest, final) ← nameList row readAlias fuel next
        .ok ((name, renamed) :: rest, final)

end TokenRow

/-- Loads a module into the variable `holder`, and adapts one that is not written with exports. -/
def loadInto (holder specifier code : String) : List Piece :=
  [.text ("var " ++ holder ++ " = __preview_interop(require("), .moduleId specifier,
    .text ("));" ++ code)]

/-- The variables that the names of an import at token `j` bind, as code, and where they end; `bind`
gives the code of one. -/
def TokenRow.importedNames (row : TokenRow) (bind : String → String → String) (j : Nat) :
    Except SyntaxError (String × Nat) :=
  if row.isPunct j "*" then do
    row.expectWord (j + 1) "as"
    let name ← row.wordText (j + 2)
    .ok (bind name "", j + 3)
  else if row.isPunct j "\x7b" then do
    let (names, next) ← row.nameList row.wordText (row.size + 1) (j + 1)
    .ok (String.join (names.map fun n => bind n.2 (memberAccess n.1)), next)
  else .ok ("", j)

/-- The name that an import at token `i` gives the default export, and where the other names
start. -/
def TokenRow.defaultImport (row : TokenRow) (i : Nat) : Option String × Nat :=
  if row.isAnyWord (i + 1) && !row.isWord (i + 1) "from" then
    (some (row.text (i + 1)), if row.isPunct (i + 2) "," then i + 3 else i + 2)
  else (none, i + 1)

/-- The declaration of imports at token `i`. -/
def Analysis.importDeclaration (a : Analysis) (row : TokenRow) (i : Nat) :
    Except SyntaxError (Analysis × Nat) := do
  let stopBefore (n : Nat) : Nat := row.stop (n - 1)
  if row.isStr (i + 1) then
    let m ← row.moduleName (i + 1)
    let pieces := [.text "require(", .moduleId m.specifier, .text ");"]
    return ((a.depend m.specifier m.offset .importDeclaration).rewrite (row.start i)
      (stopBefore m.next) pieces, m.next)
  let (default?, j) := row.defaultImport i
  let holder := "__import_" ++ toString a.importCount
  let bind (name access : String) : String := " var " ++ name ++ " = " ++ holder ++ access ++ ";"
  let (code, j) ← row.importedNames bind j
  row.expectWord j "from"
  let m ← row.moduleName (j + 1)
  let code := (default?.map (bind · ".default")).getD "" ++ code
  let a := { a with importCount := a.importCount + 1 }
  return ((a.depend m.specifier m.offset .importDeclaration).rewrite (row.start i)
    (stopBefore m.next) (loadInto holder m.specifier code), m.next)

/-- Where the keyword of a function or class at token `k` stands, behind an `async`. -/
def TokenRow.keywordAt (row : TokenRow) (k : Nat) : Nat :=
  if row.isWord k "async" && row.isWord (k + 1) "function" && !row.breakBefore (k + 1) then k + 1
  else k

/-- Where the name of a function or class stands, if it has one. -/
def TokenRow.nameBehind (row : TokenRow) (keyword : Nat) : Nat :=
  if row.isWord keyword "function" && row.isPunct (keyword + 1) "*" then keyword + 2
  else keyword + 1

/-- The default export at token `i`.  A function or class without a name is given one. -/
def Analysis.defaultExport (a : Analysis) (row : TokenRow) (i : Nat) : Analysis × Nat :=
  let k := i + 2
  let keyword := row.keywordAt k
  if row.isWord keyword "function" || row.isWord keyword "class" then
    let name := row.nameBehind keyword
    let a := a.rewrite (row.start i) (row.stop (i + 1)) []
    if row.isAnyWord name && !(row.isWord keyword "class" && row.isWord name "extends") then
      (a.offer [("default", row.text name)], k)
    else
      let place := row.start name
      ((a.rewrite place place [.text "__preview_default "]).offer
        [("default", "__preview_default")], k)
  else
    ((a.rewrite (row.start i) (row.stop (i + 1)) [.text "var __preview_default ="]).offer
      [("default", "__preview_default")], k)

/-- The export of names in braces at token `i`, from this module or from another one. -/
def Analysis.exportClause (a : Analysis) (row : TokenRow) (i : Nat) :
    Except SyntaxError (Analysis × Nat) := do
  let (names, j) ← row.nameList row.exportedName (row.size + 1) (i + 2)
  if row.isWord j "from" then
    let m ← row.moduleName (j + 1)
    let holder := "__reexport_" ++ toString a.reExportCount
    let a := { a with reExportCount := a.reExportCount + 1 }
    let getters := names.map fun n => (n.2, holder ++ memberAccess n.1)
    return (((a.depend m.specifier m.offset .reExport).offer getters).rewrite (row.start i)
      (row.stop (m.next - 1)) (loadInto holder m.specifier ""), m.next)
  else
    let next := row.skipSemicolon j
    return ((a.offer (names.map fun n => (n.2, n.1))).rewrite (row.start i)
      (row.stop (next - 1)) [], next)

/-- The name that an export of everything at token `i` gives it, and where that ends. -/
def TokenRow.exportAlias (row : TokenRow) (i : Nat) : Except SyntaxError (Option String × Nat) :=
  if row.isWord (i + 2) "as" then do .ok (some (← row.exportedName (i + 3)), i + 4)
  else .ok (none, i + 2)

/-- The export of everything that another module exports, at token `i`. -/
def Analysis.exportAll (a : Analysis) (row : TokenRow) (i : Nat) :
    Except SyntaxError (Analysis × Nat) := do
  let (name?, j) ← row.exportAlias i
  row.expectWord j "from"
  let m ← row.moduleName (j + 1)
  let holder := "__reexport_" ++ toString a.reExportCount
  let a := { a with reExportCount := a.reExportCount + 1 }
  let a := a.depend m.specifier m.offset .reExport
  let place := row.start i
  let stop := row.stop (m.next - 1)
  match name? with
  | some name =>
      return ((a.offer [(name, holder)]).rewrite place stop
        (loadInto holder m.specifier ""), m.next)
  | none =>
      return (a.rewrite place stop
        [.text ("var " ++ holder ++ " = require("), .moduleId m.specifier,
          .text ("); __preview_reexport(exports, " ++ holder ++ ");")], m.next)

/-- The name of the function or class that is declared at token `j`. -/
def TokenRow.declaredName (row : TokenRow) (j : Nat) : Except SyntaxError String := do
  let k ←
    if row.isWord j "async" then do
      row.expectWord (j + 1) "function"
      .ok (j + 2)
    else .ok (j + 1)
  row.wordText (if row.isPunct k "*" then k + 1 else k)

/-- The declaration of exports at token `i`. -/
def Analysis.exportDeclaration (a : Analysis) (row : TokenRow) (i : Nat) :
    Except SyntaxError (Analysis × Nat) := do
  let j := i + 1
  let dropWord (a : Analysis) : Analysis := a.rewrite (row.start i) (row.stop i) []
  if row.isWord j "default" then return a.defaultExport row i
  else if row.isWord j "var" || row.isWord j "let" || row.isWord j "const" then
    let names ← row.declarators (row.size + 1) (j + 1)
    return ((dropWord a).offer (names.map fun n => (n, n)), j)
  else if row.isWord j "function" || row.isWord j "class" || row.isWord j "async" then
    let name ← row.declaredName j
    return ((dropWord a).offer [(name, name)], j)
  else if row.isPunct j "\x7b" then a.exportClause row i
  else if row.isPunct j "*" then a.exportAll row i
  else row.fail j (.unexpectedExport (row.found j))

def TokenRow.followsDot (row : TokenRow) : Nat → Bool
  | 0 => false
  | i + 1 => row.isPunct i "." || row.isPunct i "?."

/-- The declarations at the top level, from token `i` on; `depth` counts open brackets. -/
def Analysis.declarations (row : TokenRow) : Nat → Int → Nat → Analysis →
    Except SyntaxError Analysis
  | 0, _, _, a => .ok a
  | fuel + 1, depth, i, a => do
      if row.size ≤ i then return a
      let topLevel := depth == 0 && !row.followsDot i
      if topLevel && row.isWord i "import" && !row.isPunct (i + 1) "(" &&
          !row.isPunct (i + 1) "." then
        let (a, next) ← a.importDeclaration row i
        declarations row fuel depth next { a with isEsm := true }
      else if topLevel && row.isWord i "export" then
        let (a, next) ← a.exportDeclaration row i
        declarations row fuel depth next { a with isEsm := true }
      else if row.opensBracket i then declarations row fuel (depth + 1) (i + 1) a
      else if row.closesBracket i then declarations row fuel (depth - 1) (i + 1) a
      else declarations row fuel depth (i + 1) a

end JsxPreview.Source
