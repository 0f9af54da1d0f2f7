import JsxPreview.Source.Declaration
import JsxPreview.Source.Lexer
import JsxPreview.Source.Usage

/-! # Analysis of a module

`analyze` reads the declarations at the top level, then the uses inside expressions, and gives the
module a header: the place of the module, the element factory, the renderer, and the getters of what
it exports. -/
set_option autoImplicit false
namespace JsxPreview.Source

open JsxPreview.Text

structure HeaderOptions where
  jsxRuntime : String
  /-- The renderer that is exported along with the module, if any. -/
  renderer : Option String := none
  fileUrl : String := ""

namespace Analysis

/-- The loading of a module into a variable, ahead of the source. -/
def headerLoad (holder specifier : String) : List Piece :=
  [.text ("var " ++ holder ++ " = require("), .moduleId specifier, .text "); "]

def getterText (getter : String × String) : String :=
  propertyKey getter.1 ++ ": () => " ++ getter.2

def withMeta (a : Analysis) (o : HeaderOptions) : Analysis :=
  if a.usesImportMeta then
    { a with header := a.header ++
        [.text ("var __preview_import_meta = \x7b url: " ++ Quoted.json o.fileUrl ++ " \x7d; ")] }
  else a

def withFactory (a : Analysis) (o : HeaderOptions) : Analysis :=
  if a.hasJsx then
    { a.depend o.jsxRuntime 0 .runtime with
        header := a.header ++ headerLoad "__jsx_runtime" o.jsxRuntime }
  else a

def withRenderer (a : Analysis) (o : HeaderOptions) : Analysis :=
  match o.renderer with
  | none => a
  | some renderer =>
      if a.isEsm && !a.exportsName "renderAsync" then
        { (a.depend renderer 0 .runtime).offer [("renderAsync", "__preview_render.renderAsync")] with
            header := a.header ++ headerLoad "__preview_render" renderer }
      else a

def withGetters (a : Analysis) : Analysis :=
  if a.isEsm then
    { a with header := a.header ++
        [.text ("__preview_export(exports, \x7b " ++
          String.intercalate ", " (a.exported.map getterText) ++ " \x7d);")] }
  else a

def withHeader (a : Analysis) (o : HeaderOptions) : Analysis :=
  (((a.withMeta o).withFactory o).withRenderer o).withGetters

end Analysis

def analyze (source : List Char) (tokens : List Token) (o : HeaderOptions) :
    Except SyntaxError Analysis := do
  let row := TokenRow.ofTokens source tokens
  let declared ← Analysis.declarations row (row.size + 1) 0 0 {}
  let used := (Token.usagesAll false tokens).foldl Analysis.addUsage declared
  return used.withHeader o

end JsxPreview.Source
