import JsxPreview.Bundle.Failure
import JsxPreview.Bundle.Renderer
import JsxPreview.Bundle.Specifier
import JsxPreview.Files.Overrides
import JsxPreview.Files.Tree
import JsxPreview.Json.Shape
import JsxPreview.Source.Erasure.Walk
import JsxPreview.Source.Module
import JsxPreview.Text.Lines
import JsxPreview.Url.Form

/-! # Modules of a bundle

A project says what is bundled: the entry, where texts are read, and what is provided outside.  Each
module is read, parsed as its loader says, and its dependencies are resolved against the files that
there are. -/
set_option autoImplicit false
namespace JsxPreview.Bundle

open JsxPreview.Json

structure Options where
  /-- The specifier that stands for the renderer. -/
  renderSpecifier : String := "@preview/render"
  /-- Whether the entry exports the function that renders. -/
  injectRenderExport : Bool := true
  /-- The package whose `jsx-runtime` makes elements. -/
  jsxImportSource : String := "react"
  /-- Where the bundle would be written, as seen from the root of the project. -/
  outDir : String := ".preview-out"
deriving DecidableEq, Repr

namespace Options

def ofJson? (v : Value) : Option Options := do
  let m ← v.members? ["renderSpecifier", "injectRenderExport", "jsxImportSource", "outDir"]
  return ⟨← m.need "renderSpecifier" Value.text?, ← m.need "injectRenderExport" Value.bool?,
    ← m.need "jsxImportSource" Value.text?, ← m.need "outDir" Value.text?⟩

def toJson (o : Options) : Value :=
  .object [("renderSpecifier", .text o.renderSpecifier),
    ("injectRenderExport", .bool o.injectRenderExport),
    ("jsxImportSource", .text o.jsxImportSource), ("outDir", .text o.outDir)]

def overDefaults? (v : Value) : Option Options :=
  let absent := (toJson {}).fields.filter fun (name, _) => (v.get? name).isNone
  ofJson? (.object (v.fields ++ absent))

def jsxRuntime (o : Options) : String := o.jsxImportSource ++ "/jsx-runtime"

end Options

/-- Modules that every sandbox provides. -/
def defaultHosts : List String := ["react", "react/jsx-dev-runtime", "react/jsx-runtime"]

/-! ## Projects and their modules -/

open JsxPreview.Files JsxPreview.Source JsxPreview.Text

structure Project where
  /-- The entry, as a normal absolute path. -/
  entry : Path
  files : Tree
  sources : Sources
  options : Options := {}
  hosts : List String := defaultHosts

inductive Body where
  | data
  | code (tokens : List Token) (analysis : Analysis)

structure Module where
  path : Path
  id : String
  /-- The text of the file. -/
  source : String
  /-- The text that is parsed, from which types are erased. -/
  text : String
  body : Body
  /-- The ids that its specifiers lead to. -/
  resolved : List (String × String) := []

namespace Module

def dependencies (m : Module) : List Dependency :=
  match m.body with
  | .data => []
  | .code _ a => a.dependencies

end Module

inductive Resolution where
  | module (path : Path)
  | outside (specifier : String)
deriving DecidableEq, Repr

def fileUrl (p : Path) : String :=
  let segments := p.components.tail.map fun c =>
    '/' :: Url.escape Url.inFileSegment c.text.toList
  "file://" ++ (if segments.isEmpty then "/" else String.ofList segments.flatten)

namespace Project

def root (p : Project) : Path := p.sources.root

def renderer (p : Project) : Path := rendererPath p.root

/-- Whether edits may apply to a file: those of the directory of the entry are read through the
sources. -/
def isInScope (p : Project) (path : Path) : Bool := p.entry.parentDir.isWithin path

def moduleId (p : Project) (path : Path) : String :=
  match p.root.relativeTo path with
  | some place => "./" ++ place
  | none => path.toSlash

/-- The name of a file in messages. -/
def shownPath (p : Project) (path : Path) : String := (p.root.relativeTo path).getD path.toSlash

def isFile (p : Project) (path : Path) : Bool :=
  if path.isSame p.renderer then true
  else if p.isInScope path then p.sources.isFile p.files path
  else p.files.isFile path

/-- Reads a file, through the cache when there is one and no override applies. -/
def read (p : Project) (cache : Option Cache) (path : Path) :
    Except Fault String × Option Cache :=
  if path.isSame p.renderer then (.ok rendererText, cache)
  else if p.isInScope path then
    match cache, p.sources.isOverridden with
    | some c, false =>
        let (text, c) := c.read p.files path
        (text, some c)
    | _, _ => (p.sources.read p.files path, cache)
  else (p.files.read path, cache)

def firstFile (p : Project) (base : Path) : Option Path := (candidates base).find? p.isFile

def packageFile (p : Project) (package : Path) (inside : Option String) : Option Path :=
  if !p.files.isDirectory package then none
  else match inside with
    | some place => p.firstFile (package.join place)
    | none =>
        let declared := do
          let main ← (p.files.read (package.join "package.json")).toOption >>= packageEntry
          p.firstFile (package.join main).normalize
        declared <|> p.firstFile (package.join "index")

def resolve (p : Project) (specifier : String) (importer : Path) : Option Resolution :=
  let directory := importer.parentDir
  match classify specifier p.options.renderSpecifier p.hosts with
  | .reserved => some (.module p.renderer)
  | .outside => some (.outside specifier)
  | .path => (p.firstFile (directory.join specifier).normalize).map .module
  | .package =>
      let (name, inside) := splitPackage specifier
      ((nodeModules directory).findSome? fun d => p.packageFile (d.join name) inside).map .module

def location (p : Project) (path : Path) (source : String) (offset : Nat) : Location :=
  let place := position offset source.toList
  { file := p.shownPath path
    line := UInt32.ofNat (place.line + 1)
    column := UInt32.ofNat place.column
    lineText := String.ofList ((lines source.toList)[place.line]?.getD []) }

def headerOptions (p : Project) (path : Path) : HeaderOptions :=
  { jsxRuntime := p.options.jsxRuntime
    renderer :=
      if p.options.injectRenderExport && path.isSame p.entry then some p.options.renderSpecifier
      else none
    fileUrl := fileUrl path }

/-- The place that a failure to read JSON names; its column is taken as a count of units. -/
def jsonOffset (f : Json.Failure) (text : String) : Nat :=
  let (line, column) := f.place text
  offset (line - 1) (column - 1) text.toList

def located (p : Project) (path : Path) (source : String) (e : SyntaxError) : BuildError :=
  ⟨e.message, some (p.location path source e.offset)⟩

def parsedText (p : Project) (path : Path) (loader : Loader) (source : String) :
    Except BuildError String :=
  if loader.erasesTypes then
    (eraseTypes loader.readsElements source).mapError (p.located path source)
  else .ok source

def parseData (p : Project) (path : Path) (text : String) : Except BuildError Body :=
  match Json.parse text with
  | .ok _ => .ok .data
  | .error f =>
      .error ⟨"Invalid JSON: " ++ f.message text, some (p.location path text (jsonOffset f text))⟩

/-- The tokens of a text and their analysis; places of errors are found in the source. -/
def parseCode (p : Project) (path : Path) (loader : Loader) (source text : String) :
    Except BuildError Body := do
  let tokens ← (tokenize ⟨loader.readsElements, false⟩ text).mapError (p.located path source)
  let analysis ←
    (analyze text.toList tokens (p.headerOptions path)).mapError (p.located path source)
  return .code tokens analysis

def parseBody (p : Project) (path : Path) (loader : Loader) (source text : String) :
    Except BuildError Body :=
  if loader = .json then p.parseData path text else p.parseCode path loader source text

def parse (p : Project) (path : Path) (source : String) : Except BuildError Module := do
  let loader ← (Loader.ofPath path).mapError fun e => ⟨e.message, none⟩
  let text ← p.parsedText path loader source
  let body ← p.parseBody path loader source text
  return { path, id := p.moduleId path, source, text, body }

end Project

end JsxPreview.Bundle
