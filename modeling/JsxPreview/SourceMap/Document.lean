import JsxPreview.Json.Expected
import JsxPreview.Json.Shape
import JsxPreview.Path.Basic
import JsxPreview.SourceMap.Builder

/-! # Source maps as documents

A map is written as JSON.  `rebase` makes its sources absolute, as seen from the place of the map;
`DecodedMap.originalPosition` leads from a place in the code to one in a source. -/
set_option autoImplicit false
namespace JsxPreview

open JsxPreview.Json

namespace SourceMap

def fieldNames : List String :=
  ["version", "file", "sourceRoot", "sources", "sourcesContent", "names", "mappings"]

def ofJson? (v : Value) : Option SourceMap := do
  let m ← v.members? fieldNames
  return {
    version := ← m.need "version" Value.word?
    file := ← m.orElse "file" (Value.orNull? Value.text?) none
    sourceRoot := ← m.orElse "sourceRoot" (Value.orNull? Value.text?) none
    sources := ← m.need "sources" (Value.listOf? Value.text?)
    sourcesContent := ←
      m.orElse "sourcesContent" (Value.orNull? (Value.listOf? (Value.orNull? Value.text?))) none
    names := ← m.orElse "names" (Value.listOf? Value.text?) []
    mappings := ← m.need "mappings" Value.text? }

def read? (document : String) : Option SourceMap :=
  (Expected.record (fieldNames.map (·, false, .anything))).read? document >>= ofJson?

def present {α : Type} (name : String) (write : α → Value) (v : Option α) :
    List (String × Value) :=
  (v.map fun a => (name, write a)).toList

def toJson (m : SourceMap) : Value :=
  .object <| [("version", .nat m.version.toNat)] ++ present "file" .text m.file ++
    present "sourceRoot" .text m.sourceRoot ++ [("sources", .list (m.sources.map .text))] ++
    present "sourcesContent" (fun texts => .list (texts.map .optText)) m.sourcesContent ++
    [("names", .list (m.names.map .text)), ("mappings", .text m.mappings)]

/-- A source as seen from the directory of its map. -/
def rebasedSource (directory : Path) (source : String) : String :=
  (if Path.isAbsolute ⟨source⟩ then Path.normalize ⟨source⟩
    else (directory.join source).normalize).text

/-- The map with absolute sources, and the root two levels above the map. -/
def rebase (m : SourceMap) (mapPath : Path) : SourceMap :=
  { m with
    sourceRoot := some mapPath.projectRoot.text
    sources := m.sources.map (rebasedSource mapPath.parentDir) }

end SourceMap

/-- A place in a source: its line counts from one, its column from zero. -/
structure OriginalPosition where
  source : String
  line : UInt32
  column : UInt32
  name : Option String
deriving DecidableEq, Repr

structure DecodedMap where
  document : SourceMap
  mappings : SourceMap.Mappings

namespace DecodedMap

def ofMap (m : SourceMap) : Except SourceMap.VlqError DecodedMap :=
  (SourceMap.Vlq.decodeMappings m.mappings).map (⟨m, ·⟩)

/-- The place behind a line, counted from one, and a column, counted from zero. -/
def originalPosition (d : DecodedMap) (line column : UInt32) : Option OriginalPosition :=
  if line = 0 then none
  else do
    let m ← d.mappings.lookup (line - 1) column
    let source ← d.document.sources[m.source.toNat]?
    let name := m.name >>= fun n => d.document.names[n.toNat]?
    return ⟨source, m.line + 1, m.column, name⟩

end DecodedMap

end JsxPreview
