import JsxPreview.SourceMap.Vlq
import JsxPreview.Text.Lines

/-! # Writing code with its map

A `Builder` gathers sources and mappings; of two equal mappings in a row it keeps one, and the map
lists them by generated place, those of one place in the order in which they came.  A `CodeWriter`
keeps the place behind what it has written, so that a mapping can be tied to what comes next. -/
set_option autoImplicit false
namespace JsxPreview

open JsxPreview.Text

structure SourceMap where
  version : UInt32 := 3
  file : Option String := none
  sourceRoot : Option String := none
  sources : List String
  sourcesContent : Option (List (Option String)) := none
  names : List String := []
  mappings : String
deriving DecidableEq, Repr

namespace SourceMap

structure Builder where
  sources : List String := []
  contents : List (Option String) := []
  /-- The latest mapping comes first. -/
  latest : List Mapping := []
deriving DecidableEq, Repr

namespace Builder

/-- Adds a source, whose index is the number of sources before. -/
def addSource (b : Builder) (name : String) (content : Option String) : Builder × Nat :=
  ({ b with sources := b.sources ++ [name], contents := b.contents ++ [content] },
    b.sources.length)

def addMapping (b : Builder) (m : Mapping) : Builder :=
  if b.latest.head? = some m then b else { b with latest := m :: b.latest }

/-- Whether a mapping is not placed behind another one. -/
def isNotBehind (m n : Mapping) : Bool :=
  m.generatedLine < n.generatedLine ||
    (m.generatedLine == n.generatedLine && m.generatedColumn ≤ n.generatedColumn)

def sorted (b : Builder) : List Mapping := b.latest.reverse.mergeSort isNotBehind

def build (b : Builder) (file : Option String) : SourceMap where
  file := file
  sources := b.sources
  sourcesContent := some b.contents
  mappings := Vlq.encodeMappings b.sorted

end Builder

end SourceMap

/-- Code being written; the latest text comes first. -/
structure CodeWriter where
  written : List String := []
  place : Position := .origin
  map : SourceMap.Builder := {}

namespace CodeWriter

def code (w : CodeWriter) : String := String.join w.written.reverse

def write (w : CodeWriter) (text : String) : CodeWriter :=
  { w with written := text :: w.written, place := w.place.advance text.toList }

def addSource (w : CodeWriter) (name : String) (content : Option String) : CodeWriter × Nat :=
  let (map, index) := w.map.addSource name content
  ({ w with map }, index)

/-- Ties what is written next to a place in a source. -/
def mapTo (w : CodeWriter) (source line column : UInt32) : CodeWriter :=
  let m : SourceMap.Mapping :=
    ⟨UInt32.ofNat w.place.line, UInt32.ofNat w.place.column, source, line, column, none⟩
  { w with map := w.map.addMapping m }

end CodeWriter

end JsxPreview
