import JsxPreview.Files.Overrides
import JsxPreview.SourceMap.Document

/-! # The answer to a successful compile -/
set_option autoImplicit false
namespace JsxPreview.Preview

open JsxPreview.Json

inductive ConsoleLevel where
  | log
  | info
  | debug
  | warn
  | error
deriving DecidableEq, Repr

namespace ConsoleLevel

def all : List ConsoleLevel := [log, info, debug, warn, error]

def name : ConsoleLevel → String
  | log => "log"
  | info => "info"
  | debug => "debug"
  | warn => "warn"
  | error => "error"

def ofName? (s : String) : Option ConsoleLevel := all.find? (·.name == s)

end ConsoleLevel

structure ConsoleEntry where
  level : ConsoleLevel
  message : String
deriving DecidableEq, Repr

namespace ConsoleEntry

def ofJson? (v : Value) : Option ConsoleEntry := do
  let m ← v.members? ["level", "message"]
  return ⟨← m.need "level" (fun v => v.choice? >>= ConsoleLevel.ofName?),
    ← m.need "message" Value.text?⟩

def toJson (e : ConsoleEntry) : Value :=
  .object [("level", .text e.level.name), ("message", .text e.message)]

end ConsoleEntry

structure Payload where
  componentName : Option String
  hasRenderFunction : Bool
  sourceMap : SourceMap
  overrides : OverrideStatus
  console : List ConsoleEntry
  markup : Option String := none

namespace Payload

def ofJson? (v : Value) : Option Payload := do
  let m ← v.members? ["componentName", "hasRenderFunction", "sourceMap", "overrides", "console",
    "markup"]
  return {
    componentName := ← m.option "componentName" Value.text?
    hasRenderFunction := ← m.need "hasRenderFunction" Value.bool?
    sourceMap := ← m.need "sourceMap" SourceMap.ofJson?
    overrides := ← m.need "overrides" OverrideStatus.ofJson?
    console := ← m.need "console" (Value.listOf? ConsoleEntry.ofJson?)
    markup := ← m.orElse "markup" (Value.orNull? Value.text?) none }

def toJson (p : Payload) : Value :=
  .object <| [("componentName", .optText p.componentName),
    ("hasRenderFunction", .bool p.hasRenderFunction), ("sourceMap", p.sourceMap.toJson),
    ("overrides", p.overrides.toJson), ("console", .list (p.console.map ConsoleEntry.toJson))] ++
    SourceMap.present "markup" .text p.markup

end Payload

end JsxPreview.Preview
