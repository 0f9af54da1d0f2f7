import JsxPreview.Json.Expected
import JsxPreview.Json.Shape

/-! # Requests for a preview -/
set_option autoImplicit false
namespace JsxPreview.Preview

open JsxPreview.Json

structure RenderOptions where
  pretty : Bool := false
  plainText : Bool := false
deriving DecidableEq, Repr

namespace RenderOptions

def ofJson? (v : Value) : Option RenderOptions := do
  let m ← v.members? ["pretty", "plainText"]
  return ⟨← m.orElse "pretty" Value.bool? false, ← m.orElse "plainText" Value.bool? false⟩

def toJson (o : RenderOptions) : Value :=
  .object [("pretty", .bool o.pretty), ("plainText", .bool o.plainText)]

end RenderOptions

structure ModuleRequest where
  entryPath : String
  overrideSetId : Option String := none
deriving DecidableEq, Repr

namespace ModuleRequest

def ofJson? (v : Value) : Option ModuleRequest := do
  let m ← v.members? ["entryPath", "overrideSetId"]
  return ⟨← m.need "entryPath" Value.text?,
    ← m.orElse "overrideSetId" (Value.orNull? Value.text?) none⟩

def toJson (r : ModuleRequest) : Value :=
  .object [("entryPath", .text r.entryPath), ("overrideSetId", .optText r.overrideSetId)]

end ModuleRequest

structure RenderRequest where
  props : Option Value := none
  plainText : Bool := false
  pretty : Bool := false

namespace RenderRequest

def ofJson? (v : Value) : Option RenderRequest := do
  let m ← v.members? ["props", "plainText", "pretty"]
  return ⟨← m.orElse "props" (Value.orNull? some) none,
    ← m.orElse "plainText" Value.bool? false, ← m.orElse "pretty" Value.bool? false⟩

def toJson (r : RenderRequest) : Value :=
  .object [("props", r.props.getD .null), ("plainText", .bool r.plainText),
    ("pretty", .bool r.pretty)]

def options (r : RenderRequest) : RenderOptions := ⟨r.pretty, r.plainText⟩

end RenderRequest

structure CompileRequest where
  module : ModuleRequest
  render : Option RenderRequest := none

namespace CompileRequest

def ofJson? (v : Value) : Option CompileRequest := do
  let m ← v.members? ["entryPath", "overrideSetId", "render"]
  return ⟨⟨← m.need "entryPath" Value.text?,
      ← m.orElse "overrideSetId" (Value.orNull? Value.text?) none⟩,
    ← m.orElse "render" (Value.orNull? RenderRequest.ofJson?) none⟩

def toJson (r : CompileRequest) : Value :=
  .object [("entryPath", .text r.module.entryPath),
    ("overrideSetId", .optText r.module.overrideSetId),
    ("render", (r.render.map RenderRequest.toJson).getD .null)]

end CompileRequest

/-! ## Reading the body of a request

What follows the request in a body is not looked at. -/

def renderRequest : Expected :=
  .record [("props", false, .optional .anything), ("plainText", false, .flag),
    ("pretty", false, .flag)]

def compileRequest : Expected :=
  .record [("entryPath", true, .text), ("overrideSetId", false, .optional .text),
    ("render", false, .optional renderRequest)]

def CompileRequest.read (body : String) : Except ReadFault CompileRequest := do
  let (v, _) ← compileRequest.readFirst body
  match CompileRequest.ofJson? v with
  | some r => return r
  | none => throw .mismatch

end JsxPreview.Preview
