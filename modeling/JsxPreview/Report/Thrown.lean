import JsxPreview.Json.Reader
import JsxPreview.Json.Shape
import JsxPreview.Script.Text

/-! # Thrown errors -/
set_option autoImplicit false
namespace JsxPreview.Report

open JsxPreview.Json

structure Thrown where
  name : String
  message : String
  stack : Option String := none
  /-- What the error says about its own cause; null when it says nothing. -/
  cause : Value := .null

namespace Thrown

def ofJson? (v : Value) : Option Thrown := do
  let m ← v.members? ["name", "message", "stack", "cause"]
  return {
    name := ← m.need "name" Value.text?
    message := ← m.need "message" Value.text?
    stack := ← m.option "stack" Value.text?
    cause := ← m.orElse "cause" some .null }

def toJson (t : Thrown) : Value :=
  .object [("name", .text t.name), ("message", .text t.message), ("stack", .optText t.stack),
    ("cause", t.cause)]

end Thrown

end JsxPreview.Report

/-! ## Thrown values

What has a message is reported as an error; any other value that was thrown is reported by its text. -/
namespace JsxPreview.Report

open JsxPreview.Script (Value)

def textProperty? (v : Value) (name : String) : Option String :=
  match v.property name with
  | .text s => some s
  | _ => none

/-- The text of a value, or words for a value that has none. -/
def textOf (v : Value) : String :=
  match v.toText with
  | .ok s => s
  | .error _ => "[unprintable value]"

def isError : Value → Bool
  | .error _ _ _ => true
  | _ => false

def nameOf (v : Value) : String := (textProperty? v "name").getD "Error"

/-- The cause of an error as JSON: the name and the message of an error, and else the value itself, or
its text. -/
def causeJson (v : Value) : Json.Value :=
  let hasStack := isError v || (v.isObject && (textProperty? v "stack").isSome)
  match hasStack, textProperty? v "message" with
  | true, some message => .object [("name", .text (nameOf v)), ("message", .text message)]
  | _, _ =>
      match v.json?.bind fun s => (Json.parse s).toOption with
      | some json => json
      | none => .text (textOf v)

def Thrown.ofValue (v : Value) : Thrown :=
  match v.isObject, textProperty? v "message" with
  | true, some message =>
      let cause := v.property "cause"
      { name := nameOf v, message
        cause := if cause.isUndefined then .null else causeJson cause }
  | _, _ => { name := "Error", message := textOf v }

end JsxPreview.Report
