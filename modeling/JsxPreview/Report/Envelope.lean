import JsxPreview.Bundle.Failure
import JsxPreview.Files.Overrides
import JsxPreview.Report.Thrown
import JsxPreview.Report.Translation

/-! # Errors of a compile -/
set_option autoImplicit false
namespace JsxPreview.Report

/-- The part of a compile in which its time ran out. -/
inductive Stage where
  | bundle
  | execute
  | render
deriving DecidableEq, Repr

def Stage.name : Stage → String
  | bundle => "bundling"
  | execute => "execution"
  | render => "rendering"

inductive CompileError where
  | build (failure : Bundle.BuildFailure)
  | overrideFetch (overrideSet : String) (cause : FetchError)
  | missingExport (path : Path)
  | runtime (thrown : Thrown)
  | timeout (stage : Stage) (milliseconds : Nat)
  | sandbox (message : String)
  | system (message : String)
  | io (message : String)

namespace CompileError

def kind : CompileError → String
  | build _ => "BuildError"
  | overrideFetch .. => "OverrideFetchError"
  | missingExport _ => "MissingExportError"
  | runtime t => t.name
  | timeout .. => "TimeoutError"
  | sandbox _ | system _ | io _ => "Error"

def message : CompileError → String
  | build failure => failure.message
  | overrideFetch overrideSet cause =>
      "Failed to fetch override set \"" ++ overrideSet ++ "\": " ++ cause.message
  | missingExport path =>
      "The template component at " ++ path.text ++ " does not contain a default export"
  | runtime t => t.name ++ ": " ++ t.message
  | timeout stage ms => "Timeout after " ++ toString ms ++ "ms during " ++ stage.name
  | sandbox message => "Sandbox error: " ++ message
  | system message => "System error: " ++ message
  | io message => "IO error: " ++ message

end CompileError

/-! ## Reported errors

Every failure leaves the compiler in one shape: a name, a message, a stack and a cause. -/

open JsxPreview.Json

structure ErrorObject where
  message : String
  stack : Option String := none
  name : String
  cause : Value := .null

namespace ErrorObject

def ofJson? (v : Value) : Option ErrorObject := do
  let m ← v.members? ["message", "stack", "name", "cause"]
  return {
    message := ← m.need "message" Value.text?
    stack := ← m.option "stack" Value.text?
    name := ← m.need "name" Value.text?
    cause := ← m.orElse "cause" some .null }

def toJson (e : ErrorObject) : Value :=
  .object [("message", .text e.message), ("stack", .optText e.stack), ("name", .text e.name),
    ("cause", e.cause)]

def line (e : ErrorObject) : String := e.name ++ ": " ++ e.message

def ofBuildFailure (f : Bundle.BuildFailure) : ErrorObject :=
  { name := "BuildError"
    message := f.message
    stack := some ("BuildError: " ++ f.message)
    cause := .object [("errors", .list (f.errors.map Bundle.BuildError.toJson))] }

/-- A thrown error, its stack moved to the sources when there is a translator. -/
def ofThrown (t : Thrown) (translator : Option Translator) : ErrorObject :=
  let stack := match translator with
    | some tr => t.stack.map (tr.translateStack t.name t.message)
    | none => t.stack
  ⟨t.message, stack, t.name, t.cause⟩

def ofError (e : CompileError) (translator : Option Translator) : ErrorObject :=
  match e with
  | .build f => ofBuildFailure f
  | .overrideFetch id cause =>
      { name := e.kind, message := e.message
        cause := .object [("overrideSetId", .text id), ("reason", .text cause.message)] }
  | .timeout stage ms =>
      { name := e.kind, message := e.message
        cause := .object [("stage", .text stage.name), ("timeoutMs", .nat ms)] }
  | .missingExport _ => ofThrown ⟨e.kind, e.message, none, .null⟩ translator
  | .runtime t => ofThrown t translator
  | .sandbox _ | .system _ | .io _ => { name := e.kind, message := e.message }

def envelope (e : ErrorObject) : Value := .object [("error", e.toJson)]

def ofEnvelope? (v : Value) : Option ErrorObject := do
  let m ← v.members? ["error"]
  m.need "error" ofJson?

end ErrorObject

end JsxPreview.Report
