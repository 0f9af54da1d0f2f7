import JsxPreview.Files.Overrides
import JsxPreview.Json.Reader
import JsxPreview.Url.Parser

/-! # Answers of the override service

The service answers a batch of queries with a list of entries, each a result or an error; the first
entry counts, and every entry must have the shape of one of the two. -/
set_option autoImplicit false
namespace JsxPreview

open JsxPreview.Json

structure ProcedureError where
  message : String
  code : Option Int := none
deriving DecidableEq, Repr

namespace ProcedureError

def ofJson? (v : Value) : Option ProcedureError := do
  let m ← v.members? ["message", "code"]
  return ⟨← m.need "message" Value.text?, ← m.orElse "code" (Value.orNull? Value.long?) none⟩

def line (e : ProcedureError) : String :=
  match e.code with
  | some code => e.message ++ " (code " ++ toString code ++ ")"
  | none => e.message

end ProcedureError

def onlyField? {α : Type} (name : String) (read : Value → Option α) (v : Value) : Option α := do
  (← v.members? [name]).need name read

abbrev BatchEntry := Except ProcedureError (List FileOverride)

namespace BatchEntry

def ofResult? (v : Value) : Option (List FileOverride) :=
  onlyField? "data" (onlyField? "json" (Value.listOf? FileOverride.ofJson?)) v

/-- An entry is an object; one with both a result and an error is a result. -/
def ofJson? (v : Value) : Option BatchEntry :=
  match v with
  | .object _ =>
      (onlyField? "result" ofResult? v).map .ok <|>
        (onlyField? "error" (onlyField? "json" ProcedureError.ofJson?) v).map .error
  | _ => none

end BatchEntry

inductive BatchFailure where
  | unreadable
  | fetch (e : FetchError)
deriving DecidableEq, Repr

def readBatch (procedure body : String) : Except BatchFailure (List FileOverride) :=
  match (Json.parse body).toOption >>= Value.listOf? BatchEntry.ofJson? with
  | none => .error .unreadable
  | some [] => .error (.fetch (.malformed "empty batch response"))
  | some (.ok files :: _) => .ok files
  | some (.error e :: _) => .error (.fetch (.procedure procedure e.line))

def checkService (apiUrl : String) : Except FetchError Unit :=
  match Url.parse apiUrl with
  | .ok _ => .ok ()
  | .error e => .error (.configuration ("invalid api_url " ++ apiUrl ++ ": " ++ e.message))

def fetchBody (apiUrl procedure body : String) : Except BatchFailure (List FileOverride) :=
  match checkService apiUrl with
  | .ok () => readBatch procedure body
  | .error e => .error (.fetch e)

end JsxPreview
