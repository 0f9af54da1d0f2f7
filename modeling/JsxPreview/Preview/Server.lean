import JsxPreview.Preview.Compiler
import JsxPreview.Preview.Request

/-! # The preview server

Two places are served: one that tells whether the server is up, and one that compiles.  Only answers of
the second have a body that is JSON. -/
set_option autoImplicit false
namespace JsxPreview.Preview

open JsxPreview.Report

structure HttpRequest where
  method : String
  path : String
  contentType : Option String := none
  body : String := ""

structure HttpResponse where
  status : Nat
  body : Option Json.Value := none
  /-- The number of bundles that were run for the answer. -/
  runs : Nat := 0

namespace HttpRequest

/-- Whether a type of content is JSON, or a format built on it. -/
def isJsonType (contentType : String) : Bool :=
  let essence := (contentType.toList.takeWhile (· != ';')).map Char.toLower
  match Text.splitOn '/' essence with
  | [kind, form] =>
      kind == "application".toList &&
        (form == "json".toList || "+json".toList.isSuffixOf form && 5 < form.length)
  | _ => false

/-- The path without the query. -/
def place (r : HttpRequest) : String := String.ofList (r.path.toList.takeWhile (· != '?'))

end HttpRequest

def answerCompile (c : Config) (w : Workplace) (r : HttpRequest) : HttpResponse :=
  if !r.contentType.any HttpRequest.isJsonType then { status := 415 }
  else match CompileRequest.read r.body with
    | .error .malformed => { status := 400 }
    | .error .mismatch => { status := 422 }
    | .ok request =>
        if request.module.entryPath.isEmpty then
          { status := 400
            body := some (.object [("error", .text "Invalid request: entryPath is empty")]) }
        else
          let outcome := preview c w request.module
            (request.render.map fun r => (r.props.getD (.object []), r.options))
          match outcome.result with
          | .ok payload => { status := 200, body := some payload.toJson, runs := outcome.runs }
          | .error e => { status := 422, body := some e.envelope, runs := outcome.runs }

def answer (c : Config) (w : Workplace) (r : HttpRequest) : HttpResponse :=
  if r.method = "OPTIONS" then { status := 200 }
  else if r.place = "/health" then { status := if ["GET", "HEAD"].contains r.method then 200 else 405 }
  else if r.place = "/compile" then
    if r.method = "POST" then answerCompile c w r else { status := 405 }
  else { status := 404 }

end JsxPreview.Preview
