import JsxPreview.Bundle.Graph
import JsxPreview.Bundle.Module
import JsxPreview.Element.Render
import JsxPreview.Files.OverrideBatch
import JsxPreview.Preview.Payload
import JsxPreview.Report.Envelope
import JsxPreview.Script.Text

/-! # Templates that were run

Running a bundle leaves a template behind, which can then be rendered for properties.  Templates that
show described trees are known by their source alone (`ofModule`). -/
set_option autoImplicit false
namespace JsxPreview.Preview

open JsxPreview.Report
open JsxPreview.Script (Statement)

structure Template where
  componentName : Option String
  hasRenderFunction : Bool
  console : List ConsoleEntry := []
  /-- Renders the component through the function that the template exports. -/
  renderWith : Json.Value → RenderOptions → Except CompileError String

namespace Template

def render (t : Template) (props : Json.Value) (options : RenderOptions) :
    Except CompileError String :=
  if t.hasRenderFunction then t.renderWith props options
  else .error (.sandbox "The template does not export a render function")

def ofExports (entry : Path) (exports : Script.Value) : Except CompileError Template :=
  let component := Script.componentOf exports
  if component.isUndefined then .error (.missingExport entry)
  else .ok
    { componentName := Script.nameOf? component
      hasRenderFunction := (Script.renderFunctionOf exports).isFunction
      renderWith := fun _ _ => .ok "undefined" }

def ofStatements (entry : Path) (hosts : List String) (statements : List Statement) :
    Except CompileError Template :=
  match Statement.runAll hosts statements with
  | .ok exports => ofExports entry exports
  | .error e => .error (.runtime (.ofValue e))

/-- The template of a module whose component shows the tree in its properties. -/
def ofModule (milliseconds : Nat) (m : Bundle.Module) : Except CompileError Template :=
  let exported (name : String) : Option String :=
    match m.body with
    | .data => none
    | .code _ a => a.exported.lookup name
  match exported "default" with
  | none => .error (.missingExport m.path)
  | some name => .ok
      { componentName := some name |>.filter Script.isOwnName
        hasRenderFunction := true
        renderWith := fun props options =>
          (Element.renderTree props options).mapError (·.toError milliseconds) }

end Template

/-- Runs the bundle of an entry within some time. -/
abbrev Engine := Nat → Bundle.Module → Except CompileError Template

/-! ## Compiling templates

A compile fetches the override set, bundles the entry, runs the bundle and keeps what it leaves behind.
Whatever fails is reported with places in the files of the author. -/

open JsxPreview.Files JsxPreview.Bundle

structure ServiceAddress where
  url : String := "http://localhost:4200"
  procedure : String := "editor.getPublishedFiles"
deriving DecidableEq, Repr

structure Config where
  service : ServiceAddress := {}
  policy : OverridePolicy := .fallBackToDisk
  /-- How many compiles may run at once. -/
  slots : Nat := 10
  /-- Milliseconds for bundling and execution together. -/
  timeout : Nat := 10000
  cacheEnabled : Bool := true
  bundle : Options := {}
  environment : List (String × String) := [("NODE_ENV", "development")]

def Config.fault? (c : Config) : Option CompileError :=
  match checkService c.service.url with
  | .ok () => none
  | .error e => some (.system ("Failed to create override client: " ++ e.message))

structure Compiled where
  template : Template
  translator : Translator
  overrides : OverrideStatus

namespace Compiled

def render (c : Compiled) (props : Json.Value) (options : RenderOptions) :
    Except ErrorObject String :=
  (c.template.render props options).mapError (ErrorObject.ofError · (some c.translator))

def payload (c : Compiled) (markup : Option String) : Payload :=
  { componentName := c.template.componentName
    hasRenderFunction := c.template.hasRenderFunction
    sourceMap := c.translator.map
    overrides := c.overrides
    console := c.template.console
    markup }

end Compiled

structure Workplace where
  files : Tree
  /-- Where paths that are not absolute start. -/
  directory : Path := ⟨"/"⟩
  overrides : Option OverrideService := none
  engine : Engine := Template.ofModule

structure Outcome (α : Type) where
  result : Except ErrorObject α
  runs : Nat

def bundleEntry (c : Config) (p : Project) : Except CompileError (Artifact × Bundle.Module) :=
  if c.timeout = 0 then .error (.timeout .bundle c.timeout)
  else match (p.bundle (if c.cacheEnabled then some {} else none)).1 with
    | none => .error (.timeout .bundle c.timeout)
    | some (.error failure) => .error (.build failure)
    | some (.ok artifact) =>
        let source := (artifact.map.sourcesContent.bind List.head?).join.getD ""
        match p.parse p.entry source with
        | .ok entry => .ok (artifact, entry)
        | .error e => .error (.build ⟨[e]⟩)

def compile (c : Config) (w : Workplace) (r : ModuleRequest) : Outcome Compiled :=
  let entry := Path.absolute w.directory ⟨r.entryPath⟩
  match Sources.prepare entry r.overrideSetId w.overrides c.policy with
  | .error (id, e) => ⟨.error (.ofError (.overrideFetch id e) none), 0⟩
  | .ok sources =>
      match bundleEntry c { entry, files := w.files, sources, options := c.bundle } with
      | .error e => ⟨.error (.ofError e none), 0⟩
      | .ok (artifact, m) =>
          let translator := Translator.ofMap artifact.map artifact.mapPath entry
          match w.engine c.timeout m with
          | .error e => ⟨.error (.ofError e (some translator)), 1⟩
          | .ok template => ⟨.ok ⟨template, translator, sources.status⟩, 1⟩

def preview (c : Config) (w : Workplace) (r : ModuleRequest)
    (render : Option (Json.Value × RenderOptions)) : Outcome Payload :=
  let outcome := compile c w r
  { runs := outcome.runs
    result := do
      let compiled ← outcome.result
      match render with
      | none => return compiled.payload none
      | some (props, options) => return compiled.payload (some (← compiled.render props options)) }

end JsxPreview.Preview
