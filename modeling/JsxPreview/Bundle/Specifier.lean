import JsxPreview.Json.Expected
import JsxPreview.Json.Shape
import JsxPreview.Path.Basic
import JsxPreview.Text.Lowercase
import JsxPreview.Text.Split

/-! # Module specifiers

A specifier names the renderer, a path, a module that is provided outside of the bundle, or a
package.  `candidates` lists the files that a path may mean, `nodeModules` the directories in which a
package is looked for, nearest first. -/
set_option autoImplicit false
namespace JsxPreview.Bundle

open JsxPreview.Text

def builtinNames : List String :=
  ["assert", "async_hooks", "buffer", "child_process", "cluster", "console", "constants",
   "crypto", "dgram", "diagnostics_channel", "dns", "domain", "events", "fs", "http", "http2",
   "https", "inspector", "module", "net", "os", "path", "perf_hooks", "process", "punycode",
   "querystring", "readline", "repl", "stream", "string_decoder", "sys", "timers", "tls",
   "trace_events", "tty", "url", "util", "v8", "vm", "wasi", "worker_threads", "zlib"]

/-- Whether a specifier names a built-in module, or something inside one. -/
def isBuiltin (specifier : String) : Bool :=
  startsWith specifier "node:" ||
    builtinNames.contains (String.ofList (specifier.toList.takeWhile (· ≠ '/')))

inductive SpecifierKind where
  | reserved
  | path
  | outside
  | package
deriving DecidableEq, Repr

def isPathSpecifier (specifier : String) : Bool :=
  startsWith specifier "./" || startsWith specifier "../" || specifier == "." ||
    specifier == ".." || Path.isAbsolute ⟨specifier⟩

/-- What a specifier names; the reserved one may have any path in front. -/
def classify (specifier reserved : String) (hosts : List String) : SpecifierKind :=
  if specifier == reserved || endsWith specifier ("/" ++ reserved) then .reserved
  else if isPathSpecifier specifier then .path
  else if hosts.contains specifier || isBuiltin specifier then .outside
  else .package

def knownExtensions : List String := ["tsx", "ts", "jsx", "js", "mjs", "cjs", "json"]

def typedExtensions : Option String → List String
  | some "js" | some "jsx" => ["ts", "tsx"]
  | some "mjs" => ["mts"]
  | some "cjs" => ["cts"]
  | _ => []

/-- The files that a path may mean: itself, the typed form of a script, the path with a known
extension behind it, and the index of a directory. -/
def candidates (base : Path) : List Path :=
  [base] ++ (typedExtensions base.extension?).map base.withExtension ++
    knownExtensions.map (fun e => ⟨base.text ++ "." ++ e⟩) ++
    knownExtensions.map fun e => base.join ("index." ++ e)

/-- The name of a package, and what is asked for inside it. -/
def splitPackage (specifier : String) : String × Option String :=
  let s := specifier.toList
  let upToSlash (s : List Char) : List Char × Option (List Char) :=
    match s.dropWhile (· ≠ '/') with
    | [] => (s.takeWhile (· ≠ '/'), none)
    | _ :: rest => (s.takeWhile (· ≠ '/'), some rest)
  let (name, rest) : List Char × Option (List Char) :=
    if s.head? == some '@' then
      let (scope, behind) := upToSlash s
      let (name, rest) := upToSlash (behind.getD [])
      (scope ++ '/' :: name, rest)
    else upToSlash s
  (String.ofList name, (rest.filter (!·.isEmpty)).map String.ofList)

def manifestShape : Json.Expected :=
  .record [("main", false, .optional .text), ("module", false, .optional .text)]

def packageEntry (manifest : String) : Option String := do
  let v ← manifestShape.read? manifest
  let m ← v.members? ["main", "module"]
  let main ← m.option "main" Json.Value.text?
  let module ← m.option "module" Json.Value.text?
  (main <|> module).filter (!·.isEmpty)

/-- The directories with packages, from a directory up to the top. -/
def nodeModules (directory : Path) : List Path :=
  (directory.ancestors.filter (·.fileName? != some "node_modules")).map (·.join "node_modules")

/-! ## Loaders

The extension of a file says how it is read. -/

inductive Loader where
  | jsx
  | js
  | ts
  | tsx
  | json
deriving DecidableEq, Repr

namespace Loader

def readsElements : Loader → Bool
  | jsx | tsx => true
  | _ => false

def erasesTypes : Loader → Bool
  | ts | tsx => true
  | _ => false

def ofExtension? : String → Option Loader
  | "js" | "jsx" => some jsx
  | "mjs" | "cjs" => some js
  | "ts" | "mts" | "cts" => some ts
  | "tsx" => some tsx
  | "json" => some json
  | _ => none

end Loader

/-- A file that no loader is for; its extension is in lower case. -/
structure NoLoader where
  path : Path
  extension : String
deriving DecidableEq, Repr

def NoLoader.message (e : NoLoader) : String :=
  if e.extension.isEmpty then
    "No loader is configured for files without an extension: " ++ e.path.text
  else "No loader is configured for \"." ++ e.extension ++ "\" files: " ++ e.path.text

def Loader.ofPath (p : Path) : Except NoLoader Loader :=
  let extension := Text.lower (p.extension?.getD "")
  match ofExtension? extension with
  | some loader => .ok loader
  | none => .error ⟨p, extension⟩

end JsxPreview.Bundle
