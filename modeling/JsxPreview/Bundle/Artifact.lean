import JsxPreview.Bundle.Module
import JsxPreview.Source.Emission

/-! # Writing a bundle

A bundle starts with a table of modules, a loader for them, and helpers that join modules of both
kinds.  What the table does not hold is left to the loader outside. -/
set_option autoImplicit false
namespace JsxPreview.Bundle

open JsxPreview.Source JsxPreview.Text

def preludeLines : List String :=
  ["var __preview_modules = \x7b\x7d;",
   "var __preview_cache = \x7b\x7d;",
   "var __preview_has = Object.prototype.hasOwnProperty;",
   "function __preview_require(id) \x7b",
   "  if (__preview_has.call(__preview_cache, id)) return __preview_cache[id].exports;",
   "  if (!__preview_has.call(__preview_modules, id)) return require(id);",
   "  var module = \x7b exports: \x7b\x7d \x7d;",
   "  __preview_cache[id] = module;",
   "  __preview_modules[id].call(module.exports, module.exports, __preview_require, module);",
   "  return module.exports;",
   "\x7d",
   "function __preview_interop(mod) \x7b",
   "  if (mod && mod.__esModule) return mod;",
   "  var ns = \x7b default: mod \x7d;",
   "  if (mod != null && (typeof mod === \"object\" || typeof mod === \"function\")) \x7b",
   "    for (var key in mod) \x7b",
   "      if (key !== \"default\" && __preview_has.call(mod, key)) ns[key] = mod[key];",
   "    \x7d",
   "  \x7d",
   "  return ns;",
   "\x7d",
   "function __preview_export(target, getters) \x7b",
   "  Object.defineProperty(target, \"__esModule\", \x7b value: true \x7d);",
   "  for (var name in getters) \x7b",
   "    Object.defineProperty(target, name, \x7b get: getters[name], enumerable: true, configurable: true \x7d);",
   "  \x7d",
   "\x7d",
   "function __preview_reexport(target, source) \x7b",
   "  Object.keys(source).forEach(function (key) \x7b",
   "    if (key === \"default\" || __preview_has.call(target, key)) return;",
   "    Object.defineProperty(target, key, \x7b",
   "      get: function () \x7b return source[key]; \x7d,",
   "      enumerable: true,",
   "      configurable: true,",
   "    \x7d);",
   "  \x7d);",
   "\x7d"]

def prelude : String := String.join (preludeLines.map (· ++ "\n"))

/-! ## The script and its map

A bundle is one script: the prelude, one function a module, and the call that starts the entry.  Its
map ties the code of every module to the text of its file. -/

structure Artifact where
  code : String
  map : SourceMap
  codePath : Path
  mapPath : Path
  /-- The ids of the modules, the entry first. -/
  modules : List String

namespace Module

/-- The tokens that are written, and where they start: the line that names an interpreter is left
out. -/
def written (source : List Char) : List Token → List Token × Nat
  | t :: rest =>
      if t.isComment && ['#', '!'].isPrefixOf source then (rest, t.stop) else (t :: rest, 0)
  | [] => ([], 0)

def writeData (text : String) (index : Nat) (w : CodeWriter) : CodeWriter :=
  let value := (text.toList.reverse.dropWhile isBlank).reverse
  (((w.write "module.exports = ").mapTo (UInt32.ofNat index) 0 0).write
    (String.ofList value)).write ";"

def writeCode (m : Module) (tokens : List Token) (a : Analysis) (index : Nat) (w : CodeWriter) :
    CodeWriter :=
  let source := m.text.toList
  let (tokens, start) := written source tokens
  writeTokensFrom start source index a.rewrites m.resolved tokens
    ((writePieces m.resolved a.header w).write "\n")

def write (outDir : Path) (w : CodeWriter) (m : Module) : CodeWriter :=
  let (w, index) := w.addSource (outDir.diff m.path) (some m.source)
  let w := w.write
    ("__preview_modules[" ++ Quoted.json m.id ++ "] = function (exports, require, module) \x7b\n")
  let w := match m.body with
    | .data => writeData m.text index w
    | .code tokens a => m.writeCode tokens a index w
  w.write "\n\x7d;\n"

end Module

namespace Project

def outDir (p : Project) : Path := p.root.join p.options.outDir

def codeName (p : Project) : String := p.entry.stem?.getD "index" ++ ".js"

def emit (p : Project) (modules : List Module) : Artifact :=
  let entry := (modules.head?.map (·.id)).getD (p.moduleId p.entry)
  let w := modules.foldl (Module.write p.outDir) (({} : CodeWriter).write prelude)
  let w := w.write ("module.exports = __preview_require(" ++ Quoted.json entry ++ ");\n")
  { code := w.code ++ "//# sourceMappingURL=" ++ p.codeName ++ ".map\n"
    map := w.map.build (some p.codeName)
    codePath := p.outDir.join p.codeName
    mapPath := p.outDir.join (p.codeName ++ ".map")
    modules := modules.map (·.id) }

end Project

end JsxPreview.Bundle
