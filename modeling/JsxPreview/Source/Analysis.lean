import JsxPreview.Source.JsxText
import JsxPreview.Source.Token

/-! # What a module needs and offers

The analysis of a module says which modules it depends on, under which names it exports what, and
which stretches of its source are replaced when it becomes the body of a function: declarations of
imports and exports, calls that load a module, and `import.meta`. -/
set_option autoImplicit false
namespace JsxPreview.Source

/-- Generated code: a text, or the quoted id of the module that a specifier leads to. -/
inductive Piece where
  | text (code : String)
  | moduleId (specifier : String)
deriving DecidableEq, Repr

/-- What stands in the place of the source up to byte `stop`. -/
structure Rewrite where
  stop : Nat
  pieces : List Piece
deriving DecidableEq, Repr

/-- Rewrites by the byte where each starts, in ascending order. -/
structure Rewrites where
  entries : List (Nat × Rewrite) := []
deriving DecidableEq, Repr

namespace Rewrites

/-- Adds an entry to an ascending list, in place of one with the same key. -/
def insertInto (start : Nat) (r : Rewrite) : List (Nat × Rewrite) → List (Nat × Rewrite)
  | [] => [(start, r)]
  | (k, x) :: rest =>
      if start < k then (start, r) :: (k, x) :: rest
      else if start = k then (start, r) :: rest
      else (k, x) :: insertInto start r rest

def insert (rs : Rewrites) (start : Nat) (r : Rewrite) : Rewrites :=
  ⟨insertInto start r rs.entries⟩

def find? (rs : Rewrites) (start : Nat) : Option Rewrite := rs.entries.lookup start

end Rewrites

inductive DependencyKind where
  | importDeclaration
  | reExport
  | requireCall
  | dynamicImport
  /-- Asked for by the header that the module is given. -/
  | runtime
deriving DecidableEq, Repr

structure Dependency where
  specifier : String
  offset : Nat
  kind : DependencyKind
deriving DecidableEq, Repr

structure Analysis where
  dependencies : List Dependency := []
  rewrites : Rewrites := {}
  /-- Exported names, each with the expression that its getter returns. -/
  exported : List (String × String) := []
  header : List Piece := []
  /-- Whether the module has a declaration of imports or exports. -/
  isEsm : Bool := false
  hasJsx : Bool := false
  usesImportMeta : Bool := false
  /-- How many variables hold imported modules, and how many re-exported ones. -/
  importCount : Nat := 0
  reExportCount : Nat := 0
deriving Repr

namespace Analysis

def exportsName (a : Analysis) (name : String) : Bool := a.exported.any (·.1 == name)

def rewrite (a : Analysis) (start stop : Nat) (pieces : List Piece) : Analysis :=
  { a with rewrites := a.rewrites.insert start ⟨stop, pieces⟩ }

def depend (a : Analysis) (specifier : String) (offset : Nat) (kind : DependencyKind) : Analysis :=
  { a with dependencies := a.dependencies ++ [⟨specifier, offset, kind⟩] }

def offer (a : Analysis) (names : List (String × String)) : Analysis :=
  { a with exported := a.exported ++ names }

end Analysis

end JsxPreview.Source
