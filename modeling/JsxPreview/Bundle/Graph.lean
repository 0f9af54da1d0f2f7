import JsxPreview.Bundle.Artifact

/-! # Loading the modules of a bundle

Modules are loaded in the order in which they are first asked for, each place once.  Loading goes on
after an error, so that a failure lists all of them; then there is no bundle. -/
set_option autoImplicit false
namespace JsxPreview.Bundle

open JsxPreview.Files JsxPreview.Source

/-- A place to load, and the place that asked for it first. -/
structure Request where
  path : Path
  askedAt : Option Location

structure Loading where
  queue : List Request
  asked : List Path
  modules : List Module := []
  errors : List BuildError := []
  cache : Option Cache := none

namespace Loading

def start (p : Project) (cache : Option Cache) : Loading :=
  { queue := [⟨p.entry, none⟩], asked := [p.entry], cache }

def fail (l : Loading) (e : BuildError) : Loading := { l with errors := l.errors ++ [e] }

/-- Asks for a place, unless that was done before. -/
def ask (l : Loading) (path : Path) (at_ : Location) : Loading :=
  if l.asked.any (·.isSame path) then l
  else { l with queue := l.queue ++ [⟨path, some at_⟩], asked := l.asked ++ [path] }

def link (p : Project) (l : Loading × Module) (d : Dependency) : Loading × Module :=
  let (l, m) := l
  let place := p.location m.path m.source d.offset
  let lead (id : String) : Module := { m with resolved := m.resolved ++ [(d.specifier, id)] }
  match p.resolve d.specifier m.path with
  | some (.outside specifier) => (l, lead specifier)
  | some (.module target) => (l.ask target place, lead (p.moduleId target))
  | none => (l.fail ⟨"Could not resolve \"" ++ d.specifier ++ "\"", some place⟩, m)

/-- The dependencies with different specifiers, the first of each. -/
def distinct : List String → List Dependency → List Dependency
  | _, [] => []
  | seen, d :: rest =>
      if seen.contains d.specifier then distinct seen rest
      else d :: distinct (d.specifier :: seen) rest

def load (p : Project) (l : Loading) (r : Request) : Loading :=
  let (text, cache) := p.read l.cache r.path
  let l := { l with cache }
  match text with
  | .error _ => l.fail ⟨"Could not read from file: " ++ r.path.text, r.askedAt⟩
  | .ok text =>
      match p.parse r.path text with
      | .error e => l.fail e
      | .ok m =>
          let (l, m) := (distinct [] m.dependencies).foldl (link p) (l, m)
          { l with modules := l.modules ++ [m] }

/-- Loads until nothing is asked for; nothing when that does not come to an end. -/
def run (p : Project) (l : Loading) : Option Loading :=
  match l.queue with
  | [] => some l
  | r :: queue => load p { l with queue } r |>.run p
partial_fixpoint

end Loading

namespace Project

def loadAll (p : Project) (cache : Option Cache) : Option Loading :=
  Loading.run p (Loading.start p cache)

/-- Bundles a project; nothing when loading does not end. -/
def bundle (p : Project) (cache : Option Cache) :
    Option (Except BuildFailure Artifact) × Option Cache :=
  match p.loadAll cache with
  | none => (none, cache)
  | some l =>
      if l.errors.isEmpty then (some (.ok (p.emit l.modules)), l.cache)
      else (some (.error ⟨l.errors⟩), l.cache)

end Project

end JsxPreview.Bundle
