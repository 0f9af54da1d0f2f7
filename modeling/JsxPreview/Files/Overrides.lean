import JsxPreview.Files.Tree
import JsxPreview.Json.Shape

/-! # Overrides

An override set holds unpublished edits, each for a path below the root of the project.  `Sources`
is what one compile reads: the text of an override where there is one, the tree of files
otherwise. -/
set_option autoImplicit false
namespace JsxPreview

open JsxPreview.Files JsxPreview.Json

structure FileOverride where
  path : String
  content : String
deriving DecidableEq, Repr

namespace FileOverride

def ofJson? (v : Value) : Option FileOverride := do
  let m ← v.members? ["path", "content"]
  return ⟨← m.need "path" Value.text?, ← m.need "content" Value.text?⟩

def toJson (f : FileOverride) : Value :=
  .object [("path", .text f.path), ("content", .text f.content)]

end FileOverride

inductive OverrideStatus where
  | notRequested
  | applied (count : Nat)
  | unavailable (reason : String)
deriving DecidableEq, Repr

namespace OverrideStatus

def tag? : Value → Option (String × Value)
  | .object fields =>
      match fields.filter (·.1 == "status") with
      | [(_, .text name)] => some (name, .object (fields.filter (·.1 != "status")))
      | _ => none
  | .list (.text name :: rest) => some (name, .list rest)
  | _ => none

def ofJson? (v : Value) : Option OverrideStatus := do
  let (name, rest) ← tag? v
  match name with
  | "notRequested" => if rest.list?.all List.isEmpty then some notRequested else none
  | "applied" => return applied (← (← rest.members? ["count"]).need "count" Value.longWord?)
  | "unavailable" => return unavailable (← (← rest.members? ["reason"]).need "reason" Value.text?)
  | _ => none

def toJson : OverrideStatus → Value
  | notRequested => .object [("status", .text "notRequested")]
  | applied count => .object [("status", .text "applied"), ("count", .nat count)]
  | unavailable reason => .object [("status", .text "unavailable"), ("reason", .text reason)]

end OverrideStatus

inductive OverridePolicy where
  | fallBackToDisk
  | fail
deriving DecidableEq, Repr

namespace OverridePolicy

def name : OverridePolicy → String
  | fallBackToDisk => "fallBackToDisk"
  | fail => "fail"

def ofJson? (v : Value) : Option OverridePolicy :=
  match v.choice? with
  | some "fallBackToDisk" => some fallBackToDisk
  | some "fail" => some fail
  | _ => none

end OverridePolicy

inductive FetchError where
  | configuration (message : String)
  | api (status : UInt16) (message : String)
  | procedure (name message : String)
  | malformed (message : String)
deriving DecidableEq, Repr

def FetchError.message : FetchError → String
  | configuration message => "Invalid configuration: " ++ message
  | api status message => "API error: " ++ toString status ++ " - " ++ message
  | procedure name message => "Procedure " ++ name ++ " failed: " ++ message
  | malformed message => "Malformed response: " ++ message

/-- Where override sets come from: every fetch has the same answer. -/
abbrev OverrideService := Except FetchError (List FileOverride)

structure Sources where
  root : Path
  /-- Contents by path; the last edit of a path comes first. -/
  overrides : List (String × String) := []
  status : OverrideStatus := .notRequested
deriving Repr

namespace Sources

def diskOnly (entry : Path) : Sources := ⟨entry.normalize.projectRoot, [], .notRequested⟩

def insertOverride (edits : List (String × String)) (f : FileOverride) :
    List (String × String) :=
  let path := Path.normalizeRelative f.path
  (path, f.content) :: edits.filter (·.1 != path)

def withOverrides (entry : Path) (files : List FileOverride) : Sources :=
  let overrides := files.foldl insertOverride []
  { diskOnly entry with overrides, status := .applied overrides.length }

def prepare (entry : Path) (overrideSet : Option String) (service : Option OverrideService)
    (policy : OverridePolicy) : Except (String × FetchError) Sources :=
  match overrideSet, service with
  | none, _ => .ok (diskOnly entry)
  | some _, none =>
      .ok { diskOnly entry with status := .unavailable "no override source configured" }
  | some _, some (.ok files) => .ok (withOverrides entry files)
  | some id, some (.error e) =>
      match policy with
      | .fail => .error (id, e)
      | .fallBackToDisk => .ok { diskOnly entry with status := .unavailable e.message }

def isOverridden (s : Sources) : Bool :=
  match s.status with
  | .applied _ => true
  | _ => false

def overrideFor? (s : Sources) (p : Path) : Option String :=
  if s.overrides.isEmpty then none
  else do
    let place ← s.root.relativeTo p
    s.overrides.lookup (Path.normalizeRelative place)

def read (s : Sources) (files : Tree) (p : Path) : Except Fault String :=
  match s.overrideFor? p with
  | some content => .ok content
  | none => files.read p

def isFile (s : Sources) (files : Tree) (p : Path) : Bool :=
  (s.overrideFor? p).isSome || files.isFile p

end Sources

end JsxPreview
