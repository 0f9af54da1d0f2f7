import JsxPreview.Path.Basic

/-! # A tree of files

A tree holds files and directories by their place below the root.  Every write gives a file a stamp
that no file had before.  A file whose bytes are not UTF-8 has no text.  `look?` follows a path as it
is spelled: each component must be found, and in a directory. -/
set_option autoImplicit false
namespace JsxPreview

open JsxPreview.Text

inductive Fault where
  | notFound
  | notDirectory
  | isDirectory
  | invalidData
  | invalidName
  | invalidInput
deriving DecidableEq, Repr

def Fault.kind : Fault → String
  | notFound => "NotFound"
  | notDirectory => "NotADirectory"
  | isDirectory => "IsADirectory"
  | invalidData => "InvalidData"
  | invalidName => "InvalidFilename"
  | invalidInput => "InvalidInput"

namespace Files

structure Stamp where
  time : Nat
  size : Nat
deriving DecidableEq, Repr

inductive Node where
  | directory
  | file (stamp : Stamp) (text : Option String)
deriving DecidableEq, Repr

inductive Content where
  | directory
  | text (s : String)
  | bytes (data : List UInt8)
deriving DecidableEq, Repr

def Node.read : Node → Except Fault String
  | .directory => .error .isDirectory
  | .file _ (some text) => .ok text
  | .file _ none => .error .invalidData

def Content.node (time : Nat) (c : Content) : Node :=
  match c with
  | .directory => .directory
  | .text s => .file ⟨time, s.utf8ByteSize⟩ (some s)
  | .bytes data => .file ⟨time, data.length⟩ (String.fromUTF8? ⟨data.toArray⟩)

structure Tree where
  nodes : List (List String × Node) := []
  clock : Nat := 0
deriving Repr

namespace Tree

/-- The node at a place; the root is always there. -/
def node? (t : Tree) (place : List String) : Option Node :=
  if place.isEmpty then some .directory else t.nodes.lookup place

def step (t : Tree) (place : List String) (part : String) : Except Fault (List String) :=
  match t.node? place with
  | none => .error .notFound
  | some (.file ..) => .error .notDirectory
  | some .directory =>
      if part = "" ∨ part = "." then .ok place
      else if part = ".." then .ok place.dropLast
      else if part.utf8ByteSize > 255 then .error .invalidName
      else .ok (place ++ [part])

def look (t : Tree) (p : Path) : Except Fault Node := do
  if p.text.toList.contains '\x00' then throw .invalidInput
  if p.text.utf8ByteSize ≥ 4096 then throw .invalidName
  if !p.isAbsolute then throw .notFound
  let place ← (p.parts.map String.ofList).foldlM t.step []
  match t.node? place with
  | some node => return node
  | none => throw .notFound

def isFile (t : Tree) (p : Path) : Bool :=
  match t.look p with
  | .ok (.file ..) => true
  | _ => false

def isDirectory (t : Tree) (p : Path) : Bool :=
  match t.look p with
  | .ok .directory => true
  | _ => false

def read (t : Tree) (p : Path) : Except Fault String := t.look p >>= Node.read

/-- The stamp of what a path leads to; a directory has length zero. -/
def stamp (t : Tree) (p : Path) : Except Fault Stamp :=
  match t.look p with
  | .ok (.file stamp _) => .ok stamp
  | .ok .directory => .ok ⟨0, 0⟩
  | .error e => .error e

def put (t : Tree) (place : List String) (n : Node) : Tree :=
  { nodes := (place, n) :: t.nodes.filter (·.1 != place), clock := t.clock + 1 }

/-- The places above a place, from the top. -/
def above (place : List String) : List (List String) := 
  (List.range place.length).tail.map place.take

def placeOf (p : Path) : List String :=
  p.normalize.components.filterMap fun
    | .name s => some s
    | _ => none

/-- Writes in a place and makes the directories above it; nothing changes where a file stands in
the way of a directory or a directory in the way of a file. -/
def write (t : Tree) (p : Path) (content : Content) : Tree :=
  let place := placeOf p
  let isBlocked (dir : List String) : Bool :=
    match t.node? dir with
    | some (.file ..) => true
    | _ => false
  let isTaken : Bool := match t.node? place, content with
    | some .directory, _ => true
    | some (.file ..), .directory => true
    | _, _ => false
  if (above place).any isBlocked || isTaken then t
  else
    let missing := (above place).filter fun dir => (t.node? dir).isNone
    (missing.foldl (fun t dir => t.put dir .directory) t).put place (content.node (t.clock + 1))

def remove (t : Tree) (p : Path) : Tree :=
  let place := placeOf p
  { t with nodes := t.nodes.filter fun (q, _) => !place.isPrefixOf q }

end Tree

end Files

end JsxPreview

namespace JsxPreview.Files

/-! ## Cached texts

A cache holds texts of files with the stamps that the files had.  A text is taken from the cache
while the stamp of its file is the same, and only what was read in full is kept. -/

structure CachedText where
  path : Path
  stamp : Stamp
  text : String
deriving DecidableEq, Repr

structure Cache where
  entries : List CachedText := []
  hits : Nat := 0
  misses : Nat := 0
deriving DecidableEq, Repr

namespace Cache

def find? (c : Cache) (p : Path) : Option CachedText := c.entries.find? (·.path.isSame p)

def forget (c : Cache) (p : Path) : Cache :=
  { c with entries := c.entries.filter (!·.path.isSame p) }

def clear (c : Cache) : Cache := { c with entries := [] }

def insert (c : Cache) (e : CachedText) : Cache :=
  { c.forget e.path with entries := e :: (c.forget e.path).entries }

def read (c : Cache) (files : Tree) (p : Path) : Except Fault String × Cache :=
  match files.stamp p with
  | .error e => (.error e, c)
  | .ok stamp =>
      match (c.find? p).filter (·.stamp = stamp) with
      | some entry => (.ok entry.text, { c with hits := c.hits + 1 })
      | none =>
          let c := { c with misses := c.misses + 1 }
          match files.read p with
          | .ok text => (.ok text, c.insert ⟨p, stamp, text⟩)
          | .error e => (.error e, c)

end Cache

end JsxPreview.Files
