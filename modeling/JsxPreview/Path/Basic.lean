import JsxPreview.Text.Split

/-! # Paths

A path is a text with slashes in it.  Its `components` leave out what does not count: empty parts,
and single dots behind the start.  What names a place relative to a path (`parent?`, `join`,
`withExtension`) keeps the text in front as it stands. -/
set_option autoImplicit false
namespace JsxPreview

open JsxPreview.Text

structure Path where
  text : String
deriving DecidableEq, Repr, Inhabited

namespace Path

inductive Component where
  | root
  /-- A single dot, which counts only at the start. -/
  | here
  | up
  | name (s : String)
deriving DecidableEq, Repr

def Component.text : Component → String
  | root => "/"
  | here => "."
  | up => ".."
  | name s => s

def isAbsolute (p : Path) : Bool := p.text.toList.head? == some '/'

def parts (p : Path) : List (List Char) := splitOn '/' p.text.toList

/-- Parts that do not count behind the start of a path. -/
def isIdle (part : List Char) : Bool := part == [] || part == ['.']

def Component.ofPart (part : List Char) : Component :=
  if part == ['.', '.'] then .up else .name (String.ofList part)

def bodyComponents (parts : List (List Char)) : List Component :=
  (parts.filter (!isIdle ·)).map .ofPart

def components (p : Path) : List Component :=
  let start : List Component :=
    if p.isAbsolute then [.root] else if p.parts.head? == some ['.'] then [.here] else []
  start ++ bodyComponents p.parts

/-- The path whose components are these; a root may only come first. -/
def ofComponents : List Component → Path
  | .root :: rest => ⟨"/" ++ String.intercalate "/" (rest.map (·.text))⟩
  | cs => ⟨String.intercalate "/" (cs.map (·.text))⟩

/-- Whether two paths are the same but for parts that do not count. -/
def isSame (p q : Path) : Bool := p.components == q.components

/-- The place that `q` names as seen from the directory `p`. -/
def join (p : Path) (q : String) : Path :=
  if Path.isAbsolute ⟨q⟩ || p.text.isEmpty then ⟨q⟩
  else if p.text.toList.getLast? == some '/' then ⟨p.text ++ q⟩
  else ⟨p.text ++ "/" ++ q⟩

def dropIdleEnd (parts : List (List Char)) : List (List Char) :=
  (parts.reverse.dropWhile isIdle).reverse

/-- The part of the text at the start that stands for itself, and the parts behind it. -/
def opening (p : Path) : Option String × List (List Char) :=
  match p.parts with
  | first :: rest =>
      if p.isAbsolute then (some "/", rest)
      else if first == ['.'] then (some ".", rest)
      else (none, first :: rest)
  | [] => (none, [])

def ofParts (start : Option String) (parts : List (List Char)) : Path :=
  let body := String.ofList (joinWith ['/'] parts)
  match start with
  | some "/" => ⟨"/" ++ body⟩
  | some s => ⟨if parts.isEmpty then s else s ++ "/" ++ body⟩
  | none => ⟨body⟩

def parent? (p : Path) : Option Path :=
  let (start, parts) := p.opening
  match dropIdleEnd parts, start with
  | [], some "." => some ⟨""⟩
  | [], _ => none
  | counted, _ => some (ofParts start (dropIdleEnd counted.dropLast))

/-- The last component, when it is a name. -/
def fileName? (p : Path) : Option String :=
  match p.components.getLast? with
  | some (.name s) => some s
  | _ => none

/-- What stands in front of the last dot of a file name, and what stands behind it, unless the dot
comes first. -/
def splitName (name : String) : String × Option String :=
  match (splitOn '.' name.toList).reverse with
  | last :: second :: rest =>
      let stem := joinWith ['.'] (second :: rest).reverse
      if stem.isEmpty then (name, none) else (String.ofList stem, some (String.ofList last))
  | _ => (name, none)

def stem? (p : Path) : Option String := p.fileName?.map (splitName · |>.1)

def extension? (p : Path) : Option String := p.fileName? >>= (splitName · |>.2)

def withExtension (p : Path) (extension : String) : Path :=
  let (start, parts) := p.opening
  match p.stem? with
  | none => p
  | some stem =>
      let name := stem ++ "." ++ extension
      ofParts start ((dropIdleEnd parts).dropLast ++ [name.toList])

/-- The path and the directories above it, each without its last component in turn. -/
def climbFrom : Nat → Path → List Path
  | 0, p => [p]
  | fuel + 1, p =>
      match p.parent? with
      | some above => p :: climbFrom fuel above
      | none => [p]

def ancestors (p : Path) : List Path := climbFrom p.text.length p

/-! ## Normal paths

`normalize` resolves dots without a look at any file: a climb takes back the component in front of
it, stops at the root, and is kept where a relative path has nothing in front.  `diff` leads from one
directory to a place, `relativeTo` only to what lies below. -/

/-- Takes one step on from components of which the latest comes first. -/
def climb : List Component → Component → List Component
  | above, .here => above
  | [], .up => [.up]
  | .root :: above, .up => .root :: above
  | _ :: above, .up => above
  | above, c => c :: above

def normalize (p : Path) : Path := ofComponents (p.components.foldl climb []).reverse

def absolute (directory p : Path) : Path :=
  normalize (if p.isAbsolute then p else directory.join p.text)

/-- The root of the project that a file belongs to: two levels above it. -/
def projectRoot (entry : Path) : Path := normalize ((entry.join "..").join "..")

/-- The directory of a path; a path without one stands for itself. -/
def parentDir (p : Path) : Path := p.parent?.getD p

def below? : List Component → List Component → Option (List Component)
  | [], cs => some cs
  | s :: start, c :: cs => if s = c then below? start cs else none
  | _ :: _, [] => none

def joinComponents (cs : List Component) : String := String.intercalate "/" (cs.map (·.text))

/-- The components with a slash between each two, a root among them. -/
def toSlash (p : Path) : String := joinComponents p.components

def relativeTo (root p : Path) : Option String :=
  (below? root.normalize.components p.normalize.components).map joinComponents

/-- Whether `p` lies in `directory`, or is it. -/
def isWithin (directory p : Path) : Bool := (below? directory.components p.components).isSome

/-- The components of two lists behind what they start with in common. -/
def apart : List Component → List Component → List Component × List Component
  | a :: as, b :: bs => if a = b then apart as bs else (a :: as, b :: bs)
  | as, bs => (as, bs)

def diff (directory p : Path) : String :=
  let (out, rest) := apart directory.normalize.components p.normalize.components
  joinComponents (out.map (fun _ => .up) ++ rest)

/-- Takes one part of an override's path; the latest part comes first. -/
def takePart (above : List (List Char)) (part : List Char) : List (List Char) :=
  if isIdle part then above else if part == ['.', '.'] then above.drop 1 else part :: above

/-- A path below a project as it is written in a list of overrides, with slashes alone. -/
def normalizeRelative (p : String) : String :=
  let slashed := p.toList.map fun c => if c = '\\' then '/' else c
  String.ofList (joinWith ['/'] ((splitOn '/' slashed).foldl takePart []).reverse)

end Path

end JsxPreview
