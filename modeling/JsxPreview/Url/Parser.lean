import JsxPreview.Url.Basic

/-! # Reading URLs

A URL is read on its own or as seen from a base.  Blanks around it are dropped, and so are tabs and
line breaks anywhere.  A path has its dots resolved; in a special URL a backslash is a slash. -/
set_option autoImplicit false
namespace JsxPreview.Url

open JsxPreview.Text

/-! ## Paths -/

/-- Whether a segment means the directory itself. -/
def isDot (segment : List Char) : Bool :=
  ["." , "%2e"].contains (String.ofList (segment.map Char.toLower))

/-- Whether a segment means the directory above. -/
def isDoubleDot (segment : List Char) : Bool :=
  ["..", "%2e.", ".%2e", "%2e%2e"].contains (String.ofList (segment.map Char.toLower))

/-- Whether a segment is a letter with a mark behind it, as a drive is written. -/
def isDriveLetter : List Char → Bool
  | [c, mark] => c.isAlpha && (mark == ':' || mark == '|')
  | _ => false

/-- Takes a segment that has a slash behind it; the latest segment comes first. -/
def enterSegment (k : SchemeKind) (above : List (List Char)) (segment : List Char) :
    List (List Char) :=
  if isDoubleDot segment then
    match above with
    | [drive] => if k = .file && isDriveLetter drive then [drive] else []
    | _ => above.tail
  else if isDot segment then above
  else if k = .file && above.isEmpty && isDriveLetter segment then [segment.take 1 ++ [':']]
  else escape inPath segment :: above

/-- Takes the last segment, behind which the path ends. -/
def endSegment (k : SchemeKind) (above : List (List Char)) (segment : List Char) :
    List (List Char) :=
  if isDoubleDot segment || isDot segment then [] :: enterSegment k above segment
  else enterSegment k above segment

/-- The segments of a path: a backslash counts as a slash in special URLs. -/
def splitPath (k : SchemeKind) (s : List Char) : List (List Char) :=
  splitOn '/' (if k.isSpecial then s.map fun c => if c = '\\' then '/' else c else s)

def showSegments (latest : List (List Char)) : List Char :=
  latest.reverse.flatMap fun segment => '/' :: segment

/-- The path of `s` as seen from segments above it, the latest of which comes first. -/
def resolvePath (k : SchemeKind) (above : List (List Char)) (s : List Char) : List Char :=
  let segments := splitPath k s
  let above := segments.dropLast.foldl (enterSegment k) above
  let path := showSegments (endSegment k above (segments.getLast?.getD []))
  if k = .file then '/' :: path.dropWhile (· == '/') else path

/-- Whether the path goes on behind a slash at the front of `s`. -/
def slashed? (k : SchemeKind) : List Char → Option (List Char)
  | '/' :: s => some s
  | '\\' :: s => if k.isSpecial then some s else none
  | _ => none

def readPath (k : SchemeKind) (s : List Char) : List Char :=
  if k.isSpecial || !s.isEmpty then resolvePath k [] ((slashed? k s).getD s) else []

/-- The segments of the directory that a path lies in, the latest first. -/
def directorySegments (k : SchemeKind) (path : List Char) : List (List Char) :=
  let segments := ((splitOn '/' path).drop 1).reverse
  match segments with
  | [drive] => if k = .file && isDriveLetter drive then [drive] else []
  | _ => segments.tail

/-! ## Query and fragment -/

def breakAt (marks : List Char) (s : List Char) : List Char × List Char :=
  (s.takeWhile (!marks.contains ·), s.dropWhile (!marks.contains ·))

def escapeQuery (k : SchemeKind) (s : List Char) : List Char :=
  escape (if k.isSpecial then inSpecialQuery else inQuery) s

/-- Adds the query and the fragment that stand in `s`, which is empty or starts with their mark. -/
def withTail (u : Url) (s : List Char) : Url :=
  match s with
  | '?' :: s =>
      let (query, rest) := breakAt ['#'] s
      let u := { u with query := some (escapeQuery u.kind query) }
      match rest with
      | '#' :: fragment => { u with fragment := some (escape inFragment fragment) }
      | _ => u
  | '#' :: fragment => { u with fragment := some (escape inFragment fragment) }
  | _ => u

/-! ## Authority -/

/-- The text up to the last at sign in front of the path, and what follows the sign. -/
def splitUserinfo (k : SchemeKind) (s : List Char) : Option (List Char × List Char) :=
  let marks := if k.isSpecial then ['/', '?', '#', '\\'] else ['/', '?', '#']
  let (authority, rest) := breakAt marks s
  match splitOn '@' authority with
  | [] | [_] => none
  | parts => some (joinWith ['@'] parts.dropLast, (parts.getLast?.getD []) ++ rest)

/-- The user name and the password in a text, and whether there is either. -/
def readUserinfo (s : List Char) : List Char × Option (List Char) :=
  let (name, rest) := breakAt [':'] s
  let password := (some rest.tail).filter (!·.isEmpty)
  (escape inUserinfo name, password.map (escape inUserinfo))

/-- The text of a host, and what follows; a colon ends it outside of brackets only. -/
def takeHost (k : SchemeKind) (inBrackets : Bool) : List Char → List Char × List Char
  | [] => ([], [])
  | c :: s =>
      if (c = ':' ∧ !inBrackets) ∨ (c = '\\' ∧ k.isSpecial) ∨ ['/', '?', '#'].contains c then
        ([], c :: s)
      else
        let inBrackets := if c = '[' then true else if c = ']' then false else inBrackets
        let (host, rest) := takeHost k inBrackets s
        (c :: host, rest)

def readPort (s : List Char) : Except UrlError (Option Nat × List Char) :=
  let (digits, rest) := breakAt ['/', '\\', '?', '#'] s
  if digits.all Char.isDigit then
    match readUnsigned 10 65536 digits with
    | some n => .ok (some n, rest)
    | none => if digits.isEmpty then .ok (none, rest) else .error .invalidPort
  else .error .invalidPort

/-- Reads what stands behind the two slashes of an authority. -/
def readAuthority (scheme s : List Char) : Except UrlError Url := do
  let k := SchemeKind.ofScheme scheme
  let (userinfo, s) ← match splitUserinfo k s with
    | none => pure ([], s)
    | some ([], rest) =>
        if (breakAt (if k.isSpecial then ['/', '?', '#', '\\'] else ['/', '?', '#']) rest).1 = [] ∧
            rest ≠ [] then throw .emptyHost
        pure ([], rest)
    | some (userinfo, rest) => pure (userinfo, rest)
  let (username, password) := readUserinfo userinfo
  let (hostText, rest) := takeHost k false s
  if k.isSpecial ∧ hostText = [] then throw .emptyHost
  let host ← if k.isSpecial then Host.parse hostText else Host.parseOpaque hostText
  if host = [] ∧ (rest.head? = some ':' ∨ username ≠ [] ∨ password.isSome) then throw .emptyHost
  let (port, rest) ← match rest with
    | ':' :: rest => readPort rest
    | rest => pure (none, rest)
  let (path, rest) := breakAt ['?', '#'] rest
  let u : Url := { scheme, hasAuthority := true, username, password, host
                   port := if port = defaultPort? scheme then none else port
                   path := readPath k path }
  return u.withTail rest

/-! ## Files and relative URLs -/

def startsWithDrive (s : List Char) : Bool :=
  isDriveLetter (s.take 2) && (s.drop 2).head?.all ['/', '\\', '?', '#'].contains

def fileUrl (host path rest : List Char) : Url :=
  withTail { scheme := "file".toList, hasAuthority := true, host, path } rest

/-- The URL without its query and fragment, as seen from which others are read. -/
def withoutTail (u : Url) : Url := { u with query := none, fragment := none }

def readFileHost (s : List Char) : Except UrlError Url := do
  let (hostText, rest) := breakAt ['/', '\\', '?', '#'] s
  let (hostText, rest) := if isDriveLetter hostText then ([], s) else (hostText, rest)
  let host ← if hostText = [] then pure [] else Host.parse hostText
  let host := if host = "localhost".toList then [] else host
  let (path, rest) := breakAt ['?', '#'] rest
  let path := readPath .file path
  return fileUrl (if isDriveLetter ((path.drop 1).take 2) then [] else host) path rest

/-- Reads what does not start with a slash, or starts with one alone, as seen from a base. -/
def readRelative (base : Url) (s : List Char) : Url :=
  let k := base.kind
  let (path, rest) := breakAt ['?', '#'] s
  match path with
  | [] =>
      match rest with
      | '#' :: fragment => { base with fragment := some (escape inFragment fragment) }
      | [] => { base with fragment := none }
      | _ => base.withoutTail.withTail rest
  | '/' :: path => withTail { base.withoutTail with path := resolvePath k [] path } rest
  | '\\' :: path => withTail { base.withoutTail with path := resolvePath k [] path } rest
  | _ =>
      let above := directorySegments k base.path
      withTail { base.withoutTail with path := resolvePath k above path } rest

/-- The part of a text behind slashes of either kind, and their number. -/
def dropSlashes (s : List Char) : Nat × List Char :=
  let isSlash (c : Char) : Bool := c == '/' || c == '\\'
  ((s.takeWhile isSlash).length, s.dropWhile isSlash)

def readFile (base : Option Url) (s : List Char) : Except UrlError Url :=
  match s with
  | a :: b :: rest =>
      if (a = '/' ∨ a = '\\') ∧ (b = '/' ∨ b = '\\') then readFileHost rest else readAlone base s
  | _ => readAlone base s
where
  readAlone (base : Option Url) (s : List Char) : Except UrlError Url :=
    match base with
    | none => .ok (readAt [] [] s)
    | some base =>
        if (s.head? = some '/' ∨ s.head? = some '\\') then
          let drive := ((splitOn '/' base.path).drop 1).headD []
          if startsWithDrive (s.drop 1) then .ok (readAt [] [] s)
          else if isDriveLetter drive then .ok (readAt [] [drive] s)
          else .ok (readAt base.host [] s)
        else if startsWithDrive s then .ok (readAt [] [] s)
        else .ok (readRelative base s)
  readAt (host : List Char) (above : List (List Char)) (s : List Char) : Url :=
    let (path, rest) := breakAt ['?', '#'] s
    fileUrl host (resolvePath .file above ((slashed? .file path).getD path)) rest

def readFrom (base : Url) (s : List Char) : Except UrlError Url :=
  if base.kind = .file then readFile (some base) s
  else if (dropSlashes s).1 ≥ 2 then
    if ['/', '/'].isPrefixOf s then readAuthority base.scheme (s.drop 2)
    else readAuthority base.scheme (dropSlashes s).2
  else .ok (readRelative base s)

def readOther (scheme s : List Char) : Except UrlError Url :=
  match s with
  | '/' :: '/' :: s => readAuthority scheme s
  | '/' :: s =>
      let (path, rest) := breakAt ['?', '#'] s
      .ok (withTail { scheme, path := resolvePath .other [] path } rest)
  | s =>
      let (path, rest) := breakAt ['?', '#'] s
      .ok (withTail { scheme, path := escape isControl path } rest)

/-! ## Whole URLs -/

def isSchemeChar (c : Char) : Bool := c.isAlphanum || c == '+' || c == '-' || c == '.'

/-- The scheme at the front of a text, in lower case, and what follows its colon. -/
def splitScheme (s : List Char) : Option (List Char × List Char) :=
  let (scheme, rest) := (s.takeWhile isSchemeChar, s.dropWhile isSchemeChar)
  match scheme, rest with
  | c :: _, ':' :: rest => if c.isAlpha then some (scheme.map Char.toLower, rest) else none
  | _, _ => none

def isIgnored (c : Char) : Bool := c == '\t' || c == '\n' || c == '\r'

/-- The text without the blanks and control characters around it, and without those inside that are
passed over. -/
def clean (s : List Char) : List Char :=
  let isOuter (c : Char) : Bool := c.toNat ≤ 0x20
  (((s.dropWhile isOuter).reverse.dropWhile isOuter).reverse).filter (!isIgnored ·)

/-- Reads a URL, as seen from a base if there is one. -/
def parseFrom (base : Option Url) (input : List Char) : Except UrlError Url :=
  let s := clean input
  match splitScheme s, base with
  | some (scheme, rest), _ =>
      match SchemeKind.ofScheme scheme with
      | .file => readFile (base.filter (·.kind = .file)) rest
      | .special =>
          match base.filter fun b => b.scheme = scheme ∧ (dropSlashes rest).1 < 2 with
          | some base => .ok (readRelative base rest)
          | none => readAuthority scheme (dropSlashes rest).2
      | .other => readOther scheme rest
  | none, none => .error .relativeWithoutBase
  | none, some base =>
      if s.head? = some '#' then .ok (readRelative base s)
      else if base.isOpaque then .error .relativeWithOpaqueBase
      else readFrom base s

def parse (s : String) : Except UrlError Url := parseFrom none s.toList

def join (base : Url) (s : String) : Except UrlError Url := parseFrom (some base) s.toList

/-- The origin of a URL; the URL inside a blob gives its own. -/
def originIn : Nat → Url → Option String
  | 0, u => u.ownOrigin?
  | fuel + 1, u =>
      if u.scheme = "blob".toList then
        match parse (String.ofList u.path) with
        | .ok inner => originIn fuel inner
        | .error _ => none
      else u.ownOrigin?

def origin (u : Url) : String := (originIn u.path.length u).getD "null"

end JsxPreview.Url
