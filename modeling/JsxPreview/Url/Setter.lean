import JsxPreview.Url.Parser

/-! # The parts of a URL

Nine parts can be read and changed one by one; the whole URL and its origin are only read.  A part that
is missing reads as the empty text, and so does a query or a fragment with nothing behind its mark. -/
set_option autoImplicit false
namespace JsxPreview.Url

open JsxPreview.Text

inductive Part where
  | protocol
  | username
  | password
  | host
  | hostname
  | port
  | pathname
  | search
  | hash
deriving DecidableEq, Repr

namespace Part

def all : List Part :=
  [protocol, username, password, host, hostname, port, pathname, search, hash]

def name : Part → String
  | protocol => "protocol"
  | username => "username"
  | password => "password"
  | host => "host"
  | hostname => "hostname"
  | port => "port"
  | pathname => "pathname"
  | search => "search"
  | hash => "hash"

def ofName? (s : String) : Option Part := all.find? (·.name == s)

end Part

def partText (u : Url) (p : Part) : String :=
  String.ofList <| match p with
    | .protocol => u.scheme ++ [':']
    | .username => u.username
    | .password => u.password.getD []
    | .host => u.hostAndPort
    | .hostname => u.host
    | .port => u.portText.drop 1
    | .pathname => u.path
    | .search => markedNonempty '?' u.query
    | .hash => markedNonempty '#' u.fragment

def readings (u : Url) : List (String × String) :=
  [("href", u.href), ("origin", u.origin)] ++ Part.all.map fun p => (p.name, u.partText p)

/-- The URL that a text stands for, by itself or in some other one. -/
def resolve? (input : String) (base : Option String) : Option Url :=
  (match base with
    | some base => parse base >>= (join · input)
    | none => parse input).toOption

/-! ## Changing one part of a URL

A part is set from its text, with or without its mark.  A value that the part cannot have is refused,
and so is a name, password or port for a URL without a host. -/

/-- Whether the URL can have a name, a password and a port. -/
def hasServer (u : Url) : Bool := !u.host.isEmpty && u.kind != .file

def setPort? (u : Url) (port : Option Nat) : Option Url :=
  if u.hasServer then
    some { u with port := if port = defaultPort? u.scheme then none else port }
  else none

/-- A scheme may only be exchanged for one of the same kind. -/
def setScheme? (u : Url) (value : List Char) : Option Url := do
  let value := ((value.reverse.dropWhile (· == ':')).reverse).filter (!isIgnored ·)
  let (scheme, rest) ← splitScheme (if value.contains ':' then value else value ++ [':'])
  let k := SchemeKind.ofScheme scheme
  if rest ≠ [] ∨ k.isSpecial ≠ u.kind.isSpecial ∨ (k = .file ∧ u.hasAuthority) ∨
      (k.isSpecial ∧ u.host = []) then none
  else
    let u := { u with scheme }
    return (u.setPort? u.port).getD u

def setHost? (u : Url) (value : List Char) : Option Url :=
  if u.isOpaque || (value.isEmpty && u.kind == .special) then none
  else
    let isBracketed := value.head? == some '[' && value.getLast? == some ']'
    let host := if isBracketed then value else value.takeWhile (· ≠ ':')
    if !isBracketed && value.head? == some ':' then none
    else
      let read := if u.kind.isSpecial then Host.parse host else Host.parseOpaque host
      read.toOption.map fun host => { u with hasAuthority := true, host }

/-- A host with the port behind its last colon, if that is one. -/
def setHostAndPort? (u : Url) (value : List Char) : Option Url :=
  match (splitOn ':' value).reverse with
  | port :: before :: rest =>
      if port.all Char.isDigit then do
        let u ← u.setHost? (joinWith [':'] (before :: rest).reverse)
        u.setPort? (readUnsigned 10 65536 port)
      else u.setHost? value
  | _ => u.setHost? value

def setPath (u : Url) (value : List Char) : Url :=
  let value := value.filter (!isIgnored ·)
  if u.isOpaque then
    match value with
    | '/' :: rest => { u with path := "%2F".toList ++ escape isControl rest }
    | _ => { u with path := escape isControl value }
  else if !u.kind.isSpecial && (value.head? == some '?' || value.head? == some '#') then
    { u with path := [] }
  else { u with path := readPath u.kind value }

/-- A query or fragment without the marks at its front, escaped; nothing when it is empty. -/
def markedValue (mark : Char) (write : List Char → List Char) (value : List Char) :
    Option (List Char) :=
  let value := value.dropWhile (· == mark)
  if value.isEmpty then none else some (write (value.filter (!isIgnored ·)))

def set? (u : Url) (part : Part) (value : String) : Option Url :=
  let s := value.toList
  match part with
  | .protocol => u.setScheme? s
  | .username => if u.hasServer then some { u with username := escape inUserinfo s } else none
  | .password =>
      if u.hasServer then
        some { u with password := if s.isEmpty then none else some (escape inUserinfo s) }
      else none
  | .host => u.setHostAndPort? s
  | .hostname => u.setHost? s
  | .port =>
      if s.isEmpty then u.setPort? none
      else (readUnsigned 10 65536 s) >>= fun n => u.setPort? (some n)
  | .pathname => some (u.setPath s)
  | .search => some { u with query := markedValue '?' (escapeQuery u.kind) s }.trimOpaque
  | .hash => some { u with fragment := markedValue '#' (escape inFragment) s }.trimOpaque

/-- The URL that is written as `href`, with one part changed, as it is written then. -/
def setPart (href part value : String) : Option String := do
  let u ← (parse href).toOption
  return (← u.set? (← Part.ofName? part) value).href

/-- The URL with one part changed, as it is read again. -/
def change? (u : Url) (part : Part) (value : String) : Option Url := do
  resolve? (← setPart u.href part.name value) none

end JsxPreview.Url
