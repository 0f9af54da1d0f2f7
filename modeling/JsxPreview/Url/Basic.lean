import JsxPreview.Url.Host

/-! # URLs

A URL holds its parts as they are written, with their escapes.  One without an authority whose path
does not start with a slash is opaque: nothing is relative to it. -/
set_option autoImplicit false
namespace JsxPreview

open JsxPreview.Text

structure Url where
  scheme : List Char
  hasAuthority : Bool := false
  username : List Char := []
  password : Option (List Char) := none
  /-- Empty where there is no host. -/
  host : List Char := []
  port : Option Nat := none
  path : List Char := []
  query : Option (List Char) := none
  fragment : Option (List Char) := none
deriving DecidableEq, Repr

namespace Url

def defaultPort? (scheme : List Char) : Option Nat :=
  match String.ofList scheme with
  | "http" | "ws" => some 80
  | "https" | "wss" => some 443
  | "ftp" => some 21
  | _ => none

inductive SchemeKind where
  | file
  | special
  | other
deriving DecidableEq, Repr

def SchemeKind.ofScheme (scheme : List Char) : SchemeKind :=
  if scheme = "file".toList then .file
  else if (defaultPort? scheme).isSome then .special
  else .other

def SchemeKind.isSpecial (k : SchemeKind) : Bool := k != .other

def kind (u : Url) : SchemeKind := .ofScheme u.scheme

def isOpaque (u : Url) : Bool := !u.hasAuthority && u.path.head? != some '/'

def userinfo (u : Url) : List Char :=
  match u.password with
  | some p => u.username ++ ':' :: p ++ ['@']
  | none => if u.username.isEmpty then [] else u.username ++ ['@']

def portText (u : Url) : List Char :=
  match u.port with
  | some n => ':' :: Nat.toDigits 10 n
  | none => []

def authority (u : Url) : List Char :=
  if u.hasAuthority then ['/', '/'] ++ u.userinfo ++ u.host ++ u.portText
  else if ['/', '/'].isPrefixOf u.path then ['/', '.']
  else []

def marked (mark : Char) : Option (List Char) → List Char
  | some s => mark :: s
  | none => []

def href (u : Url) : String :=
  String.ofList (u.scheme ++ ':' :: u.authority ++ u.path ++ marked '?' u.query ++
    marked '#' u.fragment)

/-- The scheme, host and port of a URL with a special scheme, unless it is that of files. -/
def ownOrigin? (u : Url) : Option String :=
  if u.kind = .special then
    some (String.ofList (u.scheme ++ "://".toList ++ u.host ++ u.portText))
  else none

def hostAndPort (u : Url) : List Char := u.host ++ u.portText

/-- A part with its mark in front, but nothing where the part is empty. -/
def markedNonempty (mark : Char) (part : Option (List Char)) : List Char :=
  marked mark (part.filter (!·.isEmpty))

/-- Drops the spaces at the end of a path that is opaque and has nothing behind it. -/
def trimOpaque (u : Url) : Url :=
  if u.isOpaque && u.query.isNone && u.fragment.isNone then
    { u with path := (u.path.reverse.dropWhile (· == ' ')).reverse }
  else u

end Url

end JsxPreview
