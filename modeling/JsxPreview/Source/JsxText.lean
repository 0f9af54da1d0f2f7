import JsxPreview.Text.Letter
import JsxPreview.Text.Characters
import JsxPreview.Text.Printable
import JsxPreview.Text.Split
import JsxPreview.Text.Utf8

/-! # Text inside JSX

`decodeReferences` replaces character references, in one pass from the left.  `cleanText` is the
white space rule for the text between tags.  `propertyKey` writes a name as the key of an object
literal. -/
set_option autoImplicit false
namespace JsxPreview.Source

open JsxPreview.Text

def namedReference : String → Option Char
  | "amp" => some '&'
  | "lt" => some '<'
  | "gt" => some '>'
  | "quot" => some '"'
  | "apos" => some '\''
  | "nbsp" => some '\u00a0'
  | "copy" => some '\u00a9'
  | "reg" => some '\u00ae'
  | "trade" => some '\u2122'
  | "hellip" => some '\u2026'
  | "mdash" => some '\u2014'
  | "ndash" => some '\u2013'
  | "laquo" => some '\u00ab'
  | "raquo" => some '\u00bb'
  | "lsquo" => some '\u2018'
  | "rsquo" => some '\u2019'
  | "ldquo" => some '\u201c'
  | "rdquo" => some '\u201d'
  | "bull" => some '\u2022'
  | "middot" => some '\u00b7'
  | "euro" => some '\u20ac'
  | "pound" => some '\u00a3'
  | "times" => some '\u00d7'
  | "zwnj" => some '\u200c'
  | _ => none

/-- What a reference stands for, given the text between `&` and `;`. -/
def referenceValue : List Char → Option Char
  | '#' :: 'x' :: s | '#' :: 'X' :: s => readUnsigned 16 (Nat.pow 2 32) s >>= charOfCode?
  | '#' :: s => readUnsigned 10 (Nat.pow 2 32) s >>= charOfCode?
  | s => namedReference (String.ofList s)

/-- A reference at the start of what follows an `&`: its value, and how many characters it takes up
to and including the `;`.  The name has one to ten bytes. -/
def referenceAt (s : List Char) : Option (Char × Nat) :=
  let name := s.takeWhile (· != ';')
  if name.length < s.length ∧ 0 < byteLength name ∧ byteLength name ≤ 10 then
    (referenceValue name).map fun c => (c, name.length + 1)
  else none

/-- The text with its references decoded; the first `skip` characters are already dealt with. -/
def decodeFrom : Nat → List Char → List Char
  | _, [] => []
  | skip + 1, _ :: s => decodeFrom skip s
  | 0, '&' :: s => match referenceAt s with
      | some (c, n) => c :: decodeFrom n s
      | none => '&' :: decodeFrom 0 s
  | 0, c :: s => c :: decodeFrom 0 s

def decodeReferences (s : List Char) : List Char := decodeFrom 0 s

/-! ## The text between tags -/

def dropTrailing (p : Char → Bool) (s : List Char) : List Char :=
  (s.reverse.dropWhile p).reverse

/-- A line without the carriage returns at its end, and with spaces for tabs. -/
def plainLine (line : List Char) : List Char :=
  (dropTrailing (· == '\r') line).map fun c => if c == '\t' then ' ' else c

/-- A line without the spaces that only lay out the source: those in front, unless the line is the
first, and those at the end, unless it is the last. -/
def trimLine (isFirst isLast : Bool) (line : List Char) : List Char :=
  let line := if isFirst then line else line.dropWhile (· == ' ')
  if isLast then line else dropTrailing (· == ' ') line

/-- Joins the lines that keep something, each followed by a space unless no later line, and not the
line itself, holds anything but spaces. -/
def joinLines (isFirst : Bool) : List (List Char) → List Char
  | [] => []
  | line :: rest =>
      let kept := trimLine isFirst rest.isEmpty line
      let isLastWritten := line.any (· != ' ') && rest.all (·.all (· == ' '))
      (if kept.isEmpty then [] else if isLastWritten then kept else kept ++ [' ']) ++
        joinLines false rest

/-- The text that raw text between tags stands for, if any is left. -/
def cleanText (raw : List Char) : Option (List Char) :=
  let text := joinLines true ((splitOn '\n' raw).map plainLine)
  if text.isEmpty then none else some (decodeReferences text)

/-! ## Names -/

/-- Whether a name can stand after a dot or as a bare object key. -/
def isIdentifier (name : String) : Bool :=
  match name.toList with
  | [] => false
  | c :: s =>
      (isLetter c || c == '_' || c == '$') && s.all fun c => isWordPart c || c == '_' || c == '$'

def propertyKey (name : String) : String :=
  if isIdentifier name then name else Quoted.json name

def memberAccess (name : String) : String :=
  if isIdentifier name then "." ++ name else "[" ++ Quoted.json name ++ "]"

end JsxPreview.Source
