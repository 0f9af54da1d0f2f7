import JsxPreview.Report.Thrown
import JsxPreview.SourceMap.Document
import JsxPreview.Text.Lines
import JsxPreview.Text.Characters
import JsxPreview.Text.Split

/-! # Stacks

Stack frames, and what becomes of them where the bundle is left for its sources.

## Stack frames

A frame is one line of a stack: the word `at`, the function with the place in brackets or the place
alone, and the place as a file, a line, and a column that may be missing.  A function name ends as
early as the rest of the line allows, and so does the file name. -/
set_option autoImplicit false
namespace JsxPreview.Report

open JsxPreview.Text

structure StackFrame where
  method : Option String
  file : String
  line : UInt32
  column : Option UInt32
deriving DecidableEq, Repr

namespace StackFrame

/-- A word of thirty-two bits in decimal digits. -/
def readWord (digits : List Char) : Option UInt32 :=
  (readUnsigned 10 (Nat.pow 2 32) digits).map UInt32.ofNat

def isEnd (s : List Char) : Bool := s == [] || s == [')']

/-- A colon and the digits behind it, and what follows them. -/
def colonDigits : List Char → Option (List Char × List Char)
  | ':' :: s => if (s.takeWhile isDecimal).isEmpty then none
      else some (s.takeWhile isDecimal, s.dropWhile isDecimal)
  | _ => none

/-- The digits of a line and of a column, which make up the rest of a frame. -/
def readPlace (s : List Char) : Option (List Char × Option (List Char)) := do
  let (line, rest) ← colonDigits s
  match colonDigits rest with
  | some (column, final) => if isEnd final then some (line, some column) else none
  | none => if isEnd rest then some (line, none) else none

/-- A file name that starts with `read`, and the digits behind it. -/
def readFile (read : List Char) :
    List Char → Option (List Char × List Char × Option (List Char))
  | [] => none
  | c :: s =>
      match if read.isEmpty then none else readPlace (c :: s) with
      | some (line, column) => some (read.reverse, line, column)
      | none => if c = '\n' then none else readFile (c :: read) s

/-- A function name that starts with `read`, and the file and digits in brackets behind it. -/
def readMethod (read : List Char) :
    List Char → Option (List Char × List Char × List Char × Option (List Char))
  | [] => none
  | c :: s =>
      let found := match c :: s with
        | ' ' :: '(' :: inside => if read.isEmpty then none else readFile [] inside
        | _ => none
      match found with
      | some place => some (read.reverse, place)
      | none => if c = '\n' then none else readMethod (c :: read) s

/-- The frame that a line holds; a column that is no word counts as missing. -/
def parse (line : String) : Option StackFrame := do
  let rest ← match trimStart line.toList with
    | 'a' :: 't' :: ' ' :: rest => some rest
    | _ => none
  let (method, file, digits, column) ← match readMethod [] rest with
    | some (method, place) => some (some method, place)
    | none => (readFile [] rest).map (none, ·)
  let n ← readWord digits
  return ⟨method.map String.ofList, String.ofList file, n, column >>= readWord⟩

def place (f : StackFrame) : String :=
  let line := f.file ++ ":" ++ toString f.line
  match f.column with
  | some column => line ++ ":" ++ toString column
  | none => line

def render (f : StackFrame) : String :=
  match f.method with
  | some "<anonymous>" | none => "    at " ++ f.place
  | some method => "    at " ++ method ++ " (" ++ f.place ++ ")"

end StackFrame

/-! ## Stacks in terms of the sources

The frames of a stack name places in the bundle.  A `Translator` moves those of the entry to the
sources; frames of other files stay as they are, and lines that are no frames are dropped. -/

structure Translator where
  map : SourceMap
  /-- The same map with its mappings, unless they cannot be decoded. -/
  decoded : Option DecodedMap
  entry : Path
  root : Path

namespace Translator

def ofMap (m : SourceMap) (mapPath entry : Path) : Translator :=
  let map := m.rebase mapPath
  { map, entry
    decoded := (DecodedMap.ofMap map).toOption
    root := ⟨map.sourceRoot.getD mapPath.parentDir.text⟩ }

def mapFrame (t : Translator) (f : StackFrame) : Option StackFrame :=
  if Path.isSame ⟨f.file⟩ t.entry then do
    let d ← t.decoded
    let column := match f.column with
      | some c => if c = 0 then 0 else c - 1
      | none => 0
    let p ← d.originalPosition f.line column
    return {
      method := p.name <|> f.method
      file := (t.root.relativeTo ⟨p.source⟩).getD p.source
      line := p.line
      column := some p.column }
  else none

def translateLine (t : Translator) (line : List Char) : Option String := do
  let f ← StackFrame.parse (String.ofList line)
  return match t.mapFrame f with
    | some mapped => mapped.render
    | none => "    " ++ String.ofList (trim line)

def translateStack (t : Translator) (name message stack : String) : String :=
  String.intercalate "\n"
    ((name ++ ": " ++ message) :: (lines stack.toList).filterMap t.translateLine)

end Translator

/-- Whether a line of a stack comes from the loading of a bundle. -/
def isLoaderLine (line : List Char) : Bool :=
  let frame := trimStart line
  "at __preview_".toList.isPrefixOf frame || "at <eval>".toList.isPrefixOf frame ||
    hasPart "(native)".toList frame

/-- A stack without the lines of the loading, in which the entry stands for the name that scripts
have. -/
def trimStack (stack : String) (entry : Path) : String :=
  let kept := (lines stack.toList).filter (!isLoaderLine ·)
  String.intercalate "\n" (kept.map fun line =>
    String.ofList (replaceAll "eval_script".toList entry.text.toList line))

end JsxPreview.Report
