import JsxPreview.Source.TokenRow

/-! # Erased stretches

What belongs to types is overwritten with white space.  Every character gives way to white space of
the same number of bytes and of UTF-16 units, and characters that end lines stay, so that all places
keep their offsets, lines and columns. -/
set_option autoImplicit false
namespace JsxPreview.Source

open JsxPreview.Text

/-- A stretch of source from byte `start` up to byte `stop`. -/
structure Span where
  start : Nat
  stop : Nat
deriving DecidableEq, Repr

def Span.contains (s : Span) (n : Nat) : Bool := s.start ≤ n && n < s.stop

/-- Whether a span comes no later than another, by where they start and then by where they stop. -/
def Span.isNotBehind (s t : Span) : Bool :=
  s.start < t.start || (s.start == t.start && s.stop ≤ t.stop)

namespace Erasure

def endsLine (c : Char) : Bool :=
  c == '\n' || c == '\r' || c == '\u2028' || c == '\u2029'

/-- White space as long as a character. -/
def blankFor (c : Char) : List Char :=
  match c.utf8Size with
  | 1 => [' ']
  | 2 => ['\u00a0']
  | 3 => ['\u3000']
  | _ => ['\u00a0', '\u00a0']

/-- Adds a span to those joined so far, the latest of which comes first. -/
def joinSpan : List Span → Span → List Span
  | [], s => [s]
  | last :: above, s =>
      if s.start ≤ last.stop then ⟨last.start, max last.stop s.stop⟩ :: above
      else s :: last :: above

/-- The same stretches as spans that lie apart, in ascending order. -/
def joined (spans : List Span) : List Span :=
  ((spans.mergeSort Span.isNotBehind).foldl joinSpan []).reverse

/-- The text, which starts at byte `n`, with the characters that start in one of the spans blanked.
The spans lie apart in ascending order, and each is left behind where it stops. -/
def sweep (spans : List Span) (n : Nat) : List Char → List Char
  | [] => []
  | c :: s =>
      let ahead := spans.dropWhile (·.stop ≤ n)
      (if ahead.head?.any (·.start ≤ n) && !endsLine c then blankFor c else [c]) ++
        sweep ahead (n + c.utf8Size) s

end Erasure

/-- A name that an import binds; `span` holds its specifier with the comma behind it. -/
structure ImportBinding where
  name : String
  span : Span
  /-- Whether the specifier stands in braces, where it can go on its own. -/
  inBraces : Bool

structure ImportStatement where
  span : Span
  bindings : List ImportBinding
  /-- Whether the braces hold any specifier, also one of a type. -/
  hasSpecifiers : Bool

structure ExportSpecifier where
  name : String
  span : Span

structure Erasure where
  blanks : List Span := []
  imports : List ImportStatement := []
  typeNames : List String := []
  exported : List ExportSpecifier := []

namespace Erasure

def blank (e : Erasure) (start stop : Nat) : Erasure :=
  if start < stop then { e with blanks := ⟨start, stop⟩ :: e.blanks } else e

def blankAll (e : Erasure) (spans : List Span) : Erasure :=
  spans.foldl (fun e s => e.blank s.start s.stop) e

def isBlank (e : Erasure) (n : Nat) : Bool := e.blanks.any (·.contains n)

def isInImport (e : Erasure) (n : Nat) : Bool := e.imports.any (·.span.contains n)

end Erasure

/-! ## Names in use -/

mutual

/-- The words that are left outside erased stretches and imports, and what the tags refer to. -/
def Token.namesAll (e : Erasure) : List Token → List String
  | [] => []
  | t :: rest => t.names e ++ Token.namesAll e rest

def Token.names (e : Erasure) : Token → List String
  | ⟨.word, start, _, text⟩ => if e.isBlank start || e.isInImport start then [] else [text]
  | ⟨.template parts, start, _, _⟩ => if e.isBlank start then [] else TemplatePart.namesAll e parts
  | ⟨.jsx element, start, _, _⟩ => if e.isBlank start then [] else element.names e
  | ⟨.punct, _, _, _⟩ | ⟨.str, _, _, _⟩ | ⟨.number, _, _, _⟩ | ⟨.regex, _, _, _⟩
  | ⟨.comment, _, _, _⟩ => []

def TemplatePart.namesAll (e : Erasure) : List TemplatePart → List String
  | [] => []
  | p :: rest => p.names e ++ TemplatePart.namesAll e rest

def TemplatePart.names (e : Erasure) : TemplatePart → List String
  | .raw _ _ => []
  | .subst body => body.names e

def Body.names (e : Erasure) : Body → List String
  | ⟨_, _, tokens⟩ => Token.namesAll e tokens

def Element.names (e : Erasure) : Element → List String
  | ⟨_, _, name, attributes, children⟩ =>
      name.toList.map (fun n => String.ofList (n.text.toList.takeWhile (· != '.'))) ++
        Attribute.namesAll e attributes ++ Child.namesAll e children

def Attribute.namesAll (e : Erasure) : List Attribute → List String
  | [] => []
  | a :: rest => a.names e ++ Attribute.namesAll e rest

def Attribute.names (e : Erasure) : Attribute → List String
  | .spread body => body.names e
  | .named _ _ value => value.names e

def AttributeValue.names (e : Erasure) : AttributeValue → List String
  | .expr body => body.names e
  | .element el => el.names e
  | .bare | .str _ _ => []

def Child.namesAll (e : Erasure) : List Child → List String
  | [] => []
  | c :: rest => c.names e ++ Child.namesAll e rest

def Child.names (e : Erasure) : Child → List String
  | .expr body => body.names e
  | .element el => el.names e
  | .text _ _ => []

end

/-- What goes of an import, given the names in use: all of it when no binding is in use, and
otherwise the specifiers in braces that are not. -/
def ImportStatement.unused (i : ImportStatement) (used : List String) : List Span :=
  let unused := i.bindings.filter fun b => !used.contains b.name
  let nothingLeft :=
    if i.bindings.isEmpty then i.hasSpecifiers else unused.length == i.bindings.length
  if nothingLeft then [i.span] else (unused.filter (·.inBraces)).map (·.span)

namespace Erasure

def dropTypeExports (e : Erasure) : Erasure :=
  e.blankAll ((e.exported.filter fun x => e.typeNames.contains x.name).map (·.span))

def dropUnusedImports (e : Erasure) (tokens : List Token) : Erasure :=
  let used := Token.namesAll e tokens
  e.blankAll (e.imports.flatMap (·.unused used))

end Erasure

end JsxPreview.Source
