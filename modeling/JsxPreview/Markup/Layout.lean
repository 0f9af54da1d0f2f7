import JsxPreview.Text.Characters
import JsxPreview.Text.Split

/-! # Markup laid out

Rendered markup is shown with a line for every tag (`indented`), or as plain text (`plainText`).  Both
replace parts of a text that a finder finds (`replaceFound`). -/
set_option autoImplicit false
namespace JsxPreview.Markup

open JsxPreview.Text

/-! ## Replacing parts of markup

`replaceFound` goes through a text from the left.  A finder tells what to put in place of the part that
begins here, and how long that part is. -/

/-- A part found at the start of a text: its length less one, and what to put for it. -/
abbrev Finder := List Char → Option (Nat × List Char)

def replaceFoundFrom (find : Finder) (skip : Nat) : List Char → List Char
  | [] => []
  | c :: s =>
      match skip with
      | n + 1 => replaceFoundFrom find n s
      | 0 =>
          match find (c :: s) with
          | some (n, new) => new ++ replaceFoundFrom find n s
          | none => c :: replaceFoundFrom find 0 s

def replaceFound (find : Finder) (s : List Char) : List Char := replaceFoundFrom find 0 s

/-- Whether a text begins with a word, be it in capitals. -/
def startsWithWord (word s : List Char) : Bool :=
  word.isPrefixOf ((s.take word.length).map Char.toLower)

def afterWord? (word s : List Char) : Option (List Char) :=
  if startsWithWord word s then some (s.drop word.length) else none

def untilWord? (word : List Char) : List Char → Option (List Char)
  | [] => if word.isEmpty then some [] else none
  | c :: s =>
      if startsWithWord word (c :: s) then some [] else (c :: ·) <$> untilWord? word s

def afterTagEnd? (s : List Char) : Option (List Char) :=
  match s.dropWhile (· != '>') with
  | _ :: rest => some rest
  | [] => none

/-! ## Markup with a line for every tag

Space between tags is dropped, and every tag starts a line of its own.  Lines are indented by the number
of tags that are open. -/

def gapBetweenTags : Finder
  | '>' :: s =>
      match s.dropWhile isSpace with
      | '<' :: rest => some (s.length - rest.length, ['>', '<'])
      | _ => none
  | _ => none

/-- The text cut in front of every start of a tag but the first character. -/
def tagLines : List Char → List (List Char)
  | [] => [[]]
  | [c] => [[c]]
  | c :: d :: s =>
      match tagLines (d :: s) with
      | line :: lines => if d = '<' then [c] :: line :: lines else (c :: line) :: lines
      | [] => [[c]]

def closesTag (line : List Char) : Bool := "</".toList.isPrefixOf line

/-- Whether the lines that follow stand deeper. -/
def opensTag (line : List Char) : Bool :=
  !closesTag line && !"<!".toList.isPrefixOf line && !"/>".toList.isSuffixOf line &&
    !hasPart "</".toList line

def indent (depth : Nat) : List (List Char) → List (List Char)
  | [] => []
  | line :: rest =>
      let depth := if closesTag line then depth - 1 else depth
      (List.replicate (2 * depth) ' ' ++ line) ::
        indent (if opensTag line then depth + 1 else depth) rest

def indented (markup : String) : String :=
  String.ofList
    (joinWith ['\n'] (indent 0 (tagLines (replaceFound gapBetweenTags markup.toList))))

/-! ## Markup as plain text

What is not shown is dropped, links are written with their address behind them, and the end of a block
ends a line.  Then every other tag goes, and references become what they stand for: the one for the
ampersand last.  Lines are trimmed, and of empty lines that follow one another the first is kept. -/

def found (s rest new : List Char) : Nat × List Char := (s.length - rest.length - 1, new)

def hiddenTags : List (List Char) :=
  ["style".toList, "script".toList, "head".toList, "title".toList]

def endTag (tag : List Char) : List Char := ['<', '/'] ++ tag ++ ['>']

def hiddenElement : Finder := fun s =>
  hiddenTags.findSome? fun tag => do
    let rest ← afterWord? ('<' :: tag) s
    let rest ← afterTagEnd? rest
    let inner ← untilWord? (endTag tag) rest
    return found s (rest.drop (inner.length + (endTag tag).length)) []

def lineBreak : Finder := fun s => do
  let rest ← afterWord? "<br".toList s
  match rest.dropWhile isSpace with
  | '/' :: '>' :: rest | '>' :: rest => some (found s rest ['\n'])
  | _ => none

/-- The rest of a link from its address on: what to put for the link, and what follows it. -/
def linkFrom? (s : List Char) : Option (List Char × List Char) := do
  let rest ← afterWord? "href=\"".toList s
  let address := rest.takeWhile (· != '"')
  match rest.drop address.length with
  | _ :: rest => do
      let rest ← afterTagEnd? rest
      let inner ← untilWord? "</a>".toList rest
      return (inner ++ [' ', '['] ++ address ++ [']'], rest.drop (inner.length + 4))
  | [] => none

def lastLink? : List Char → Option (List Char × List Char)
  | [] => none
  | c :: s =>
      if c = '>' then none
      else (lastLink? s).or (linkFrom? (c :: s))

def link : Finder := fun s => do
  let rest ← afterWord? "<a ".toList s
  let (new, rest) ← lastLink? rest
  return found s rest new

def blockTags : List (List Char) :=
  ["p", "div", "h1", "h2", "h3", "h4", "h5", "h6", "tr", "li", "table", "section"].map
    String.toList

def blockEnd : Finder := fun s =>
  blockTags.findSome? fun tag => do
    let rest ← afterWord? (endTag tag) s
    return found s rest ['\n']

def anyTag : Finder
  | '<' :: c :: s => if c = '>' then none else do
      let rest ← afterTagEnd? s
      return found ('<' :: c :: s) rest []
  | _ => none

/-- References, in the order in which they are resolved. -/
def references : List (String × String) :=
  [("&nbsp;", " "), ("&lt;", "<"), ("&gt;", ">"), ("&quot;", "\""), ("&amp;", "&")]

def resolveReferences (s : List Char) : List Char :=
  references.foldl (fun s r => replaceAll r.1.toList r.2.toList s) s

/-- Lines without those that are empty and follow an empty one, or come first. -/
def dropEmptyRuns (afterEmpty : Bool) : List (List Char) → List (List Char)
  | [] => []
  | line :: rest =>
      if line.isEmpty && afterEmpty then dropEmptyRuns true rest
      else line :: dropEmptyRuns line.isEmpty rest

def tidyLines (s : List Char) : List Char :=
  stripSpace (joinWith ['\n'] (dropEmptyRuns true ((splitOn '\n' s).map stripSpace)))

def withoutTags (s : List Char) : List Char :=
  [hiddenElement, lineBreak, link, blockEnd, anyTag].foldl (fun s find => replaceFound find s) s

def plainText (markup : String) : String :=
  String.ofList (tidyLines (resolveReferences (withoutTags markup.toList)))

end JsxPreview.Markup
