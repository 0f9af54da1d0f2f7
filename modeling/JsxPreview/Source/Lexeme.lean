import JsxPreview.Source.Error
import JsxPreview.Source.JsxText
import JsxPreview.Source.Token
import JsxPreview.Text.Utf8

/-! # Lexemes

A cursor is what is left of a text, with the byte offset where it starts.  Each leaf scanner gives
the characters that its lexeme takes, the longest at its place.  Inside a tag, a value or the children
of an element, `tagPart`, `valueStart` and `childStart` say what comes next; none of them reads a
nested construct. -/
set_option autoImplicit false
namespace JsxPreview.Source

open JsxPreview.Text

structure Dialect where
  jsx : Bool
  typescript : Bool := false
deriving DecidableEq, Repr

/-- What is left of a text, and the byte offset where it starts. -/
structure Cursor where
  pos : Nat
  rest : List Char
deriving DecidableEq, Repr

namespace Cursor

def skip (c : Cursor) (n : Nat) : Cursor :=
  ⟨c.pos + byteLength (c.rest.take n), c.rest.drop n⟩

/-- The cursor behind `taken`, which stands at the front. -/
def past (c : Cursor) (taken : List Char) : Cursor := c.skip taken.length

def skipWhile (c : Cursor) (p : Char → Bool) : Cursor := c.past (c.rest.takeWhile p)

/-- White space and the byte order mark separate tokens. -/
def skipBlank (c : Cursor) : Cursor := c.skipWhile fun x => isBlank x || x == '\ufeff'

/-- The text between two cursors of one text. -/
def upTo (c d : Cursor) : String := String.ofList (takeBytes (d.pos - c.pos) c.rest)

def fail {α : Type} (c : Cursor) (cause : SyntaxError.Cause) : Except SyntaxError α :=
  .error ⟨cause, c.pos⟩

end Cursor

/-! ## Leaf scanners -/

def operandKeywords : List String :=
  ["return", "typeof", "instanceof", "in", "of", "new", "delete", "void", "throw", "case", "do",
   "else", "yield", "await", "extends"]

/-- All punctuators, none of them before a longer one that it starts. -/
def punctuators : List String :=
  [">>>=", "...", "===", "!==", "**=", "<<=", ">>=", ">>>", "&&=", "||=", "??=", "=>", "==", "!=",
   "<=", ">=", "&&", "||", "??", "?.", "++", "--", "+=", "-=", "*=", "/=", "%=", "&=", "|=",
   "^=", "**", "<<", ">>", "\x7b", "\x7d", "(", ")", "[", "]", ";", ",", "<", ">", "+", "-", "*",
   "/", "%", "&", "|", "^", "!", "~", "?", ":", "=", ".", "@", "#"]

def punctAt (s : List Char) : Option String :=
  punctuators.find? fun p => p.toList.isPrefixOf s

def isWordStart (c : Char) : Bool := isLetter c || c == '_' || c == '$' || c == '\\'

def isWordRest (c : Char) : Bool :=
  isWordPart c || c == '_' || c == '$' || c == '\\' || c == '\u200c' || c == '\u200d'

def isAttributeNamePart (c : Char) : Bool :=
  isWordPart c || c == '_' || c == '$' || c == '-' || c == ':'

def isTagNamePart (c : Char) : Bool := isAttributeNamePart c || c == '.'

def isLineEnd (c : Char) : Bool := c == '\n' || c == '\r'

/-- Digits, letters and points; a sign also, right after the `e` of a decimal. -/
def numberRun (hex : Bool) : List Char → List Char
  | [] => []
  | [c] => if c.isAlphanum || c == '_' || c == '.' then [c] else []
  | c :: d :: s =>
      if c.isAlphanum || c == '_' || c == '.' then
        if !hex && (c == 'e' || c == 'E') && (d == '+' || d == '-') then c :: d :: numberRun hex s
        else c :: numberRun hex (d :: s)
      else []

def number (s : List Char) : List Char :=
  numberRun (['0', 'x'].isPrefixOf s || ['0', 'X'].isPrefixOf s) s

/-- The rest of a string literal, with its closing quote. -/
def stringTail (quote : Char) : List Char → Option (List Char)
  | [] => none
  | '\\' :: '\r' :: '\n' :: s => (stringTail quote s).map ('\\' :: '\r' :: '\n' :: ·)
  | '\\' :: c :: s => (stringTail quote s).map ('\\' :: c :: ·)
  | c :: s =>
      if isLineEnd c then none
      else if c == quote then some [c]
      else (stringTail quote s).map (c :: ·)

/-- The rest of a regular expression up to its closing slash, which a class in brackets may hide. -/
def regexTail (inClass : Bool) : List Char → Option (List Char)
  | [] => none
  | '\\' :: '\r' :: '\n' :: s => (regexTail inClass s).map ('\\' :: '\r' :: '\n' :: ·)
  | '\\' :: c :: s => (regexTail inClass s).map ('\\' :: c :: ·)
  | c :: s =>
      if isLineEnd c then none
      else if c == '[' then (regexTail true s).map (c :: ·)
      else if c == ']' then (regexTail false s).map (c :: ·)
      else if c == '/' && !inClass then some [c]
      else (regexTail inClass s).map (c :: ·)

/-- The rest of a block comment, with its end. -/
def commentTail : List Char → Option (List Char)
  | '*' :: '/' :: _ => some ['*', '/']
  | c :: s => (commentTail s).map (c :: ·)
  | [] => none

/-- Raw template text up to and including the backtick, or the `$` and brace, that ends it; `true`
when a substitution follows. -/
def rawTail : List Char → Option (List Char × Bool)
  | [] => none
  | '\\' :: '\r' :: '\n' :: s => (rawTail s).map fun r => ('\\' :: '\r' :: '\n' :: r.1, r.2)
  | '\\' :: c :: s => (rawTail s).map fun r => ('\\' :: c :: r.1, r.2)
  | '\x60' :: _ => some (['\x60'], false)
  | '$' :: '\x7b' :: _ => some (['$', '\x7b'], true)
  | c :: s => (rawTail s).map fun r => (c :: r.1, r.2)

/-- A name and then a comma or `extends`: type parameters, where an element would need a tag. -/
def typeParametersFollow (s : List Char) : Bool :=
  let isName := fun c => isWordPart c || c == '_' || c == '$'
  let after := (s.dropWhile isName).dropWhile isBlank
  (s.head?.any isName) &&
    (after.head? == some ',' ||
      ("extends".toList.isPrefixOf after && (after.drop 7).head?.any isBlank))

/-- Whether an element can start with a `<` followed by `s`. -/
def elementFollows (d : Dialect) (s : List Char) : Bool :=
  s.head?.any (fun c => isLetter c || c == '_' || c == '$' || c == '>') &&
    !(d.typescript && typeParametersFollow s)

/-- Whether an element starts where the rest of a text does. -/
def startsElement (d : Dialect) (operand : Bool) : List Char → Bool
  | '<' :: s => d.jsx && operand && elementFollows d s
  | _ => false

/-- Whether the tokens of a container, or of the text, end here. -/
def tokensEnd (inBraces : Bool) (depth : Nat) (c : Cursor) : Except SyntaxError Bool :=
  match c.rest with
  | [] => if inBraces then c.fail .unexpectedEnd else .ok true
  | x :: _ => .ok (inBraces && x == '\x7d' && depth == 0)

/-- The token at a cursor that stands before no white space, no template and no element. -/
def lexLeaf (operand : Bool) (c : Cursor) : Except SyntaxError (Shape × Cursor) :=
  match c.rest with
  | [] => c.fail .unexpectedEnd
  | '/' :: '/' :: _ => .ok (.comment, c.skipWhile (!isLineEnd ·))
  | '/' :: '*' :: s => match commentTail s with
      | some tail => .ok (.comment, c.past ('/' :: '*' :: tail))
      | none => c.fail .unterminatedComment
  | x :: s =>
      if x == '/' && operand then
        match regexTail false s with
        | some tail => .ok (.regex, (c.past (x :: tail)).skipWhile Char.isAlpha)
        | none => c.fail .unterminatedRegex
      else if x == '\'' || x == '"' then
        match stringTail x s with
        | some tail => .ok (.str, c.past (x :: tail))
        | none => c.fail .unterminatedString
      else if x.isDigit || (x == '.' && s.head?.any Char.isDigit) then
        .ok (.number, c.past (number c.rest))
      else if isWordStart x then .ok (.word, c.skipWhile isWordRest)
      else match punctAt c.rest with
        | some p => .ok (.punct, c.skip p.length)
        | none => c.fail (.unexpectedCharacter x)

/-! ## What an element goes on with -/

inductive TagStart where
  /-- A fragment; the cursor is behind its `>`. -/
  | fragment (inner : Cursor)
  | named (name : TagName) (after : Cursor)

/-- The name that follows a `<`. -/
def tagStart (c : Cursor) : Except SyntaxError TagStart :=
  let inner := (c.skip 1).skipBlank
  if inner.rest.head? == some '>' then .ok (.fragment (inner.skip 1))
  else
    let named := inner.skipWhile isTagNamePart
    if named.pos == inner.pos then inner.fail .expectedTagName
    else .ok (.named ⟨inner.upTo named, inner.pos⟩ named)

inductive TagPart where
  /-- The end of a tag, which closes its element when it has a slash. -/
  | stop (closed : Bool) (after : Cursor)
  | spread (inner : Cursor)
  /-- A name of an attribute between two cursors. -/
  | name (start after : Cursor)

/-- What follows the name of a tag or an attribute. -/
def tagPart (before : Cursor) : Except SyntaxError TagPart :=
  let c := before.skipBlank
  match c.rest with
  | [] => c.fail .endInsideTag
  | x :: s =>
      if x == '/' then
        if s.head? == some '>' then .ok (.stop true (c.skip 2))
        else c.fail (.expected ">" (some "/"))
      else if x == '>' then .ok (.stop false (c.skip 1))
      else if x == '\x7b' then
        let inner := (c.skip 1).skipBlank
        if "...".toList.isPrefixOf inner.rest then .ok (.spread (inner.skip 3))
        else c.fail (.expected "..." (some "\x7b"))
      else if isWordStart x then .ok (.name c (c.skipWhile isAttributeNamePart))
      else c.fail (.expected ">" (some (String.singleton x)))

inductive ValueStart where
  | bare (after : Cursor)
  | str (value : String) (start : Nat) (after : Cursor)
  | expr (inner : Cursor)
  | element (start : Cursor)

/-- What follows the name of an attribute. -/
def valueStart (before : Cursor) : Except SyntaxError ValueStart :=
  if before.rest.head? != some '=' then .ok (.bare before)
  else
    let c := (before.skip 1).skipBlank
    match c.rest with
    | [] => c.fail .expectedAttributeValue
    | x :: s =>
        if x == '"' || x == '\'' then
          let raw := s.takeWhile (· != x)
          if raw.length < s.length then
            .ok (.str (String.ofList (decodeReferences raw)) c.pos (c.skip (raw.length + 2)))
          else c.fail .unterminatedString
        else if x == '\x7b' then .ok (.expr (c.skip 1))
        else if x == '<' then .ok (.element c)
        else c.fail .expectedAttributeValue

inductive ChildStart where
  | expr (inner : Cursor)
  | element (start : Cursor)
  /-- The closing tag. -/
  | stop (after : Cursor)

/-- What follows a text among the children of `parent`, whose name a closing tag has to repeat. -/
def childStart (parent : Option String) (c : Cursor) : Except SyntaxError ChildStart :=
  match c.rest with
  | [] => c.fail (.endBeforeClosingTag (parent.getD ""))
  | x :: s =>
      if x == '\x7b' then .ok (.expr (c.skip 1))
      else if x == '<' then
        let gap := s.takeWhile fun y =>
          y == ' ' || y == '\t' || y == '\n' || y == '\x0c' || y == '\r'
        if s[gap.length]? == some '/' then
          let name := (c.skip (gap.length + 2)).skipBlank
          let named := name.skipWhile isTagNamePart
          let close := named.skipBlank
          if name.rest.head? != some '>' && named.pos == name.pos then
            name.fail .expectedTagName
          else if close.rest.head? != some '>' then close.fail .expectedTagEnd
          else
            let closing := if name.rest.head? == some '>' then none else some (name.upTo named)
            if closing != parent then c.fail (.closingTagMismatch (parent.getD ""))
            else .ok (.stop (close.skip 1))
        else .ok (.element c)
      else c.fail (.strayCharacter x)

/-- The end of a text among children. -/
def textEnd (start : Cursor) : Cursor :=
  start.skipWhile fun x => !(x == '<' || x == '\x7b' || x == '\x7d' || x == '>')

/-- The child that a text between two cursors makes, unless it is only layout. -/
def textChild (start c : Cursor) : List Child :=
  match cleanText (start.upTo c).toList with
  | some value => [.text (String.ofList value) start.pos]
  | none => []

/-- The child that a container makes, unless it holds nothing but comments. -/
def bodyChild (body : Body) : List Child :=
  if body.tokens.any (!·.isComment) then [.expr body] else []

/-! ## Values of string literals

`unquote` gives the value of a quoted literal: a backslash stands for a control character before
`n`, `t`, `r` and `0`, for nothing together with a line feed, and otherwise for the character that
follows it. -/
/-- The character that an escape other than a line continuation stands for. -/
def escapedChar (c : Char) : Char :=
  if c = 'n' then '\n'
  else if c = 't' then '\t'
  else if c = 'r' then '\r'
  else if c = '0' then '\x00'
  else c

/-- The inside of a literal with its escapes resolved. -/
def unescape : List Char → List Char
  | [] => []
  | ['\\'] => []
  | '\\' :: '\n' :: s => unescape s
  | '\\' :: c :: s => escapedChar c :: unescape s
  | c :: s => c :: unescape s

def unquote (literal : String) : String :=
  let s := literal.toList
  if byteLength s < 2 then String.ofList (unescape s)
  else String.ofList (unescape (s.drop 1).dropLast)

end JsxPreview.Source
