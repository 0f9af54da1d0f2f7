import JsxPreview.Text.Printable

/-! # Why a source text is refused -/
set_option autoImplicit false
namespace JsxPreview.Source

open JsxPreview.Text

inductive SyntaxError.Cause where
  | unexpectedEnd
  | unexpectedCharacter (c : Char)
  | unterminatedComment
  | unterminatedString
  | unterminatedRegex
  | unterminatedTemplate
  /-- Something else than `what` follows; nothing follows when `found` is absent. -/
  | expected (what : String) (found : Option String)
  | expectedString (found : Option String)
  | expectedIdentifier (found : Option String)
  | expectedTagName
  | expectedAttributeValue
  | expectedTagEnd
  | endInsideTag
  | strayCharacter (c : Char)
  | endBeforeClosingTag (name : String)
  | closingTagMismatch (name : String)
  | unexpectedExport (found : Option String)
  | unexpectedInPattern (found : Option String)
  | endInPattern
  | enumDeclaration
  | namespaceDeclaration
  | exportAssignment
  | parameterProperty
  /-- The allowance of nested calls is used up. -/
  | tooDeep
deriving DecidableEq, Repr

/-- A refusal, and the byte offset that it points at. -/
structure SyntaxError where
  cause : SyntaxError.Cause
  offset : Nat
deriving DecidableEq, Repr

private def shownToken : Option String → String
  | some text => Quoted.shown text
  | none => "end of file"

def SyntaxError.Cause.message : SyntaxError.Cause → String
  | .unexpectedEnd => "Unexpected end of file"
  | .unexpectedCharacter c => "Unexpected " ++ Quoted.shown (String.singleton c)
  | .unterminatedComment => "Expected \"*/\" to terminate multi-line comment"
  | .unterminatedString => "Unterminated string literal"
  | .unterminatedRegex => "Unterminated regular expression"
  | .unterminatedTemplate => "Unterminated template literal"
  | .expected what found => "Expected " ++ Quoted.shown what ++ " but found " ++ shownToken found
  | .expectedString found => "Expected string but found " ++ shownToken found
  | .expectedIdentifier found => "Expected identifier but found " ++ shownToken found
  | .expectedTagName => "Expected identifier after \"<\""
  | .expectedAttributeValue => "Expected attribute value after \"=\""
  | .expectedTagEnd => "Expected \">\""
  | .endInsideTag => "Unexpected end of file before a closing \">\""
  | .strayCharacter c =>
      "The character \"" ++ String.singleton c ++ "\" is not valid inside a JSX element"
  | .endBeforeClosingTag name =>
      "Unexpected end of file before a closing \"" ++ name ++ "\" tag"
  | .closingTagMismatch name =>
      "Expected closing \"" ++ name ++ "\" tag to match opening \"" ++ name ++ "\" tag"
  | .unexpectedExport found => "Unexpected " ++ shownToken found ++ " after \"export\""
  | .unexpectedInPattern found => "Unexpected " ++ shownToken found ++ " in binding pattern"
  | .endInPattern => "Unexpected end of file in binding pattern"
  | .enumDeclaration => "TypeScript enums are not supported"
  | .namespaceDeclaration => "TypeScript namespaces are not supported"
  | .exportAssignment => "TypeScript export assignments are not supported"
  | .parameterProperty => "TypeScript parameter properties are not supported"
  | .tooDeep => "Nesting is too deep"

def SyntaxError.message (e : SyntaxError) : String := e.cause.message

end JsxPreview.Source
