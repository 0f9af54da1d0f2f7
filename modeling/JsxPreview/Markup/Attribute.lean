import JsxPreview.Script.Text

/-! # Escaped text and attributes

In text the characters that begin and end tags, and the one that begins references, are written as
references; in the value of an attribute the quotation mark is too. -/
set_option autoImplicit false
namespace JsxPreview.Markup

open JsxPreview.Script

def escapeChar (c : Char) : List Char :=
  match c with
  | '&' => "&amp;".toList
  | '<' => "&lt;".toList
  | '>' => "&gt;".toList
  | c => [c]

def escapeQuotedChar (c : Char) : List Char :=
  if c = '"' then "&quot;".toList else escapeChar c

def escapeText (s : String) : String := String.ofList (s.toList.flatMap escapeChar)

def escapeQuoted (s : String) : String := String.ofList (s.toList.flatMap escapeQuotedChar)

/-! ## Attributes of elements

Properties become attributes under the names that markup has for them.  One that is missing, false or
a function is left out, and one that is true has no value.  A style is a list of declarations. -/

/-- Properties that are not attributes. -/
def heldBack : List String := ["children", "dangerouslySetInnerHTML", "key", "ref"]

/-- The text of what every object has under an inherited name. -/
def inheritedText (name : String) : String :=
  match inherited name with
  | .function f => f.source
  | _ => "[object Object]"

/-- The name that markup has for a property.  The aliases are looked up in an object, where an inherited
name finds what every object has. -/
def attributeName (name : String) : String :=
  if name = "className" then "class"
  else if name = "htmlFor" then "for"
  else if name = "httpEquiv" then "http-equiv"
  else if name = "acceptCharset" then "accept-charset"
  else if isInherited name then inheritedText name
  else name

/-- The name of a style property: a capital letter becomes a hyphen and a small letter. -/
def hyphenate (name : String) : String :=
  String.ofList (name.toList.flatMap fun c => if c.isUpper then ['-', c.toLower] else [c])

def isEmptyText : Value → Bool
  | .text s => s = ""
  | _ => false

def styleText (style : Value) : Except Value String := do
  let kept := style.entries.filter fun e => !(e.2.isNullish || isEmptyText e.2)
  let declarations ← kept.mapM fun e => do return hyphenate e.1 ++ ":" ++ (← e.2.asText)
  return String.intercalate ";" declarations

def quotedAttribute (name value : String) : String :=
  " " ++ name ++ "=\"" ++ escapeQuoted value ++ "\""

def attributeText (name : String) (value : Value) : Except Value String :=
  if heldBack.contains name then .ok ""
  else match value with
    | .undefined | .null | .bool false | .function _ => .ok ""
    | value =>
        if name = "style" && value.isObject then do
          let css ← styleText value
          return if css = "" then "" else quotedAttribute "style" css
        else match value with
          | .bool _ => .ok (" " ++ attributeName name)
          | value => quotedAttribute (attributeName name) <$> value.toText

def attributesText (props : List (String × Value)) : Except Value String := do
  return String.join (← (walked props).mapM fun p => attributeText p.1 p.2)

end JsxPreview.Markup
