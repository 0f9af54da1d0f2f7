/-! # Tokens of template source

A source text is a flat list of tokens in which the two nesting constructs, template literals and
JSX elements, carry the tokens of their substitutions and containers.  White space is not a token.
Positions are byte offsets; `text` is what the token covers. -/
set_option autoImplicit false
namespace JsxPreview.Source

structure TagName where
  text : String
  start : Nat
deriving DecidableEq, Repr

mutual

structure Token where
  shape : Shape
  start : Nat
  stop : Nat
  text : String

inductive Shape where
  | word
  | punct
  | str
  | number
  | regex
  | comment
  | template (parts : List TemplatePart)
  | jsx (element : Element)

/-- A piece of a template literal: raw text with its delimiters, or a substitution. -/
inductive TemplatePart where
  | raw (start stop : Nat)
  | subst (body : Body)

/-- The inside of a `\x7b…\x7d` container; the span leaves out the braces. -/
structure Body where
  start : Nat
  stop : Nat
  tokens : List Token

/-- A JSX element, or a fragment when it has no name. -/
structure Element where
  start : Nat
  stop : Nat
  name : Option TagName
  attributes : List Attribute
  children : List Child

inductive Attribute where
  | named (name : String) (start : Nat) (value : AttributeValue)
  | spread (body : Body)

inductive AttributeValue where
  | bare
  | str (value : String) (start : Nat)
  | expr (body : Body)
  | element (element : Element)

inductive Child where
  | text (value : String) (start : Nat)
  | expr (body : Body)
  | element (element : Element)

end

namespace Token

def isComment (t : Token) : Bool := match t.shape with | .comment => true | _ => false

def isWord (t : Token) : Bool := match t.shape with | .word => true | _ => false

def isPunct (t : Token) : Bool := match t.shape with | .punct => true | _ => false

def isStr (t : Token) : Bool := match t.shape with | .str => true | _ => false

def isNumber (t : Token) : Bool := match t.shape with | .number => true | _ => false

def isTemplate (t : Token) : Bool := match t.shape with | .template _ => true | _ => false

end Token

/-- Lower-case, dashed and namespaced names are host tags; all others name a component. -/
def TagName.isIntrinsic (n : TagName) : Bool :=
  let name := n.text.toList
  !name.contains '.' &&
    (name.contains '-' || name.contains ':' || name.head?.any Char.isLower)

mutual

/-- Every container nested in an element, in the order of the source. -/
def Element.bodies : Element → List Body
  | ⟨_, _, _, attributes, children⟩ => Attribute.bodiesAll attributes ++ Child.bodiesAll children

def Attribute.bodiesAll : List Attribute → List Body
  | [] => []
  | a :: rest => a.bodies ++ Attribute.bodiesAll rest

def Attribute.bodies : Attribute → List Body
  | .spread body => [body]
  | .named _ _ value => value.bodies

def AttributeValue.bodies : AttributeValue → List Body
  | .expr body => [body]
  | .element e => e.bodies
  | .bare | .str _ _ => []

def Child.bodiesAll : List Child → List Body
  | [] => []
  | c :: rest => c.bodies ++ Child.bodiesAll rest

def Child.bodies : Child → List Body
  | .expr body => [body]
  | .element e => e.bodies
  | .text _ _ => []

end

mutual

def Element.tagNames : Element → List TagName
  | ⟨_, _, name, attributes, children⟩ =>
      name.toList ++ Attribute.tagNamesAll attributes ++ Child.tagNamesAll children

def Attribute.tagNamesAll : List Attribute → List TagName
  | [] => []
  | a :: rest => a.tagNames ++ Attribute.tagNamesAll rest

def Attribute.tagNames : Attribute → List TagName
  | .spread _ => []
  | .named _ _ value => value.tagNames

def AttributeValue.tagNames : AttributeValue → List TagName
  | .element e => e.tagNames
  | .bare | .str _ _ | .expr _ => []

def Child.tagNamesAll : List Child → List TagName
  | [] => []
  | c :: rest => c.tagNames ++ Child.tagNamesAll rest

def Child.tagNames : Child → List TagName
  | .element e => e.tagNames
  | .text _ _ | .expr _ => []

end

end JsxPreview.Source
