import JsxPreview.Script.Text
import JsxPreview.Script.Value

/-! # Making elements

An element has a type, a key, a reference and properties.  `create` takes properties and children apart;
`ofJsx` is what compiled JSX calls, and finds the children among the properties.  Properties for which a
type has defaults get them where they are undefined. -/
set_option autoImplicit false
namespace JsxPreview.Element

open JsxPreview.Script

/-- Names of properties that do not reach the element: those with a meaning of their own, and those
that every object inherits. -/
def isReserved (name : String) : Bool :=
  ["key", "ref", "__self", "__source"].contains name || isInherited name

def fillDefault (props : List (String × Value)) (default : String × Value) :
    List (String × Value) :=
  if ((Value.record props).property default.1).isUndefined then assign default.1 default.2 props
  else props

def fillDefaults (type : Value) (props : List (String × Value)) : List (String × Value) :=
  let defaults := type.property "defaultProps"
  if type.isTruthy && defaults.isTruthy then defaults.entries.foldl fillDefault props else props

def addEntries (admits : String → Bool) (props : List (String × Value)) (config : Value) :
    List (String × Value) :=
  (config.entries.filter fun e => admits e.1).foldl (fun props e => assign e.1 e.2 props) props

/-- Adds children: a single one as it is, several as a list. -/
def addChildren (children : List Value) (props : List (String × Value)) : List (String × Value) :=
  match children with
  | [] => props
  | [child] => assign "children" child props
  | children => assign "children" (.list children) props

/-- The key of an element, given the value that names it. -/
def keyOf (v otherwise : Value) : Except Value Value :=
  if v.isUndefined then .ok otherwise else Value.text <$> v.toText

def refOf (config : Value) : Value :=
  let ref := config.property "ref"
  if ref.isUndefined then .null else ref

def create (type config : Value) (children : List Value) : Except Value Value := do
  let key ← if config.isNullish then pure .null else keyOf (config.property "key") .null
  let ref := if config.isNullish then .null else refOf config
  let props := addChildren children (addEntries (fun name => !isReserved name) [] config)
  return .element type key ref (fillDefaults type props)

def missingProperty (of : Value) (name : String) : Value :=
  Value.typeError ("cannot read property '" ++ name ++ "' of " ++
    if of.isUndefined then "undefined" else "null")

def clone (element config : Value) (children : List Value) : Except Value Value := do
  if element.isNullish then throw (missingProperty element "props")
  let props := addEntries (fun _ => true) [] (element.property "props")
  let key ← if config.isNullish then pure (element.property "key")
    else keyOf (config.property "key") (element.property "key")
  let props := addChildren children (addEntries (fun name => !isReserved name) props config)
  return .element (element.property "type") key (element.property "ref") props

/-- The key stands beside the properties, or else among them. -/
def ofJsx (type config key : Value) : Except Value Value := do
  let props := addEntries (fun name => name != "key" && name != "ref") [] config
  let key ←
    if key.isUndefined then
      if config.isNullish then throw (missingProperty config "key")
      else keyOf (config.property "key") .null
    else keyOf key .null
  if config.isNullish then throw (missingProperty config "ref")
  return .element type key (refOf config) (fillDefaults type props)

def isElement : Value → Bool
  | .element _ _ _ _ => true
  | _ => false

end JsxPreview.Element

/-! ## Children of elements

Children are flattened at every depth, and what renders to nothing is left out. -/
namespace JsxPreview.Element.Children

open JsxPreview.Script

mutual

def toList : Value → List Value
  | .list items => itemsToList items
  | .undefined | .null | .bool _ => []
  | v => [v]

def itemsToList : List Value → List Value
  | [] => []
  | v :: rest => toList v ++ itemsToList rest

end

end JsxPreview.Element.Children
