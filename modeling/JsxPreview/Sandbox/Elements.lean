import JsxPreview.Element.Create
import JsxPreview.Sandbox.Property

/-! # Elements and hooks in a session

Elements are made as in rendering.  A hook gives its first value: a script runs once, and nothing is ever
rendered again. -/
set_option autoImplicit false
namespace JsxPreview.Sandbox.Elements

open JsxPreview.Element
open JsxPreview.Script
open Sandboxed

def isElement (v : Value) : Bool :=
  v.isObject && isSame (v.property "$$typeof") (.symbol "react.element")

def mapChildren (children f : Value) : Sandboxed (List Value) := do
  if !f.isFunction then throwType "not a function"
  let items := Children.toList children
  (items.zipIdx).mapM fun p => apply f [p.1, number p.2, .list items]

def childrenMethod? : String → Option Method
  | "toArray" => some fun args => pure (.list (Children.toList (argument args 0)))
  | "map" => some fun args => do
      let children := argument args 0
      if children.isNullish then return children
      return .list (← mapChildren children (argument args 1))
  | "forEach" => some fun args => do
      let _ ← mapChildren (argument args 0) (argument args 1)
      return .undefined
  | "count" => some fun args => pure (number (Children.toList (argument args 0)).length)
  | "only" => some fun args => do
      let child := argument args 0
      if isElement child then return child
      throwValue (.error "Error"
        "React.Children.only expected to receive a single React element child." none)
  | _ => none

def jsx : Method := fun args =>
  ofExcept (ofJsx (argument args 0) (argument args 1) (argument args 2))

def jsxMethod? : String → Option Method
  | "jsx" | "jsxs" | "jsxDEV" => some jsx
  | _ => none

def createContext : Method := fun args => do
  let name := toString (← fresh)
  modify fun s => { s with contexts := s.contexts.write name (argument args 0) }
  return .context name

/-- A hook's value: what a function gives, or the value itself. -/
def settled (v : Value) : Sandboxed Value := if v.isFunction then apply v [] else return v

def useReducer : Method := fun args => do
  let first := argument args 1
  let start := argument args 2
  let state ← if start.isTruthy then apply start [first] else pure first
  return .list [state, .function .nothing]

def digits32 (n : Nat) : List Char :=
  if n < 32 then [digit32 n] else digits32 (n / 32) ++ [digit32 n]
where
  digit32 (n : Nat) : Char := "0123456789abcdefghijklmnopqrstuv".toList.getD (n % 32) '0'

def useId : Method := fun _ => do
  let n := (← session).idsGiven + 1
  modify fun s => { s with idsGiven := n }
  return .text (":r" ++ String.ofList (digits32 n) ++ ":")

def hookMethod? : String → Option Method
  | "useContext" => some fun args => read (argument args 0) "_currentValue"
  | "useState" => some fun args => do
      return .list [← settled (argument args 0), .function .nothing]
  | "useReducer" => some useReducer
  | "useMemo" => some fun args => apply (argument args 0) []
  | "useCallback" => some fun args => pure (argument args 0)
  | "useRef" => some fun args => pure (.record [("current", argument args 0)])
  | "useId" => some useId
  | "useEffect" | "useLayoutEffect" | "useInsertionEffect" => some fun _ => pure .undefined
  | _ => none

def elementMethod? : String → Option Method
  | "createElement" => some fun args =>
      ofExcept (create (argument args 0) (argument args 1) (args.drop 2))
  | "cloneElement" => some fun args =>
      ofExcept (clone (argument args 0) (argument args 1) (args.drop 2))
  | "isValidElement" => some fun args => pure (.bool (isElement (argument args 0)))
  | "createContext" => some createContext
  | "forwardRef" => some fun _ => pure (.function .nothing)
  | "memo" => some fun args => pure (argument args 0)
  | "createRef" => some fun _ => pure (.record [("current", .null)])
  | name => hookMethod? name

/-! ## The objects that hold all this -/

def functions (names : List String) : List (String × Value) :=
  names.map fun name => (name, .function (.method name))

def childrenFields : List (String × Value) :=
  functions ["toArray", "map", "forEach", "count", "only"]

def fragment : Value := .symbol "react.fragment"

def jsxFields : List (String × Value) := ("Fragment", fragment) :: functions ["jsx", "jsxs", "jsxDEV"]

def elementFields (children : Value) : List (String × Value) :=
  [("version", .text "18.3.1"), ("Fragment", fragment), ("StrictMode", fragment),
    ("Suspense", fragment), ("Children", children)] ++
  functions ["Component", "PureComponent", "createElement", "cloneElement", "isValidElement",
    "createContext", "forwardRef", "memo", "createRef", "useContext", "useState", "useReducer",
    "useMemo", "useCallback", "useRef", "useId", "useEffect", "useLayoutEffect",
    "useInsertionEffect"]

end JsxPreview.Sandbox.Elements
