import JsxPreview.Json.Value
import JsxPreview.Text.Lines

/-! # Values of scripts

What a template handles while it runs: plain data, elements and the things they are made of, functions,
promises, and objects of the host, which are known by number.  A promise is one of `resolved`,
`rejected` and `unsettled`.  `Value.entries` gives the properties of a value in the order in which
scripts walk over them: names that are indices ascend, and the others keep the order in which they were
added. -/
set_option autoImplicit false
namespace JsxPreview.Script

open JsxPreview.Text

/-- What a component shows.  Bodies are described trees, which are built when the component runs. -/
inductive Component where
  | tree (body : Json.Value)
  /-- Shows the body and then the children it is given. -/
  | around (body : Json.Value)
  | property (name : Json.Value)
  /-- Shows its property `text`, for which it has a default. -/
  | textOr (default : Json.Value)
  | failing (message : Json.Value)
  | reading (context : Json.Value)
  /-- Shows the reference handed on to it, and then the body. -/
  | forwarding (body : Json.Value)
deriving Inhabited

inductive Function where
  | nothing
  | bracketed
  | doubled (id : Nat)
  | constant (id : Nat) (result : Json.Value)
  | component (c : Component)
  /-- A function that gives nothing, under its own name and one for display. -/
  | named (name : String) (displayName : Option String)
  | noting (log : Nat) (line : String)
  /-- A method that comes with every value of a kind. -/
  | method (name : String)
deriving Inhabited

inductive Value where
  | undefined
  | null
  | bool (b : Bool)
  | number (x : Double)
  | text (s : String)
  /-- A text with surrogates that stand alone, as its UTF-16 units. -/
  | units (u : List UInt16)
  | symbol (name : String)
  | list (items : List Value)
  | record (fields : List (String × Value))
  | element (type key ref : Value) (props : List (String × Value))
  | error (name message : String) (cause : Option Value)
  | function (f : Function)
  | resolved (v : Value)
  | rejected (error : Value)
  | unsettled
  | context (name : String)
  | provider (context : String)
  | consumer (context : String)
  | iterator (items : List Value)
  | object (id : Nat)
deriving Inhabited

def inheritedNames : List String :=
  ["constructor", "toString", "toLocaleString", "valueOf", "hasOwnProperty", "isPrototypeOf",
    "propertyIsEnumerable", "__proto__", "__defineGetter__", "__defineSetter__",
    "__lookupGetter__", "__lookupSetter__"]

def isInherited (name : String) : Bool := inheritedNames.contains name

def inherited (name : String) : Value :=
  if name = "__proto__" then .record []
  else if name = "constructor" then .function (.method "Object")
  else if isInherited name then .function (.method name)
  else .undefined

def indexOf? (name : String) : Option Nat :=
  match name.toList with
  | ['0'] => some 0
  | c :: rest =>
      if c ≠ '0' ∧ (c :: rest).all Char.isDigit ∧ rest.length < 10 then
        let n := (c :: rest).foldl (fun n d => n * 10 + (d.toNat - 48)) 0
        if n < Nat.pow 2 32 - 1 then some n else none
      else none
  | [] => none

/-- Fields in the order in which scripts walk over them. -/
def walked {α : Type} (fields : List (String × α)) : List (String × α) :=
  let indexed := fields.filterMap fun f => (indexOf? f.1).map (·, f)
  (indexed.mergeSort fun a b => a.1 ≤ b.1).map (·.2) ++
    fields.filter fun f => (indexOf? f.1).isNone

/-- Sets a field: the place of an earlier one of the same name is kept.  Under the name of the
prototype no field is made. -/
def assign (name : String) (v : Value) (fields : List (String × Value)) : List (String × Value) :=
  if name = "__proto__" then fields
  else if fields.any (·.1 == name) then
    fields.map fun f => if f.1 == name then (name, v) else f
  else fields ++ [(name, v)]

namespace Value

def unitTexts (s : String) : List String :=
  (toUnits s.toList).map fun u => String.singleton (charOfUnit u)

/-- The text of UTF-16 units. -/
def ofUtf16 (u : List UInt16) : Value :=
  let s := ofUnits u
  if toUnits s = u then .text (String.ofList s) else .units u

/-- The UTF-16 units of a text. -/
def units? : Value → Option (List UInt16)
  | .text s => some (toUnits s.toList)
  | .units u => some u
  | _ => none

def numbered (items : List Value) : List (String × Value) :=
  items.mapIdx fun i v => (toString i, v)

def entries : Value → List (String × Value)
  | .text s => numbered ((unitTexts s).map .text)
  | .units u => numbered (u.map fun x => ofUtf16 [x])
  | .list items => numbered items
  | .record fields => walked fields
  | .element type key ref props =>
      [("$$typeof", .symbol "react.element"), ("type", type), ("key", key), ("ref", ref),
        ("props", .record props)]
  | .provider name => [("$$typeof", .symbol "react.provider"), ("_context", .context name)]
  | .consumer name => [("$$typeof", .symbol "react.context"), ("_context", .context name)]
  | _ => []

mutual

def ofJson : Json.Value → Value
  | .null => .null
  | .bool b => .bool b
  | .number n => .number n.toDouble
  | .text s => .text s
  | .list items => .list (ofJsonItems items)
  | .object fields => .record (ofJsonFields fields)

def ofJsonItems : List Json.Value → List Value
  | [] => []
  | v :: rest => ofJson v :: ofJsonItems rest

def ofJsonFields : List (String × Json.Value) → List (String × Value)
  | [] => []
  | (name, v) :: rest => (name, ofJson v) :: ofJsonFields rest

end

def property (v : Value) (name : String) : Value :=
  match v with
  | .list items => if name = "length" then .number (.ofNat items.length) else
      (v.entries.lookup name).getD (inherited name)
  | .text s => if name = "length" then .number (.ofNat (unitLength s.toList)) else
      (v.entries.lookup name).getD (inherited name)
  | .units u => if name = "length" then .number (.ofNat u.length) else
      (v.entries.lookup name).getD (inherited name)
  | .function (.component (.textOr default)) =>
      if name = "defaultProps" then .record [("text", ofJson default)] else inherited name
  | .error kind message cause =>
      if name = "name" then .text kind
      else if name = "message" then .text message
      else if name = "cause" then cause.getD .undefined
      else inherited name
  | _ => (v.entries.lookup name).getD (inherited name)

def isNullish : Value → Bool
  | .undefined | .null => true
  | _ => false

def isUndefined : Value → Bool
  | .undefined => true
  | _ => false

def isFunction : Value → Bool
  | .function _ => true
  | _ => false

/-- Whether a value is an object that cannot be called. -/
def isObject : Value → Bool
  | .undefined | .null | .bool _ | .number _ | .text _ | .units _ | .symbol _ | .function _ => false
  | _ => true

def isTruthy : Value → Bool
  | .undefined | .null => false
  | .bool b => b
  | .number x => !(x.isZero || x.isNaN)
  | .text s => s ≠ ""
  | _ => true

/-- Whether a value has a method `then`, so that it is waited for; no function here that could stand
there ever calls back. -/
def isThenable (v : Value) : Bool := (v.property "then").isFunction

def typeError (message : String) : Value := .error "TypeError" message none

end Value

end JsxPreview.Script
