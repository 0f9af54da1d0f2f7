import JsxPreview.Element.Create
import JsxPreview.Sandbox.Form
import JsxPreview.Script.Number
import JsxPreview.Url.Setter

/-! # Properties of values in a session

An object of the host has its own properties first, and then what is computed from its state.  A
computed property cannot be set: setting it does nothing, unless the object is there to be changed
through it. -/
set_option autoImplicit false
namespace JsxPreview.Sandbox

open JsxPreview.Element (missingProperty)
open JsxPreview.Script

namespace Sandboxed

def number (n : Nat) : Value := .number (.ofNat n)

/-- The query of a URL: it is made once, and then belongs to the URL. -/
def queryOf (id : Nat) (u : Url) (query : Option Nat) : Sandboxed Value := do
  match query with
  | some query => return .object query
  | none =>
      let query ← create (.query (.parse (u.partText .search)) (some id)) []
      replace id (.url u (some query))
      return .object query

def viewProperty? (v : View) (name : String) : Option (Sandboxed Value) :=
  match name with
  | "length" | "byteLength" => some (pure (number v.length))
  | "byteOffset" => some (pure (number v.offset))
  | "buffer" => some (pure (.object v.memory))
  | name => (indexOf? name).map fun i => do
      return match ((← session).bytesOf v)[i]? with
        | some b => number b.toNat
        | none => .undefined

def computed? (id : Nat) (object : HostObject) (name : String) : Option (Sandboxed Value) :=
  match object, name with
  | .memory bytes, "byteLength" => some (pure (number bytes.length))
  | .view v, name => viewProperty? v name
  | .encoder, "encoding" | .decoder _, "encoding" | .textStream, "encoding" =>
      some (pure (.text "utf-8"))
  | .decoder d, "pending" => some (pure (.list (d.pending.map fun b => number b.toNat)))
  | .url u query, "searchParams" => some (queryOf id u query)
  | .url u _, name => (u.readings.lookup name).map fun s => pure (.text s)
  | .query q _, "size" => some (pure (number q.pairs.length))
  | .log lines, "length" => some (pure (number lines.length))
  | .log lines, name => (indexOf? name).map fun i => pure (((lines[i]?).map .text).getD .undefined)
  | .stream s, "locked" => some (pure (.bool s.locked))
  | .stream _, "_controller" => some (make (.source id))
  | .source _, "desiredSize" => some (pure (number 1))
  | .kind k, "name" => some (pure (.text k.name))
  | _, _ => none

def read (v : Value) (name : String) : Sandboxed Value := do
  match v with
  | .undefined | .null => throwValue (missingProperty v name)
  | .context context =>
      match name with
      | "_currentValue" => return (← session).contexts.read context
      | "$$typeof" => return .symbol "react.context"
      | "Provider" => return .provider context
      | "Consumer" => return .consumer context
      | name => return inherited name
  | .object id =>
      let s ← session
      match (s.own id).lookup name with
      | some v => return v
      | none => (computed? id (s.object id) name).getD (return inherited name)
  | v => return v.property name

def lengthOf? (v : Value) : Sandboxed (Option Nat) := do
  match ← read v "length" with
  | .number x => return some (((x.truncate?).getD 0).toNat)
  | _ => return none

/-- The items of a list-like value; a value without a length has none. -/
def itemsOf (v : Value) : Sandboxed (List Value) := do
  match v with
  | .list items => return items
  | v =>
      let n := (← lengthOf? v).getD 0
      if Nat.pow 2 32 ≤ n then throwRange "invalid array length"
      (List.range n).mapM fun i => read v (toString i)

def pairValue (p : String × String) : Value := .list [.text p.1, .text p.2]

/-- What a value gives one after the other, if it can be walked over. -/
def walk? (v : Value) : Sandboxed (Option (List Value)) := do
  match v with
  | .list items | .iterator items => return some items
  | .text s => return some (s.toList.map fun c => .text (String.singleton c))
  | .object id =>
      let s ← session
      match s.object id with
      | .view v => return some (s.byteValues v)
      | .query q _ => return some (q.pairs.map pairValue)
      | .headers h => return some (h.entries.map pairValue)
      | .log lines => return some (lines.map .text)
      | _ => return none
  | _ => return none

def fieldsOf (v : Value) : Sandboxed (List (String × Value)) := do
  match v with
  | .object id => return walked ((← session).own id)
  | v => return v.entries

def objectAt? (v : Value) : Sandboxed (Option HostObject) := do
  match v with
  | .object id => return some (← objectOf id)
  | _ => return none

def isOn (options : Value) (name : String) : Sandboxed Bool := do
  if options.isTruthy then return (← read options name).isTruthy else return false

def toNumber (v : Value) : Sandboxed Double := do ofExcept (← plain v).toNumber

def toByte (v : Value) : Sandboxed UInt8 := do ofExcept (← plain v).toByte

/-- The whole part of a number, where infinity lies outside of a length. -/
def toWhole (bound : Nat) (v : Value) : Sandboxed Int := do ofExcept ((← plain v).toWhole bound)

def toPlace (length : Nat) (v : Value) : Sandboxed Nat := do ofExcept ((← plain v).toPlace length)

/-- Where a range ends: at the end, unless a place is given. -/
def toEnd (length : Nat) (v : Value) : Sandboxed Nat := do
  if v.isUndefined then return length else toPlace length v

/-- The text of a value, or some other text for a value that does not count as true. -/
def textOr (default : String) (v : Value) : Sandboxed String := do
  if v.isTruthy then toText v else return default

def isSame (a b : Value) : Bool :=
  match a, b with
  | .undefined, .undefined | .null, .null => true
  | .bool a, .bool b => a == b
  | .number x, .number y => !x.isNaN && (x == y || (x.isZero && y.isZero))
  | .text a, .text b | .symbol a, .symbol b | .context a, .context b => a == b
  | .units a, .units b => a == b
  | .object a, .object b => a == b
  | .function (.doubled a), .function (.doubled b) => a == b
  | .function (.constant a _), .function (.constant b _) => a == b
  | _, _ => false

def apply (v : Value) (args : List Value) : Sandboxed Value := do
  match v with
  | .function (.doubled _) => ofExcept (← plain (argument args 0)).twice
  | .function (.constant _ result) => return Value.ofJson result
  | .function (.noting log line) => note log line *> pure .undefined
  | .function _ => return .undefined
  | _ => throwType "not a function"

end Sandboxed

end JsxPreview.Sandbox
