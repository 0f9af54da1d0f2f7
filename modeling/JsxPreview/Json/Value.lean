import JsxPreview.Number.Double
import JsxPreview.Text.Printable

/-! # JSON values

Objects keep their fields in the order in which they were written, and may repeat a name; in
`Value.canonical` the names ascend and the last of equal names stands. -/
set_option autoImplicit false
namespace JsxPreview.Json

open JsxPreview.Text

/-- A whole number within sixty-four bits, or a double. -/
inductive Number where
  | whole (n : Int)
  | double (x : Double)
deriving DecidableEq, Repr

inductive Value where
  | null
  | bool (b : Bool)
  | number (n : Number)
  | text (s : String)
  | list (items : List Value)
  | object (fields : List (String × Value))
deriving Inhabited

namespace Number

def toDouble : Number → Double
  | whole n => Double.ofInt n
  | double x => x

def print : Number → String
  | whole n => toString n
  | double x => if x.isFinite then DecimalStyle.json.write x else "null"

end Number

namespace Value

def nat (n : Nat) : Value := number (.whole n)

def int (n : Int) : Value := number (.whole n)

/-- A text, or null when there is none. -/
def optText (s : Option String) : Value := (s.map text).getD null

/-- Adds a field to fields whose names ascend, in place of one of the same name. -/
def insertField (name : String) (v : Value) : List (String × Value) → List (String × Value)
  | [] => [(name, v)]
  | (k, w) :: rest =>
      if name < k then (name, v) :: (k, w) :: rest
      else if name = k then (name, v) :: rest
      else (k, w) :: insertField name v rest

mutual

def size : Value → Nat
  | .list items => sizeItems items + 1
  | .object fields => sizeFields fields + 1
  | _ => 1

def sizeItems : List Value → Nat
  | [] => 0
  | v :: rest => v.size + sizeItems rest

def sizeFields : List (String × Value) → Nat
  | [] => 0
  | (_, v) :: rest => v.size + sizeFields rest

end

mutual

/-- The value with the fields of every object in order. -/
def canonical : Value → Value
  | .list items => .list (canonicalItems items)
  | .object fields => .object (canonicalFields [] fields)
  | .null => .null
  | .bool b => .bool b
  | .number n => .number n
  | .text s => .text s

def canonicalItems : List Value → List Value
  | [] => []
  | v :: rest => v.canonical :: canonicalItems rest

def canonicalFields (done : List (String × Value)) :
    List (String × Value) → List (String × Value)
  | [] => done
  | (name, v) :: rest => canonicalFields (insertField name v.canonical done) rest

end

/-- The fields of an object; nothing else has any. -/
def fields : Value → List (String × Value)
  | .object fields => fields
  | _ => []

def get? (v : Value) (name : String) : Option Value := v.fields.lookup name

def text? : Value → Option String
  | .text s => some s
  | _ => none

def list? : Value → Option (List Value)
  | .list items => some items
  | _ => none

mutual

def print : Value → String
  | .null => "null"
  | .bool b => if b then "true" else "false"
  | .number n => n.print
  | .text s => Quoted.json s
  | .list items => "[" ++ String.intercalate "," (printItems items) ++ "]"
  | .object fields => "\x7b" ++ String.intercalate "," (printFields fields) ++ "\x7d"

def printItems : List Value → List String
  | [] => []
  | v :: rest => v.print :: printItems rest

def printFields : List (String × Value) → List String
  | [] => []
  | (name, v) :: rest => (Quoted.json name ++ ":" ++ v.print) :: printFields rest

end

/-! ## JSON over several lines

Every item and every field stands on a line of its own, two spaces further in than what it is in; empty
lists and objects stay on one line. -/

def newLine (depth : Nat) : String := "\n" ++ String.ofList (List.replicate (2 * depth) ' ')

def enclosed (depth : Nat) (first last : String) (parts : List String) : String :=
  if parts.isEmpty then first ++ last
  else first ++ String.intercalate "," (parts.map (newLine (depth + 1) ++ ·)) ++ newLine depth ++ last

mutual

def indented (depth : Nat) : Value → String
  | .list items => enclosed depth "[" "]" (indentedItems (depth + 1) items)
  | .object fields => enclosed depth "\x7b" "\x7d" (indentedFields (depth + 1) fields)
  | v => v.print

def indentedItems (depth : Nat) : List Value → List String
  | [] => []
  | v :: rest => indented depth v :: indentedItems depth rest

def indentedFields (depth : Nat) : List (String × Value) → List String
  | [] => []
  | (name, v) :: rest =>
      ((Value.text name).print ++ ": " ++ indented depth v) :: indentedFields depth rest

end

end Value

end JsxPreview.Json
