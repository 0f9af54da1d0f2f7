import JsxPreview.Number.Double
import JsxPreview.Script.Value
import JsxPreview.Text.Printable

/-! # Values as text

`Value.asText` is the text of a value where a script needs one, `Value.toText` the text it asks for by
name: only the second knows symbols.  A surrogate that stands alone is written as the replacement
character.  A list is written as its items with commas between them, where
nothing stands for an item that is missing.  Objects have no text of their own, but may bring a method
for it. -/
set_option autoImplicit false
namespace JsxPreview.Script

open JsxPreview.Text

namespace Function

def source : Function → String
  | .nothing | .named _ _ => "function () \x7b\x7d"
  | .bracketed => "(v) => \"[\" + v + \"]\""
  | .doubled _ => "function (x) \x7b return x + x; \x7d"
  | .constant _ _ => "function () \x7b return v.constant; \x7d"
  | .component _ => "() => build(t.fn)"
  | .noting _ line => "function (e) \x7b log.push(\"" ++ line ++ "\"); \x7d"
  | .method name => "function " ++ name ++ "() \x7b\n    [native code]\n\x7d"

/-- The text of what a function gives for no argument, unless that is an object. -/
def plainResult? : Function → Option String
  | .bracketed => some "[undefined]"
  | .doubled _ => some "NaN"
  | .constant _ (.list _) | .constant _ (.object _) => none
  | .constant _ (.text s) => some s
  | .constant _ (.number n) => some n.toDouble.toText
  | .constant _ v => some v.print
  | _ => some "undefined"

end Function

namespace Value

def recordText (fields : List (String × Value)) : Except Value String :=
  let called (name : String) : Option String :=
    match fields.lookup name with
    | some (.function f) => f.plainResult?
    | _ => none
  if (fields.lookup "toString").isNone then .ok "[object Object]"
  else match called "toString" <|> called "valueOf" with
    | some s => .ok s
    | none => .error (typeError "toPrimitive")

mutual

def asText : Value → Except Value String
  | .undefined => .ok "undefined"
  | .null => .ok "null"
  | .bool b => .ok (if b then "true" else "false")
  | .number x => .ok x.toText
  | .text s => .ok s
  | .units u => .ok (String.ofList (ofUnits u))
  | .symbol _ => .error (typeError "cannot convert symbol to string")
  | .list items => (String.intercalate ",") <$> itemTexts items
  | .record fields => recordText fields
  | .error name message _ =>
      .ok (if name = "" then message else if message = "" then name else name ++ ": " ++ message)
  | .function f => .ok f.source
  | .resolved _ | .rejected _ | .unsettled => .ok "[object Promise]"
  | .iterator _ => .ok "[object Array Iterator]"
  | .element _ _ _ _ | .context _ | .provider _ | .consumer _ | .object _ => .ok "[object Object]"

def itemTexts : List Value → Except Value (List String)
  | [] => .ok []
  | v :: rest => do
      let s ← match v with
        | .undefined | .null => pure ""
        | v => asText v
      return s :: (← itemTexts rest)

end

def toText : Value → Except Value String
  | .symbol name => .ok ("Symbol(" ++ name ++ ")")
  | v => v.asText

end Value

end JsxPreview.Script

namespace JsxPreview.Script.Value

/-! ## Values written as JSON

What JSON cannot say is left out of objects and is null in lists.  A context refers to itself, so that
nothing that holds one can be written. -/

open JsxPreview.Text

/-- What is written for a value: nothing at all, or no text for a value that JSON does not have. -/
abbrev Written := Option (Option String)

mutual

def stringify? : Value → Written
  | .undefined | .symbol _ | .function _ => some none
  | .null => some "null"
  | .bool b => some (if b then "true" else "false")
  | .number x => some (if x.isFinite then x.toText else "null")
  | .text s => some (Quoted.json s)
  | .units u => some (Quoted.json (String.ofList (ofUnits u)))
  | .list items => do return "[" ++ String.intercalate "," (← writtenItems items) ++ "]"
  | .record fields => do
      let written ← writtenFields fields
      return "\x7b" ++ String.intercalate "," ((walked written).map (·.2)) ++ "\x7d"
  | .element type key ref props => do
      let written ← writtenFields props
      let props := "\x7b" ++ String.intercalate "," ((walked written).map (·.2)) ++ "\x7d"
      let field (name : String) (v : Option String) : List String :=
        v.toList.map fun s => Quoted.json name ++ ":" ++ s
      let fields := field "type" (← stringify? type) ++ field "key" (← stringify? key) ++
        field "ref" (← stringify? ref) ++ field "props" (some props)
      return "\x7b" ++ String.intercalate "," fields ++ "\x7d"
  | .error _ _ _ | .resolved _ | .rejected _ | .unsettled | .iterator _ | .object _ => some "\x7b\x7d"
  | .context _ | .provider _ | .consumer _ => none

def writtenItems : List Value → Option (List String)
  | [] => some []
  | v :: rest => do
      let s ← stringify? v
      return s.getD "null" :: (← writtenItems rest)

def writtenFields : List (String × Value) → Option (List (String × String))
  | [] => some []
  | (name, v) :: rest => do
      let s ← stringify? v
      let rest ← writtenFields rest
      match s with
      | some s => return (name, Quoted.json name ++ ":" ++ s) :: rest
      | none => return rest

end

def json? (v : Value) : Option String := v.stringify?.join

end JsxPreview.Script.Value

/-! ## What a script exports

A bundle is run once, as a list of statements that set its exports; one that throws, or requires what is
not there, ends the run.  Of the exports two count: the component, and the function that renders it. -/
namespace JsxPreview.Script

inductive Statement where
  | setExport (name : String) (v : Value)
  | setExports (v : Value)
  | require (module : String)
  | throw (v : Value)

namespace Statement

/-- The exports in front of the first statement. -/
def noExports : Value := .record [("default", .undefined), ("renderAsync", .undefined)]

def missingModule (name : String) : Value :=
  .error "Error" ("Cannot find module '" ++ name ++ "'") none

def run (hosts : List String) (exports : Value) : Statement → Except Value Value
  | setExport name v =>
      match exports with
      | .record fields => .ok (.record (assign name v fields))
      | exports => .ok exports
  | setExports v => .ok v
  | require name => if hosts.contains name then .ok exports else .error (missingModule name)
  | throw v => .error v

def runAll (hosts : List String) (statements : List Statement) : Except Value Value :=
  statements.foldlM (run hosts) noExports

end Statement

def componentOf (exports : Value) : Value := exports.property "default"

def renderFunctionOf (exports : Value) : Value := exports.property "renderAsync"

/-- Whether a component goes by a name: names that the bundle makes up do not count. -/
def isOwnName (name : String) : Bool :=
  !(name.isEmpty || "__preview_".toList.isPrefixOf name.toList)

/-- The name of a component; that for display comes first. -/
def nameOf? : Value → Option String
  | .function (.named name displayName) => some (displayName.getD name) |>.filter isOwnName
  | _ => none

end JsxPreview.Script
