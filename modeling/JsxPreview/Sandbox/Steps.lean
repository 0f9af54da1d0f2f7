import JsxPreview.Sandbox.Answer
import JsxPreview.Sandbox.Call
import JsxPreview.Sandbox.Property
import JsxPreview.Script.Text
import JsxPreview.Text.Split

/-! # Steps of a script, and the console

## The console

A line of the console has its values one after the other, with a space between two.  Texts are written
as they are, and objects as JSON where they have any, unless they bring a stack with them. -/
set_option autoImplicit false
namespace JsxPreview.Sandbox.Console

open JsxPreview.Preview
open JsxPreview.Script
open JsxPreview.Text
open Sandboxed

def levelOf? : String → Option ConsoleLevel
  | "trace" => some .debug
  | name => ConsoleLevel.ofName? name

/-- The text of a value, or words for a value that has none. -/
def textOf (v : Value) : Sandboxed String := do
  match (← plain v).toText with
  | .ok s => return s
  | .error _ => return "[unprintable value]"

def display (v : Value) : Sandboxed String := do
  match v with
  | .text s => return s
  | .error _ _ _ => textOf v
  | v =>
      if !v.isObject then return ← textOf v
      match ← read v "stack" with
      | .text stack => return (← textOf v) ++ "\n" ++ String.ofList (trimEnd stack.toList)
      | _ =>
          match (← session).json? v with
          | some json => return json
          | none => textOf v

def write (level : ConsoleLevel) (values : List Value) : Sandboxed Unit := do
  let texts ← values.mapM display
  let entry := { level, message := String.intercalate " " texts }
  modify fun s => { s with console := s.console ++ [entry] }

end JsxPreview.Sandbox.Console

namespace JsxPreview.Sandbox

/-! ## Scripts of steps

A script is a list of steps, each a plain object whose fields say what it does: the first kind of step
that has a field counts.  A step may use what earlier steps gave.  What is thrown in a step is its
answer, and the script goes on; waiting for what never comes ends the script. -/

open JsxPreview.Element (Stop missingProperty)
open JsxPreview.Preview
open JsxPreview.Script
open Sandboxed

def result (place : Value) : Sandboxed Value := do
  return (Value.list (← session).results).property (← toText place)

mutual

/-- What a JSON value in a step stands for: an object with one of certain fields stands for something
that JSON does not have. -/
def decode : Json.Value → Sandboxed Value
  | .list items => do return .list (← decodeItems items)
  | .object fields => do
      let field (name : String) : Option Json.Value := fields.lookup name
      if let some place := field "$" then return ← result (.ofJson place)
      if (field "undefined").isSome then return .undefined
      if let some bytes := field "bytes" then
        return ← Bytes.makeView false (← Bytes.bytesFrom (.ofJson bytes))
      if let some bytes := field "arrayBuffer" then
        return ← make (.memory (← Bytes.bytesFrom (.ofJson bytes)))
      if (field "double").isSome then return .function (.doubled (← fresh))
      if let some v := field "constant" then return .function (.constant (← fresh) v)
      return .record ((← decodeFields fields).filter (·.1 != "__proto__"))
  | v => return .ofJson v

def decodeItems : List Json.Value → Sandboxed (List Value)
  | [] => pure []
  | v :: rest => do return (← decode v) :: (← decodeItems rest)

def decodeFields : List (String × Json.Value) → Sandboxed (List (String × Value))
  | [] => pure []
  | (name, v) :: rest => do return (name, ← decode v) :: (← decodeFields rest)

end

/-- What a step works on: something known by name, or what an earlier step gave. -/
def target (on : Value) : Sandboxed Value := do
  match on with
  | .undefined => return .undefined
  | .text name =>
      match (← session).named.lookup name with
      | some id => return .object id
      | none => return inherited name
  | place => result place

def arguments (step : Json.Value) : Sandboxed (List Value) := do
  match step.get? "args" with
  | none => return []
  | some (.list items) => decodeItems items
  | some v => if (Value.ofJson v).isTruthy then throwType "not a function" else return []

/-! ## Kinds of steps -/

def makeStep (kind : Value) (args : List Value) : Sandboxed Value := do
  match ← target (.text (← toText kind)) with
  | .object id =>
      match ← objectOf id with
      | .kind k => construct k args
      | _ => throwType "not a function"
  | _ => throwType "not a function"

def setStep (place on name : Value) (args : List Value) : Sandboxed Value := do
  let after ← assignProperty on (← toText name) (argument args 0)
  match place with
  | .number x =>
      if let some i := x.toInt? then
        if 0 ≤ i then modify fun s => { s with results := s.results.set i.toNat after }
  | _ => pure ()
  return .undefined

/-- What `forEach` hands over: each item with its place, each value with its name. -/
def collect (on : Value) : Sandboxed Value := do
  if on.isNullish then throwValue (missingProperty on "forEach")
  let numbered (items : List Value) : Value :=
    .list (items.mapIdx fun i v => .list [v, number i])
  match on, ← objectAt? on with
  | .list items, _ => return numbered items
  | _, some (.query q _) => return .list (q.pairs.map fun p => pairValue (p.2, p.1))
  | _, some (.headers h) => return .list (h.entries.map fun p => pairValue (p.2, p.1))
  | _, some (.log lines) => return numbered (lines.map .text)
  | _, some (.view v) => return numbered ((← session).byteValues v)
  | _, _ => throwType "not a function"

def streamStep (chunks : List Value) (failure isOpen : Value) : Sandboxed Value := do
  let failure ← if failure.isTruthy then
      pure (some (Value.error "Error" (← toText failure) none))
    else pure none
  Streams.ofChunks chunks failure isOpen.isTruthy

def drain (on : Value) : Sandboxed Value := do
  match on, ← objectAt? on with
  | .object id, some (.stream _) => Streams.drain id
  | on, _ =>
      if on.isNullish then throwValue (missingProperty on "Symbol.asyncIterator")
      match ← walk? on with
      | some items => return .list items
      | none => throwType "not a function"

def listen (on : Value) : Sandboxed Value := do
  match on, ← objectAt? on with
  | .object id, some (.signal _) => Abort.logOf id
  | on, _ =>
      let _ ← assignProperty on "onabort" .undefined
      throwType "not a function"

def consoleStep (method : Value) (args : List Value) : Sandboxed Value := do
  match Console.levelOf? (← toText method) with
  | some level => Console.write level args *> pure .undefined
  | none => throwValue (missingProperty .undefined "apply")

def requireStep (name : Value) : Sandboxed Value := do
  let name ← toText name
  let s ← session
  let exported? := match name with
    | "react" => s.named.lookup "React"
    | "react/jsx-runtime" | "react/jsx-dev-runtime" => s.named.lookup "runtime"
    | _ => none
  match exported? with
  | some id => return .list ((s.own id).map fun f => .text f.1)
  | none => throwValue (Statement.missingModule name)

def awaited (v : Value) : Sandboxed Value := do
  if v.isNullish then return v
  if (← read v "then").isFunction then throw .waiting else return v

def fieldOf (step : Json.Value) (name : String) : Value :=
  (step.get? name).elim .undefined Value.ofJson

/-- What a step has in a field, if that counts. -/
def field? (step : Json.Value) (name : String) : Option Value :=
  some (fieldOf step name) |>.filter Value.isTruthy

def runStep (step : Json.Value) : Sandboxed Value := do
  if let .null := step then throwValue (missingProperty .null "on")
  let place := fieldOf step "on"
  let on ← target place
  let args ← arguments step
  if let some kind := field? step "new" then makeStep kind args
  else if let some name := field? step "call" then call on (← toText name) args
  else if let some name := field? step "get" then get on (← toText name)
  else if let some name := field? step "set" then setStep place on name args
  else if (field? step "collect").isSome then collect on
  else if (field? step "stream").isSome then
    streamStep args (fieldOf step "fail") (fieldOf step "open")
  else if (field? step "drain").isSome then drain on
  else if (field? step "listen").isSome then listen on
  else if let some method := field? step "console" then consoleStep method args
  else if let some name := field? step "require" then requireStep name
  else return .undefined

/-! ## Scripts -/

/-- Adds what a step gave; what is walked over is at its end once it has been answered. -/
def keep (v : Value) : Sandboxed Unit :=
  let left := match v with
    | .iterator _ => .iterator []
    | v => v
  modify fun s => { s with results := s.results ++ [left] }

def answerStep (step : Json.Value) : Sandboxed Value := do
  let outcome ← tryCatch (Except.ok <$> (runStep step >>= awaited)) fun
    | .thrown error => return .error error
    | stop => throw stop
  match outcome with
  | .ok v =>
      keep v
      let s ← session
      return Answer.encodeIn s (s.held.size + s.made + 1) v
  | .error error =>
      keep .undefined
      return .record [("thrown", ← read error "name"), ("message", ← read error "message")]

/-- The steps of a script; what is no list has none that do anything. -/
def stepsOf : Json.Value → Sandboxed (List Json.Value)
  | .null => throwValue (missingProperty .null "length")
  | .list steps => return steps
  | .text s => return (Value.unitTexts s).map .text
  | _ => return []

def answerAll (steps : Json.Value) : Sandboxed String := do
  let answers ← (← stepsOf steps).mapM answerStep
  match (← session).json? (.list answers) with
  | some json => return json
  | none => throwType "circular reference"

def runScript (host : Host) (steps : Json.Value) : Except Stop (String × List ConsoleEntry) :=
  let (answers, s) := (furnish host *> answerAll steps).run {}
  answers.map (·, s.console)

end JsxPreview.Sandbox
