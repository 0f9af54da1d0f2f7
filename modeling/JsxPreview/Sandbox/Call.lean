import JsxPreview.Sandbox.Address
import JsxPreview.Sandbox.Elements
import JsxPreview.Sandbox.Property
import JsxPreview.Sandbox.Streams

/-! # What a script can make and call

## The process that a script sees

A script sees a process of its own: its environment is a copy, it has a fixed version and number, and it
cannot be left. -/
set_option autoImplicit false
namespace JsxPreview.Sandbox

open JsxPreview.Script
open Sandboxed

structure Host where
  file : String
  directory : String
  environment : List (String × String) := []

namespace Process

def exit : Method := fun args => do
  let code := argument args 0
  let code ← if code.isUndefined then pure "0" else asText code
  throwValue (.error "Error" ("process.exit(" ++ code ++ ") is not available in a template") none)

def method? (id : Nat) : String → Option Method
  | "cwd" => some fun _ => do return .text (← session).directory
  | "on" => some fun _ => pure (.object id)
  | "exit" => some exit
  | "nextTick" | "emitWarning" => some fun _ => pure .undefined
  | _ => none

def fields (host : Host) (environment : Value) : List (String × Value) :=
  [("env", environment), ("argv", .list [.text "node", .text host.file]),
    ("platform", .text "linux"), ("arch", .text "x64"), ("version", .text "v20.0.0"),
    ("versions", .record [("node", .text "20.0.0")]),
    ("release", .record [("name", .text "node")]), ("pid", number 1)] ++
  Elements.functions ["cwd", "nextTick"] ++
  [("hrtime", .record (Elements.functions ["bigint"]))] ++
  Elements.functions ["emitWarning", "on", "exit"]

end Process

def furnish (host : Host) : Sandboxed Unit := do
  let kinds ← Kind.all.mapM fun k => do return (k.name, ← create (.kind k) [])
  let children ← create .plain Elements.childrenFields
  let elements ← create .plain (Elements.elementFields (.object children))
  let jsx ← create .plain Elements.jsxFields
  let environment ← create .plain (host.environment.map fun f => (f.1, .text f.2))
  let process ← create .plain (Process.fields host (.object environment))
  modify fun s => { s with
    directory := host.directory
    named := kinds ++ [("React", elements), ("Children", children), ("runtime", jsx),
      ("process", process)] }

end JsxPreview.Sandbox

namespace JsxPreview.Sandbox.Abort

/-! ## Aborting

A controller aborts its signal, once and for all.  The signal keeps the reason, and calls first what it
has as `onabort` and then its listeners, in order. -/

open JsxPreview.Script
open Sandboxed

def makeController : Method := fun _ => do
  let signal ← create (.signal [])
    [("aborted", .bool false), ("reason", .undefined), ("onabort", .null)]
  return .object (← create .controller [("signal", .object signal)])

def aborted : Value := .error "AbortError" "This operation was aborted" none

def abort (id : Nat) (listeners : List Value) (reason : Value) : Sandboxed Unit := do
  if (← ownProperty id "aborted").isTruthy then return
  setOwn id "aborted" (.bool true)
  setOwn id "reason" (if reason.isUndefined then aborted else reason)
  let event := Value.record [("type", .text "abort"), ("target", .object id)]
  let handler ← ownProperty id "onabort"
  if handler.isFunction then
    let _ ← apply handler [event]
  for listener in listeners do
    let _ ← apply listener [event]

def controllerMethod? (id : Nat) : String → Option Method
  | "abort" => some fun args => do
      let signal ← read (.object id) "signal"
      match signal, ← objectAt? signal with
      | .object signal, some (.signal listeners) => abort signal listeners (argument args 0)
      | signal, _ =>
          let _ ← read signal "_abort"
          throwType "not a function"
      return .undefined
  | _ => none

/-- Adds a listener for an event; a signal knows only one event. -/
def listen (id : Nat) (event listener : Value) : Sandboxed Unit := do
  match event, ← objectOf id with
  | .text "abort", .signal listeners => replace id (.signal (listeners ++ [listener]))
  | _, _ => pure ()

def signalMethod? (id : Nat) (listeners : List Value) : String → Option Method
  | "addEventListener" => some fun args => do
      listen id (argument args 0) (argument args 1)
      return .undefined
  | "removeEventListener" => some fun args => do
      replace id (.signal (listeners.filter fun l => !isSame l (argument args 1)))
      return .undefined
  | "throwIfAborted" => some fun _ => do
      if (← ownProperty id "aborted").isTruthy then throwValue (← ownProperty id "reason")
      return .undefined
  | _ => none

def logOf (id : Nat) : Sandboxed Value := do
  let log ← create (.log []) []
  setOwn id "onabort" (.function (.noting log "onabort abort"))
  listen id (.text "abort") (.function (.noting log "listener true"))
  return .object log

end JsxPreview.Sandbox.Abort

namespace JsxPreview.Sandbox.Sandboxed

/-! ## Making and using objects by name

What is called by a name is looked for among an object's own properties, then among what its kind can
do, and last among what every object can do. -/

open JsxPreview.Element (missingProperty)
open JsxPreview.Script

def construct (k : Kind) : Method :=
  match k with
  | .buffer => Bytes.construct true
  | .bytes => Bytes.construct false
  | .encoder => fun _ => make .encoder
  | .decoder => TextCodec.makeDecoder
  | .url => Address.construct
  | .query => Pairs.makeQuery
  | .headers => Pairs.makeHeaders
  | .controller => Abort.makeController
  | .stream => Streams.makeStream
  | .encoderStream => Streams.makeEncoderStream
  | .decoderStream => Streams.makeDecoderStream

def kindMethod? : Kind → String → Option Method
  | .buffer => Bytes.bufferMethod?
  | .bytes => Bytes.bytesMethod?
  | .url => Address.kindMethod?
  | _ => fun _ => none

def objectMethod? (id : Nat) (object : HostObject) (name : String) : Option Method :=
  match object with
  | .kind k => kindMethod? k name
  | .view v => Bytes.viewMethod? id v name
  | .encoder => TextCodec.encoderMethod? name
  | .decoder d => TextCodec.decoderMethod? id d name
  | .url u _ => Address.method? u name
  | .query q url => Pairs.queryMethod? id q url name
  | .headers h => Pairs.headersMethod? id h name
  | .controller => Abort.controllerMethod? id name
  | .signal listeners => Abort.signalMethod? id listeners name
  | .stream _ => Streams.streamMethod? id name
  | .reader stream => Streams.readerMethod? stream name
  | .source stream => Streams.sourceMethod? stream name
  | .writable _ => Streams.writableMethod? id name
  | .writer writable => Streams.writerMethod? writable name
  | .plain | .memory _ | .log _ | .textStream => none

def listMethod? (items : List Value) : String → Option Method
  | "slice" => some fun args => do
      let first ← toPlace items.length (argument args 0)
      let last ← toEnd items.length (argument args 1)
      return .list ((items.take last).drop first)
  | "indexOf" => some fun args => pure <| .number <|
      match items.findIdx? (isSame (argument args 0)) with
      | some i => .ofNat i
      | none => .ofInt (-1)
  | "includes" => some fun args => pure (.bool (items.any (isSame (argument args 0))))
  | "concat" => some fun args => pure <| .list <| items ++ args.flatMap fun
      | .list more => more
      | v => [v]
  | "at" => some fun args => do
      let n ← toWhole items.length (argument args 0)
      let place := if n < 0 then n + items.length else n
      return if place < 0 then .undefined else items.getD place.toNat .undefined
  | "join" => some fun args => do
      let separator := argument args 0
      let separator ← if separator.isUndefined then pure "," else toText separator
      let texts ← items.mapM fun v => if v.isNullish then pure "" else asText v
      return .text (String.intercalate separator texts)
  | "map" => some fun args => do
      let f := argument args 0
      if !f.isFunction then throwType "not a function"
      return .list (← items.zipIdx.mapM fun p => apply f [p.1, number p.2, .list items])
  | "forEach" => some fun args => do
      let f := argument args 0
      if !f.isFunction then throwType "not a function"
      for p in items.zipIdx do
        let _ ← apply f [p.1, number p.2, .list items]
      return .undefined
  | "keys" => some fun _ => pure (.iterator ((List.range items.length).map number))
  | "values" => some fun _ => pure (.iterator items)
  | "entries" => some fun _ =>
      pure (.iterator (items.zipIdx.map fun p => .list [number p.2, p.1]))
  | _ => none

/-- What is called by name on a value, apart from its own properties. -/
def method? (v : Value) (name : String) : Sandboxed (Option Method) := do
  match v with
  | .object id =>
      match ← objectOf id with
      | .log lines => return listMethod? (lines.map .text) name
      | object => return objectMethod? id object name
  | .list items => return listMethod? items name
  | .iterator items =>
      return match name, items with
        | "next", v :: _ => some fun _ => pure (Streams.readResult v false)
        | "next", [] => some fun _ => pure (Streams.readResult .undefined true)
        | _, _ => none
  | _ => return none

def commonMethod? (v : Value) : String → Option Method
  | "toString" | "toLocaleString" => some fun _ => do return .text (← toText v)
  | "valueOf" => some fun _ => pure v
  | "hasOwnProperty" => some fun args => do
      let name ← toText (argument args 0)
      return .bool ((← fieldsOf v).any (·.1 == name))
  | _ => none

def ownMethod? (v : Value) (name : String) : Option Method :=
  Elements.childrenMethod? name <|> Elements.jsxMethod? name <|> Elements.elementMethod? name <|>
    match v with
    | .object id => Process.method? id name
    | _ => none

def callProperty (v f : Value) (args : List Value) : Sandboxed Value := do
  match f with
  | .undefined | .null => throwValue (missingProperty f "apply")
  | .function (.method name) =>
      match ownMethod? v name <|> commonMethod? v name with
      | some m => m args
      | none => return .undefined
  | f => apply f args

def call (v : Value) (name : String) (args : List Value) : Sandboxed Value := do
  let own ← match v with
    | .object id => ownProperty id name
    | _ => pure .undefined
  if !own.isUndefined then return ← callProperty v own args
  match ← method? v name with
  | some m => m args
  | none => callProperty v (← read v name) args

/-- What a value has under a name, methods included. -/
def get (v : Value) (name : String) : Sandboxed Value := do
  let found ← read v name
  if found.isUndefined && (← method? v name).isSome then return .function (.method name)
  else return found

/-- Sets an item of a list, at the end at most. -/
def setItem (items : List Value) (name : String) (v : Value) : List Value :=
  match indexOf? name with
  | some i => if i = items.length then items ++ [v] else items.set i v
  | none => items

def setOnObject (id : Nat) (name : String) (v : Value) : Sandboxed Unit := do
  let object ← objectOf id
  let other : Sandboxed Unit :=
    if (computed? id object name).isSome then pure () else setOwn id name v
  match object with
  | .url u query => (Address.set? id u query name).elim other (· v)
  | .view view =>
      match indexOf? name with
      | some i => do Bytes.store view i [← toByte v]
      | none => other
  | _ => other

/-- Sets what a value has under a name, and gives the value as it is then: only objects of the host and
contexts stay what they are. -/
def assignProperty (target : Value) (name : String) (v : Value) : Sandboxed Value := do
  match target with
  | .undefined => throwType ("cannot set property '" ++ name ++ "' of undefined")
  | .null => throwType ("cannot set property '" ++ name ++ "' of null")
  | .object id => setOnObject id name v *> pure target
  | .context context =>
      if name = "_currentValue" then
        modify fun s => { s with contexts := s.contexts.write context v }
      return target
  | .record fields => return .record (assign name v fields)
  | .list items => return .list (setItem items name v)
  | target => return target

end JsxPreview.Sandbox.Sandboxed
