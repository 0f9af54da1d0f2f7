import JsxPreview.Sandbox.Form

/-! # Answers of steps

What a step gave is answered as JSON.  A value that JSON does not have is answered by an object that
says what it is, and so is an object of the host that has something to show. -/
set_option autoImplicit false
namespace JsxPreview.Sandbox

open JsxPreview.Script

namespace Answer

def mark (name : String) : Value := .record [(name, .number (.ofNat 1))]

def named (name : String) (v : Value) : Value := .record [(name, v)]

def isIterator (fields : List (String × Value)) : Bool :=
  ((fields.lookup "next").getD .undefined).isFunction

def isContext (fields : List (String × Value)) : Bool :=
  match fields.lookup "$$typeof" with
  | some (.symbol "react.context") => true
  | _ => false

mutual

/-- The answer for a value, given those for objects of the host and for contexts. -/
def encode (object : Nat → Value) (context : String → Value) : Value → Value
  | .undefined => mark "undefined"
  | .symbol name => named "symbol" (.text name)
  | .function _ => mark "function"
  | .error name message _ => .record [("thrown", .text name), ("message", .text message)]
  | .list items => .list (encodeItems object context items)
  | .iterator items => named "items" (.list items)
  | .context name => named "context" (context name)
  | .consumer _ => named "context" (mark "undefined")
  | .provider name =>
      .record [("$$typeof", named "symbol" (.text "react.provider")),
        ("_context", named "context" (context name))]
  | .element type key ref props =>
      .record [("$$typeof", named "symbol" (.text "react.element")),
        ("type", if type.isUndefined then .undefined else encode object context type),
        ("key", if key.isUndefined then .undefined else encode object context key),
        ("ref", if ref.isUndefined then .undefined else encode object context ref),
        ("props", .record (encodeFields object context props))]
  | .record fields =>
      let fields' := encodeFields object context fields
      if isIterator fields then named "items" (.list [])
      else if isContext fields then
        named "context" ((fields'.lookup "_currentValue").getD (mark "undefined"))
      else .record fields'
  | .resolved _ | .rejected _ | .unsettled => mark "object"
  | .object id => object id
  | v => v

def encodeItems (object : Nat → Value) (context : String → Value) : List Value → List Value
  | [] => []
  | v :: rest => encode object context v :: encodeItems object context rest

/-- The answers for the fields that are not undefined. -/
def encodeFields (object : Nat → Value) (context : String → Value) :
    List (String × Value) → List (String × Value)
  | [] => []
  | (name, v) :: rest =>
      let rest := encodeFields object context rest
      if v.isUndefined then rest else (name, encode object context v) :: rest

end

def pairs (fields : List (String × String)) : Value :=
  .list (fields.map fun p => .list [.text p.1, .text p.2])

def functions (names : List String) : List (String × Value) := names.map (·, mark "function")

/-- The answer for an object, given those for the values in it. -/
def encodeObject (encode : Value → Value) (s : Session) (id : Nat) : Value :=
  match s.object id with
  | .plain => encode (.record (s.own id))
  | .kind _ => mark "function"
  | .view v => named (if v.isBuffer then "buffer" else "bytes") (.list (s.byteValues v))
  | .url u _ => named "url" (.text u.href)
  | .query q _ => named "params" (pairs q.pairs)
  | .headers h => named "headers" (pairs h.entries)
  | .log lines => .list (lines.map .text)
  | .source _ =>
      .record (functions ["enqueue", "close", "error"] ++ [("desiredSize", .number (.ofNat 1))])
  | .writer _ => .record (functions ["write", "close", "releaseLock"])
  | _ => mark "object"

/-- The answer for a value, where objects and contexts hold others to some depth. -/
def encodeIn (s : Session) : Nat → Value → Value
  | 0, v => encode (fun _ => mark "object") (fun _ => mark "object") v
  | depth + 1, v =>
      encode (encodeObject (encodeIn s depth) s)
        (fun name => encodeIn s depth (s.contexts.read name)) v

end Answer

end JsxPreview.Sandbox
