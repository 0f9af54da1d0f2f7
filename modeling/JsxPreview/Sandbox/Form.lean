import JsxPreview.Sandbox.Session
import JsxPreview.Script.Text

/-! # What objects of the host are written as

Where the text of an object of the host is wanted, a value of scripts that has this text stands for the
object, and likewise for JSON.  The objects that such a value holds are replaced in turn. -/
set_option autoImplicit false
namespace JsxPreview.Sandbox

open JsxPreview.Script
open JsxPreview.Text

mutual

/-- A value with something else in place of each object of the host. -/
def expand (form : Nat → Value) : Value → Value
  | .list items => .list (expandItems form items)
  | .record fields => .record (expandFields form fields)
  | .element type key ref props =>
      .element (expand form type) key (expand form ref) (expandFields form props)
  | .object id => form id
  | v => v

def expandItems (form : Nat → Value) : List Value → List Value
  | [] => []
  | v :: rest => expand form v :: expandItems form rest

def expandFields (form : Nat → Value) : List (String × Value) → List (String × Value)
  | [] => []
  | (name, v) :: rest => (name, expand form v) :: expandFields form rest

end

namespace Session

def byteValues (s : Session) (v : View) : List Value :=
  (s.bytesOf v).map fun b => .number (.ofNat b.toNat)

def textForm (s : Session) (id : Nat) : Value :=
  match s.object id with
  | .view v =>
      if v.isBuffer then .text (String.ofList (decodeUtf8 (s.bytesOf v)))
      else .list (s.byteValues v)
  | .memory _ => .text "[object ArrayBuffer]"
  | .url u _ => .text u.href
  | .query q _ => .text q.text
  | .log lines => .list (lines.map .text)
  | .kind k => .function (.method k.name)
  | _ => .object id

def bufferForm (s : Session) (v : View) : Value :=
  .record [("type", .text "Buffer"), ("data", .list (s.byteValues v))]

def streamForm (stream : Stream) : Value :=
  .record [("_queue", .list stream.channel.queue),
    ("_waiting", .list (stream.channel.waiting.map fun _ => .record [])),
    ("_closed", .bool stream.channel.closed),
    ("_error", stream.channel.failure.getD .undefined),
    ("_source", if stream.source.isTruthy then stream.source else .record []),
    ("_controller", .record [("desiredSize", .number (.ofNat 1))])]

def jsonForm (s : Session) (id : Nat) : Value :=
  match s.object id with
  | .view v => if v.isBuffer then s.bufferForm v else .record (Value.numbered (s.byteValues v))
  | .url u _ => .text u.href
  | .log lines => .list (lines.map .text)
  | .kind _ => .undefined
  | .query q url =>
      let pairs := q.pairs.map fun p => Value.list [.text p.1, .text p.2]
      .record [("_pairs", .list pairs), ("_url", (url.map .object).getD .undefined)]
  | .headers _ => .record [("_map", .record [])]
  | .decoder d =>
      let pending := d.pending.map fun b => Value.number (.ofNat b.toNat)
      .record (s.own id ++ [("pending", .list pending)])
  | .signal listeners => .record (s.own id ++ [("_listeners", .list listeners)])
  | .stream stream => streamForm stream
  | _ => .record (s.own id)

/-- What an object is as JSON, with the objects that it holds replaced to some depth. -/
def deepForm (s : Session) : Nat → Nat → Value
  | 0, id => .object id
  | depth + 1, id => expand (s.deepForm depth) (s.jsonForm id)

/-- A value as it is where its text or its number is wanted. -/
def plain (s : Session) (v : Value) : Value := expand s.textForm v

def json? (s : Session) (v : Value) : Option String := (expand (s.deepForm s.held.size) v).json?

end Session

namespace Sandboxed

def plain (v : Value) : Sandboxed Value := do return (← session).plain v

/-- The text of a value where one is needed. -/
def asText (v : Value) : Sandboxed String := do ofExcept (← plain v).asText

/-- The text of a value that is asked for by name. -/
def toText (v : Value) : Sandboxed String := do ofExcept (← plain v).toText

end Sandboxed

end JsxPreview.Sandbox
