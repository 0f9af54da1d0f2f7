import JsxPreview.Codec.StreamDecoder
import JsxPreview.Element.Render
import JsxPreview.Preview.Payload
import JsxPreview.Text.Lines
import JsxPreview.Text.Lowercase
import JsxPreview.Url.Basic
import JsxPreview.Url.Form

/-! # Sessions of the sandbox

What a script finds around it: headers, channels of chunks, and the session with its objects.

## Headers

Headers are known by names in lower case, one value a name; what is appended to a value follows a
comma.  They are walked over in the order of their names. -/
set_option autoImplicit false
namespace JsxPreview.Sandbox

open JsxPreview.Text

structure Headers where
  fields : List (String × String) := []
deriving DecidableEq, Repr

namespace Headers

def get? (h : Headers) (name : String) : Option String := h.fields.lookup (lower name)

def set (h : Headers) (name value : String) : Headers :=
  let key := lower name
  if h.fields.any (·.1 == key) then
    ⟨h.fields.map fun f => if f.1 == key then (key, value) else f⟩
  else ⟨h.fields ++ [(key, value)]⟩

def append (h : Headers) (name value : String) : Headers :=
  match h.get? name with
  | some before => h.set name (before ++ ", " ++ value)
  | none => h.set name value

def delete (h : Headers) (name : String) : Headers := ⟨h.fields.filter (·.1 != lower name)⟩

def entries (h : Headers) : List (String × String) :=
  h.fields.mergeSort fun a b => comesBefore a.1 b.1

end Headers

/-! ## Channels of chunks

A channel holds chunks until they are read, and readers until there is a chunk for them: never both.
A chunk goes to the reader that waits longest.  Closing a channel ends all waiting, and nothing can be
put into it afterwards; what it still holds can be read.  A channel that failed gives out what it holds
and then its failure. -/

structure Channel (Chunk Failure Reader : Type) where
  queue : List Chunk := []
  waiting : List Reader := []
  closed : Bool := false
  failure : Option Failure := none
deriving Inhabited

inductive ReadOutcome (Chunk Failure : Type) where
  | chunk (c : Chunk)
  | failed (f : Failure)
  | done
  | waits

namespace Channel

variable {Chunk Failure Reader : Type}

def read (ch : Channel Chunk Failure Reader) (reader : Reader) :
    ReadOutcome Chunk Failure × Channel Chunk Failure Reader :=
  match ch.queue, ch.failure with
  | c :: rest, _ => (.chunk c, { ch with queue := rest })
  | [], some f => (.failed f, ch)
  | [], none =>
      if ch.closed then (.done, ch)
      else (.waits, { ch with waiting := ch.waiting ++ [reader] })

/-- Puts a chunk in, and tells who gets it at once; nothing if the channel is closed. -/
def put? (ch : Channel Chunk Failure Reader) (c : Chunk) :
    Option (Option Reader × Channel Chunk Failure Reader) :=
  if ch.closed then none
  else match ch.waiting with
    | reader :: rest => some (some reader, { ch with waiting := rest })
    | [] => some (none, { ch with queue := ch.queue ++ [c] })

/-- Closes the channel, and tells whose waiting ends. -/
def close (ch : Channel Chunk Failure Reader) : List Reader × Channel Chunk Failure Reader :=
  (ch.waiting, { ch with closed := true, waiting := [] })

def fail (ch : Channel Chunk Failure Reader) (f : Failure) :
    List Reader × Channel Chunk Failure Reader :=
  (ch.waiting, { ch with failure := some f, waiting := [] })

def clear (ch : Channel Chunk Failure Reader) : Channel Chunk Failure Reader :=
  { ch with queue := [] }

end Channel

/-! ## Sessions

A session is what a script that runs in the sandbox has around it: objects of the host, which are known
by number and are never forgotten, the current values of contexts, and the console.  Objects have
properties of their own beside what their kind gives them.  An action may stop, and what it did to the
session before stays done. -/

open JsxPreview.Codec
open JsxPreview.Element
open JsxPreview.Preview
open JsxPreview.Script

inductive Kind where
  | buffer
  | bytes
  | encoder
  | decoder
  | url
  | query
  | headers
  | controller
  | stream
  | encoderStream
  | decoderStream
deriving DecidableEq, Repr

namespace Kind

def all : List Kind :=
  [buffer, bytes, encoder, decoder, url, query, headers, controller, stream, encoderStream,
    decoderStream]

def name : Kind → String
  | buffer => "Buffer"
  | bytes => "Uint8Array"
  | encoder => "TextEncoder"
  | decoder => "TextDecoder"
  | url => "URL"
  | query => "URLSearchParams"
  | headers => "Headers"
  | controller => "AbortController"
  | stream => "ReadableStream"
  | encoderStream => "TextEncoderStream"
  | decoderStream => "TextDecoderStream"

end Kind

structure View where
  memory : Nat
  offset : Nat
  length : Nat
  /-- Whether the view is a buffer, which knows encodings. -/
  isBuffer : Bool
deriving DecidableEq, Repr

/-- A stream of chunks.  Who waits for a chunk is a pipe, known by what it writes into. -/
structure Stream where
  channel : Channel Value Value Nat := {}
  locked : Bool := false
  source : Value := .undefined

/-- What texts or bytes are written into, to come out of a stream as bytes or texts. -/
structure Writable where
  readable : Nat
  /-- What bytes are decoded with; texts are encoded. -/
  decoder : Option StreamDecoder
  closed : Bool := false

inductive HostObject where
  | plain
  | kind (k : Kind)
  | memory (bytes : List UInt8)
  | view (v : View)
  | encoder
  | decoder (d : StreamDecoder)
  /-- A URL, and its query once somebody has asked for it. -/
  | url (u : Url) (query : Option Nat)
  | query (q : Url.Query) (url : Option Nat)
  | headers (h : Headers)
  | controller
  | signal (listeners : List Value)
  | log (lines : List String)
  | stream (s : Stream)
  | reader (stream : Nat)
  /-- What puts chunks into a stream. -/
  | source (stream : Nat)
  | writable (w : Writable)
  | writer (writable : Nat)
  | textStream

structure Held where
  object : HostObject
  own : List (String × Value) := []

structure Session where
  directory : String := ""
  held : Array Held := #[]
  named : List (String × Nat) := []
  contexts : Contexts := .initial
  /-- How many functions and contexts were made. -/
  made : Nat := 0
  idsGiven : Nat := 0
  results : List Value := []
  console : List ConsoleEntry := []

namespace Session

def object (s : Session) (id : Nat) : HostObject := ((s.held[id]?).map (·.object)).getD .plain

def own (s : Session) (id : Nat) : List (String × Value) :=
  ((s.held[id]?).map (·.own)).getD []

def bytesOf (s : Session) (v : View) : List UInt8 :=
  match s.object v.memory with
  | .memory bytes => (bytes.drop v.offset).take v.length
  | _ => []

end Session

abbrev Sandboxed := ExceptT Stop (StateM Session)

namespace Sandboxed

def session : Sandboxed Session := getThe Session

def throwValue {α : Type} (error : Value) : Sandboxed α := throw (.thrown error)

def throwType {α : Type} (message : String) : Sandboxed α := throwValue (Value.typeError message)

def throwRange {α : Type} (message : String) : Sandboxed α :=
  throwValue (.error "RangeError" message none)

def ofExcept {α : Type} : Except Value α → Sandboxed α
  | .ok a => pure a
  | .error e => throwValue e

def create (object : HostObject) (own : List (String × Value)) : Sandboxed Nat := do
  let s ← session
  set { s with held := s.held.push ⟨object, own⟩ }
  return s.held.size

def make (object : HostObject) : Sandboxed Value := do return .object (← create object [])

def replace (id : Nat) (object : HostObject) : Sandboxed Unit :=
  modify fun s => { s with held := s.held.modify id ({ · with object }) }

def setOwn (id : Nat) (name : String) (v : Value) : Sandboxed Unit :=
  modify fun s =>
    { s with held := s.held.modify id fun h => { h with own := assign name v h.own } }

def objectOf (id : Nat) : Sandboxed HostObject := do return (← session).object id

def ownProperty (id : Nat) (name : String) : Sandboxed Value := do
  return (((← session).own id).lookup name).getD .undefined

/-- A number that no function or context has yet. -/
def fresh : Sandboxed Nat := do
  let s ← session
  set { s with made := s.made + 1 }
  return s.made

def note (log : Nat) (line : String) : Sandboxed Unit := do
  match ← objectOf log with
  | .log lines => replace log (.log (lines ++ [line]))
  | _ => pure ()

end Sandboxed

/-- What an object does when it is called by a name. -/
abbrev Method := List Value → Sandboxed Value

/-- The argument at a place; there is always one. -/
def argument (args : List Value) (i : Nat) : Value := args.getD i .undefined

end JsxPreview.Sandbox
