import JsxPreview.Sandbox.TextCodec

/-! # Streams

A stream is a channel that one reader at a time holds.  Texts and bytes are written into a writable, and
what becomes of them comes out of a stream.  A pipe reads a stream as long as there is anything and
writes it into a writable; where there is nothing it waits.  Whatever is put into a stream is carried
through all pipes at once (`settle`), so that nobody but pipes ever waits: any other reader without a
chunk would wait for ever.  A pipe ends without a word where writing fails or its stream does. -/
set_option autoImplicit false
namespace JsxPreview.Sandbox.Streams

open JsxPreview.Codec
open JsxPreview.Element (missingProperty Stop)
open JsxPreview.Script
open Sandboxed

def streamOf (id : Nat) : Sandboxed Stream := do
  match ← objectOf id with
  | .stream s => return s
  | _ => return {}

inductive PipeStep where
  | read (stream writable : Nat)
  | carry (stream writable : Nat) (chunk : Value)
  | finish (writable : Nat)

/-- Puts a chunk into a stream, for a pipe that waits to carry it on. -/
def enqueue (id : Nat) (chunk : Value) : Sandboxed (List PipeStep) := do
  let s ← streamOf id
  match s.channel.put? chunk with
  | none => throwType "Cannot enqueue a chunk into a closed stream"
  | some (reader, channel) =>
      replace id (.stream { s with channel })
      return reader.toList.map (.carry id · chunk)

def close (id : Nat) : Sandboxed (List PipeStep) := do
  let s ← streamOf id
  let (readers, channel) := s.channel.close
  replace id (.stream { s with channel })
  return readers.map .finish

/-- Ends a stream with an error; no value at all is no error. -/
def fail (id : Nat) (error : Value) : Sandboxed Unit := do
  let s ← streamOf id
  let (_, channel) := s.channel.fail error
  let failure := if error.isUndefined then none else channel.failure
  replace id (.stream { s with channel := { channel with failure } })

def readFor (id reader : Nat) : Sandboxed (ReadOutcome Value Value) := do
  let s ← streamOf id
  let (outcome, channel) := s.channel.read reader
  replace id (.stream { s with channel })
  return outcome

def enqueueText (id : Nat) (text : List Char) : Sandboxed (List PipeStep) :=
  if text.isEmpty then return [] else enqueue id (.text (String.ofList text))

def writeChunk (id : Nat) (chunk : Value) : Sandboxed (List PipeStep) := do
  match ← objectOf id with
  | .writable w =>
      if w.closed then throwType "The stream is closed"
      match w.decoder with
      | none =>
          let bytes ← TextCodec.utf8Of chunk
          if bytes.isEmpty then return []
          enqueue w.readable (← Bytes.makeView false bytes)
      | some d =>
          let (text, d) := d.decode (← TextCodec.inputBytes chunk) true
          replace id (.writable { w with decoder := some d })
          enqueueText w.readable text
  | _ => return []

/-- Closes a writable: what a decoder holds back comes out, and the stream ends. -/
def finishWriting (id : Nat) : Sandboxed (List PipeStep) := do
  match ← objectOf id with
  | .writable w =>
      let (text, decoder) := match w.decoder with
        | some d =>
            let (text, d) := d.decode [] false
            (text, some d)
        | none => ([], none)
      replace id (.writable { w with decoder, closed := true })
      let steps ← enqueueText w.readable text
      return steps ++ (← close w.readable)
  | _ => return []

def PipeStep.run : PipeStep → Sandboxed (List PipeStep)
  | read stream writable => do
      match ← readFor stream writable with
      | .chunk c => return [.carry stream writable c]
      | .done => return [.finish writable]
      | .failed _ | .waits => return []
  | carry stream writable chunk => do
      return (← writeChunk writable chunk) ++ [.read stream writable]
  | finish writable => finishWriting writable

/-- What is next after a step, which is nothing if the step throws. -/
def PipeStep.attempt (step : PipeStep) : Sandboxed (List PipeStep) :=
  tryCatch step.run fun
    | .thrown _ => return []
    | stop => throw stop

def runPipes : Nat → List PipeStep → Sandboxed Unit
  | _, [] => pure ()
  | 0, _ => throw .endless
  | n + 1, step :: rest => do runPipes n ((← step.attempt) ++ rest)

def chunksIn : HostObject → List Value
  | .stream s => s.channel.queue
  | _ => []

/-- Carries on until all pipes wait or have ended.  Each chunk goes through each pipe once, unless a
pipe runs in a circle. -/
def settle (steps : List PipeStep) : Sandboxed Unit := do
  let held := (← session).held
  let chunks := (held.toList.flatMap fun h => chunksIn h.object).length
  runPipes (4 * (chunks + held.size + steps.length + 1) * (held.size + 1)) steps

/-! ## Making streams -/

/-- Makes a stream, and starts what it is made from if that can be started. -/
def makeStream : Method := fun args => do
  let source := argument args 0
  let id ← create (.stream { source }) []
  if source.isTruthy then
    let start ← read source "start"
    if start.isFunction then
      let _ ← apply start [← make (.source id)]
  return .object id

/-- A stream of chunks that are there from the start, and how it goes on after them. -/
def ofChunks (chunks : List Value) (failure : Option Value) (isOpen : Bool) : Sandboxed Value := do
  let channel : Channel Value Value Nat :=
    { queue := chunks, failure, closed := failure.isNone && !isOpen }
  make (.stream { channel })

/-- Makes a writable together with the stream that what is written comes out of. -/
def makePair (decoder : Option StreamDecoder) : Sandboxed Value := do
  let readable ← create (.stream {}) []
  let writable ← create (.writable { readable, decoder }) []
  return .object (← create .textStream
    [("readable", .object readable), ("writable", .object writable)])

def makeEncoderStream : Method := fun _ => makePair none

def makeDecoderStream : Method := fun args => do
  TextCodec.checkLabel (argument args 0)
  makePair (some { keepsMark := ← isOn (argument args 1) "ignoreBOM" })

/-! ## Using streams -/

def lock (id : Nat) : Sandboxed Unit := do
  let s ← streamOf id
  if s.locked then throwType "ReadableStream is locked"
  replace id (.stream { s with locked := true })

def release (id : Nat) : Sandboxed Unit := do
  replace id (.stream { ← streamOf id with locked := false })

/-- Drops what a stream holds and closes it, and lets what it was made from know. -/
def cancel (id : Nat) (reason : Value) : Sandboxed Value := do
  let s ← streamOf id
  replace id (.stream { s with channel := s.channel.clear })
  settle (← close id)
  if !s.source.isTruthy then return .undefined
  let handler ← read s.source "cancel"
  if handler.isFunction then apply handler [reason] else return .undefined

def pipeThrough (id : Nat) : Method := fun args => do
  let transform := argument args 0
  let writable ← read transform "writable"
  if writable.isNullish then throwValue (missingProperty writable "getWriter")
  match writable, ← objectAt? writable with
  | .object w, some (.writable _) => do
      lock id
      settle [.read id w]
  | _, _ => throwType "not a function"
  read transform "readable"

def readResult (v : Value) (isDone : Bool) : Value :=
  .record [("value", v), ("done", .bool isDone)]

def readNow (id : Nat) : Sandboxed Value := do
  match ← readFor id id with
  | .chunk c => return readResult c false
  | .done => return readResult .undefined true
  | .failed error => throwValue error
  | .waits => throw .waiting

def drain (id : Nat) : Sandboxed Value := do
  lock id
  let s ← streamOf id
  replace id (.stream { s with channel := s.channel.clear })
  release id
  let _ ← readNow id
  return .list s.channel.queue

def streamMethod? (id : Nat) : String → Option Method
  | "getReader" => some fun _ => do
      lock id
      make (.reader id)
  | "cancel" => some fun args => cancel id (argument args 0)
  | "pipeThrough" => some (pipeThrough id)
  | _ => none

def readerMethod? (id : Nat) : String → Option Method
  | "read" => some fun _ => readNow id
  | "releaseLock" => some fun _ => release id *> pure .undefined
  | "cancel" => some fun args => cancel id (argument args 0)
  | _ => none

def sourceMethod? (id : Nat) : String → Option Method
  | "enqueue" => some fun args => do
      settle (← enqueue id (argument args 0))
      return .undefined
  | "close" => some fun _ => do
      settle (← close id)
      return .undefined
  | "error" => some fun args => do
      fail id (argument args 0)
      return .undefined
  | _ => none

def writableMethod? (id : Nat) : String → Option Method
  | "getWriter" => some fun _ => make (.writer id)
  | _ => none

def writerMethod? (id : Nat) : String → Option Method
  | "write" => some fun args => do
      settle (← writeChunk id (argument args 0))
      return .undefined
  | "close" => some fun _ => do
      settle (← finishWriting id)
      return .undefined
  | "releaseLock" => some fun _ => pure .undefined
  | _ => none

end JsxPreview.Sandbox.Streams
