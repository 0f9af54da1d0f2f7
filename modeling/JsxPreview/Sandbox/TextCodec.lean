import JsxPreview.Sandbox.Bytes

/-! # Encoders and decoders of text

An encoder writes UTF-8, and a decoder reads it, chunk by chunk where more is to come. -/
set_option autoImplicit false
namespace JsxPreview.Sandbox.TextCodec

open JsxPreview.Codec
open JsxPreview.Element (missingProperty)
open JsxPreview.Script
open JsxPreview.Text
open Sandboxed

def utf8Of (v : Value) : Sandboxed (List UInt8) := do return encodeUtf8 (← toText v).toList

def encodeInto : Method := fun args => do
  let input := argument args 0
  let destination := argument args 1
  let bytes ← utf8Of input
  let room ← toNumber (← read destination "length")
  let written : Value ← match room.truncate? with
    | none => pure (Value.number .nan)
    | some room => do
        let count := min bytes.length room.toNat
        if let some (.view v) := ← objectAt? destination then
          Bytes.store v 0 (bytes.take count)
        pure (number count)
  return .record [("read", ← read input "length"), ("written", written)]

def encoderMethod? : String → Option Method
  | "encode" => some fun args => do
      let input := argument args 0
      if input.isUndefined then Bytes.makeView false []
      else Bytes.makeView false (← utf8Of input)
  | "encodeInto" => some encodeInto
  | _ => none

def checkLabel (label : Value) : Sandboxed Unit := do
  if Encoding.ofName? (← textOr "utf-8" label) ≠ some .utf8 then
    throwRange ("The \"" ++ (← asText label) ++ "\" encoding is not supported")

def decoderOptions (options : Value) : Sandboxed (List (String × Value)) := do
  return [("fatal", .bool (← isOn options "fatal")),
    ("ignoreBOM", .bool (← isOn options "ignoreBOM"))]

def makeDecoder : Method := fun args => do
  checkLabel (argument args 0)
  return .object (← create (.decoder {}) (← decoderOptions (argument args 1)))

def inputBytes (v : Value) : Sandboxed (List UInt8) := do
  match ← objectAt? v with
  | some (.memory bytes) => return bytes
  | some (.view view) => return (← session).bytesOf view
  | _ =>
      if v.isUndefined then return []
      if v.isNullish then throwValue (missingProperty v "buffer")
      Bytes.bytesFrom v

def decode (id : Nat) (d : StreamDecoder) : Method := fun args => do
  let chunk ← inputBytes (argument args 0)
  let more ← isOn (argument args 1) "stream"
  let keepsMark := (← ownProperty id "ignoreBOM").isTruthy
  let (text, d) := { d with keepsMark }.decode chunk more
  replace id (.decoder d)
  return .text (String.ofList text)

def decoderMethod? (id : Nat) (d : StreamDecoder) : String → Option Method
  | "decode" => some (decode id d)
  | _ => none

end JsxPreview.Sandbox.TextCodec
