import JsxPreview.Codec.Encoding
import JsxPreview.Sandbox.Property

/-! # Bytes and buffers

A view shows a part of a memory as bytes; several views may show the same memory.  A buffer is a view
that reads and writes texts in some encoding.  Values become bytes through the low byte of their whole
part, and places count from the end where they are negative. -/
set_option autoImplicit false
namespace JsxPreview.Sandbox.Bytes

open JsxPreview.Codec (Encoding)
open JsxPreview.Element (missingProperty)
open JsxPreview.Script
open JsxPreview.Text
open Sandboxed

/-- A view of bytes that nothing else shows. -/
def makeView (isBuffer : Bool) (bytes : List UInt8) : Sandboxed Value := do
  let memory ← create (.memory bytes) []
  make (.view ⟨memory, 0, bytes.length, isBuffer⟩)

def toIndex (v : Value) : Sandboxed Nat := do
  let n ← toWhole (Nat.pow 2 53) v
  if n < 0 || 0x20000000000000 ≤ n then throwRange "invalid array index" else return n.toNat

/-- The bytes that a view is made of: a length stands for as many zeros. -/
def bytesFrom (v : Value) : Sandboxed (List UInt8) := do
  if v.isObject || v.isFunction then
    let items ← match ← walk? v with
      | some items => pure items
      | none => itemsOf v
    items.mapM toByte
  else
    let n ← toIndex v
    if Nat.pow 2 31 ≤ n then throwRange "invalid array buffer length"
    return List.replicate n 0

def viewOf (isBuffer : Bool) (memory size : Nat) (start length : Value) : Sandboxed View := do
  let offset ← toIndex start
  if size < offset then throwRange "invalid offset"
  let length ← if length.isUndefined then pure (size - offset) else toIndex length
  if size < offset + length then throwRange "invalid length"
  return ⟨memory, offset, length, isBuffer⟩

def construct (isBuffer : Bool) (args : List Value) : Sandboxed Value := do
  let v := argument args 0
  match v, ← objectAt? v with
  | .object id, some (.memory bytes) =>
      let view ← viewOf isBuffer id bytes.length (argument args 1) (argument args 2)
      make (.view view)
  | v, _ => makeView isBuffer (← bytesFrom v)

def encodingOf (v : Value) : Sandboxed Encoding := do
  match Encoding.ofName? (← textOr "utf8" v) with
  | some e => return e
  | none => throwType ("Unknown encoding: " ++ (← asText v))

/-- What a value is called where a text is wanted instead. -/
def sortName : Value → String
  | .undefined => "undefined"
  | .null => "null"
  | .bool _ => "bool"
  | .number x => if (x.toInt?).isSome then "int" else "float"
  | .symbol _ => "symbol"
  | .list _ => "array"
  | .function _ => "function"
  | _ => "object"

/-- The units in front of the first surrogate that stands alone. -/
def wellFormedPart (u : List UInt16) : List UInt16 :=
  u.take (((toUnits (ofUnits u)).zip u).takeWhile fun p => p.1 == p.2).length

/-- Why a text with a surrogate that stands alone has no UTF-8. -/
def malformed (u : List UInt16) : String :=
  "Conversion from string failed: invalid utf-8 sequence of 1 bytes from index " ++
    toString (encodeUtf8 (ofUnits (wellFormedPart u))).length

/-- The bytes of a text.  Only some encodings ask for a text and nothing else. -/
def encodeValue (v encoding : Value) : Sandboxed (List UInt8) := do
  let e ← encodingOf encoding
  match v, e with
  | .text s, e => return e.encode (toUnits s.toList)
  | .units u, .ascii | .units u, .latin1 | .units u, .utf16le => return e.encode u
  | .units u, _ => throwType (malformed u)
  | v, .ascii | v, .latin1 | v, .utf16le =>
      if v.isNullish then throwValue (missingProperty v "length") else return []
  | v, _ =>
      throwType ("Error converting from js '" ++ sortName v ++ "' into type 'string'")

def decodeText (e : Encoding) (bytes : List UInt8) : Value :=
  .ofUtf16 (e.decode bytes)

def store (v : View) (start : Nat) (bytes : List UInt8) : Sandboxed Unit := do
  match ← objectOf v.memory with
  | .memory all =>
      let fitting := bytes.take (v.length - start)
      let first := v.offset + start
      if start ≤ v.length then
        replace v.memory
          (.memory (all.take first ++ fitting ++ all.drop (first + fitting.length)))
  | _ => pure ()

/-! ## Making buffers -/

/-- The copy of a part of a memory; a length that is not given reaches to the end. -/
def copyOf (memory : Nat) (bytes : List UInt8) (start length : Value) : Sandboxed Value := do
  let start := if start.isTruthy then start else number 0
  let rest ← do
    let x ← toNumber start
    let n := (x.truncate?).getD 0
    pure (Value.number (if x.isNaN then .nan else .ofInt (bytes.length - n)))
  let view ← viewOf true memory bytes.length start (if length.isUndefined then rest else length)
  makeView true ((← session).bytesOf view)

def ofValue : Method := fun args => do
  let v := argument args 0
  match v, ← objectAt? v with
  | .text _, _ | .units _, _ => makeView true (← encodeValue v (argument args 1))
  | .object id, some (.memory bytes) => copyOf id bytes (argument args 1) (argument args 2)
  | v, _ =>
      if v.isTruthy then
        if (← lengthOf? v).isSome then
          return ← makeView true (← (← itemsOf v).mapM toByte)
        match ← read v "type", ← read v "data" with
        | .text "Buffer", .list items => return ← makeView true (← items.mapM toByte)
        | _, _ => pure ()
      throwType "The first argument must be a string, Buffer, ArrayBuffer, or Array"

/-- What a new buffer is filled with: the first unit of a text, or a number. -/
def fillByte (v : Value) : Sandboxed UInt8 :=
  match v.units? with
  | some (u :: _) => return UInt8.ofNat (u.toNat % 256)
  | some [] => return 0
  | none => toByte v

def allocate : Method := fun args => do
  let made ← construct true [argument args 0]
  let fill := argument args 1
  if !fill.isUndefined then
    if let some (.view v) := ← objectAt? made then
      store v 0 (List.replicate v.length (← fillByte fill))
  return made

def byteLength : Method := fun args => do
  let v := argument args 0
  if v.units?.isSome then return number (← encodeValue v (argument args 1)).length
  else read v "byteLength"

def concat : Method := fun args => do
  let list := argument args 0
  if list.isNullish then throwValue (missingProperty list "forEach")
  let some items ← walk? list | throwType "not a function"
  if let .text _ := list then throwType "not a function"
  let all ← items.mapM fun item => do
    if item.isNullish then throwType "cannot convert to object"
    itemsOf item
  let all := all.flatten
  let stop ← toEnd all.length (argument args 1)
  makeView true (← (all.take stop).mapM toByte)

def isBuffer : Method := fun args => do
  match ← objectAt? (argument args 0) with
  | some (.view v) => return .bool v.isBuffer
  | _ => return .bool false

def isEncoding : Method := fun args => do
  return .bool (Encoding.ofName? (← textOr "utf8" (argument args 0))).isSome

def bufferMethod? : String → Option Method
  | "from" => some ofValue
  | "alloc" => some allocate
  | "allocUnsafe" => some fun args => construct true [argument args 0]
  | "isBuffer" => some isBuffer
  | "isEncoding" => some isEncoding
  | "byteLength" => some byteLength
  | "concat" => some concat
  | "of" => some fun args => do makeView true (← args.mapM toByte)
  | _ => none

def bytesMethod? : String → Option Method
  | "from" => some fun args => do
      let v := argument args 0
      let items ← match ← walk? v with
        | some items => pure items
        | none => itemsOf v
      makeView false (← items.mapM toByte)
  | "of" => some fun args => do makeView false (← args.mapM toByte)
  | _ => none

/-! ## Using views -/

def slice (v : View) (start stop : Value) : Sandboxed (List UInt8) := do
  let first ← toPlace v.length start
  let last ← toEnd v.length stop
  return (((← session).bytesOf v).take last).drop first

def viewText (v : View) : Method := fun args => do
  let bytes := (← session).bytesOf v
  if v.isBuffer then
    let start := argument args 1
    let part ← slice v (if start.isTruthy then start else number 0) (argument args 2)
    return decodeText (← encodingOf (argument args 0)) part
  else return .text (String.intercalate "," (bytes.map fun b => toString b.toNat))

/-- Whether a view has the same bytes as a list-like value has numbers. -/
def equals (v : View) : Method := fun args => do
  let other := argument args 0
  let bytes := (← session).byteValues v
  if !isSame (← read other "length") (number bytes.length) then return .bool false
  let others ← (List.range bytes.length).mapM fun i => read other (toString i)
  return .bool ((bytes.zip others).all fun p => isSame p.1 p.2)

def write (v : View) : Method := fun args => do
  let bytes ← encodeValue (argument args 0) (argument args 2)
  let start := argument args 1
  let x ← if start.isTruthy then toNumber start else pure .zero
  match x.truncate? with
  | none => return .number (if x.isNaN then .nan else if x.isNegative then .ofNat bytes.length else x.neg)
  | some start =>
      let count : Int := min bytes.length (v.length - start)
      store v start.toNat ((bytes.take count.toNat).drop (-start).toNat)
      return .number (.ofInt count)

def placeOf (v : View) : Method := fun args => do
  let bytes := (← session).byteValues v
  let first ← toPlace v.length (argument args 1)
  return .number <| match (bytes.drop first).findIdx? (isSame (argument args 0)) with
    | some i => .ofNat (first + i)
    | none => .ofInt (-1)

def fill (id : Nat) (v : View) : Method := fun args => do
  let b ← toByte (argument args 0)
  let first ← toPlace v.length (argument args 1)
  let last ← toEnd v.length (argument args 2)
  store v first (List.replicate (last - first) b)
  return .object id

def setItems (v : View) : Method := fun args => do
  let offset ← toWhole v.length (argument args 1)
  let source := argument args 0
  if source.isNullish then throwType "cannot convert to object"
  let items ← itemsOf source
  if offset < 0 || (v.length : Int) < offset + items.length then
    throwRange "invalid array length"
  store v offset.toNat (← items.mapM toByte)
  return .undefined

def subview (v : View) : Method := fun args => do
  let first ← toPlace v.length (argument args 0)
  let last ← toEnd v.length (argument args 1)
  make (.view { v with offset := v.offset + first, length := last - first })

def item (v : View) : Method := fun args => do
  let n ← toWhole v.length (argument args 0)
  let place := if n < 0 then n + v.length else n
  if place < 0 then return .undefined
  return (((← session).byteValues v)[place.toNat]?).getD .undefined

def join (v : View) : Method := fun args => do
  let separator := argument args 0
  let separator ← if separator.isUndefined then pure "," else toText separator
  let bytes := (← session).bytesOf v
  return .text (String.intercalate separator (bytes.map fun b => toString b.toNat))

/-- What is called by name on a buffer, apart from what all views have. -/
def ownMethod? (v : View) : String → Option Method
  | "toJSON" => some fun _ => do return (← session).bufferForm v
  | "equals" => some (equals v)
  | "write" => some (write v)
  | _ => none

def viewMethod? (id : Nat) (v : View) (name : String) : Option Method :=
  match name with
  | "toString" => some (viewText v)
  | "slice" => some fun args => do
      makeView v.isBuffer (← slice v (argument args 0) (argument args 1))
  | "indexOf" => some (placeOf v)
  | "includes" => some fun args => do
      return .bool (!isSame (← placeOf v args) (.number (.ofInt (-1))))
  | "fill" => some (fill id v)
  | "set" => some (setItems v)
  | "subarray" => some (subview v)
  | "at" => some (item v)
  | "join" => some (join v)
  | "reverse" => some fun _ => do
      store v 0 ((← session).bytesOf v).reverse
      return .object id
  | name => if v.isBuffer then ownMethod? v name else none

end JsxPreview.Sandbox.Bytes
