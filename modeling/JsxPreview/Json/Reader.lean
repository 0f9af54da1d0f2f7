import JsxPreview.Json.Value
import JsxPreview.Text.Characters
import JsxPreview.Text.Utf8

/-! # Reading JSON

`parse` reads a whole text.  A failure tells its cause and its place: the line, and the byte column
counted from one of the byte behind the place where reading stopped.  Lists and objects nest less
than 128 deep.

Numbers with a point or an exponent become doubles in two steps: the digits that fit a word of
sixty-four bits are rounded to a double, which is then scaled by a power of ten. -/
set_option autoImplicit false
namespace JsxPreview.Json

open JsxPreview.Text

inductive Cause where
  | endInList
  | endInObject
  | endInString
  | endInValue
  | expectedColon
  | expectedListEnd
  | expectedObjectEnd
  | expectedIdent
  | expectedValue
  | invalidEscape
  | invalidNumber
  | numberOutOfRange
  | controlCharacter
  | keyNotText
  | loneSurrogate
  | endOfHexEscape
  | trailingComma
  | trailingCharacters
  | tooDeep
deriving DecidableEq, Repr

namespace Cause

def message : Cause → String
  | endInList => "EOF while parsing a list"
  | endInObject => "EOF while parsing an object"
  | endInString => "EOF while parsing a string"
  | endInValue => "EOF while parsing a value"
  | expectedColon => "expected \x60:\x60"
  | expectedListEnd => "expected \x60,\x60 or \x60]\x60"
  | expectedObjectEnd => "expected \x60,\x60 or \x60\x7d\x60"
  | expectedIdent => "expected ident"
  | expectedValue => "expected value"
  | invalidEscape => "invalid escape"
  | invalidNumber => "invalid number"
  | numberOutOfRange => "number out of range"
  | controlCharacter => "control character (\\u0000-\\u001F) found while parsing a string"
  | keyNotText => "key must be a string"
  | loneSurrogate => "lone leading surrogate in hex escape"
  | endOfHexEscape => "unexpected end of hex escape"
  | trailingComma => "trailing comma"
  | trailingCharacters => "trailing characters"
  | tooDeep => "recursion limit exceeded"

end Cause

structure Failure where
  cause : Cause
  offset : Nat
deriving DecidableEq, Repr

/-- What is left of a text, and the byte where it starts. -/
structure Cursor where
  pos : Nat
  rest : List Char

namespace Cursor

def skip (c : Cursor) (n : Nat) : Cursor :=
  ⟨c.pos + byteLength (c.rest.take n), c.rest.drop n⟩

def skipWhile (c : Cursor) (p : Char → Bool) : Cursor := c.skip (c.rest.takeWhile p).length

def skipBlank (c : Cursor) : Cursor :=
  c.skipWhile fun x => x == ' ' || x == '\n' || x == '\t' || x == '\r'

def failHere {α : Type} (c : Cursor) (cause : Cause) : Except Failure α := .error ⟨cause, c.pos⟩

/-- Fails behind the next byte, if there is one. -/
def failAhead {α : Type} (c : Cursor) (cause : Cause) : Except Failure α :=
  .error ⟨cause, if c.rest.isEmpty then c.pos else c.pos + 1⟩

end Cursor

/-! ## Literals and numbers -/

def readWord (v : Value) : List Char → Cursor → Except Failure (Value × Cursor)
  | [], c => .ok (v, c)
  | x :: word, c =>
      match c.rest with
      | [] => c.failHere .endInValue
      | y :: _ =>
          if x == y then readWord v word (c.skip 1)
          else .error ⟨.expectedIdent, c.pos + 1⟩

/-- Adds digits to a number as long as it stays below a bound. -/
def takeDigits (bound : Nat) : Nat → List Char → Nat × List Char
  | n, [] => (n, [])
  | n, c :: s =>
      if c.isDigit then
        let m := n * 10 + (c.toNat - '0'.toNat)
        if m < bound then takeDigits bound m s else (n, c :: s)
      else (n, c :: s)

def powerOfTen (n : Nat) : Double := Double.ofNat (Nat.pow 10 n)

/-- Scales a double by a power of ten of at most 308 at a time; none when it gets too large. -/
def scaleByTen (x : Double) (exponent : Int) : Nat → Option Double
  | 0 => none
  | fuel + 1 =>
      if exponent.natAbs ≤ 308 then
        if 0 ≤ exponent then
          let y := x.mul (powerOfTen exponent.toNat)
          if y.isFinite then some y else none
        else some (x.div (powerOfTen exponent.natAbs))
      else if x.isZero then some x
      else if 0 ≤ exponent then none
      else scaleByTen (x.div (powerOfTen 308)) (exponent + 308) fuel

def doubleOfParts (c : Cursor) (negative : Bool) (significand : Nat) (exponent : Int) :
    Except Failure (Value × Cursor) :=
  -- four steps take any double to zero
  let exponent := max exponent (-2000)
  match scaleByTen (Double.ofNat significand) exponent 10 with
  | some x => .ok (.number (.double (if negative then x.neg else x)), c)
  | none => c.failHere .numberOutOfRange

def readExponent (negative : Bool) (significand : Nat) (start : Int) (c : Cursor) :
    Except Failure (Value × Cursor) :=
  let (down, c) := match c.rest with
    | '+' :: _ => (false, c.skip 1)
    | '-' :: _ => (true, c.skip 1)
    | _ => (false, c)
  match c.rest with
  | [] => c.failHere .endInValue
  | x :: _ =>
      if !x.isDigit then .error ⟨.invalidNumber, c.pos + 1⟩
      else
        let (n, rest) := takeDigits (Nat.pow 2 31) 0 c.rest
        let after := c.skip (c.rest.length - rest.length)
        if rest.head?.any Char.isDigit then
          if significand != 0 && !down then (after.skip 1).failHere .numberOutOfRange
          else
            .ok (.number (.double (Double.ofMagnitude negative 0)), after.skipWhile Char.isDigit)
        else doubleOfParts after negative significand (if down then start - n else start + n)

def readFraction (negative : Bool) (significand : Nat) (start : Int) (c : Cursor) :
    Except Failure (Value × Cursor) :=
  let (n, rest) := takeDigits (Nat.pow 2 64) significand c.rest
  let count := c.rest.length - rest.length
  let after := c.skip count
  if count = 0 && !rest.head?.any Char.isDigit then
    if rest.isEmpty then after.failAhead .endInValue else after.failAhead .invalidNumber
  else
    let after := after.skipWhile Char.isDigit
    if after.rest.head?.any (fun x => x == 'e' || x == 'E') then
      readExponent negative n (start - count) (after.skip 1)
    else doubleOfParts after negative n (start - count)

def readNumber (negative : Bool) (c : Cursor) : Except Failure (Value × Cursor) :=
  match c.rest with
  | [] => c.failHere .endInValue
  | x :: s =>
      if !x.isDigit then .error ⟨.invalidNumber, c.pos + 1⟩
      else if x == '0' && s.head?.any Char.isDigit then (c.skip 1).failAhead .invalidNumber
      else
        let (n, rest) := takeDigits (Nat.pow 2 64) 0 c.rest
        let after := c.skip (c.rest.length - rest.length)
        -- digits that do not fit only count
        let final := after.skipWhile Char.isDigit
        let dropped := after.rest.length - final.rest.length
        match final.rest with
        | '.' :: _ => readFraction negative n dropped (final.skip 1)
        | 'e' :: _ | 'E' :: _ => readExponent negative n dropped (final.skip 1)
        | _ =>
            if dropped != 0 then doubleOfParts final negative n dropped
            else if !negative then .ok (.number (.whole n), final)
            else if n = 0 || Nat.pow 2 63 < n then
              .ok (.number (.double (Double.ofNat n).neg), final)
            else .ok (.number (.whole (-n)), final)

/-! ## Strings -/

def readHex (c : Cursor) : Except Failure (Nat × Cursor) :=
  if byteLength c.rest < 4 then .error ⟨.endInString, c.pos + byteLength c.rest⟩
  else match (c.rest.take 4).mapM digitValue with
    | some [a, b, x, y] => .ok (((a * 16 + b) * 16 + x) * 16 + y, c.skip 4)
    | _ => .error ⟨.invalidEscape, c.pos + 4⟩

def readUnicodeEscape (c : Cursor) : Except Failure (Char × Cursor) := do
  let (n, c) ← readHex c
  if 0xDC00 ≤ n && n ≤ 0xDFFF then c.failHere .loneSurrogate
  else if n < 0xD800 || 0xDBFF < n then .ok (Char.ofNat n, c)
  else
    let c ← match c.rest with
      | '\\' :: _ => .ok (c.skip 1)
      | [] => c.failHere .endInString
      | _ => .error ⟨.endOfHexEscape, c.pos + 1⟩
    let c ← match c.rest with
      | 'u' :: _ => .ok (c.skip 1)
      | [] => c.failHere .endInString
      | _ => .error ⟨.endOfHexEscape, c.pos + 1⟩
    let (m, c) ← readHex c
    if m < 0xDC00 || 0xDFFF < m then c.failHere .loneSurrogate
    else .ok (Char.ofNat ((n - 0xD800) * 0x400 + (m - 0xDC00) + 0x10000), c)

def readEscape (c : Cursor) : Except Failure (Char × Cursor) :=
  let plain (x : Char) : Except Failure (Char × Cursor) := .ok (x, c.skip 1)
  match c.rest with
  | [] => c.failHere .endInString
  | '"' :: _ => plain '"'
  | '\\' :: _ => plain '\\'
  | '/' :: _ => plain '/'
  | 'b' :: _ => plain '\x08'
  | 'f' :: _ => plain '\x0c'
  | 'n' :: _ => plain '\n'
  | 'r' :: _ => plain '\r'
  | 't' :: _ => plain '\t'
  | 'u' :: _ => readUnicodeEscape (c.skip 1)
  | _ => .error ⟨.invalidEscape, c.pos + 1⟩

/-- Reads a string from behind its quote; `done` holds its characters so far, the last first. -/
def readString (done : List Char) : Nat → Cursor → Except Failure (String × Cursor)
  | 0, c => c.failHere .endInString
  | fuel + 1, c =>
      match c.rest with
      | [] => c.failHere .endInString
      | '"' :: _ => .ok (String.ofList done.reverse, c.skip 1)
      | '\\' :: _ => do
          let (x, after) ← readEscape (c.skip 1)
          readString (x :: done) fuel after
      | x :: _ =>
          if x.toNat < 0x20 then .error ⟨.controlCharacter, c.pos + 1⟩
          else readString (x :: done) fuel (c.skip 1)

/-! ## Values -/

mutual

/-- Reads a value; `depth` is how much deeper lists and objects may nest. -/
def readValue : Nat → Nat → Cursor → Except Failure (Value × Cursor)
  | 0, _, c => c.failAhead .tooDeep
  | fuel + 1, depth, before =>
      let c := before.skipBlank
      match c.rest with
      | [] => c.failAhead .endInValue
      | 'n' :: _ => readWord .null "ull".toList (c.skip 1)
      | 't' :: _ => readWord (.bool true) "rue".toList (c.skip 1)
      | 'f' :: _ => readWord (.bool false) "alse".toList (c.skip 1)
      | '-' :: _ => readNumber true (c.skip 1)
      | '"' :: _ => do
          let (s, after) ← readString [] (c.rest.length + 1) (c.skip 1)
          .ok (.text s, after)
      | '[' :: _ =>
          if depth ≤ 1 then c.failAhead .tooDeep
          else do
            let (items, after) ← readItems fuel (depth - 1) true (c.skip 1)
            .ok (.list items, after)
      | '\x7b' :: _ =>
          if depth ≤ 1 then c.failAhead .tooDeep
          else do
            let (fields, after) ← readFields fuel (depth - 1) true (c.skip 1)
            .ok (.object fields, after)
      | x :: _ => if x.isDigit then readNumber false c else c.failAhead .expectedValue

/-- Reads the items of a list, from behind its bracket or from behind an item. -/
def readItems : Nat → Nat → Bool → Cursor → Except Failure (List Value × Cursor)
  | 0, _, _, c => c.failAhead .tooDeep
  | fuel + 1, depth, first, before =>
      let c := before.skipBlank
      match c.rest with
      | [] => c.failAhead .endInList
      | ']' :: _ => .ok ([], c.skip 1)
      | x :: _ => do
          let c ←
            if first then .ok c
            else if x == ',' then
              let after := (c.skip 1).skipBlank
              match after.rest with
              | [] => after.failAhead .endInValue
              | ']' :: _ => after.failAhead .trailingComma
              | _ => .ok after
            else c.failAhead .expectedListEnd
          let (v, after) ← readValue fuel depth c
          let (rest, final) ← readItems fuel depth false after
          .ok (v :: rest, final)

/-- Reads the fields of an object, from behind its brace or from behind a field. -/
def readFields : Nat → Nat → Bool → Cursor →
    Except Failure (List (String × Value) × Cursor)
  | 0, _, _, c => c.failAhead .tooDeep
  | fuel + 1, depth, first, before =>
      let c := before.skipBlank
      match c.rest with
      | [] => c.failAhead .endInObject
      | '\x7d' :: _ => .ok ([], c.skip 1)
      | x :: _ => do
          let c ←
            if first then
              if x == '"' then .ok c else c.failAhead .keyNotText
            else if x == ',' then
              let after := (c.skip 1).skipBlank
              match after.rest with
              | [] => after.failAhead .endInValue
              | '"' :: _ => .ok after
              | '\x7d' :: _ => after.failAhead .trailingComma
              | _ => after.failAhead .keyNotText
            else c.failAhead .expectedObjectEnd
          let (name, after) ← readString [] (c.rest.length + 1) (c.skip 1)
          let colon := after.skipBlank
          match colon.rest with
          | [] => colon.failAhead .endInObject
          | ':' :: _ => do
              let (v, after) ← readValue fuel depth (colon.skip 1)
              let (rest, final) ← readFields fuel depth false after
              .ok ((name, v) :: rest, final)
          | _ => colon.failAhead .expectedColon

end

def readFirst (s : String) : Except Failure (Value × Cursor) :=
  readValue (2 * s.length + 2) 128 ⟨0, s.toList⟩

def parse (s : String) : Except Failure Value := do
  let (v, after) ← readFirst s
  let final := after.skipBlank
  if final.rest.isEmpty then .ok v else final.failAhead .trailingCharacters

/-- The line that byte `n` of a text stands on, counted from one, and the bytes of the line in front
of it. -/
def bytePlace (line column n : Nat) : List Char → Nat × Nat
  | [] => (line, column)
  | c :: s =>
      if n < c.utf8Size then (line, column + n)
      else if c = '\n' then bytePlace (line + 1) 0 (n - 1) s
      else bytePlace line (column + c.utf8Size) (n - c.utf8Size) s

/-- The line and the column of a failure, both counted from one. -/
def Failure.place (f : Failure) (s : String) : Nat × Nat := bytePlace 1 0 f.offset s.toList

def Failure.message (f : Failure) (s : String) : String :=
  let (line, column) := f.place s
  f.cause.message ++ " at line " ++ toString line ++ " column " ++ toString column

end JsxPreview.Json
