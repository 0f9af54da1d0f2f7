import JsxPreview.Text.Printable
import JsxPreview.Text.Split

/-! # Mappings

A mapping ties a place in generated code to a place in one of the sources.  Lines and columns count
from zero, a source and a name are indices into the lists of a map, and all of them are thirty-two
bit words. -/
set_option autoImplicit false
namespace JsxPreview.SourceMap

structure Mapping where
  generatedLine : UInt32
  generatedColumn : UInt32
  source : UInt32
  line : UInt32
  column : UInt32
  name : Option UInt32 := none
deriving DecidableEq, Repr

/-- The mappings of a map, one list a generated line, each in the order of the columns. -/
structure Mappings where
  lines : List (List Mapping) := []
deriving DecidableEq, Repr

namespace Mappings

def size (ms : Mappings) : Nat := ms.lines.flatten.length

def isEmpty (ms : Mappings) : Bool := ms.size == 0

/-- The last mapping of a line that does not lie past a column, or the first one of the line when
all of them do. -/
def lookup (ms : Mappings) (line column : UInt32) : Option Mapping := do
  let segments ← ms.lines[line.toNat]?
  match (segments.takeWhile (·.generatedColumn ≤ column)).getLast? with
  | some m => some m
  | none => segments.head?

end Mappings

/-! ## The text of mappings

Numbers are written as base64 digits of six bits: five bits of the number, the lowest first, and one
bit that says whether a digit follows.  The lowest bit of a number is its sign.  A mapping is a
segment of four or five numbers, each the difference from the segment before; commas separate
segments, semicolons lines.

Reading works on words: a number is kept modulo two to the sixty-fourth, and the distance that a digit
is shifted by modulo sixty-four. -/

open JsxPreview.Text

inductive VlqError where
  | invalidDigit (c : Char)
  | unexpectedEnd
  | invalidSegment (fields : Nat)
deriving DecidableEq, Repr

/-- How one character stands between single quotes in a message. -/
def shownInQuotes (c : Char) : String :=
  let inner := if c = '\'' then ['\\', '\''] else if c = '"' then ['"'] else Quoted.shownChar c
  String.ofList ('\'' :: inner ++ ['\''])

/-- The character whose code point is the first byte of the UTF-8 form. -/
def leadingByte (c : Char) : Char :=
  Char.ofNat ((String.utf8EncodeChar c).headD 0).toNat

def VlqError.message : VlqError → String
  | .invalidDigit c =>
      "Invalid base64 character " ++ shownInQuotes (leadingByte c) ++ " in mappings"
  | .unexpectedEnd => "Unexpected end of VLQ segment"
  | .invalidSegment fields => "Invalid segment with " ++ toString fields ++ " fields"

namespace Vlq

/-! ## Writing -/

/-- The base64 digit of a number below sixty-four. -/
def digitChar (n : Nat) : Char :=
  if n < 26 then Char.ofNat ('A'.toNat + n)
  else if n < 52 then Char.ofNat ('a'.toNat + (n - 26))
  else if n < 62 then Char.ofNat ('0'.toNat + (n - 52))
  else if n = 62 then '+' else '/'

def encodeNat (n : Nat) : List Char :=
  if n < 32 then [digitChar n] else digitChar (n % 32 + 32) :: encodeNat (n / 32)
termination_by n

/-- A number with its sign as the lowest bit. -/
def foldSign (v : Int) : Nat := if v < 0 then 2 * v.natAbs + 1 else 2 * v.natAbs

def encode (v : Int) : List Char := encodeNat (foldSign v)

/-- What the differences are taken from. -/
structure State where
  column : Int := 0
  source : Int := 0
  line : Int := 0
  originalColumn : Int := 0
  name : Int := 0
deriving DecidableEq, Repr

def ofWord (w : UInt32) : Int := w.toNat

def State.after (st : State) (m : Mapping) : State where
  column := ofWord m.generatedColumn
  source := ofWord m.source
  line := ofWord m.line
  originalColumn := ofWord m.column
  name := (m.name.map ofWord).getD st.name

def encodeSegment (st : State) (m : Mapping) : List Char :=
  encode (ofWord m.generatedColumn - st.column) ++ encode (ofWord m.source - st.source) ++
    encode (ofWord m.line - st.line) ++ encode (ofWord m.column - st.originalColumn) ++
    match m.name with
    | some name => encode (ofWord name - st.name)
    | none => []

/-- The text of mappings from line `current` on; `fresh` while that line has no segment. -/
def encodeFrom (current : Nat) (fresh : Bool) (st : State) : List Mapping → List Char
  | [] => []
  | m :: rest =>
      let skipped := m.generatedLine.toNat - current
      let st' := if skipped = 0 then st else { st with column := 0 }
      List.replicate skipped ';' ++ (if fresh || skipped != 0 then [] else [',']) ++
        encodeSegment st' m ++ encodeFrom (current + skipped) false (st'.after m) rest

/-- The text of mappings that are in the order of their lines. -/
def encodeMappings (ms : List Mapping) : String := String.ofList (encodeFrom 0 true {} ms)

/-! ## Reading -/

def digitValue (c : Char) : Except VlqError Nat :=
  if 'A' ≤ c ∧ c ≤ 'Z' then .ok (c.toNat - 'A'.toNat)
  else if 'a' ≤ c ∧ c ≤ 'z' then .ok (c.toNat - 'a'.toNat + 26)
  else if '0' ≤ c ∧ c ≤ '9' then .ok (c.toNat - '0'.toNat + 52)
  else if c = '+' then .ok 62
  else if c = '/' then .ok 63
  else .error (.invalidDigit c)

/-- The signed number that a word with the sign as its lowest bit stands for. -/
def unfoldSign (word : Nat) : Int :=
  let magnitude := Int.bmod word (Nat.pow 2 64) / 2
  if word % 2 = 1 then -magnitude else magnitude

/-- The numbers of a segment; `value` holds the digits of the number being read, which `pending`
says is there, and the next digit is shifted by `shift`. -/
def decodeDigits (value shift : Nat) (pending : Bool) : List Char → Except VlqError (List Int)
  | [] => if pending then .error .unexpectedEnd else .ok []
  | c :: rest => do
      let digit ← digitValue c
      let value := (value + digit % 32 * Nat.pow 2 (shift % 64)) % Nat.pow 2 64
      if digit < 32 then
        let values ← decodeDigits 0 0 false rest
        return unfoldSign value :: values
      else decodeDigits value (shift + 5) true rest

def decodeSegment (segment : List Char) : Except VlqError (List Int) :=
  decodeDigits 0 0 false segment

/-- The segments of one line, and the state behind them. -/
def decodeLine (line : UInt32) (st : State) : List (List Char) →
    Except VlqError (List Mapping × State)
  | [] => .ok ([], st)
  | segment :: rest => do
      match ← decodeSegment segment with
      | [column] => decodeLine line { st with column := st.column + column } rest
      | column :: source :: original :: originalColumn :: more =>
          let st' : State :=
            ⟨st.column + column, st.source + source, st.line + original,
              st.originalColumn + originalColumn, st.name + more.headD 0⟩
          let name ← match more with
            | [] => .ok none
            | [_] => .ok (some (UInt32.ofInt st'.name))
            | _ => .error (.invalidSegment (more.length + 4))
          let (ms, final) ← decodeLine line st' rest
          return (⟨line, UInt32.ofInt st'.column, UInt32.ofInt st'.source, UInt32.ofInt st'.line,
            UInt32.ofInt st'.originalColumn, name⟩ :: ms, final)
      | fields => .error (.invalidSegment fields.length)

def decodeLines (current : Nat) (st : State) : List (List (List Char)) →
    Except VlqError (List (List Mapping))
  | [] => .ok []
  | segments :: rest => do
      let (ms, st) ← decodeLine (UInt32.ofNat current) { st with column := 0 } segments
      let sorted := ms.mergeSort (·.generatedColumn ≤ ·.generatedColumn)
      let lines ← decodeLines (current + 1) st rest
      return sorted :: lines

/-- The mappings of a text.  Segments of one number carry no source and are left out. -/
def decodeMappings (text : String) : Except VlqError Mappings := do
  let lines := (splitOn ';' text.toList).map fun line =>
    (splitOn ',' line).filter (!·.isEmpty)
  return ⟨← decodeLines 0 {} lines⟩

end Vlq

end JsxPreview.SourceMap
