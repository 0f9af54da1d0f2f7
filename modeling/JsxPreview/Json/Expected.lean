import JsxPreview.Json.Reader

/-! # Passing over values

A value that nobody wants is passed over by its form alone: its numbers may be out of range, its escapes
need not give characters, and it may nest as deep as it will. -/
set_option autoImplicit false
namespace JsxPreview.Json

open JsxPreview.Text

namespace Cursor

/-- Passes over digits, of which there has to be one. -/
def skipDigits? (c : Cursor) : Option Cursor :=
  if c.rest.head?.any Char.isDigit then some (c.skipWhile Char.isDigit) else none

def skipExponent? (c : Cursor) : Option Cursor :=
  match c.rest with
  | 'e' :: s | 'E' :: s =>
      match s with
      | '+' :: _ | '-' :: _ => (c.skip 2).skipDigits?
      | _ => (c.skip 1).skipDigits?
  | _ => some c

def skipNumber? (c : Cursor) : Option Cursor := do
  let after ← match c.rest with
    | '0' :: s => if s.head?.any Char.isDigit then none else some (c.skip 1)
    | _ => c.skipDigits?
  match after.rest with
  | '.' :: _ => (after.skip 1).skipDigits? >>= skipExponent?
  | _ => after.skipExponent?

def skipWord? (c : Cursor) (word : String) : Option Cursor :=
  if word.toList.isPrefixOf c.rest then some (c.skip word.length) else none

def skipEscape? (c : Cursor) : Option Cursor :=
  match c.rest with
  | 'u' :: _ => (readHex (c.skip 1)).toOption.map (·.2)
  | x :: _ => if "\"\\/bfnrt".toList.contains x then some (c.skip 1) else none
  | [] => none

def skipString? : Nat → Cursor → Option Cursor
  | 0, _ => none
  | fuel + 1, c =>
      match c.rest with
      | [] => none
      | '"' :: _ => some (c.skip 1)
      | '\\' :: _ => (c.skip 1).skipEscape? >>= skipString? fuel
      | x :: _ => if x.toNat < 0x20 then none else skipString? fuel (c.skip 1)

mutual

def skipValue? : Nat → Cursor → Option Cursor
  | 0, _ => none
  | fuel + 1, before =>
      let c := before.skipBlank
      match c.rest with
      | 'n' :: _ => c.skipWord? "null"
      | 't' :: _ => c.skipWord? "true"
      | 'f' :: _ => c.skipWord? "false"
      | '-' :: _ => (c.skip 1).skipNumber?
      | '"' :: _ => skipString? (c.rest.length + 1) (c.skip 1)
      | '[' :: _ => skipItems? fuel true (c.skip 1)
      | '\x7b' :: _ => skipFields? fuel true (c.skip 1)
      | _ => c.skipNumber?

def skipItems? : Nat → Bool → Cursor → Option Cursor
  | 0, _, _ => none
  | fuel + 1, first, before =>
      let c := before.skipBlank
      match c.rest, first with
      | ']' :: _, _ => some (c.skip 1)
      | ',' :: _, false => skipValue? fuel (c.skip 1) >>= skipItems? fuel false
      | _, true => skipValue? fuel c >>= skipItems? fuel false
      | _, false => none

def skipFields? : Nat → Bool → Cursor → Option Cursor
  | 0, _, _ => none
  | fuel + 1, first, before =>
      let c := before.skipBlank
      match c.rest, first with
      | '\x7d' :: _, _ => some (c.skip 1)
      | ',' :: _, false => skipField? fuel (c.skip 1).skipBlank >>= skipFields? fuel false
      | _, true => skipField? fuel c >>= skipFields? fuel false
      | _, false => none

def skipField? : Nat → Cursor → Option Cursor
  | 0, _ => none
  | fuel + 1, c =>
      match c.rest with
      | '"' :: _ => do
          let after := (← skipString? (c.rest.length + 1) (c.skip 1)).skipBlank
          match after.rest with
          | ':' :: _ => skipValue? fuel (after.skip 1)
          | _ => none
      | _ => none

end

def passOver? (c : Cursor) : Option Cursor := skipValue? (3 * c.rest.length + 3) c

end Cursor

/-! ## Reading JSON of an expected shape

A text is read from the left, and its first fault counts: what is no JSON, or a value that is not the
one expected at its place.  A record may be written as an object or as the list of its fields.  Fields
of an object that are not expected are passed over, and are not among the fields that were read. -/

inductive ReadFault where
  | malformed
  /-- A value of the wrong shape, or a field that is missing or given twice. -/
  | mismatch
deriving DecidableEq, Repr

inductive Expected where
  | text
  | flag
  | anything
  | optional (inner : Expected)
  /-- Fields by name, each required or not. -/
  | record (fields : List (String × Bool × Expected))

namespace Expected

def pass (depth : Nat) (c : Cursor) : Except ReadFault (Value × Cursor) :=
  (readValue (2 * c.rest.length + 2) depth c).mapError fun _ => .malformed

/-- The fault of a value that is not expected: scalars are read first. -/
def refuse {α : Type} (c : Cursor) : Except ReadFault α :=
  match c.rest with
  | '[' :: _ | '\x7b' :: _ => .error .mismatch
  | _ => do
      let _ ← pass 128 c
      throw .mismatch

/-- Passes from a field to the next: what follows the comma, unless the end comes first. -/
def nextPart (first : Bool) (close : Char) (c : Cursor) : Except ReadFault (Option Cursor) :=
  let c := c.skipBlank
  match c.rest with
  | [] => .error .malformed
  | x :: _ =>
      if x = close then .ok none
      else if first then .ok (some c)
      else if x = ',' then
        let c := (c.skip 1).skipBlank
        match c.rest with
        | [] => .error .malformed
        | y :: _ => if y = close then .error .malformed else .ok (some c)
      else .error .malformed

def fieldName (c : Cursor) : Except ReadFault (String × Cursor) :=
  match c.rest with
  | '"' :: _ => (readString [] (c.rest.length + 1) (c.skip 1)).mapError fun _ => .malformed
  | _ => .error .malformed

def colon (c : Cursor) : Except ReadFault Cursor :=
  let c := c.skipBlank
  match c.rest with
  | ':' :: _ => .ok (c.skip 1)
  | _ => .error .malformed

mutual

def check : Nat → Nat → Expected → Cursor → Except ReadFault (Value × Cursor)
  | 0, _, _, _ => .error .malformed
  | fuel + 1, depth, expected, before =>
      let c := before.skipBlank
      match expected, c.rest with
      | .anything, _ | .text, '"' :: _ | .flag, 't' :: _ | .flag, 'f' :: _ | .optional _, 'n' :: _ =>
          pass depth c
      | .optional inner, _ => check fuel depth inner c
      | .record fields, '\x7b' :: _ => do
          let (found, after) ← checkFields fuel (depth - 1) fields [] true (c.skip 1)
          return (.object found, after)
      | .record fields, '[' :: _ => do
          let (items, after) ← checkItems fuel (depth - 1) fields true (c.skip 1)
          return (.list items, after)
      | _, _ => refuse c

/-- Reads the rest of an object; `seen` names the fields before. -/
def checkFields : Nat → Nat → List (String × Bool × Expected) → List String → Bool → Cursor →
    Except ReadFault (List (String × Value) × Cursor)
  | 0, _, _, _, _, _ => .error .malformed
  | fuel + 1, depth, fields, seen, first, before => do
      match ← nextPart first '\x7d' before with
      | none =>
          if fields.any fun f => f.2.1 && !seen.contains f.1 then throw .mismatch
          return ([], before.skipBlank.skip 1)
      | some c =>
          let (name, c) ← fieldName c
          match fields.lookup name with
          | none =>
              let some c := (← colon c).passOver? | throw .malformed
              checkFields fuel depth fields seen false c
          | some (_, expected) =>
              if seen.contains name then throw .mismatch
              let (v, c) ← check fuel depth expected (← colon c)
              let (found, c) ← checkFields fuel depth fields (name :: seen) false c
              return ((name, v) :: found, c)

/-- Reads the rest of a list that stands for a record. -/
def checkItems : Nat → Nat → List (String × Bool × Expected) → Bool → Cursor →
    Except ReadFault (List Value × Cursor)
  | 0, _, _, _, _ => .error .malformed
  | fuel + 1, depth, fields, first, before => do
      match fields with
      | [] =>
          let c := before.skipBlank
          match c.rest with
          | ']' :: _ => return ([], c.skip 1)
          | _ => throw .malformed
      | (_, required, expected) :: rest =>
          match ← nextPart first ']' before with
          | none => if required then throw .mismatch else return ([], before.skipBlank.skip 1)
          | some c =>
              let (v, c) ← check fuel depth expected c
              let (items, c) ← checkItems fuel depth rest false c
              return (v :: items, c)

end

def readFirst (expected : Expected) (s : String) : Except ReadFault (Value × Cursor) :=
  expected.check (2 * s.length + 8) 128 ⟨0, s.toList⟩

def read? (expected : Expected) (s : String) : Option Value :=
  match expected.readFirst s with
  | .ok (v, after) => if after.skipBlank.rest.isEmpty then some v else none
  | .error _ => none

end Expected

end JsxPreview.Json
