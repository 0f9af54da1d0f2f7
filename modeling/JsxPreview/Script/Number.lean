import JsxPreview.Script.Text
import JsxPreview.Text.Characters

/-! # Values as numbers

A text stands for the number that is written in it, with space around it: a decimal, a whole number
behind a mark for its base, or infinity.  No text at all stands for zero.  Lists and objects count
through their text. -/
set_option autoImplicit false
namespace JsxPreview.Script

open JsxPreview.Text

/-- A decimal: digits, digits behind a point, and an exponent. -/
def decimalNumber (negative : Bool) (digits fraction : List Char) (exponent : Int) : Double :=
  let significand := (readDigits 10 0 (digits ++ fraction)).getD 0
  let scale := exponent - fraction.length
  let size := scale + (digits.length + fraction.length : Nat)
  if significand = 0 || size < -400 then .ofMagnitude negative 0
  else if size > 400 + (digits.length + fraction.length : Nat) then
    .ofMagnitude negative Double.infinite
  else if 0 ≤ scale then .ofRatio negative (significand * Nat.pow 10 scale.toNat) 1
  else .ofRatio negative significand (Nat.pow 10 scale.natAbs)

def readExponent? : List Char → Option Int
  | [] => some 0
  | c :: s =>
      if c ≠ 'e' && c ≠ 'E' then none
      else
        let (negative, digits) := match s with
          | '-' :: digits => (true, digits)
          | '+' :: digits => (false, digits)
          | digits => (false, digits)
        if digits.isEmpty || !digits.all Char.isDigit then none
        else do
          let n ← readDigits 10 0 digits
          return if negative then -(n : Int) else n

def readDecimal? (negative : Bool) (s : List Char) : Option Double :=
  let digits := s.takeWhile Char.isDigit
  let (fraction, rest) := match s.drop digits.length with
    | '.' :: rest => (rest.takeWhile Char.isDigit, rest.dropWhile Char.isDigit)
    | rest => ([], rest)
  if digits.isEmpty && fraction.isEmpty then none
  else do return decimalNumber negative digits fraction (← readExponent? rest)

def readSigned? (negative : Bool) (s : List Char) : Option Double :=
  if s = "Infinity".toList then some (.ofMagnitude negative Double.infinite)
  else readDecimal? negative s

def readBased? (base : Nat) (digits : List Char) : Option Double :=
  if digits.isEmpty then none else Double.ofNat <$> readDigits base 0 digits

def numberOfText (text : String) : Double :=
  let number : Option Double := match stripSpace text.toList with
    | [] => some .zero
    | '-' :: s => readSigned? true s
    | '+' :: s => readSigned? false s
    | '0' :: c :: s =>
        if c.toLower = 'x' then readBased? 16 s
        else if c.toLower = 'o' then readBased? 8 s
        else if c.toLower = 'b' then readBased? 2 s
        else readSigned? false ('0' :: c :: s)
    | s => readSigned? false s
  number.getD .nan

namespace Value

def toNumber : Value → Except Value Double
  | .undefined => .ok .nan
  | .null => .ok .zero
  | .bool b => .ok (if b then .ofNat 1 else .zero)
  | .number x => .ok x
  | .symbol _ => .error (typeError "cannot convert symbol to number")
  | v => do return numberOfText (← v.asText)

def toByte (v : Value) : Except Value UInt8 := do
  return match (← v.toNumber).truncate? with
    | some n => UInt8.ofNat (n.emod 256).toNat
    | none => 0

/-- The whole part of a number, where infinity lies outside of a length. -/
def toWhole (bound : Nat) (v : Value) : Except Value Int := do
  let x ← v.toNumber
  return match x.truncate? with
    | some n => n
    | none => if x.isNaN then 0 else if x.isNegative then -bound - 1 else bound + 1

/-- A place in a list of some length: a negative number counts from the end. -/
def toPlace (length : Nat) (v : Value) : Except Value Nat := do
  let n ← v.toWhole length
  return if n < 0 then (n + length).toNat else min n.toNat length

def twice : Value → Except Value Value
  | .undefined => .ok (.number .nan)
  | .null => .ok (.number .zero)
  | .bool b => .ok (.number (if b then .ofNat 2 else .zero))
  | .number x => .ok (.number x.twice)
  | v => do
      let s ← v.asText
      return .text (s ++ s)

end Value

end JsxPreview.Script
