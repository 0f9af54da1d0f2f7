/-! # Binary floating point

A double is a word of sixty-four bits: a sign, and a magnitude whose order as a number is the order
of what it stands for.  A finite magnitude stands for `significand * 2 ^ scale / 2 ^ 1074`.
Arithmetic is exact on such fractions and then rounds once, to the nearest double, ties to the even
significand (`ofRatio`). -/
set_option autoImplicit false
namespace JsxPreview

structure Double where
  bits : UInt64
deriving DecidableEq, Repr

namespace Double

/-- The magnitude of infinity; those above are not numbers. -/
def infinite : Nat := 0x7ff * Nat.pow 2 52

def ofMagnitude (negative : Bool) (magnitude : Nat) : Double :=
  ⟨UInt64.ofNat (min magnitude (Nat.pow 2 63 - 1) + if negative then Nat.pow 2 63 else 0)⟩

def isNegative (x : Double) : Bool := Nat.pow 2 63 ≤ x.bits.toNat

def magnitude (x : Double) : Nat := x.bits.toNat % Nat.pow 2 63

def isFinite (x : Double) : Bool := x.magnitude < infinite

def isNaN (x : Double) : Bool := infinite < x.magnitude

def nan : Double := ofMagnitude false (infinite + Nat.pow 2 51)

def zero : Double := ofMagnitude false 0

def isZero (x : Double) : Bool := x.magnitude == 0

def significand (x : Double) : Nat :=
  if x.magnitude < Nat.pow 2 52 then x.magnitude else x.magnitude % Nat.pow 2 52 + Nat.pow 2 52

def scale (x : Double) : Nat := x.magnitude / Nat.pow 2 52 - 1

/-- The absolute value in units of the least positive double. -/
def units (x : Double) : Nat := x.significand * Nat.pow 2 x.scale

/-- The quotient rounded to the nearest natural number, ties to the even one. -/
def roundDiv (num den : Nat) : Nat :=
  let q := num / den
  let r := num % den
  if 2 * r < den then q else if den < 2 * r then q + 1 else q + q % 2

def magnitudeOfRatio (num den : Nat) : Nat :=
  let scaled := num * Nat.pow 2 1074
  let scale := Nat.log2 (scaled / den) - 52
  min (scale * Nat.pow 2 52 + roundDiv scaled (den * Nat.pow 2 scale)) infinite

def ofRatio (negative : Bool) (num den : Nat) : Double :=
  ofMagnitude negative (magnitudeOfRatio num den)

def ofNat (n : Nat) : Double := ofRatio false n 1

def ofInt (n : Int) : Double := ofRatio (n < 0) n.natAbs 1

def neg (x : Double) : Double := ofMagnitude (!x.isNegative) x.magnitude

def mul (x y : Double) : Double :=
  ofRatio (x.isNegative != y.isNegative) (x.units * y.units) (Nat.pow 2 2148)

/-- The quotient of finite doubles, where the divisor is not zero. -/
def div (x y : Double) : Double :=
  ofRatio (x.isNegative != y.isNegative) x.units y.units

def twice (x : Double) : Double :=
  if x.isFinite then ofRatio x.isNegative (2 * x.units) (Nat.pow 2 1074) else x

def toInt? (x : Double) : Option Int :=
  if x.isFinite && x.units % Nat.pow 2 1074 == 0 then
    let n : Int := x.units / Nat.pow 2 1074
    some (if x.isNegative then -n else n)
  else none

/-- The whole part, with the fraction cut off; what is not a number, and infinity, give none. -/
def truncate? (x : Double) : Option Int :=
  if x.isFinite then
    let n : Int := x.units / Nat.pow 2 1074
    some (if x.isNegative then -n else n)
  else none

end Double

/-! ## Decimal text of doubles

`shortest` gives the fewest decimal digits that still round to a magnitude, and of those the nearest
to it.  A `Style` says how digits and an exponent are laid out. -/

/-- The value `0.d₁d₂… * 10 ^ exponent`, where the first digit is not zero. -/
structure Decimal where
  digits : List Char
  exponent : Int
deriving DecidableEq, Repr

namespace Decimal

/-- The decimal `n * 10 ^ exponent` without the zeros at its end. -/
def ofNat (n : Nat) (exponent : Int) : Decimal :=
  let digits := Nat.toDigits 10 n
  ⟨(digits.reverse.dropWhile (· == '0')).reverse, digits.length + exponent⟩

end Decimal

namespace Double

/-- The real numbers that round to a finite double other than zero, in quarters of a unit: the
least, the double itself, and the greatest. -/
def interval (x : Double) : Nat × Nat × Nat :=
  let unit := Nat.pow 2 x.scale
  let center := 4 * x.units
  let below := if x.significand = Nat.pow 2 52 ∧ 0 < x.scale then unit else 2 * unit
  (center - below, center, center + 2 * unit)

/-- The number of digits in front of the point; not positive when zeros follow it. -/
def leadingPlace (x : Double) : Int :=
  (Nat.toDigits 10 (x.units * Nat.pow 10 400 / Nat.pow 2 1074)).length - 400

/-- Looks for a decimal with the last place at `10 ^ place` that rounds to the double. -/
def onGrid? (x : Double) (place : Int) : Option Nat :=
  let (low, center, high) := x.interval
  -- all sizes in units of `10 ^ -400 / 2 ^ 1076`
  let step := Nat.pow 10 (place + 400).toNat * Nat.pow 2 1076
  let low := low * Nat.pow 10 400
  let center := center * Nat.pow 10 400
  let high := high * Nat.pow 10 400
  let isEven := x.significand % 2 == 0
  let n := center / step
  let hit (m : Nat) : Bool :=
    if isEven then low ≤ m * step && m * step ≤ high else low < m * step && m * step < high
  let isNearer := center - n * step < (n + 1) * step - center ||
    (center - n * step == (n + 1) * step - center && n % 2 == 0)
  if hit n && (!hit (n + 1) || isNearer) then some n
  else if hit (n + 1) then some (n + 1)
  else none

/-- The decimal of `count` digits or more that is found first, with `fuel` more tries. -/
def shortestFrom (x : Double) (top : Int) : Nat → Nat → Decimal
  | 0, _ => ⟨['0'], 0⟩
  | fuel + 1, count =>
      match x.onGrid? (top - count) with
      | some n => Decimal.ofNat n (top - count)
      | none => shortestFrom x top fuel (count + 1)

def shortest (x : Double) : Decimal := x.shortestFrom x.leadingPlace 17 1

end Double

structure DecimalStyle where
  /-- The greatest and the least exponent that are written with a point alone. -/
  maxPlain : Int
  minPlain : Int
  wholeMark : String
  /-- What stands in front of an exponent that is not negative. -/
  plusMark : String

namespace DecimalStyle

def script : DecimalStyle := ⟨21, -5, "", "+"⟩

/-- The layout of numbers in JSON text, where a point or an exponent marks a double. -/
def json : DecimalStyle := ⟨16, -4, ".0", ""⟩

def layOut (s : DecimalStyle) (d : Decimal) : String :=
  let n := d.digits.length
  let digits := String.ofList d.digits
  if s.minPlain ≤ d.exponent && d.exponent ≤ s.maxPlain then
    let p := d.exponent.toNat
    if d.exponent ≤ 0 then
      "0." ++ String.ofList (List.replicate (-d.exponent).toNat '0') ++ digits
    else if n ≤ p then digits ++ String.ofList (List.replicate (p - n) '0') ++ s.wholeMark
    else String.ofList (d.digits.take p) ++ "." ++ String.ofList (d.digits.drop p)
  else
    let e := d.exponent - 1
    let fraction := if n = 1 then "" else "." ++ String.ofList (d.digits.drop 1)
    String.ofList (d.digits.take 1) ++ fraction ++ "e" ++
      (if e < 0 then "-" else s.plusMark) ++ toString e.natAbs

def write (s : DecimalStyle) (x : Double) : String :=
  (if x.isNegative then "-" else "") ++
    if x.isZero then "0" ++ s.wholeMark else s.layOut x.shortest

end DecimalStyle

def Double.toText (x : Double) : String :=
  if x.isNaN then "NaN"
  else if x.isZero then "0"
  else if x.isFinite then DecimalStyle.script.write x
  else if x.isNegative then "-Infinity"
  else "Infinity"

end JsxPreview
