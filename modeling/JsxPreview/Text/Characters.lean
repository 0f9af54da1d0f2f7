/-! # Characters and numerals

Sets of code points are given by ranges.  `readUnsigned` reads a numeral in a base of at most sixteen, with
an optional plus sign, and refuses what does not fit below a bound. -/
set_option autoImplicit false
namespace JsxPreview.Text

def inRanges (rs : List (Nat × Nat)) (n : Nat) : Bool :=
  rs.any fun r => r.1 ≤ n && n ≤ r.2

/-- The 25 code points of the property White_Space. -/
def blankRanges : List (Nat × Nat) :=
  [(0x09, 0x0D), (0x20, 0x20), (0x85, 0x85), (0xA0, 0xA0), (0x1680, 0x1680), (0x2000, 0x200A),
   (0x2028, 0x2029), (0x202F, 0x202F), (0x205F, 0x205F), (0x3000, 0x3000)]

/-- White space by the Unicode property White_Space. -/
def isBlank (c : Char) : Bool := inRanges blankRanges c.toNat

/-! ## Space in scripts

Scripts take for space the blanks of the property White_Space but the next-line character, and the
byte-order mark. -/

def isSpace (c : Char) : Bool := (isBlank c && c != '\x85') || c == '\ufeff'

def stripSpace (s : List Char) : List Char :=
  ((s.dropWhile isSpace).reverse.dropWhile isSpace).reverse

/-! ## Unsigned numerals -/

def digitValue (c : Char) : Option Nat :=
  if '0' ≤ c ∧ c ≤ '9' then some (c.toNat - '0'.toNat)
  else if 'a' ≤ c ∧ c ≤ 'f' then some (c.toNat - 'a'.toNat + 10)
  else if 'A' ≤ c ∧ c ≤ 'F' then some (c.toNat - 'A'.toNat + 10)
  else none

def readDigits (base : Nat) : Nat → List Char → Option Nat
  | n, [] => some n
  | n, c :: s => do
      let d ← digitValue c
      if d < base then readDigits base (n * base + d) s else none

/-- A numeral with an optional plus sign and at least one digit, below `bound`. -/
def readUnsigned (base bound : Nat) (s : List Char) : Option Nat := do
  let digits := match s with
    | '+' :: t => t
    | t => t
  if digits.isEmpty then none
  else (readDigits base 0 digits).filter (· < bound)

/-- The character with a given code point, when there is one. -/
def charOfCode? (n : Nat) : Option Char :=
  if h : n.isValidChar then some (Char.ofNatAux n h) else none

/-! ## Decimal digits

The digits of every script of Unicode 17 stand in runs of ten, from zero up. -/

def decimalZeros : List Nat :=
  [0x30, 0x660, 0x6F0, 0x7C0, 0x966, 0x9E6, 0xA66, 0xAE6, 0xB66, 0xBE6, 0xC66, 0xCE6, 0xD66,
   0xDE6, 0xE50, 0xED0, 0xF20, 0x1040, 0x1090, 0x17E0, 0x1810, 0x1946, 0x19D0, 0x1A80, 0x1A90,
   0x1B50, 0x1BB0, 0x1C40, 0x1C50, 0xA620, 0xA8D0, 0xA900, 0xA9D0, 0xA9F0, 0xAA50, 0xABF0,
   0xFF10, 0x104A0, 0x10D30, 0x10D40, 0x11066, 0x110F0, 0x11136, 0x111D0, 0x112F0, 0x11450,
   0x114D0, 0x11650, 0x116C0, 0x116D0, 0x116DA, 0x11730, 0x118E0, 0x11950, 0x11BF0, 0x11C50,
   0x11D50, 0x11DA0, 0x11DE0, 0x11F50, 0x16130, 0x16A60, 0x16AC0, 0x16B50, 0x16D70, 0x1CCF0,
   0x1D7CE, 0x1D7D8, 0x1D7E2, 0x1D7EC, 0x1D7F6, 0x1E140, 0x1E2F0, 0x1E4F0, 0x1E5F1, 0x1E950,
   0x1FBF0]

def isDecimal (c : Char) : Bool := decimalZeros.any fun z => z ≤ c.toNat && c.toNat < z + 10

end JsxPreview.Text
