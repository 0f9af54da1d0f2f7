import JsxPreview.Text.Split
import JsxPreview.Text.Utf8

/-! # Lines and columns

A place in a text is a byte offset, or a line and a column that both count from zero; a column
counts UTF-16 units.  Lines end at a line feed.  `position` and `offset` go from one to the other:
an offset past the end means the end, one that falls inside a character means the first column of
its line, and a line or column that does not exist means the end of the text or of the line. -/
set_option autoImplicit false
namespace JsxPreview.Text

/-- Number of UTF-16 units of a character. -/
def units (c : Char) : Nat := if c.toNat < 0x10000 then 1 else 2

/-- Number of UTF-16 units of a text. -/
def unitLength : List Char → Nat
  | [] => 0
  | c :: s => units c + unitLength s

@[simp] theorem unitLength_append (s t : List Char) :
    unitLength (s ++ t) = unitLength s + unitLength t := by
  induction s with
  | nil => simp [unitLength]
  | cons c s ih => simp [unitLength, ih, Nat.add_assoc]

structure Position where
  line : Nat
  column : Nat
deriving DecidableEq, Repr

namespace Position

def origin : Position := ⟨0, 0⟩

def after (p : Position) (c : Char) : Position :=
  if c = '\n' then ⟨p.line + 1, 0⟩ else ⟨p.line, p.column + units c⟩

def advance (p : Position) (s : List Char) : Position := s.foldl after p

@[simp] theorem advance_nil (p : Position) : p.advance [] = p := rfl

@[simp] theorem advance_cons (p : Position) (c : Char) (s : List Char) :
    p.advance (c :: s) = (p.after c).advance s := rfl

@[simp] theorem advance_append (p : Position) (s t : List Char) :
    p.advance (s ++ t) = (p.advance s).advance t := List.foldl_append

end Position

/-- The position of byte `n` of a text that starts at `p`. -/
def positionFrom (p : Position) (n : Nat) : List Char → Position
  | [] => p
  | c :: s =>
      if n = 0 then p
      else if n < c.utf8Size then ⟨p.line, 0⟩
      else positionFrom (p.after c) (n - c.utf8Size) s

def position (n : Nat) (s : List Char) : Position := positionFrom .origin n s

/-- A place behind `s` is found from the position behind `s`. -/
theorem positionFrom_append (p : Position) (n : Nat) (s t : List Char) :
    positionFrom p (byteLength s + n) (s ++ t) = positionFrom (p.advance s) n t := by
  induction s generalizing p with
  | nil => simp
  | cons c s ih =>
      have := c.utf8Size_pos
      simp only [List.cons_append, byteLength_cons, positionFrom, Position.advance_cons]
      rw [if_neg (by omega), if_neg (by omega), Nat.add_assoc, Nat.add_sub_cancel_left, ih]

/-- Between two characters the position is that behind everything in front. -/
theorem positionFrom_byteLength (p : Position) (s t : List Char) :
    positionFrom p (byteLength s) (s ++ t) = p.advance s := by
  rw [← Nat.add_zero (byteLength s), positionFrom_append]
  cases t <;> simp [positionFrom]

/-- The bytes of a line in front of a column. -/
def offsetInLine (column : Nat) : List Char → Nat
  | [] => 0
  | c :: s =>
      if column = 0 ∨ c = '\n' then 0 else c.utf8Size + offsetInLine (column - units c) s

/-- The byte offset of a line and column. -/
def offset (line column : Nat) : List Char → Nat
  | [] => 0
  | c :: s =>
      match line with
      | 0 => offsetInLine column (c :: s)
      | n + 1 => c.utf8Size + offset (if c = '\n' then n else n + 1) column s

/-- A line without the carriage return that stands in front of its line feed. -/
def dropReturn (line : List Char) : List Char :=
  if line.getLast? = some '\r' then line.dropLast else line

/-- The lines of a text without what ends them; nothing follows the last line feed. -/
def lines (s : List Char) : List (List Char) :=
  let parts := splitOn '\n' s
  let ended := parts.dropLast.map dropReturn
  match parts.getLast? with
  | some [] | none => ended
  | some rest => ended ++ [rest]

/-! ## Texts as UTF-16 units

`toUnits` writes a character outside the basic plane as a pair of surrogates and `ofUnits` reads such
pairs back; a surrogate without its partner is read as the replacement character.  Texts are ordered
by their units, which differs from the order by code points above the surrogates. -/

def toUnits : List Char → List UInt16
  | [] => []
  | c :: s =>
      if c.toNat < 0x10000 then UInt16.ofNat c.toNat :: toUnits s
      else
        UInt16.ofNat (0xd800 + (c.toNat - 0x10000) / 0x400) ::
          UInt16.ofNat (0xdc00 + (c.toNat - 0x10000) % 0x400) :: toUnits s

def isHighSurrogate (u : UInt16) : Bool := 0xd800 ≤ u && u < 0xdc00

def isLowSurrogate (u : UInt16) : Bool := 0xdc00 ≤ u && u < 0xe000

/-- The character of a unit that stands alone. -/
def charOfUnit (u : UInt16) : Char :=
  if isHighSurrogate u || isLowSurrogate u then '\ufffd' else Char.ofNat u.toNat

def ofUnits : List UInt16 → List Char
  | [] => []
  | [u] => [charOfUnit u]
  | u :: v :: rest =>
      if isHighSurrogate u && isLowSurrogate v then
        Char.ofNat (0x10000 + (u.toNat - 0xd800) * 0x400 + (v.toNat - 0xdc00)) :: ofUnits rest
      else charOfUnit u :: ofUnits (v :: rest)

def unitsLe : List UInt16 → List UInt16 → Bool
  | [], _ => true
  | _ :: _, [] => false
  | u :: s, v :: t => u < v || (u == v && unitsLe s t)

def comesBefore (a b : String) : Bool := unitsLe (toUnits a.toList) (toUnits b.toList)

end JsxPreview.Text
