import JsxPreview.Text.Characters

/-! # Texts as bytes

`encodeUtf8` writes a text as UTF-8, and `decodeUtf8` reads any bytes: each longest start of a
character that is not completed becomes one replacement character. -/
set_option autoImplicit false
namespace JsxPreview.Text

def encodeUtf8 (s : List Char) : List UInt8 := s.flatMap String.utf8EncodeChar

def replacementChar : Char := '\ufffd'

def byteIn (low high : Nat) (b : UInt8) : Bool := low ≤ b.toNat && b.toNat ≤ high

/-- The bytes that may follow the first byte of a character: how many of them, and the range of the
first. -/
def followers (b : UInt8) : Nat × Nat × Nat :=
  if byteIn 0xC2 0xDF b then (1, 0x80, 0xBF)
  else if b == 0xE0 then (2, 0xA0, 0xBF)
  else if b == 0xED then (2, 0x80, 0x9F)
  else if byteIn 0xE1 0xEF b then (2, 0x80, 0xBF)
  else if b == 0xF0 then (3, 0x90, 0xBF)
  else if b == 0xF4 then (3, 0x80, 0x8F)
  else if byteIn 0xF1 0xF3 b then (3, 0x80, 0xBF)
  else (0, 0, 0)

/-- The bytes at the front that continue a character: at most `count`, the first in a range of its
own. -/
def continuation (count low high : Nat) (rest : List UInt8) : List UInt8 :=
  match count, rest with
  | n + 1, b :: rest => if byteIn low high b then b :: continuation n 0x80 0xBF rest else []
  | _, _ => []

/-- The value of a first byte of a character with `count` bytes behind it. -/
def leadValue (count : Nat) (b : UInt8) : Nat := b.toNat % Nat.pow 2 (6 - count)

/-- The character that starts with `b`, and how many bytes behind `b` belong to it. -/
def decodeChar (b : UInt8) (rest : List UInt8) : Char × Nat :=
  if b.toNat < 0x80 then (Char.ofNat b.toNat, 0)
  else
    let (count, low, high) := followers b
    let tail := continuation count low high rest
    if count ≠ 0 ∧ tail.length = count then
      (Char.ofNat (tail.foldl (fun n b => n * 64 + b.toNat % 64) (leadValue count b)), count)
    else (replacementChar, tail.length)

/-- Passes over `skip` bytes, then reads characters. -/
def decodeFrom (skip : Nat) : List UInt8 → List Char
  | [] => []
  | b :: rest =>
      match skip with
      | n + 1 => decodeFrom n rest
      | 0 =>
          let (c, extra) := decodeChar b rest
          c :: decodeFrom extra rest

def decodeUtf8 (bytes : List UInt8) : List Char := decodeFrom 0 bytes

end JsxPreview.Text
