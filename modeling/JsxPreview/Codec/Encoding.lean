import JsxPreview.Text.Bytes
import JsxPreview.Text.Characters
import JsxPreview.Text.Lines
import JsxPreview.Text.Lowercase

/-! # Encodings of text

An encoding turns a text, as a list of UTF-16 units, into bytes and back.  Some spell bytes with a few
characters, so that any bytes have a text; the others give each character its bytes. -/
set_option autoImplicit false

/-! ## Bytes in hexadecimal

A byte is written with two digits in lower case.  Reading goes on while pairs denote a byte, where a
plus sign may stand in front of a single digit. -/
namespace JsxPreview.Codec.Hex

open JsxPreview.Text

def encodeByte (b : UInt8) : List Char :=
  [Nat.digitChar (b.toNat / 16), Nat.digitChar (b.toNat % 16)]

def encode (bytes : List UInt8) : List Char := bytes.flatMap encodeByte

def decode : List Char → List UInt8
  | a :: b :: rest =>
      match readUnsigned 16 256 [a, b] with
      | some n => UInt8.ofNat n :: decode rest
      | none => []
  | _ => []

end JsxPreview.Codec.Hex

/-! ## Bytes in base 64

Three bytes are written with four digits, and what is left over is padded.  Reading is lenient about
the alphabet, white space and padding, but refuses any other character, a single digit left over, and
bits that are left over but not zero; it then yields nothing. -/
namespace JsxPreview.Codec.Base64

open JsxPreview.Text

def digits : List Char :=
  "ABCDEFGHIJKLMNOPQRSTUVWXYZabcdefghijklmnopqrstuvwxyz0123456789+/".toList

def digit (n : Nat) : Char := digits.getD n 'A'

def encode : List UInt8 → List Char
  | [] => []
  | [a] => [digit (a.toNat / 4), digit (a.toNat % 4 * 16), '=', '=']
  | [a, b] =>
      [digit (a.toNat / 4), digit (a.toNat % 4 * 16 + b.toNat / 16), digit (b.toNat % 16 * 4), '=']
  | a :: b :: c :: rest =>
      [digit (a.toNat / 4), digit (a.toNat % 4 * 16 + b.toNat / 16),
        digit (b.toNat % 16 * 4 + c.toNat / 64), digit (c.toNat % 64)] ++ encode rest

/-- The value of a digit; the last two may be written in the form for URLs. -/
def digitValue? (c : Char) : Option Nat :=
  if c = '-' then some 62
  else if c = '_' then some 63
  else if digits.contains c then some (digits.idxOf c)
  else none

def decodeDigits : List Nat → Option (List UInt8)
  | [] => some []
  | [_] => none
  | [a, b] => if b % 16 = 0 then some [UInt8.ofNat (a * 4 + b / 16)] else none
  | [a, b, c] =>
      if c % 4 = 0 then
        some [UInt8.ofNat (a * 4 + b / 16), UInt8.ofNat (b % 16 * 16 + c / 4)]
      else none
  | a :: b :: c :: d :: rest => do
      return [UInt8.ofNat (a * 4 + b / 16), UInt8.ofNat (b % 16 * 16 + c / 4),
        UInt8.ofNat (c % 4 * 64 + d)] ++ (← decodeDigits rest)

def decode (s : List Char) : List UInt8 :=
  let kept := s.filter fun c => !isBlank c && c != '='
  ((kept.mapM digitValue?) >>= decodeDigits).getD []

end JsxPreview.Codec.Base64

/-! ## Encodings -/
namespace JsxPreview.Codec

open JsxPreview.Text

inductive Encoding where
  | utf8
  | base64
  | base64url
  | hex
  | ascii
  | latin1
  | utf16le
deriving DecidableEq, Repr

namespace Encoding

def ofName? (name : String) : Option Encoding :=
  match lower name with
  | "utf8" | "utf-8" => some utf8
  | "base64" => some base64
  | "base64url" => some base64url
  | "hex" => some hex
  | "ascii" => some ascii
  | "latin1" | "binary" => some latin1
  | "ucs2" | "ucs-2" | "utf16le" | "utf-16le" => some utf16le
  | _ => none

def lowByte (u : UInt16) : UInt8 := UInt8.ofNat (u.toNat % 256)

def highByte (u : UInt16) : UInt8 := UInt8.ofNat (u.toNat / 256)

/-- The bytes of a text; a text that an encoding of bytes does not know stands for fewer or none. -/
def encode (e : Encoding) (s : List UInt16) : List UInt8 :=
  match e with
  | utf8 => encodeUtf8 (ofUnits s)
  | base64 | base64url => Base64.decode (ofUnits s)
  | hex => Hex.decode (ofUnits s)
  | ascii | latin1 => s.map lowByte
  | utf16le => s.flatMap fun u => [lowByte u, highByte u]

def pairUnits : List UInt8 → List UInt16
  | a :: b :: rest => UInt16.ofNat (a.toNat + b.toNat * 256) :: pairUnits rest
  | _ => []

def urlForm (s : List Char) : List Char :=
  let replaced := s.map fun c => if c = '+' then '-' else if c = '/' then '_' else c
  (replaced.reverse.dropWhile (· == '=')).reverse

def decode (e : Encoding) (bytes : List UInt8) : List UInt16 :=
  match e with
  | utf8 => toUnits (decodeUtf8 bytes)
  | base64 => toUnits (Base64.encode bytes)
  | base64url => toUnits (urlForm (Base64.encode bytes))
  | hex => toUnits (Hex.encode bytes)
  | ascii => bytes.map fun b => UInt16.ofNat (b.toNat % 128)
  | latin1 => bytes.map fun b => UInt16.ofNat b.toNat
  | utf16le => pairUnits bytes

end Encoding

end JsxPreview.Codec
