import JsxPreview.Text.Bytes

/-! # Decoding UTF-8 in chunks

A decoder is fed chunks.  While more is to come, the bytes at the end that may begin a character are held
back (`heldBack`); the last chunk leaves nothing behind.  A byte-order mark at the start of what one chunk
gives is dropped, unless the decoder keeps marks. -/
set_option autoImplicit false
namespace JsxPreview.Codec

open JsxPreview.Text

structure StreamDecoder where
  keepsMark : Bool := false
  pending : List UInt8 := []
deriving DecidableEq, Repr

namespace StreamDecoder

/-- The number of bytes of the character that a lead byte begins. -/
def lengthFrom (b : UInt8) : Nat := if 0xf0 ≤ b then 4 else if 0xe0 ≤ b then 3 else 2

/-- How many of the bytes, given from the last, are held back: those from a lead byte on that has too few
bytes behind it.  `seen` counts the bytes behind, and at most three bytes are looked at. -/
def heldBack (seen : Nat) : List UInt8 → Nat
  | [] => 0
  | b :: before =>
      if 3 ≤ seen then 0
      else if 0xc0 ≤ b then (if seen + 1 < lengthFrom b then seen + 1 else 0)
      else if b < 0x80 then 0
      else heldBack (seen + 1) before

def dropMark (s : List Char) : List Char :=
  match s with
  | '\ufeff' :: rest => rest
  | s => s

/-- Decodes a chunk; `more` says whether others will follow. -/
def decode (d : StreamDecoder) (chunk : List UInt8) (more : Bool) : List Char × StreamDecoder :=
  let bytes := d.pending ++ chunk
  let cut := if more then bytes.length - heldBack 0 bytes.reverse else bytes.length
  let text := decodeUtf8 (bytes.take cut)
  (if d.keepsMark then text else dropMark text, { d with pending := bytes.drop cut })

end StreamDecoder

end JsxPreview.Codec
