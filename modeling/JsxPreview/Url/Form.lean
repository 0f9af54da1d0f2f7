import JsxPreview.Text.Bytes
import JsxPreview.Text.Lines
import JsxPreview.Text.Split

/-! # Percent escapes

The parts of a URL escape the bytes of different characters; none leaves a control character or one
beyond ASCII as it is.  `unescape` reads escapes of two hexadecimal digits and keeps every other
percent sign. -/
set_option autoImplicit false
namespace JsxPreview.Url

def isControl (c : Char) : Bool := c.toNat < 0x20 || c.toNat ≥ 0x7F

def inFragment (c : Char) : Bool := isControl c || " \"<>\x60".contains c

def inQuery (c : Char) : Bool := isControl c || " \"#<>".contains c

def inSpecialQuery (c : Char) : Bool := inQuery c || c == '\''

def inPath (c : Char) : Bool := inFragment c || "#?\x7b\x7d".contains c

def inUserinfo (c : Char) : Bool := inPath c || "/:;=@[\\]^|".contains c

def inFileSegment (c : Char) : Bool := inPath c || "/%\\".contains c

def upperHexDigit (n : Nat) : Char := (Nat.digitChar n).toUpper

def escapeByte (b : UInt8) : List Char :=
  ['%', upperHexDigit (b.toNat / 16), upperHexDigit (b.toNat % 16)]

def escapeChar (needs : Char → Bool) (c : Char) : List Char :=
  if needs c then (String.utf8EncodeChar c).flatMap escapeByte else [c]

def escape (needs : Char → Bool) (s : List Char) : List Char := s.flatMap (escapeChar needs)

/-! ## Query strings

A query string lists pairs of a name and a value.  A space is written as a plus sign; letters, digits
and four marks stand for themselves, all other bytes are escaped. -/

open JsxPreview.Text

/-- The bytes of a text with its escapes resolved; a percent sign without two digits behind it
stands for itself. -/
def unescapeBytes : List Char → List UInt8
  | '%' :: a :: b :: rest =>
      match digitValue a, digitValue b with
      | some high, some low => UInt8.ofNat (high * 16 + low) :: unescapeBytes rest
      | _, _ => 0x25 :: unescapeBytes (a :: b :: rest)
  | c :: rest => String.utf8EncodeChar c ++ unescapeBytes rest
  | [] => []
termination_by s => s.length

namespace Form

def isPlain (c : Char) : Bool := c.isAlphanum || "*-._".contains c

def encodeChar (c : Char) : List Char :=
  if c = ' ' then ['+'] else escapeChar (!isPlain ·) c

def encode (s : List Char) : List Char := s.flatMap encodeChar

def decode (s : List Char) : List Char :=
  decodeUtf8 (unescapeBytes (s.map fun c => if c = '+' then ' ' else c))

def encodePair (pair : List Char × List Char) : List Char :=
  encode pair.1 ++ '=' :: encode pair.2

def serialize (pairs : List (List Char × List Char)) : List Char :=
  joinWith ['&'] (pairs.map encodePair)

/-- A pair ends its name at the first equals sign. -/
def decodePair (s : List Char) : List Char × List Char :=
  (decode (s.takeWhile (· ≠ '=')), decode (s.dropWhile (· ≠ '=')).tail)

/-- The pairs of a query string; empty parts are passed over. -/
def parse (s : List Char) : List (List Char × List Char) :=
  ((splitOn '&' s).filter (!·.isEmpty)).map decodePair

end Form

/-! ## Queries

A query is a list of pairs; names may repeat.  Setting a name leaves one pair of it, where the first one
stood, and sorting goes by the UTF-16 units of the names. -/

structure Query where
  pairs : List (String × String) := []
deriving DecidableEq, Repr

namespace Query

def ofPairs (pairs : List (List Char × List Char)) : Query :=
  ⟨pairs.map fun p => (String.ofList p.1, String.ofList p.2)⟩

/-- Reads a query, which a question mark may begin. -/
def parse (s : String) : Query :=
  match s.toList with
  | '?' :: rest => ofPairs (Form.parse rest)
  | s => ofPairs (Form.parse s)

def text (q : Query) : String :=
  String.ofList (Form.serialize (q.pairs.map fun p => (p.1.toList, p.2.toList)))

def append (q : Query) (name value : String) : Query := ⟨q.pairs ++ [(name, value)]⟩

def delete (q : Query) (name : String) : Query := ⟨q.pairs.filter (·.1 != name)⟩

def get? (q : Query) (name : String) : Option String := q.pairs.lookup name

def getAll (q : Query) (name : String) : List String :=
  (q.pairs.filter (·.1 == name)).map (·.2)

def setPairs (name value : String) : List (String × String) → List (String × String)
  | [] => [(name, value)]
  | p :: rest =>
      if p.1 = name then (name, value) :: rest.filter (·.1 != name)
      else p :: setPairs name value rest

def set (q : Query) (name value : String) : Query := ⟨setPairs name value q.pairs⟩

def sort (q : Query) : Query := ⟨q.pairs.mergeSort fun a b => comesBefore a.1 b.1⟩

end Query

end JsxPreview.Url
