import JsxPreview.Source.Error
import JsxPreview.Source.Token
import JsxPreview.Text.Utf8

/-! # The significant tokens of a stretch of source

Statements and types are read from a row of tokens without its comments, by index.  Beyond its end a
row answers as if the source ended there: the text is empty and the place is the end of the source. -/
set_option autoImplicit false
namespace JsxPreview.Source

open JsxPreview.Text

structure TokenRow where
  tokens : Array Token
  /-- The byte offsets of the line feeds of the source. -/
  lineFeeds : List Nat
  /-- The length of the source in bytes. -/
  length : Nat

def lineFeedsFrom (n : Nat) : List Char → List Nat
  | [] => []
  | c :: s =>
      if c = '\n' then n :: lineFeedsFrom (n + c.utf8Size) s else lineFeedsFrom (n + c.utf8Size) s

namespace TokenRow

def ofTokens (source : List Char) (tokens : List Token) : TokenRow where
  tokens := (tokens.filter (!·.isComment)).toArray
  lineFeeds := lineFeedsFrom 0 source
  length := byteLength source

def nested (row : TokenRow) (tokens : List Token) : TokenRow :=
  { row with tokens := (tokens.filter (!·.isComment)).toArray }

def size (row : TokenRow) : Nat := row.tokens.size

def get? (row : TokenRow) (i : Nat) : Option Token := row.tokens[i]?

def shape? (row : TokenRow) (i : Nat) : Option Shape := (row.get? i).map Token.shape

def text (row : TokenRow) (i : Nat) : String := ((row.get? i).map Token.text).getD ""

def start (row : TokenRow) (i : Nat) : Nat := ((row.get? i).map Token.start).getD row.length

def stop (row : TokenRow) (i : Nat) : Nat := ((row.get? i).map Token.stop).getD row.length

def isPunct (row : TokenRow) (i : Nat) (p : String) : Bool :=
  (row.get? i).any fun t => t.isPunct && t.text == p

def isWord (row : TokenRow) (i : Nat) (w : String) : Bool :=
  (row.get? i).any fun t => t.isWord && t.text == w

def isAnyPunct (row : TokenRow) (i : Nat) : Bool := (row.get? i).any Token.isPunct

def isAnyWord (row : TokenRow) (i : Nat) : Bool := (row.get? i).any Token.isWord

def isStr (row : TokenRow) (i : Nat) : Bool := (row.get? i).any Token.isStr

def isNumber (row : TokenRow) (i : Nat) : Bool := (row.get? i).any Token.isNumber

def found (row : TokenRow) (i : Nat) : Option String := (row.get? i).map Token.text

def fail {α : Type} (row : TokenRow) (i : Nat) (cause : SyntaxError.Cause) :
    Except SyntaxError α :=
  .error ⟨cause, row.start i⟩

/-- Whether a line ends between two places of the source. -/
def breakBetween (row : TokenRow) (start stop : Nat) : Bool :=
  row.lineFeeds.any fun n => start ≤ n && n < stop

/-- Whether a line ends right in front of a token that is not the first one. -/
def breakBefore (row : TokenRow) : Nat → Bool
  | 0 => false
  | i + 1 => match row.get? i, row.get? (i + 1) with
      | some before, some token => row.breakBetween before.stop token.start
      | _, _ => false

def opensBracket (row : TokenRow) (i : Nat) : Bool :=
  (row.get? i).any fun t => t.isPunct && (t.text == "(" || t.text == "[" || t.text == "\x7b")

def closesBracket (row : TokenRow) (i : Nat) : Bool :=
  (row.get? i).any fun t => t.isPunct && (t.text == ")" || t.text == "]" || t.text == "\x7d")

/-- The bracket that closes the ones open in front of token `i`, among `n` tokens. -/
def closing (row : TokenRow) : Nat → Nat → Nat → Option Nat
  | 0, _, _ => none
  | n + 1, depth, i =>
      if row.opensBracket i then closing row n (depth + 1) (i + 1)
      else if row.closesBracket i then
        match depth with
        | 0 => none
        | 1 => some i
        | d + 2 => closing row n (d + 1) (i + 1)
      else closing row n depth (i + 1)

/-- The bracket that closes the one at `i`, if it stands before token `stop`. -/
def matching (row : TokenRow) (i stop : Nat) : Option Nat :=
  row.closing (min stop row.size - i) 0 i

/-- The first comma outside brackets among `n` tokens from `i` on, or the end of them; a bracket
that was opened earlier ends the search when `bounded`. -/
def commaFrom (row : TokenRow) (bounded : Bool) : Nat → Nat → Nat → Nat
  | 0, _, i => i
  | n + 1, depth, i =>
      if row.opensBracket i then commaFrom row bounded n (depth + 1) (i + 1)
      else if row.closesBracket i then
        if bounded && depth == 0 then i else commaFrom row bounded n (depth - 1) (i + 1)
      else if depth == 0 && row.isPunct i "," then i
      else commaFrom row bounded n depth (i + 1)

end TokenRow

end JsxPreview.Source
