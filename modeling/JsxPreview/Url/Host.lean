import JsxPreview.Text.Bytes
import JsxPreview.Text.Printable
import JsxPreview.Text.Split
import JsxPreview.Url.Form

/-! # Hosts

The host of a special URL is a domain in lower case, an address of four numbers, or an address of
eight groups in brackets.  Any other URL takes its host as it is, but for a few characters.  Domains
beyond ASCII are refused. -/
set_option autoImplicit false
namespace JsxPreview.Url

open JsxPreview.Text

inductive UrlError where
  | emptyHost
  | invalidDomain
  | invalidPort
  | invalidIpv4
  | invalidIpv6
  | invalidDomainCharacter
  | relativeWithoutBase
  | relativeWithOpaqueBase
  | hostOfOpaque
deriving DecidableEq, Repr

def UrlError.message : UrlError → String
  | emptyHost => "empty host"
  | invalidDomain => "invalid international domain name"
  | invalidPort => "invalid port number"
  | invalidIpv4 => "invalid IPv4 address"
  | invalidIpv6 => "invalid IPv6 address"
  | invalidDomainCharacter => "invalid domain character"
  | relativeWithoutBase => "relative URL without a base"
  | relativeWithOpaqueBase => "relative URL with a cannot-be-a-base base"
  | hostOfOpaque => "a cannot-be-a-base URL doesn’t have a host to set"

namespace Host

/-! ## Four numbers -/

/-- A number in an address: its digits, and the base they are in. -/
def splitBase : List Char → Nat × List Char
  | '0' :: 'x' :: s => (16, s)
  | '0' :: 'X' :: s => (16, s)
  | '0' :: c :: s => (8, c :: s)
  | s => (10, s)

/-- The value of a number in an address; no digits behind a mark for the base mean zero. -/
def readNumber (s : List Char) : Option Nat :=
  let (base, digits) := splitBase s
  if s.isEmpty then none else readDigits base 0 digits

/-- The parts of a domain, without an empty last one. -/
def labels (s : List Char) : List (List Char) :=
  let parts := splitOn '.' s
  if parts.getLast? = some [] ∧ parts.length > 1 then parts.dropLast else parts

/-- Whether a domain must be an address, for its last part is a number. -/
def endsInNumber (s : List Char) : Bool :=
  match (labels s).getLast? with
  | some last => !last.isEmpty && (last.all Char.isDigit || (readNumber last).isSome)
  | none => false

/-- The value, in a number of bytes, of numbers that stand for a byte each but for the last, which
stands for all the rest. -/
def joinNumbers : Nat → List Nat → Option Nat
  | width + 1, [last] => if last < Nat.pow 256 (width + 1) then some last else none
  | width + 1, n :: rest => do
      if n > 255 then none else return n * Nat.pow 256 width + (← joinNumbers width rest)
  | _, _ => none

def showIpv4 (n : Nat) : List Char :=
  joinWith ['.'] ([3, 2, 1, 0].map fun i => Nat.toDigits 10 (n / Nat.pow 256 i % 256))

def parseIpv4 (s : List Char) : Except UrlError (List Char) :=
  match (labels s).mapM readNumber >>= joinNumbers 4 with
  | some n => .ok (showIpv4 n)
  | none => .error .invalidIpv4

/-! ## Eight groups -/

def readByte (s : List Char) : Option Nat :=
  if s.isEmpty || (s.length > 1 && s.head? == some '0') then none
  else (readDigits 10 0 s).filter (· < 256)

/-- The groups between colons; the last may be an address of four numbers, which makes two. -/
def readGroups : List (List Char) → Option (List Nat)
  | [] => some []
  | part :: rest =>
      if rest.isEmpty && part.contains '.' then
        match (splitOn '.' part).mapM readByte with
        | some [a, b, c, d] => some [a * 256 + b, c * 256 + d]
        | _ => none
      else if part.isEmpty || part.length > 4 then none
      else do return (← readDigits 16 0 part) :: (← readGroups rest)

def readSide (s : List Char) : Option (List Nat) :=
  if s.isEmpty then some [] else readGroups (splitOn ':' s)

def splitDouble : List Char → Option (List Char × List Char)
  | ':' :: ':' :: s => some ([], s)
  | c :: s => (splitDouble s).map fun (a, b) => (c :: a, b)
  | [] => none

/-- The eight groups of an address; a double colon stands for one zero or more. -/
def readIpv6 (s : List Char) : Option (List Nat) :=
  match splitDouble s with
  | none => do
      let groups ← readSide s
      if groups.length = 8 then some groups else none
  | some (before, behind) => do
      let left ← if before.contains '.' then none else readSide before
      let right ← readSide behind
      let zeros := 8 - left.length - right.length
      if left.length + right.length ≤ 7 then
        some (left ++ List.replicate zeros 0 ++ right)
      else none

def zeroRun (groups : List Nat) : Nat := (groups.takeWhile (· == 0)).length

def longestZeros (groups : List Nat) : Nat × Nat :=
  (List.range groups.length).foldl
    (fun best i => if zeroRun (groups.drop i) > best.2 then (i, zeroRun (groups.drop i)) else best)
    (0, 0)

def showGroups (groups : List Nat) : List Char := joinWith [':'] (groups.map (Nat.toDigits 16))

def showIpv6 (groups : List Nat) : List Char :=
  let (start, length) := longestZeros groups
  if length < 2 then showGroups groups
  else showGroups (groups.take start) ++ [':', ':'] ++ showGroups (groups.drop (start + length))

/-- An address in brackets, of which the first has been seen. -/
def parseBracketed (s : List Char) : Except UrlError (List Char) :=
  if s.getLast? = some ']' then
    match readIpv6 (s.drop 1).dropLast with
    | some groups => .ok ('[' :: showIpv6 groups ++ [']'])
    | none => .error .invalidIpv6
  else .error .invalidIpv6

/-! ## Domains -/

def isDenied (c : Char) : Bool :=
  c.toNat ≤ 0x20 || c.toNat == 0x7F || "%#/:<>?@[\\]^|".contains c

def parse (s : List Char) : Except UrlError (List Char) :=
  if s.head? = some '[' then parseBracketed s
  else
    let domain := decodeUtf8 (unescapeBytes s)
    if domain.any fun c => isDenied c || c.toNat ≥ 0x80 then .error .invalidDomain
    else
      let domain := domain.map Char.toLower
      if domain.isEmpty then .error .emptyHost
      else if endsInNumber domain then parseIpv4 domain
      else .ok domain

/-- Characters that no host has as it is. -/
def isDeniedOpaque (c : Char) : Bool :=
  "\x00\t\n\r #/:<>?@[\\]^|".contains c

def parseOpaque (s : List Char) : Except UrlError (List Char) :=
  if s.head? = some '[' then parseBracketed s
  else if s.any isDeniedOpaque then .error .invalidDomainCharacter
  else .ok (escape isControl s)

end Host

end JsxPreview.Url
