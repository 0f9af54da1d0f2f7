import JsxPreview.Json.Value

/-! # Reading values as records

A record is written as an object, whose other fields are passed over and of whose own fields none
may come twice, or as the list of its fields in order, from which fields may be missing at the end
only.  `Members` holds what was found; `need`, `option` and `orElse` differ in what they make of a
field that was not. -/
set_option autoImplicit false
namespace JsxPreview.Json

/-- The fields of a record that were found, and whether they were found by name. -/
structure Members where
  byName : Bool
  found : List (String × Value)

namespace Value

def members? (names : List String) : Value → Option Members
  | .object fields =>
      let known := fields.filter (names.contains ·.1)
      if (known.map (·.1)).Nodup then some ⟨true, known⟩ else none
  | .list items => if items.length ≤ names.length then some ⟨false, names.zip items⟩ else none
  | _ => none

def bool? : Value → Option Bool
  | .bool b => some b
  | _ => none

/-- A whole number from zero up to below `bound`. -/
def natBelow? (bound : Nat) : Value → Option Nat
  | .number (.whole n) => if 0 ≤ n ∧ n < bound then some n.toNat else none
  | _ => none

def word? (v : Value) : Option UInt32 := (v.natBelow? (Nat.pow 2 32)).map UInt32.ofNat

def longWord? (v : Value) : Option Nat := v.natBelow? (Nat.pow 2 64)

/-- A whole number of sixty-four bits with a sign. -/
def long? : Value → Option Int
  | .number (.whole n) => if -0x8000000000000000 ≤ n ∧ n < 0x8000000000000000 then some n else none
  | _ => none

def listOf? {α : Type} (read : Value → Option α) (v : Value) : Option (List α) :=
  v.list? >>= List.mapM read

/-- Null, or what `read` reads. -/
def orNull? {α : Type} (read : Value → Option α) : Value → Option (Option α)
  | .null => some none
  | v => (read v).map some

/-- A choice by its name: the name as a text, or as the only field of an object with null. -/
def choice? : Value → Option String
  | .text s => some s
  | .object [(name, .null)] => some name
  | _ => none

end Value

namespace Members

def need {α : Type} (m : Members) (name : String) (read : Value → Option α) : Option α :=
  m.found.lookup name >>= read

def orElse {α : Type} (m : Members) (name : String) (read : Value → Option α) (default : α) :
    Option α :=
  match m.found.lookup name with
  | some v => read v
  | none => some default

/-- A field that may be null or, in an object, missing. -/
def option {α : Type} (m : Members) (name : String) (read : Value → Option α) :
    Option (Option α) :=
  match m.found.lookup name with
  | some v => v.orNull? read
  | none => if m.byName then some none else none

end Members

end JsxPreview.Json
