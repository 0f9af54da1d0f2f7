import JsxPreview.Json.Shape

/-! # Build failures

A failed build lists every error that was found; its message shows the first five. -/
set_option autoImplicit false
namespace JsxPreview.Bundle

open JsxPreview.Json

/-- A place in a source: its line counts from one, its column from zero. -/
structure Location where
  file : String
  line : UInt32
  column : UInt32
  lineText : String
deriving DecidableEq, Repr

structure BuildError where
  text : String
  location : Option Location := none
deriving DecidableEq, Repr

structure BuildFailure where
  errors : List BuildError
deriving DecidableEq, Repr

namespace Location

def ofJson? (v : Value) : Option Location := do
  let m ← v.members? ["file", "line", "column", "lineText"]
  return ⟨← m.need "file" Value.text?, ← m.need "line" Value.word?, ← m.need "column" Value.word?,
    ← m.need "lineText" Value.text?⟩

def toJson (l : Location) : Value :=
  .object [("file", .text l.file), ("line", .nat l.line.toNat), ("column", .nat l.column.toNat),
    ("lineText", .text l.lineText)]

end Location

namespace BuildError

def ofJson? (v : Value) : Option BuildError := do
  let m ← v.members? ["text", "location"]
  return ⟨← m.need "text" Value.text?, ← m.option "location" Location.ofJson?⟩

def toJson (e : BuildError) : Value :=
  .object [("text", .text e.text), ("location", (e.location.map Location.toJson).getD .null)]

def line (e : BuildError) : String :=
  match e.location with
  | some l =>
      l.file ++ ":" ++ toString l.line ++ ":" ++ toString l.column ++ ": ERROR: " ++ e.text
  | none => "error: " ++ e.text

end BuildError

namespace BuildFailure

/-- How many errors a message shows. -/
def shownErrors : Nat := 5

def message (f : BuildFailure) : String :=
  let count := f.errors.length
  let title := "Build failed with " ++ toString count ++ (if count = 1 then " error:" else " errors:")
  let rest :=
    if count > shownErrors then ["...and " ++ toString (count - shownErrors) ++ " more"] else []
  String.intercalate "\n" (title :: (f.errors.take shownErrors).map BuildError.line ++ rest)

end BuildFailure

end JsxPreview.Bundle
