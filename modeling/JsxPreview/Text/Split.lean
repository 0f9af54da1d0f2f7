import JsxPreview.Text.Characters

/-! # Parts between separators

`splitOn sep s` has one part more than `s` has separators (`splitOn_ne_nil`), and joining the parts
with the separator gives the text back (`join_splitOn`). -/
set_option autoImplicit false
namespace JsxPreview.Text

/-- The parts of a text between the occurrences of a separator. -/
def splitOn (sep : Char) : List Char → List (List Char)
  | [] => [[]]
  | c :: s => match c == sep, splitOn sep s with
      | true, parts => [] :: parts
      | false, part :: parts => (c :: part) :: parts
      | false, [] => [[c]]

/-- The parts with a separator between each two. -/
def joinWith (sep : List Char) : List (List Char) → List Char
  | [] => []
  | [part] => part
  | part :: rest => part ++ sep ++ joinWith sep rest

theorem splitOn_ne_nil (sep : Char) (s : List Char) : splitOn sep s ≠ [] := by
  cases s with
  | nil => simp [splitOn]
  | cons c s => simp only [splitOn]; split <;> simp

theorem joinWith_cons (sep part : List Char) {rest : List (List Char)} (h : rest ≠ []) :
    joinWith sep (part :: rest) = part ++ sep ++ joinWith sep rest := by
  cases rest with
  | nil => exact absurd rfl h
  | cons => rfl

theorem join_splitOn (sep : Char) (s : List Char) : joinWith [sep] (splitOn sep s) = s := by
  induction s with
  | nil => rfl
  | cons c s ih =>
      have some := splitOn_ne_nil sep s
      simp only [splitOn]
      split
      case h_1 isSep =>
        simp only [beq_iff_eq] at isSep
        rw [joinWith_cons _ _ some, ih, isSep]; rfl
      case h_2 part parts _ split =>
        rw [split] at ih
        cases parts with
        | nil => simp_all [joinWith]
        | cons => simp_all [joinWith]
      case h_3 split => exact absurd split some

/-! ## Parts of texts -/

def startsWith (s part : String) : Bool := part.toList.isPrefixOf s.toList

def endsWith (s part : String) : Bool := part.toList.isSuffixOf s.toList

/-- Whether `part` stands somewhere in a text. -/
def hasPart (part : List Char) : List Char → Bool
  | [] => part.isEmpty
  | c :: s => part.isPrefixOf (c :: s) || hasPart part s

/-- Passes over `skip` characters, then puts `new` for every `part`, from the left. -/
def replaceFrom (part new : List Char) (skip : Nat) : List Char → List Char
  | [] => []
  | c :: s =>
      match skip with
      | n + 1 => replaceFrom part new n s
      | 0 =>
          if part.isPrefixOf (c :: s) then new ++ replaceFrom part new (part.length - 1) s
          else c :: replaceFrom part new 0 s

/-- Puts `new` for every `part`, which is not empty. -/
def replaceAll (part new s : List Char) : List Char := replaceFrom part new 0 s

def trimStart (s : List Char) : List Char := s.dropWhile isBlank

def trimEnd (s : List Char) : List Char := (s.reverse.dropWhile isBlank).reverse

def trim (s : List Char) : List Char := trimEnd (trimStart s)

end JsxPreview.Text
