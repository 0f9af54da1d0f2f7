import JsxPreview.Markup.Attribute
import Mathlib.Data.List.Basic
import Mathlib.Data.List.TakeWhile

/-! # Pieces of markup

`pieces` takes markup apart into its tags and the characters between them, where the references that stand
for `<`, `>` and `&` are decoded.  It gives nothing when a `<` stands in a tag, a `>` stands outside of
one, a tag has no end or an `&` begins no such reference.  What reads as some pieces reads so in front of
anything (`Reads`): escaped text as its characters, a tag as that tag. -/
set_option autoImplicit false
namespace JsxPreview.Markup

inductive Piece where
  | char (c : Char)
  | opening (name : List Char)
  | closing (name : List Char)
  | selfClosing (name : List Char)
deriving DecidableEq, Repr

/-- The tag with the given text between `<` and `>`. -/
def tagOf : List Char → Piece
  | '/' :: name => .closing name
  | inside =>
      let name := inside.takeWhile fun c => c != ' ' && c != '/'
      if inside.getLast? = some '/' then .selfClosing name else .opening name

/-- The pieces of markup, inside a tag of which some text is read, or outside of tags. -/
def piecesFrom : Option (List Char) → List Char → Option (List Piece)
  | none, [] => some []
  | none, '<' :: s => piecesFrom (some []) s
  | none, '>' :: _ => none
  | none, '&' :: 'l' :: 't' :: ';' :: s => (piecesFrom none s).map (.char '<' :: ·)
  | none, '&' :: 'g' :: 't' :: ';' :: s => (piecesFrom none s).map (.char '>' :: ·)
  | none, '&' :: 'a' :: 'm' :: 'p' :: ';' :: s => (piecesFrom none s).map (.char '&' :: ·)
  | none, '&' :: _ => none
  | none, c :: s => (piecesFrom none s).map (.char c :: ·)
  | some _, [] => none
  | some _, '<' :: _ => none
  | some inside, '>' :: s => (piecesFrom none s).map (tagOf inside :: ·)
  | some inside, c :: s => piecesFrom (some (inside ++ [c])) s

def pieces (markup : List Char) : Option (List Piece) := piecesFrom none markup

/-- Whether every tag that is opened is closed, the last one first, given the open ones. -/
def nests : List (List Char) → List Piece → Bool
  | names, [] => names.isEmpty
  | names, .opening name :: ps => nests (name :: names) ps
  | top :: names, .closing name :: ps => top == name && nests names ps
  | [], .closing _ :: _ => false
  | names, .char _ :: ps | names, .selfClosing _ :: ps => nests names ps

def Piece.isTag : Piece → Bool
  | .char _ => false
  | _ => true

theorem isTag_tagOf (inside : List Char) : (tagOf inside).isTag = true := by
  unfold tagOf
  split
  · rfl
  · dsimp only
    split <;> rfl

/-- Every `<` of markup that is taken apart starts a tag, and every `>` ends one. -/
theorem piecesFrom_count {inside : Option (List Char)} {s : List Char} {ps : List Piece}
    (read : piecesFrom inside s = some ps) :
    s.count '<' + (if inside.isSome then 1 else 0) = ps.countP Piece.isTag ∧
      s.count '>' = ps.countP Piece.isTag := by
  fun_induction piecesFrom inside s generalizing ps with
  | case1 => cases read; exact ⟨rfl, rfl⟩
  | case2 s ih =>
      have rest := ih read
      simpa [List.count_cons] using rest
  | case4 s ih | case5 s ih | case6 s ih =>
      obtain ⟨later, found, rfl⟩ := Option.map_eq_some_iff.mp read
      simpa [List.count_cons, Piece.isTag] using ih found
  | case8 c s noLess noGreater _ _ _ _ ih =>
      obtain ⟨later, found, rfl⟩ := Option.map_eq_some_iff.mp read
      rw [List.count_cons_of_ne noLess, List.count_cons_of_ne noGreater]
      simpa [Piece.isTag] using ih found
  | case11 inside s ih =>
      obtain ⟨later, found, rfl⟩ := Option.map_eq_some_iff.mp read
      simpa [List.count_cons, isTag_tagOf] using ih found
  | case12 inside c s noLess noGreater ih =>
      rw [List.count_cons_of_ne noLess, List.count_cons_of_ne noGreater]
      exact ih read
  | case3 | case7 | case9 | case10 => cases read

theorem pieces_count {markup : List Char} {ps : List Piece} (read : pieces markup = some ps) :
    markup.count '<' = ps.countP Piece.isTag ∧ markup.count '>' = ps.countP Piece.isTag :=
  piecesFrom_count read

/-- Markup that reads as some pieces, whatever follows. -/
def Reads (markup : List Char) (ps : List Piece) : Prop :=
  ∀ rest, pieces (markup ++ rest) = (pieces rest).map (ps ++ ·)

namespace Reads

theorem nil : Reads [] [] := by
  intro rest
  rw [List.nil_append]
  exact Option.map_id'.symm

theorem append {s t : List Char} {ps qs : List Piece} (first : Reads s ps) (second : Reads t qs) :
    Reads (s ++ t) (ps ++ qs) := by
  intro rest
  rw [List.append_assoc, first, second, Option.map_map]
  exact congrArg (fun f => Option.map f (pieces rest)) (funext fun _ => (List.append_assoc ..).symm)

theorem pieces_eq {markup : List Char} {ps : List Piece} (reads : Reads markup ps) :
    pieces markup = some ps := by
  have whole := reads []
  rw [List.append_nil] at whole
  rw [whole, pieces, piecesFrom, Option.map_some, List.append_nil]

end Reads

/-! ## Text -/

theorem reads_escapeChar (c : Char) : Reads (escapeChar c) [.char c] := by
  intro rest
  unfold escapeChar
  split
  case h_1 => rfl
  case h_2 => rfl
  case h_3 => rfl
  case h_4 noAmp noLess noGreater =>
    rw [List.singleton_append, pieces, piecesFrom]
    · rfl
    all_goals grind

theorem reads_escaped (s : List Char) : Reads (s.flatMap escapeChar) (s.map .char) := by
  induction s with
  | nil => exact Reads.nil
  | cons c s ih => exact (reads_escapeChar c).append ih

theorem reads_escapeText (s : String) : Reads (escapeText s).toList (s.toList.map .char) := by
  rw [escapeText, String.toList_ofList]
  exact reads_escaped s.toList

/-! ## Tags -/

/-- Text that can stand in a tag. -/
structure Inside (s : List Char) : Prop where
  noStart : '<' ∉ s
  noEnd : '>' ∉ s

theorem Inside.append {s t : List Char} (first : Inside s) (second : Inside t) : Inside (s ++ t) where
  noStart := fun member => (List.mem_append.mp member).elim first.noStart second.noStart
  noEnd := fun member => (List.mem_append.mp member).elim first.noEnd second.noEnd

theorem inside_escapeQuotedChar (c : Char) : Inside (escapeQuotedChar c) := by
  rw [escapeQuotedChar]
  split
  · exact ⟨by decide, by decide⟩
  · unfold escapeChar
    split
    case h_4 noAmp noLess noGreater =>
      exact ⟨fun member => noLess (List.mem_singleton.mp member).symm,
        fun member => noGreater (List.mem_singleton.mp member).symm⟩
    all_goals exact ⟨by decide, by decide⟩

theorem inside_escapeQuoted (s : String) : Inside (escapeQuoted s).toList := by
  rw [escapeQuoted, String.toList_ofList]
  induction s.toList with
  | nil => exact ⟨List.not_mem_nil, List.not_mem_nil⟩
  | cons c s ih => exact (inside_escapeQuotedChar c).append ih

theorem piecesFrom_inside {s : List Char} (inside : Inside s) (before rest : List Char) :
    piecesFrom (some before) (s ++ '>' :: rest) = (pieces rest).map (tagOf (before ++ s) :: ·) := by
  induction s generalizing before with
  | nil => rw [List.nil_append, piecesFrom, List.append_nil]; rfl
  | cons c s ih =>
      have later : Inside s := ⟨fun member => inside.noStart (List.mem_cons_of_mem _ member),
        fun member => inside.noEnd (List.mem_cons_of_mem _ member)⟩
      rw [List.cons_append, piecesFrom, ih later, List.append_assoc, List.singleton_append]
      · rintro rfl
        exact inside.noStart (List.mem_cons_self ..)
      · rintro rfl
        exact inside.noEnd (List.mem_cons_self ..)

theorem reads_tag {s : List Char} (inside : Inside s) : Reads ('<' :: s ++ ['>']) [tagOf s] := by
  intro rest
  rw [List.append_assoc, List.singleton_append, List.cons_append, pieces, piecesFrom,
    piecesFrom_inside inside]
  rfl

/-- The text of attributes behind the name in a tag. -/
structure IsAttributes (s : List Char) : Prop where
  inside : Inside s
  parted : ∀ c ∈ s.head?, c = ' '
  ends : s.getLast? ≠ some '/'

namespace IsAttributes

theorem nil : IsAttributes [] := ⟨⟨List.not_mem_nil, List.not_mem_nil⟩, nofun, nofun⟩

theorem append {s t : List Char} (first : IsAttributes s) (second : IsAttributes t) :
    IsAttributes (s ++ t) := by
  by_cases empty : t = []
  · rwa [empty, List.append_nil]
  · refine ⟨first.inside.append second.inside, ?_, ?_⟩
    · cases s with
      | nil => exact second.parted
      | cons c s => exact first.parted
    · rw [List.getLast?_append_of_ne_nil _ empty]
      exact second.ends

/-- An attribute stands behind a space. -/
theorem spaced {s : List Char} (inside : Inside s) (ends : s.getLast? ≠ some '/') :
    IsAttributes (' ' :: s) := by
  refine ⟨⟨?_, ?_⟩, fun c here => (Option.some.inj here).symm, ?_⟩
  · exact fun member => inside.noStart ((List.mem_cons.mp member).resolve_left (by decide))
  · exact fun member => inside.noEnd ((List.mem_cons.mp member).resolve_left (by decide))
  · cases s with
    | nil => decide
    | cons c s => rwa [List.getLast?_cons_cons]

end IsAttributes

/-- Whether a name is a letter and then letters, digits and hyphens. -/
def isMarkupName (name : List Char) : Bool :=
  match name with
  | [] => false
  | c :: rest => c.isAlpha && rest.all fun d => d.isAlphanum || d == '-'

theorem ne_of_markupName {name : List Char} (fits : isMarkupName name) {c : Char} (member : c ∈ name) :
    c ≠ ' ' ∧ c ≠ '/' ∧ c ≠ '<' ∧ c ≠ '>' := by
  have plain : c.isAlphanum ∨ c = '-' := by
    cases name with
    | nil => exact absurd member List.not_mem_nil
    | cons first rest =>
        rw [isMarkupName, Bool.and_eq_true, List.all_eq_true] at fits
        rcases List.mem_cons.mp member with rfl | member
        · exact .inl (by rw [Char.isAlphanum, fits.1, Bool.true_or])
        · simpa using fits.2 c member
  refine ⟨?_, ?_, ?_, ?_⟩ <;> rintro rfl <;> exact absurd plain (by decide)

theorem inside_markupName {name : List Char} (fits : isMarkupName name) : Inside name :=
  ⟨fun member => (ne_of_markupName fits member).2.2.1 rfl,
    fun member => (ne_of_markupName fits member).2.2.2 rfl⟩

theorem getLast_markupName {name : List Char} (fits : isMarkupName name) : name.getLast? ≠ some '/' :=
  fun last => (ne_of_markupName fits (List.mem_of_getLast? last)).2.1 rfl

theorem takeWhile_markupName {name behind : List Char} (fits : isMarkupName name)
    (parted : ∀ c ∈ behind.head?, c = ' ' ∨ c = '/') :
    (name ++ behind).takeWhile (fun c => c != ' ' && c != '/') = name := by
  have whole : name.takeWhile (fun c => c != ' ' && c != '/') = name := by
    rw [List.takeWhile_eq_self_iff]
    intro c member
    have apart := ne_of_markupName fits member
    simp [apart.1, apart.2.1]
  rw [List.takeWhile_append, whole, if_pos rfl]
  cases behind with
  | nil => rw [List.takeWhile_nil, List.append_nil]
  | cons c behind =>
      rw [List.takeWhile_cons_of_neg, List.append_nil]
      rcases parted c rfl with rfl | rfl <;> decide

theorem tagOf_markupName {name behind : List Char} (fits : isMarkupName name) :
    tagOf (name ++ behind) =
      let tag := (name ++ behind).takeWhile fun c => c != ' ' && c != '/'
      if (name ++ behind).getLast? = some '/' then .selfClosing tag else .opening tag := by
  cases name with
  | nil => cases fits
  | cons c name =>
      rw [List.cons_append, tagOf]
      intro rest same
      exact (ne_of_markupName fits (List.mem_cons_self ..)).2.1 (List.cons.inj same).1

theorem tagOf_opening {name attributes : List Char} (fits : isMarkupName name)
    (behind : IsAttributes attributes) : tagOf (name ++ attributes) = .opening name := by
  have open' : (name ++ attributes).getLast? ≠ some '/' := by
    by_cases empty : attributes = []
    · rw [empty, List.append_nil]
      exact getLast_markupName fits
    · rw [List.getLast?_append_of_ne_nil _ empty]
      exact behind.ends
  rw [tagOf_markupName fits, takeWhile_markupName fits fun c here => .inl (behind.parted c here)]
  exact if_neg open'

theorem tagOf_selfClosing {name attributes : List Char} (fits : isMarkupName name)
    (behind : IsAttributes attributes) :
    tagOf (name ++ (attributes ++ ['/'])) = .selfClosing name := by
  have parted : ∀ c ∈ (attributes ++ ['/']).head?, c = ' ' ∨ c = '/' := by
    cases attributes with
    | nil => exact fun c here => .inr (Option.some.inj here).symm
    | cons d attributes => exact fun c here => .inl (behind.parted c here)
  rw [tagOf_markupName fits, takeWhile_markupName fits parted]
  exact if_pos (by rw [← List.append_assoc, List.getLast?_concat])

/-! ## Nesting -/

theorem nests_chars (s : List Char) (names : List (List Char)) (ps : List Piece) :
    nests names (s.map .char ++ ps) = nests names ps := by
  induction s with
  | nil => rfl
  | cons c s ih => rw [List.map_cons, List.cons_append, nests, ih]

end JsxPreview.Markup
