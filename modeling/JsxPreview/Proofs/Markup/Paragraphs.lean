import JsxPreview.Markup.Layout
import JsxPreview.Proofs.Text.Split
import Mathlib.Data.List.DropRight
import Mathlib.Data.List.Flatten

/-! # Paragraphs of plain text

Tidied text is the paragraphs of a text with an empty line between each two (`tidyLines_eq_cleaned`).  A
paragraph is a run of lines that are not blank, each trimmed. -/
set_option autoImplicit false
namespace JsxPreview.Markup

open JsxPreview.Text

/-- The paragraphs of a text: what its trimmed lines hold between the empty ones. -/
def paragraphs (s : List Char) : List (List (List Char)) :=
  (((splitOn '\n' s).map stripSpace).splitOn []).filter (· ≠ [])

/-- The paragraphs of a text, with an empty line between each two. -/
def cleaned (s : List Char) : List Char := joinWith ['\n'] ([[]].intercalate (paragraphs s))

/-! ## Trimmed text -/

/-- A text with no space at its ends. -/
structure Tight (s : List Char) : Prop where
  starts : ∀ c ∈ s.head?, isSpace c = false
  ends : ∀ c ∈ s.getLast?, isSpace c = false

theorem tight_stripSpace (s : List Char) : Tight (stripSpace s) := by
  show Tight ((s.dropWhile isSpace).rdropWhile isSpace)
  constructor
  · intro c first
    have kept : (s.dropWhile isSpace).head? = some c := by
      obtain ⟨behind, whole⟩ := List.rdropWhile_prefix isSpace (s.dropWhile isSpace)
      rw [← whole, List.head?_append, show _ = some c from first]
      rfl
    have stops := List.head?_dropWhile_not isSpace s
    rw [kept] at stops
    exact stops
  · intro c last
    obtain ⟨some, rfl⟩ := List.mem_getLast?_eq_getLast last
    exact Bool.eq_false_iff.mpr (List.rdropWhile_last_not isSpace _ some)

/-- Space behind a trimmed text is trimmed off. -/
theorem stripSpace_tight {s : List Char} (tight : Tight s) (blank : List Char)
    (spaces : ∀ c ∈ blank, isSpace c = true) : stripSpace (s ++ blank) = s := by
  show ((s ++ blank).dropWhile isSpace).rdropWhile isSpace = s
  cases s with
  | nil =>
      rw [List.nil_append, List.dropWhile_eq_nil_iff.mpr spaces]
      rfl
  | cons c s =>
      have first : isSpace c = false := tight.starts c rfl
      rw [List.cons_append, List.dropWhile_cons_of_neg (by rw [first]; decide), ← List.cons_append,
        List.rdropWhile, List.reverse_append, List.dropWhile_append_of_pos
          (fun d member => spaces d (List.mem_reverse.mp member))]
      refine List.rdropWhile_eq_self_iff.mpr fun some => ?_
      rw [tight.ends _ (List.getLast?_eq_some_getLast some)]
      decide

/-- Trimmed lines are trimmed as a text, unless the first or the last one is empty. -/
theorem tight_joinWith {lines : List (List Char)} (tight : ∀ line ∈ lines, Tight line)
    (first : lines.head? ≠ some []) (last : lines.getLast? ≠ some []) :
    Tight (joinWith ['\n'] lines) := by
  constructor
  · intro c here
    match lines, first with
    | [] :: _, first => exact absurd rfl first
    | [d :: line], _ => exact (tight _ (List.mem_cons_self ..)).starts c here
    | (d :: line) :: next :: rest, _ => exact (tight _ (List.mem_cons_self ..)).starts c here
  · intro c here
    rcases List.eq_nil_or_concat lines with rfl | ⟨front, line, rfl⟩
    · cases here
    · rw [List.concat_eq_append, List.getLast?_concat] at last
      have some : line ≠ [] := fun empty => last (congrArg Option.some empty)
      refine (tight line (by simp)).ends c ?_
      by_cases alone : front = []
      · rwa [alone] at here
      · rw [List.concat_eq_append, joinWith_append _ alone (List.cons_ne_nil _ _)] at here
        rwa [show joinWith ['\n'] [line] = line from rfl, List.getLast?_append_of_ne_nil _ some]
          at here

/-! ## Runs of empty lines -/

theorem dropEmptyRuns_sublist (after : Bool) (lines : List (List Char)) :
    List.Sublist (dropEmptyRuns after lines) lines := by
  induction lines generalizing after with
  | nil => exact .slnil
  | cons line rest ih =>
      rw [dropEmptyRuns]
      split
      · exact (ih true).cons line
      · exact (ih _).cons_cons line

/-- Lines that are not empty are kept. -/
theorem dropEmptyRuns_full {part : List (List Char)} (full : [] ∉ part) (after : Bool)
    (rest : List (List Char)) : dropEmptyRuns after (part ++ rest) =
      part ++ dropEmptyRuns (after && part.isEmpty) rest := by
  induction part generalizing after with
  | nil => rw [List.nil_append, List.nil_append, List.isEmpty_nil, Bool.and_true]
  | cons line part ih =>
      rw [List.mem_cons, not_or] at full
      have some : line.isEmpty = false := List.isEmpty_eq_false_iff.mpr (Ne.symm full.1)
      rw [List.cons_append, dropEmptyRuns, some, Bool.false_and, if_neg (by decide), ih full.2]
      simp

/-- Of the empty lines between parts one is kept between each two that hold lines, and one behind them
at most. -/
theorem dropEmptyRuns_parts {parts : List (List (List Char))} (full : ∀ part ∈ parts, [] ∉ part) :
    ∃ behind, (behind = [] ∨ behind = [[]] ∧ parts.filter (· ≠ []) ≠ []) ∧
      dropEmptyRuns true ([[]].intercalate parts) =
        [[]].intercalate (parts.filter (· ≠ [])) ++ behind := by
  induction parts with
  | nil => exact ⟨[], .inl rfl, rfl⟩
  | cons part rest ih =>
      have here : [] ∉ part := full part (List.mem_cons_self ..)
      obtain ⟨behind, shape, later⟩ := ih fun p member => full p (List.mem_cons_of_mem _ member)
      by_cases last : rest = []
      · subst last
        refine ⟨[], .inl rfl, ?_⟩
        have kept := dropEmptyRuns_full here true []
        rw [List.append_nil, dropEmptyRuns, List.append_nil] at kept
        rw [List.intercalate_singleton, kept, List.append_nil]
        by_cases empty : part = []
        · simp [empty]
        · simp [empty]
      · rw [List.intercalate_cons_of_ne_nil last, List.append_assoc, dropEmptyRuns_full here]
        by_cases empty : part = []
        · subst empty
          refine ⟨behind, by simpa using shape, ?_⟩
          simpa [dropEmptyRuns] using later
        · have some : part.isEmpty = false := List.isEmpty_eq_false_iff.mpr empty
          rw [some, Bool.and_false, List.singleton_append, dropEmptyRuns, Bool.and_false,
            if_neg (by decide), List.isEmpty_nil, later, List.filter_cons_of_pos (by simpa using empty)]
          by_cases none' : rest.filter (· ≠ []) = []
          · refine ⟨[[]], .inr ⟨rfl, List.cons_ne_nil _ _⟩, ?_⟩
            obtain rfl : behind = [] := shape.resolve_right fun more => more.2 none'
            rw [none']
            simp
          · refine ⟨behind, ?_, ?_⟩
            · exact shape.imp_right fun more => ⟨more.1, List.cons_ne_nil _ _⟩
            · rw [List.intercalate_cons_of_ne_nil none']
              simp

theorem intercalate_ne_nil {parts : List (List (List Char))} (more : parts ≠ [])
    (full : ∀ part ∈ parts, part ≠ []) : [[]].intercalate parts ≠ [] := by
  cases parts with
  | nil => exact absurd rfl more
  | cons part rest =>
      have here := full part (List.mem_cons_self ..)
      by_cases last : rest = []
      · rwa [last, List.intercalate_singleton]
      · rw [List.intercalate_cons_of_ne_nil last, List.append_assoc]
        exact List.append_ne_nil_of_left_ne_nil here _

/-- Parts that hold lines, none of them empty, neither begin nor end with an empty line. -/
theorem intercalate_ends {parts : List (List (List Char))}
    (full : ∀ part ∈ parts, part ≠ [] ∧ [] ∉ part) :
    ([[]].intercalate parts).head? ≠ some [] ∧ ([[]].intercalate parts).getLast? ≠ some [] := by
  induction parts with
  | nil => exact ⟨nofun, nofun⟩
  | cons part rest ih =>
      obtain ⟨nonempty, noEmpty⟩ := full part (List.mem_cons_self ..)
      have others : ∀ p ∈ rest, p ≠ [] ∧ [] ∉ p := fun p member => full p (List.mem_cons_of_mem _ member)
      by_cases last : rest = []
      · rw [last, List.intercalate_singleton]
        exact ⟨fun here => noEmpty (List.mem_of_mem_head? here),
          fun here => noEmpty (List.mem_of_getLast? here)⟩
      · have behind := intercalate_ne_nil last fun p member => (others p member).1
        rw [List.intercalate_cons_of_ne_nil last]
        constructor
        · rw [List.append_assoc, List.head?_append_of_ne_nil _ nonempty]
          exact fun here => noEmpty (List.mem_of_mem_head? here)
        · rw [List.getLast?_append_of_ne_nil _ behind]
          exact (ih others).2

theorem not_mem_splitOn_nil (lines : List (List Char)) : ∀ part ∈ lines.splitOn [], [] ∉ part := by
  induction lines with
  | nil =>
      rw [List.splitOn_nil]
      simp
  | cons line lines ih =>
      rw [List.splitOn_cons_eq_if_modifyHead]
      split
      case isTrue => simpa using ih
      case isFalse full =>
        have other : line ≠ [] := fun empty => full (by rw [empty]; rfl)
        cases split : lines.splitOn [] with
        | nil => exact absurd split (List.splitOn_ne_nil _ _)
        | cons part parts =>
            rw [split, List.forall_mem_cons] at ih
            rw [List.modifyHead_cons, List.forall_mem_cons, List.mem_cons, not_or]
            exact ⟨⟨other.symm, ih.1⟩, ih.2⟩

/-- Tidied text is its paragraphs. -/
theorem tidyLines_eq_cleaned (s : List Char) : tidyLines s = cleaned s := by
  have noEmpty := not_mem_splitOn_nil ((splitOn '\n' s).map stripSpace)
  obtain ⟨behind, shape, kept⟩ := dropEmptyRuns_parts noEmpty
  rw [List.intercalate_splitOn] at kept
  have full : ∀ part ∈ paragraphs s, part ≠ [] ∧ [] ∉ part := fun part member =>
    ⟨by simpa using List.of_mem_filter member, noEmpty part (List.mem_of_mem_filter member)⟩
  have tight : ∀ line ∈ [[]].intercalate (paragraphs s), Tight line := fun line member => by
    have still := kept ▸ List.mem_append_left behind member
    obtain ⟨whole, -, rfl⟩ := List.mem_map.mp ((dropEmptyRuns_sublist true _).subset still)
    exact tight_stripSpace whole
  obtain ⟨first, last⟩ := intercalate_ends full
  have strip := stripSpace_tight (tight_joinWith tight first last)
  rw [tidyLines, kept, cleaned]
  rcases shape with rfl | ⟨rfl, more⟩
  · rw [List.append_nil]
    have whole := strip [] nofun
    rwa [List.append_nil] at whole
  · rw [joinWith_append _ (intercalate_ne_nil more fun part member => (full part member).1)
      (List.cons_ne_nil _ _), List.append_assoc]
    exact strip _ fun c member => by
      rw [show joinWith ['\n'] [[]] = [] from rfl, List.append_nil, List.mem_singleton] at member
      rw [member]
      decide

end JsxPreview.Markup
