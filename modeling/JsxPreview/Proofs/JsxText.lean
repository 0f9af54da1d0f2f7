import JsxPreview.Proofs.Text.Split
import JsxPreview.Source.JsxText
import Mathlib.Data.List.DropRight

/-! # The white space between tags

`jsxText` is the rule by which text between tags is read, said of whole lines and their places.
`cleanText` puts a space behind a line when it writes it, unless no later line can be written.  That is
the rule, but for two kinds of text (`cleanText_eq_jsxText_iff`): one line of nothing but spaces and tabs,
behind which a space too many is written, and a text that ends in a carriage return, which is dropped
although no line feed follows. -/
set_option autoImplicit false
namespace JsxPreview.Source

open JsxPreview.Text

def spaced (line : List Char) : List Char :=
  line.map fun c => if c == '\t' then ' ' else c

/-- The lines of a text, without the carriage returns in front of a line feed, and with spaces for
tabs. -/
def sourceLines (raw : List Char) : List (List Char) :=
  let lines := splitOn '\n' raw
  (lines.dropLast.map (dropTrailing (· == '\r')) ++ lines.getLast?.toList).map spaced

/-- The lines without the spaces in front, unless it is the first line, and those at the end, unless it
is the last. -/
def trimmedLines (lines : List (List Char)) : List (List Char) :=
  lines.mapIdx fun i line =>
    let line := if i = 0 then line else line.dropWhile (· == ' ')
    if i + 1 = lines.length then line else dropTrailing (· == ' ') line

/-- What text between tags stands for: its trimmed lines that are not empty, joined by single spaces,
with the references decoded. -/
def jsxText (raw : List Char) : Option (List Char) :=
  match (trimmedLines (sourceLines raw)).filter (· ≠ []) with
  | [] => none
  | lines => some (decodeReferences (joinWith [' '] lines))

/-! ## Lines that are written -/

/-- The trimmed lines that are not empty, by recursion on the lines. -/
def writtenLines (isFirst : Bool) : List (List Char) → List (List Char)
  | [] => []
  | line :: rest =>
      let kept := trimLine isFirst rest.isEmpty line
      if kept = [] then writtenLines false rest else kept :: writtenLines false rest

theorem writtenLines_later (lines : List (List Char)) :
    (lines.mapIdx fun i line =>
      let line := line.dropWhile (· == ' ')
      if i + 1 = lines.length then line else dropTrailing (· == ' ') line).filter (· ≠ []) =
      writtenLines false lines := by
  induction lines with
  | nil => rfl
  | cons line rest ih =>
      have last : (0 + 1 = (line :: rest).length) ↔ rest.isEmpty = true := by
        rw [List.length_cons, List.isEmpty_iff, ← List.length_eq_zero_iff]
        omega
      simp only [List.length_cons, Nat.add_right_cancel_iff] at last ih ⊢
      simp only [List.mapIdx_cons, List.filter_cons, ih, last, writtenLines, trimLine,
        decide_eq_true_eq, ite_not, Bool.false_eq_true, if_false]

theorem writtenLines_eq (lines : List (List Char)) :
    (trimmedLines lines).filter (· ≠ []) = writtenLines true lines := by
  cases lines with
  | nil => rfl
  | cons line rest =>
      have later := writtenLines_later rest
      have last : (0 + 1 = (line :: rest).length) ↔ rest.isEmpty = true := by
        rw [List.length_cons, List.isEmpty_iff, ← List.length_eq_zero_iff]
        omega
      simp only [List.length_cons, Nat.add_right_cancel_iff] at last later
      simp only [trimmedLines, List.mapIdx_cons, List.filter_cons, List.length_cons,
        Nat.add_right_cancel_iff, last, writtenLines, trimLine, decide_eq_true_eq, ite_not, if_true,
        Nat.succ_ne_self, Nat.add_eq_zero_iff, and_false, if_false, later]

/-! ## Blank lines -/

theorem dropTrailing_eq (p : Char → Bool) (line : List Char) : dropTrailing p line = line.rdropWhile p :=
  rfl

theorem all_dropWhile {p : Char → Bool} (line : List Char) : (line.dropWhile p).all p = line.all p := by
  induction line with
  | nil => rfl
  | cons c line ih =>
      by_cases holds : p c = true
      · rw [List.dropWhile_cons_of_pos holds, ih, List.all_cons, holds, Bool.true_and]
      · rw [List.dropWhile_cons_of_neg holds]

/-- A line that is trimmed at an end is empty when it is blank, and only then. -/
theorem trimLine_eq_nil {isFirst isLast : Bool} (trimmed : ¬ (isFirst && isLast)) (line : List Char) :
    trimLine isFirst isLast line = [] ↔ line.all (· == ' ') := by
  have front : line.dropWhile (· == ' ') = [] ↔ line.all (· == ' ') := by
    rw [List.dropWhile_eq_nil_iff, List.all_eq_true]
  have back (line : List Char) : dropTrailing (· == ' ') line = [] ↔ line.all (· == ' ') := by
    rw [dropTrailing_eq, List.rdropWhile_eq_nil_iff, List.all_eq_true]
  cases isFirst <;> cases isLast
  · exact (back _).trans (by rw [← all_dropWhile line]; rfl)
  · exact front
  · exact back line
  · exact absurd rfl trimmed

theorem writtenLines_eq_nil (lines : List (List Char)) :
    writtenLines false lines = [] ↔ lines.all (·.all (· == ' ')) := by
  induction lines with
  | nil => simp [writtenLines]
  | cons line rest ih =>
      rw [writtenLines, List.all_cons, Bool.and_eq_true, ← ih,
        ← trimLine_eq_nil (show ¬ (false && rest.isEmpty) from nofun) line]
      by_cases empty : trimLine false rest.isEmpty line = []
      · rw [if_pos empty, and_iff_right empty]
      · rw [if_neg empty]
        exact iff_of_false nofun fun both => empty both.1

/-! ## Lines joined -/

/-- Plain lines are written as they are joined, unless the only one is blank. -/
theorem joinLines_eq {isFirst : Bool} {lines : List (List Char)}
    (apart : isFirst → ∀ line, lines = [line] → line.all (· == ' ') → line = []) :
    joinLines isFirst lines = joinWith [' '] (writtenLines isFirst lines) := by
  induction lines generalizing isFirst with
  | nil => rfl
  | cons line rest ih =>
      have later : joinLines false rest = joinWith [' '] (writtenLines false rest) := ih nofun
      have blank : line.all (· == ' ') → trimLine isFirst rest.isEmpty line = [] := by
        intro blank
        by_cases only : (isFirst && rest.isEmpty) = true
        · rw [Bool.and_eq_true, List.isEmpty_iff] at only
          rw [apart only.1 line (by rw [only.2]) blank]
          cases isFirst <;> cases rest.isEmpty <;> rfl
        · exact (trimLine_eq_nil only line).mpr blank
      rw [joinLines, writtenLines]
      by_cases empty : trimLine isFirst rest.isEmpty line = []
      · rw [if_pos empty, empty, List.isEmpty_nil, if_pos rfl, List.nil_append, later]
      · have ink : line.any (· != ' ') = true := by
          rw [← Bool.not_eq_false, List.any_eq_false]
          intro all
          exact empty (blank (List.all_eq_true.mpr fun c member => by simpa using all c member))
        rw [if_neg empty, if_neg (by rwa [List.isEmpty_iff]), ink, Bool.true_and, later]
        by_cases ends : rest.all (·.all (· == ' ')) = true
        · rw [if_pos ends, (writtenLines_eq_nil rest).mpr ends]
          exact List.append_nil _
        · rw [if_neg ends]
          cases written : writtenLines false rest with
          | nil => exact absurd ((writtenLines_eq_nil rest).mp written) ends
          | cons next more => rfl

/-! ## What no reference holds -/

theorem referenceAt_append {s t : List Char} (absent : ';' ∉ t) :
    referenceAt (s ++ t) = referenceAt s := by
  have whole {s : List Char} (absent : ';' ∉ s) : s.takeWhile (· != ';') = s :=
    List.takeWhile_eq_self_iff.mpr fun c member => bne_iff_ne.mpr fun same => absent (same ▸ member)
  by_cases ends : ';' ∈ s
  · have name : (s ++ t).takeWhile (· != ';') = s.takeWhile (· != ';') := by
      obtain ⟨front, back, rfl, clear⟩ := List.eq_append_cons_of_mem ends
      have stop (back : List Char) : (front ++ ';' :: back).takeWhile (· != ';') = front := by
        rw [List.takeWhile_append, whole clear, if_pos rfl, List.takeWhile_cons_of_neg (by decide),
          List.append_nil]
      rw [List.append_assoc, List.cons_append, stop, stop]
    have short : (s.takeWhile (· != ';')).length < s.length := by
      refine lt_of_le_of_ne (List.takeWhile_prefix _).length_le fun same => ?_
      have all := (List.takeWhile_prefix _).eq_of_length same
      exact absurd (List.takeWhile_eq_self_iff.mp all ';' ends) (by decide)
    have short' : (s.takeWhile (· != ';')).length < (s ++ t).length := by
      rw [List.length_append]
      omega
    simp only [referenceAt, name, short, short', true_and]
  · have neither : ';' ∉ s ++ t := by
      rw [List.mem_append, not_or]
      exact ⟨ends, absent⟩
    simp only [referenceAt, whole ends, whole neither, lt_irrefl, false_and, if_false]

theorem referenceAt_le {s : List Char} {c : Char} {n : Nat} (refers : referenceAt s = some (c, n)) :
    n ≤ s.length := by
  rw [referenceAt] at refers
  split at refers
  · obtain ⟨_, _, pair⟩ := Option.map_eq_some_iff.mp refers
    rw [← (Prod.mk.inj pair).2]
    omega
  · cases refers

theorem decodeFrom_plain {t : List Char} (absent : '&' ∉ t) : decodeFrom 0 t = t := by
  induction t with
  | nil => rfl
  | cons c t ih =>
      rw [List.mem_cons, not_or] at absent
      rw [decodeFrom, ih absent.2]
      exact fun same => absent.1 same.symm

/-- Behind a text, what can be no part of a reference stays as it is. -/
theorem decodeFrom_append {t : List Char} (noStart : '&' ∉ t) (noEnd : ';' ∉ t) (s : List Char)
    {skip : Nat} (within : skip ≤ s.length) :
    decodeFrom skip (s ++ t) = decodeFrom skip s ++ t := by
  induction s generalizing skip with
  | nil =>
      rw [List.length_nil, Nat.le_zero] at within
      rw [within, List.nil_append, decodeFrom_plain noStart, decodeFrom, List.nil_append]
  | cons c s ih =>
      rw [List.cons_append]
      cases skip with
      | succ skip => exact ih (Nat.le_of_succ_le_succ within)
      | zero =>
          by_cases start : c = '&'
          · subst start
            rw [decodeFrom, decodeFrom, referenceAt_append noEnd]
            cases found : referenceAt s with
            | none => exact congrArg _ (ih (Nat.zero_le _))
            | some reference => exact congrArg _ (ih (referenceAt_le found))
          · rw [decodeFrom, decodeFrom, ih (Nat.zero_le _), List.cons_append]
            · exact start
            · exact start

theorem decodeReferences_append {s t : List Char} (noStart : '&' ∉ t) (noEnd : ';' ∉ t) :
    decodeReferences (s ++ t) = decodeReferences s ++ t :=
  decodeFrom_append noStart noEnd s (Nat.zero_le _)

/-! ## The last line -/

theorem splitOn_concat {sep c : Char} (other : c ≠ sep) (s : List Char) : ∃ front last,
    splitOn sep s = front ++ [last] ∧ splitOn sep (s ++ [c]) = front ++ [last ++ [c]] := by
  induction s with
  | nil =>
      refine ⟨[], [], rfl, ?_⟩
      rw [List.nil_append, splitOn, beq_eq_false_iff_ne.mpr other]
      rfl
  | cons d s ih =>
      obtain ⟨front, last, split, split'⟩ := ih
      rw [List.cons_append, splitOn, splitOn, split, split']
      cases d == sep with
      | true => exact ⟨[] :: front, last, rfl, rfl⟩
      | false =>
          cases front with
          | nil => exact ⟨[], d :: last, rfl, rfl⟩
          | cons part front => exact ⟨(d :: part) :: front, last, rfl, rfl⟩

theorem sourceLines_concat (raw : List Char) : ∃ front last,
    sourceLines raw = front ++ [last] ∧ sourceLines (raw ++ ['\r']) = front ++ [last ++ ['\r']] := by
  obtain ⟨front, last, split, split'⟩ := splitOn_concat (show '\r' ≠ '\n' by decide) raw
  refine ⟨(front.map (dropTrailing (· == '\r'))).map spaced, spaced last, ?_, ?_⟩
  · simp only [sourceLines, split, List.dropLast_concat, List.getLast?_concat, Option.toList_some,
      List.map_append, List.map_singleton]
  · simp only [sourceLines, split', List.dropLast_concat, List.getLast?_concat, Option.toList_some,
      List.map_append, List.map_singleton, spaced]
    rfl

/-- Which lines in front of the last one are written does not depend on what the last one is. -/
theorem writtenLines_concat (isFirst : Bool) (front : List (List Char)) : ∃ written, ∀ last,
    writtenLines isFirst (front ++ [last]) =
      if trimLine (isFirst && front.isEmpty) true last = [] then written
      else written ++ [trimLine (isFirst && front.isEmpty) true last] := by
  induction front generalizing isFirst with
  | nil =>
      refine ⟨[], fun last => ?_⟩
      rw [List.isEmpty_nil, Bool.and_true]
      rfl
  | cons line front ih =>
      obtain ⟨written, later⟩ := ih false
      have more (last : List Char) : (front ++ [last]).isEmpty = false := by
        cases front <;> rfl
      rw [List.isEmpty_cons, Bool.and_false]
      rw [Bool.false_and] at later
      by_cases empty : trimLine isFirst false line = []
      · refine ⟨written, fun last => ?_⟩
        rw [List.cons_append, writtenLines, more, if_pos empty, later]
      · refine ⟨trimLine isFirst false line :: written, fun last => ?_⟩
        rw [List.cons_append, writtenLines, more, if_neg empty, later]
        split <;> rfl

theorem trimLine_return (isFirst : Bool) (line : List Char) :
    trimLine isFirst true (line ++ ['\r']) = trimLine isFirst true line ++ ['\r'] := by
  cases isFirst with
  | true => rfl
  | false =>
      show (line ++ ['\r']).dropWhile (· == ' ') = line.dropWhile (· == ' ') ++ ['\r']
      by_cases blank : line.dropWhile (· == ' ') = []
      · rw [List.dropWhile_append, if_pos (by rw [blank]; rfl), blank]
        rfl
      · rw [List.dropWhile_append, if_neg (by rwa [List.isEmpty_iff])]

theorem joinWith_lengthened (lines : List (List Char)) (last more : List Char) :
    joinWith [' '] (lines ++ [last ++ more]) = joinWith [' '] (lines ++ [last]) ++ more := by
  by_cases empty : lines = []
  · rw [empty]
    rfl
  · rw [joinWith_append _ empty (List.cons_ne_nil _ _), joinWith_append _ empty (List.cons_ne_nil _ _)]
    exact (List.append_assoc ..).symm

theorem writtenLines_filled {raw line : List Char} (member : line ∈ writtenLines true (sourceLines raw)) :
    line ≠ [] := by
  rw [← writtenLines_eq] at member
  exact of_decide_eq_true (List.mem_filter.mp member).2

theorem jsxText_eq (raw : List Char) :
    jsxText raw = if writtenLines true (sourceLines raw) = [] then none
      else some (decodeReferences (joinWith [' '] (writtenLines true (sourceLines raw)))) := by
  rw [jsxText, writtenLines_eq]
  split
  case h_1 empty => rw [if_pos empty]
  case h_2 filled => rw [if_neg filled]

theorem jsxText_getD (raw : List Char) :
    (jsxText raw).getD [] = decodeReferences (joinWith [' '] (writtenLines true (sourceLines raw))) := by
  rw [jsxText_eq]
  split
  case isTrue empty => rw [empty]; rfl
  case isFalse => rfl

/-- By the rule a carriage return at the end is one more character of the text, and maybe a line of its
own. -/
theorem jsxText_return (raw : List Char) : ∃ added, (added = ['\r'] ∨ added = [' ', '\r']) ∧
    jsxText (raw ++ ['\r']) = some ((jsxText raw).getD [] ++ added) := by
  obtain ⟨front, last, lines, lines'⟩ := sourceLines_concat raw
  obtain ⟨written, ends⟩ := writtenLines_concat true front
  have filled : trimLine (true && front.isEmpty) true (last ++ ['\r']) ≠ [] := by
    rw [trimLine_return]
    exact List.append_ne_nil_of_right_ne_nil _ (List.cons_ne_nil _ _)
  have text : jsxText (raw ++ ['\r']) = some (decodeReferences (joinWith [' ']
      (written ++ [trimLine (true && front.isEmpty) true last ++ ['\r']]))) := by
    rw [jsxText_eq, lines', ends, if_neg filled, trimLine_return,
      if_neg (List.append_ne_nil_of_right_ne_nil _ (List.cons_ne_nil _ _))]
  rw [text, jsxText_getD, lines, ends]
  by_cases empty : trimLine (true && front.isEmpty) true last = []
  · rw [if_pos empty, empty, List.nil_append]
    by_cases alone : written = []
    · refine ⟨['\r'], .inl rfl, ?_⟩
      rw [alone]
      decide
    · refine ⟨[' ', '\r'], .inr rfl, ?_⟩
      rw [joinWith_append _ alone (List.cons_ne_nil _ _), List.append_assoc,
        decodeReferences_append (by decide) (by decide)]
      rfl
  · refine ⟨['\r'], .inl rfl, ?_⟩
    rw [if_neg empty, joinWith_lengthened, decodeReferences_append (by decide) (by decide)]

theorem plainLine_return (line : List Char) : plainLine (line ++ ['\r']) = plainLine line := by
  rw [plainLine, plainLine, dropTrailing_eq, dropTrailing_eq,
    List.rdropWhile_concat_pos (fun c => c == '\r') line '\r' rfl]

theorem plainLine_eq {line : List Char} (kept : line.getLast? ≠ some '\r') :
    plainLine line = spaced line := by
  rw [plainLine, spaced, dropTrailing_eq, List.rdropWhile_eq_self_iff.mpr]
  intro filled dropped
  exact kept (by rw [List.getLast?_eq_some_getLast filled, beq_iff_eq.mp dropped])

theorem cleanText_return (raw : List Char) : cleanText (raw ++ ['\r']) = cleanText raw := by
  obtain ⟨front, last, split, split'⟩ := splitOn_concat (show '\r' ≠ '\n' by decide) raw
  simp only [cleanText, split, split', List.map_append, List.map_singleton, plainLine_return]

theorem exists_base (raw : List Char) : ∃ base returns,
    raw = base ++ List.replicate returns '\r' ∧ base.getLast? ≠ some '\r' := by
  induction raw using List.reverseRecOn with
  | nil => exact ⟨[], 0, rfl, nofun⟩
  | append_singleton raw c ih =>
      by_cases same : c = '\r'
      · obtain ⟨base, returns, split, ends⟩ := ih
        refine ⟨base, returns + 1, ?_, ends⟩
        rw [same, split, List.replicate_succ', List.append_assoc]
      · refine ⟨raw ++ [c], 0, (List.append_nil _).symm, ?_⟩
        rw [List.getLast?_concat]
        exact fun other => same (Option.some.inj other)

theorem cleanText_returns (base : List Char) (returns : Nat) :
    cleanText (base ++ List.replicate returns '\r') = cleanText base := by
  induction returns with
  | zero => rw [List.replicate_zero, List.append_nil]
  | succ returns ih => rw [List.replicate_succ', ← List.append_assoc, cleanText_return, ih]

theorem jsxText_returns (base : List Char) (returns : Nat) : ∃ added, added.getLast? = some '\r' ∧
    jsxText (base ++ List.replicate (returns + 1) '\r') = some ((jsxText base).getD [] ++ added) := by
  induction returns with
  | zero =>
      obtain ⟨added, either, text⟩ := jsxText_return base
      refine ⟨added, ?_, text⟩
      rcases either with rfl | rfl <;> rfl
  | succ returns ih =>
      obtain ⟨before, -, shorter⟩ := ih
      obtain ⟨added, either, text⟩ := jsxText_return (base ++ List.replicate (returns + 1) '\r')
      refine ⟨before ++ added, ?_, ?_⟩
      · rcases either with rfl | rfl
        · exact List.getLast?_concat ..
        · exact List.getLast?_append_of_ne_nil _ (List.cons_ne_nil _ _)
      · rw [List.replicate_succ', ← List.append_assoc, text, shorter, Option.getD_some, List.append_assoc]

/-! ## The rule -/

theorem sourceLines_eq {raw : List Char} (ends : raw.getLast? ≠ some '\r') :
    sourceLines raw = (splitOn '\n' raw).map plainLine := by
  have lines : ∃ front last, splitOn '\n' raw = front ++ [last] ∧ last.getLast? ≠ some '\r' := by
    rcases raw.eq_nil_or_concat with rfl | ⟨s, c, rfl⟩
    · exact ⟨[], [], rfl, nofun⟩
    · by_cases feed : c = '\n'
      · refine ⟨splitOn '\n' s, [], ?_, nofun⟩
        rw [feed, List.concat_eq_append, splitOn_append_sep]
        rfl
      · obtain ⟨front, last, -, split⟩ := splitOn_concat feed s
        rw [List.concat_eq_append] at ends ⊢
        refine ⟨front, last ++ [c], split, ?_⟩
        rwa [List.getLast?_concat] at ends ⊢
  obtain ⟨front, last, split, kept⟩ := lines
  simp only [sourceLines, split, List.dropLast_concat, List.getLast?_concat, Option.toList_some,
    List.map_append, List.map_singleton, List.map_map, plainLine_eq kept]
  rfl

theorem spaced_blank {raw : List Char} : (spaced raw).all (· == ' ') ↔ ∀ c ∈ raw, c = ' ' ∨ c = '\t' := by
  simp only [spaced, List.all_map, List.all_eq_true, Function.comp_apply]
  refine forall₂_congr fun c _ => ?_
  by_cases tab : c = '\t'
  · simp [tab]
  · simp [tab]

theorem joinWith_filled {lines : List (List Char)} (filled : ∀ line ∈ lines, line ≠ []) :
    joinWith [' '] lines = [] ↔ lines = [] := by
  cases lines with
  | nil => exact iff_of_true rfl rfl
  | cons line rest =>
      refine iff_of_false (fun empty => ?_) nofun
      refine filled line (List.mem_cons_self ..) ?_
      cases rest with
      | nil => exact empty
      | cons => exact (List.append_eq_nil_iff.mp (List.append_eq_nil_iff.mp empty).1).1

theorem cleanText_eq_jsxText {raw : List Char} (ends : raw.getLast? ≠ some '\r')
    (ink : (∀ c ∈ raw, c = ' ' ∨ c = '\t') → raw = []) : cleanText raw = jsxText raw := by
  have joined : joinLines true ((splitOn '\n' raw).map plainLine) =
      joinWith [' '] (writtenLines true (sourceLines raw)) := by
    rw [sourceLines_eq ends]
    refine joinLines_eq fun _ line only blank => ?_
    obtain ⟨whole, split, rfl⟩ := List.map_eq_singleton_iff.mp only
    have same : raw = whole := by
      rw [← join_splitOn '\n' raw, split]
      rfl
    rw [← same, plainLine_eq ends] at blank
    rw [← same, ink (spaced_blank.mp blank)]
    rfl
  rw [cleanText, jsxText_eq, joined]
  simp only [List.isEmpty_iff, joinWith_filled fun _ => writtenLines_filled]

/-- A space too many stands behind a blank line that is the only one. -/
theorem cleanText_blank {raw : List Char} (blank : ∀ c ∈ raw, c = ' ' ∨ c = '\t') (filled : raw ≠ []) :
    cleanText raw = some (spaced raw ++ [' ']) ∧ jsxText raw = some (spaced raw) := by
  have absent (c : Char) (ink : c ≠ ' ' ∧ c ≠ '\t') : c ∉ raw := fun member =>
    (blank c member).elim ink.1 ink.2
  have ends : raw.getLast? ≠ some '\r' := fun last =>
    absent '\r' (by decide) (List.mem_of_getLast? last)
  have spaces : ∀ c ∈ spaced raw, c = ' ' := fun c member =>
    beq_iff_eq.mp (List.all_eq_true.mp (spaced_blank.mpr blank) c member)
  have filled' : spaced raw ≠ [] := by
    rwa [spaced, Ne, List.map_eq_nil_iff]
  have plain : '&' ∉ spaced raw ++ [' '] := by
    rw [List.mem_append, not_or]
    exact ⟨fun member => absurd (spaces _ member) (by decide), by decide⟩
  have alone : splitOn '\n' raw = [raw] := splitOn_plain (absent '\n' (by decide))
  constructor
  · have text : joinLines true [plainLine raw] = spaced raw ++ [' '] := by
      have inkless : (spaced raw).any (· != ' ') = false := by
        rw [List.any_eq_false]
        intro c member
        rw [spaces c member]
        decide
      simp only [joinLines, trimLine, plainLine_eq ends, inkless, List.isEmpty_nil, if_true,
        List.isEmpty_iff, filled', if_false, Bool.false_and, Bool.false_eq_true, List.append_nil]
    rw [cleanText, alone, List.map_singleton, text, if_neg (by simp), decodeReferences,
      decodeFrom_plain plain]
  · have lines : writtenLines true (sourceLines raw) = [spaced raw] := by
      rw [sourceLines_eq ends, alone, List.map_singleton, plainLine_eq ends, writtenLines]
      exact if_neg filled'
    rw [jsxText_eq, lines, if_neg (List.cons_ne_nil _ _), joinWith, decodeReferences,
      decodeFrom_plain fun member => plain (List.mem_append_left _ member)]

/-- The text between tags is what the rule says, unless it ends in a carriage return or is one blank
line. -/
theorem cleanText_eq_jsxText_iff (raw : List Char) : cleanText raw = jsxText raw ↔
    raw.getLast? ≠ some '\r' ∧ ((∀ c ∈ raw, c = ' ' ∨ c = '\t') → raw = []) := by
  constructor
  · intro same
    obtain ⟨base, returns, rfl, ends⟩ := exists_base raw
    rw [cleanText_returns] at same
    by_cases ink : (∀ c ∈ base, c = ' ' ∨ c = '\t') → base = []
    · cases returns with
      | zero => rw [List.replicate_zero, List.append_nil]; exact ⟨ends, ink⟩
      | succ returns =>
          obtain ⟨added, last, text⟩ := jsxText_returns base returns
          rw [cleanText_eq_jsxText ends ink, text] at same
          have longer := congrArg (fun text => (text.getD []).length) same
          simp only [Option.getD_some, List.length_append] at longer
          have nothing : added = [] := List.length_eq_zero_iff.mp (by omega)
          exact absurd last (by rw [nothing]; decide)
    · rw [Classical.not_imp] at ink
      obtain ⟨written, rule⟩ := cleanText_blank ink.1 ink.2
      cases returns with
      | zero =>
          rw [List.replicate_zero, List.append_nil, written, rule] at same
          exact absurd (Option.some.inj same) (by simp)
      | succ returns =>
          obtain ⟨added, last, text⟩ := jsxText_returns base returns
          rw [text, written, rule] at same
          have other : [' '] = added := List.append_cancel_left (Option.some.inj same)
          rw [← other] at last
          exact absurd last (by decide)
  · exact fun ⟨ends, ink⟩ => cleanText_eq_jsxText ends ink

/-- Two spaces between tags become three. -/
theorem cleanText_two_spaces : cleanText [' ', ' '] = some [' ', ' ', ' '] ∧
    jsxText [' ', ' '] = some [' ', ' '] := by
  decide

/-! ## Texts with references

A text is written into JSX with a reference in place of each character that means something there
(`written`).  No such character is left, and decoding the references (`decodeReferences_written`) and
cleaning the text (`cleanText_written`) give the text back. -/

/-- What stands between `&` and `;` in place of a character. -/
def referenceName : Char → Option (List Char)
  | '&' => some ['a', 'm', 'p']
  | '<' => some ['l', 't']
  | '>' => some ['g', 't']
  | '"' => some ['q', 'u', 'o', 't']
  | '\x7b' => some ['#', '1', '2', '3']
  | '\x7d' => some ['#', '1', '2', '5']
  | _ => none

def writtenChar (c : Char) : List Char :=
  match referenceName c with
  | some name => '&' :: (name ++ [';'])
  | none => [c]

def written (s : List Char) : List Char := s.flatMap writtenChar

/-- A reference of one to ten bytes is read as what it stands for. -/
theorem decodeFrom_reference {name : List Char} {c : Char} (ends : ';' ∉ name)
    (short : 0 < byteLength name ∧ byteLength name ≤ 10) (value : referenceValue name = some c)
    (rest : List Char) :
    decodeFrom 0 ('&' :: (name ++ ';' :: rest)) = c :: decodeFrom 0 rest := by
  have taken : (name ++ ';' :: rest).takeWhile (· != ';') = name := by
    rw [List.takeWhile_append_of_pos]
    · simp
    · intro x member
      refine bne_iff_ne.mpr ?_
      rintro rfl
      exact ends member
  have found : referenceAt (name ++ ';' :: rest) = some (c, name.length + 1) := by
    simp only [referenceAt, taken]
    rw [if_pos ⟨by simp, short⟩, value]
    rfl
  have skipped (s rest : List Char) : decodeFrom s.length (s ++ rest) = decodeFrom 0 rest := by
    induction s with
    | nil => rfl
    | cons x s ih => exact ih
  have behind := skipped (name ++ [';']) rest
  rw [List.length_append, List.append_assoc] at behind
  rw [decodeFrom, found]
  exact congrArg _ behind

theorem referenceName_reads {c : Char} {name : List Char} (some : referenceName c = some name) :
    ';' ∉ name ∧ (0 < byteLength name ∧ byteLength name ≤ 10) ∧ referenceValue name = .some c := by
  unfold referenceName at some
  split at some
  case h_7 => cases some
  all_goals
    cases some
    exact ⟨by decide, by decide, rfl⟩

theorem decodeFrom_writtenChar (c : Char) (rest : List Char) :
    decodeFrom 0 (writtenChar c ++ rest) = c :: decodeFrom 0 rest := by
  unfold writtenChar
  split
  case h_1 name some =>
    obtain ⟨ends, short, value⟩ := referenceName_reads some
    rw [List.cons_append, List.append_assoc]
    exact decodeFrom_reference ends short value rest
  case h_2 none =>
    rw [List.singleton_append, decodeFrom]
    rintro rfl
    cases none

/-- What is written is read back. -/
theorem decodeReferences_written (s : List Char) : decodeReferences (written s) = s := by
  induction s with
  | nil => rfl
  | cons c s ih =>
      rw [decodeReferences, written, List.flatMap_cons, decodeFrom_writtenChar]
      exact congrArg _ ih

/-! ## What is not written -/

/-- The characters of all references. -/
def referenceChars : List Char := "&;ampltgquo#1235".toList

theorem mem_referenceChars {c : Char} {name : List Char} (some : referenceName c = some name) :
    ∀ x ∈ '&' :: (name ++ [';']), x ∈ referenceChars := by
  have known : ('&' :: (name ++ [';'])).all referenceChars.contains = true := by
    unfold referenceName at some
    split at some
    case h_7 => cases some
    all_goals
      cases some
      rfl
  intro x member
  exact List.contains_iff_mem.mp (List.all_eq_true.mp known x member)

/-- A character outside of references is written only as itself, and not at all when it has a
reference. -/
theorem not_mem_written {s : List Char} {x : Char} (foreign : x ∉ referenceChars)
    (absent : (referenceName x).isSome ∨ x ∉ s) : x ∉ written s := by
  intro member
  obtain ⟨c, within, member⟩ := List.mem_flatMap.mp member
  unfold writtenChar at member
  split at member
  case h_1 name some => exact foreign (mem_referenceChars some x member)
  case h_2 none =>
    cases List.mem_singleton.mp member
    rcases absent with some | absent
    · rw [none] at some
      cases some
    · exact absent within

theorem ink_written {s : List Char} (ink : s.any (· != ' ') = true) :
    (written s).any (· != ' ') = true := by
  obtain ⟨c, within, ink⟩ := List.any_eq_true.mp ink
  refine List.any_eq_true.mpr ?_
  cases found : referenceName c with
  | none =>
      refine ⟨c, List.mem_flatMap.mpr ⟨c, within, ?_⟩, ink⟩
      rw [writtenChar, found]
      exact List.mem_singleton.mpr rfl
  | some name =>
      refine ⟨'&', List.mem_flatMap.mpr ⟨c, within, ?_⟩, rfl⟩
      rw [writtenChar, found]
      exact List.mem_cons_self ..

/-- A written text without line breaks and tabs that is not blank is kept as it is. -/
theorem cleanText_written {s : List Char} (inLine : '\n' ∉ s ∧ '\r' ∉ s ∧ '\t' ∉ s)
    (ink : s.any (· != ' ') = true) : cleanText (written s) = some s := by
  obtain ⟨noFeed, noReturn, noTab⟩ := inLine
  have feed : '\n' ∉ written s := not_mem_written (by decide) (.inr noFeed)
  have carriage : '\r' ∉ written s := not_mem_written (by decide) (.inr noReturn)
  have tab : '\t' ∉ written s := not_mem_written (by decide) (.inr noTab)
  have plain : plainLine (written s) = written s := by
    rw [plainLine_eq fun last => carriage (List.mem_of_getLast? last), spaced]
    refine (List.map_congr_left fun c member => if_neg ?_).trans (List.map_id _)
    rw [beq_iff_eq]
    rintro rfl
    exact tab member
  have filled : (written s).isEmpty = false := by
    cases empty : written s with
    | nil => exact absurd (ink_written ink) (by simp [empty])
    | cons => rfl
  have joined : joinLines true [written s] = written s := by
    simp [joinLines, trimLine, ink_written ink, filled]
  simp only [cleanText, splitOn_plain feed, List.map_singleton, plain, joined, filled,
    decodeReferences_written]
  rfl

end JsxPreview.Source
