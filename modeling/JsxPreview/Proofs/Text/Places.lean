import Mathlib.Data.List.DropRight
import Mathlib.Data.List.Induction
import Mathlib.Order.Bounds.Defs
import JsxPreview.Proofs.SourceMap.Writer
import JsxPreview.Proofs.Text.Split

/-! # Offsets and places

A text is cut where a line of it starts (`OpensLine`): what stands in front counts the lines, and
what follows on the line counts the columns (`advance_line`).  So the offsets between two characters
and their places go to each other and come in the same order, and a column that no character starts
at leads to the next one that does (`places_of_offsets`).  The lines of a text are the same ones
without their ends (`isLine_lines`). -/
set_option autoImplicit false
namespace JsxPreview.Text

/-! ## Boundaries -/

/-- A boundary is the length of a front. -/
theorem split_of_isBoundary {s : List Char} : ∀ {n : Nat}, isBoundary n s = true →
    ∃ front back, s = front ++ back ∧ byteLength front = n := by
  induction s with
  | nil =>
      intro n boundary
      exact ⟨[], [], rfl, (of_decide_eq_true boundary).symm⟩
  | cons c s ih =>
      intro n boundary
      rw [isBoundary, Bool.or_eq_true, Bool.and_eq_true, decide_eq_true_eq, decide_eq_true_eq]
        at boundary
      rcases boundary with rfl | ⟨fits, behind⟩
      · exact ⟨[], c :: s, rfl, rfl⟩
      · obtain ⟨front, back, rfl, length⟩ := ih behind
        refine ⟨c :: front, back, rfl, ?_⟩
        rw [byteLength_cons, length]
        omega

theorem position_byteLength (front back : List Char) :
    position (byteLength front) (front ++ back) = Position.origin.advance front :=
  positionFrom_byteLength .origin front back

/-! ## Lines of a text -/

/-- A line starts behind `front`. -/
def OpensLine (front : List Char) : Prop := front = [] ∨ ∃ s, front = s ++ ['\n']

theorem OpensLine.append {front start : List Char} (first : OpensLine front)
    (second : OpensLine start) : OpensLine (front ++ start) := by
  rcases second with rfl | ⟨s, rfl⟩
  · rwa [List.append_nil]
  · exact .inr ⟨front ++ s, (List.append_assoc ..).symm⟩

/-- Every text goes on with the line that it has come to. -/
theorem exists_line (s : List Char) :
    ∃ start here, s = start ++ here ∧ OpensLine start ∧ '\n' ∉ here := by
  induction s using List.reverseRecOn with
  | nil => exact ⟨[], [], rfl, .inl rfl, List.not_mem_nil⟩
  | append_singleton s c ih =>
      by_cases feed : c = '\n'
      · subst feed
        exact ⟨s ++ ['\n'], [], (List.append_nil _).symm, .inr ⟨s, rfl⟩, List.not_mem_nil⟩
      · obtain ⟨start, here, rfl, starts, plain⟩ := ih
        refine ⟨start, here ++ [c], List.append_assoc .., starts, ?_⟩
        rw [List.mem_append, List.mem_singleton, not_or]
        exact ⟨plain, Ne.symm feed⟩

theorem length_splitOn (sep : Char) (s : List Char) :
    (splitOn sep s).length = s.count sep + 1 := by
  induction s with
  | nil => rfl
  | cons c s ih =>
      rw [splitOn, List.count_cons]
      split
      case h_1 same => rw [List.length_cons, ih, if_pos same]
      case h_2 part parts other split =>
        rw [split, List.length_cons] at ih
        rw [List.length_cons, ih, if_neg (ne_true_of_eq_false other), Nat.add_zero]
      case h_3 split => exact absurd split (splitOn_ne_nil _ _)

/-- A line stands behind as many line feeds as its number, and up to the next one. -/
theorem split_of_line {line : Nat} : ∀ {s text : List Char}, (splitOn '\n' s)[line]? = some text →
    ∃ start rest, s = start ++ (text ++ rest) ∧ OpensLine start ∧ start.count '\n' = line ∧
      '\n' ∉ text ∧ (rest = [] ∨ ∃ t, rest = '\n' :: t) := by
  induction line with
  | zero =>
      intro s text here
      by_cases feed : '\n' ∈ s
      · obtain ⟨first, behind, rfl, plain⟩ := List.eq_append_cons_of_mem feed
        rw [splitOn_append_sep, splitOn_plain plain] at here
        cases here
        exact ⟨[], '\n' :: behind, rfl, .inl rfl, rfl, plain, .inr ⟨behind, rfl⟩⟩
      · rw [splitOn_plain feed] at here
        cases here
        exact ⟨[], [], (List.append_nil _).symm, .inl rfl, rfl, feed, .inl rfl⟩
  | succ line ih =>
      intro s text here
      by_cases feed : '\n' ∈ s
      · obtain ⟨first, behind, rfl, plain⟩ := List.eq_append_cons_of_mem feed
        rw [splitOn_append_sep, splitOn_plain plain] at here
        obtain ⟨start, rest, rfl, starts, count, whole, ends⟩ := ih here
        refine ⟨(first ++ ['\n']) ++ start, rest, by simp, ?_, ?_, whole, ends⟩
        · exact OpensLine.append (.inr ⟨first, rfl⟩) starts
        · rw [List.count_append, List.count_append, List.count_eq_zero_of_not_mem plain, count,
            List.count_singleton_self]
          omega
      · rw [splitOn_plain feed] at here
        cases here

/-! ## The place behind a text -/

namespace Position

theorem line_advance (s : List Char) : ∀ p : Position,
    (p.advance s).line = p.line + s.count '\n' := by
  induction s with
  | nil =>
      intro p
      rfl
  | cons c s ih =>
      intro p
      rw [advance_cons, ih, List.count_cons]
      by_cases feed : c = '\n'
      · rw [after, if_pos feed, if_pos (beq_iff_eq.mpr feed), Nat.add_right_comm]
        exact Nat.add_assoc ..
      · rw [after, if_neg feed, if_neg (by simpa using feed)]
        rfl

theorem advance_plain {s : List Char} (plain : '\n' ∉ s) : ∀ p : Position,
    p.advance s = ⟨p.line, p.column + unitLength s⟩ := by
  induction s with
  | nil =>
      intro p
      rfl
  | cons c s ih =>
      intro p
      rw [List.mem_cons, not_or] at plain
      rw [advance_cons, ih plain.2, after, if_neg (Ne.symm plain.1), unitLength, Nat.add_assoc]

/-- The place of what stands on the line behind `start`. -/
theorem advance_line {start here : List Char} (starts : OpensLine start) (plain : '\n' ∉ here) :
    origin.advance (start ++ here) = ⟨start.count '\n', unitLength here⟩ := by
  have line : (origin.advance start).line = start.count '\n' :=
    (line_advance start origin).trans (Nat.zero_add _)
  have column : (origin.advance start).column = 0 := by
    rcases starts with rfl | ⟨s, rfl⟩
    · rfl
    · rw [advance_append]
      rfl
  rw [advance_append, advance_plain plain, line, column, Nat.zero_add]

end Position

/-- The place between two characters, from what stands in front. -/
theorem position_takeBytes {s : List Char} {n : Nat} (boundary : isBoundary n s = true) :
    position n s = ⟨(takeBytes n s).count '\n',
      unitLength ((takeBytes n s).rtakeWhile (· ≠ '\n'))⟩ := by
  obtain ⟨front, back, rfl, rfl⟩ := split_of_isBoundary boundary
  obtain ⟨start, here, rfl, starts, plain⟩ := exists_line front
  have behind : (start ++ here).rtakeWhile (· ≠ '\n') = here := by
    have all : ∀ c ∈ here.reverse, decide (c ≠ '\n') = true := by
      intro c member
      exact decide_eq_true fun same => plain (same ▸ List.mem_reverse.mp member)
    rw [List.rtakeWhile, List.reverse_append, List.takeWhile_append_of_pos all]
    rcases starts with rfl | ⟨front, rfl⟩ <;> simp
  have count : (start ++ here).count '\n' = start.count '\n' := by
    rw [List.count_append, List.count_eq_zero_of_not_mem plain, Nat.add_zero]
  rw [takeBytes_byteLength, behind, count, position_byteLength, Position.advance_line starts plain]

/-! ## The offset of a place -/

theorem offset_zero (column : Nat) (s : List Char) : offset 0 column s = offsetInLine column s := by
  cases s <;> rfl

/-- A line is looked for behind the line feeds in front of it. -/
theorem offset_line {start : List Char} (starts : OpensLine start) (column : Nat)
    (t : List Char) :
    offset (start.count '\n') column (start ++ t) = byteLength start + offsetInLine column t := by
  rw [← offset_zero]
  rcases starts with rfl | ⟨s, rfl⟩
  · exact (Nat.zero_add _).symm
  · induction s with
    | nil => exact congrArg (· + _) rfl
    | cons c s ih =>
        rw [List.count_append, List.count_singleton_self] at ih ⊢
        rw [List.cons_append, List.cons_append, offset, byteLength_cons, Nat.add_assoc, ← ih,
          List.count_cons]
        by_cases feed : c = '\n'
        · rw [if_pos feed, if_pos (beq_iff_eq.mpr feed)]
        · rw [if_neg feed, if_neg (by simpa using feed), Nat.add_zero]

theorem offset_of_no_line {s : List Char} : ∀ {line : Nat}, s.count '\n' < line →
    ∀ column, offset line column s = byteLength s := by
  induction s with
  | nil =>
      intro line _ column
      rfl
  | cons c s ih =>
      intro line beyond column
      cases line with
      | zero => exact absurd beyond (Nat.not_lt_zero _)
      | succ line =>
          rw [offset, byteLength_cons]
          by_cases feed : c = '\n'
          · subst feed
            rw [List.count_cons_self] at beyond
            rw [if_pos rfl, ih (Nat.lt_of_succ_lt_succ beyond)]
          · rw [List.count_cons_of_ne feed] at beyond
            rw [if_neg feed, ih beyond]

/-- A column that a character starts at is found there. -/
theorem offsetInLine_unitLength {here : List Char} (plain : '\n' ∉ here) (back : List Char) :
    offsetInLine (unitLength here) (here ++ back) = byteLength here := by
  induction here with
  | nil => cases back <;> simp [offsetInLine, unitLength]
  | cons c here ih =>
      rw [List.mem_cons, not_or] at plain
      have positive := units_pos c
      rw [List.cons_append, unitLength, offsetInLine, if_neg ?_, Nat.add_sub_cancel_left,
        ih plain.2, byteLength_cons]
      rw [not_or]
      exact ⟨by omega, Ne.symm plain.1⟩

/-- A column leads to the first character of its line that starts there or behind, or to the end of
the line. -/
theorem offsetInLine_least {text rest : List Char} (plain : '\n' ∉ text)
    (ends : rest = [] ∨ ∃ t, rest = '\n' :: t) : ∀ column,
    ∃ front back, text = front ++ back ∧
      offsetInLine column (text ++ rest) = byteLength front ∧
      (back = [] ∨ column ≤ unitLength front) ∧
      ∀ front', front' <+: text → column ≤ unitLength front' →
        unitLength front ≤ unitLength front' := by
  induction text with
  | nil =>
      intro column
      refine ⟨[], [], rfl, ?_, .inl rfl, fun _ _ _ => Nat.zero_le _⟩
      rcases ends with rfl | ⟨t, rfl⟩
      · rfl
      · exact if_pos (.inr rfl)
  | cons c text ih =>
      intro column
      rw [List.mem_cons, not_or] at plain
      by_cases reached : column = 0
      · exact ⟨[], c :: text, rfl, if_pos (.inl reached), .inr (Nat.le_of_eq reached),
          fun _ _ _ => Nat.zero_le _⟩
      · obtain ⟨front, back, rfl, found, stops, least⟩ := ih plain.2 (column - units c)
        refine ⟨c :: front, back, rfl, ?_, ?_, ?_⟩
        · rw [List.cons_append, offsetInLine, if_neg (not_or.mpr ⟨reached, Ne.symm plain.1⟩), found,
            byteLength_cons]
        · refine stops.imp_right fun within => ?_
          rw [unitLength]
          omega
        · intro front' within beyond
          cases front' with
          | nil => exact absurd (Nat.le_zero.mp beyond) reached
          | cons c' front' =>
              obtain ⟨rfl, before⟩ := List.cons_prefix_cons.mp within
              rw [unitLength] at beyond
              rw [unitLength, unitLength]
              have := least front' before (by omega)
              omega

/-! ## Both ways -/

/-- An offset between two characters is found again from its place. -/
theorem offset_position {s : List Char} {o : Nat} (boundary : isBoundary o s = true) :
    offset (position o s).line (position o s).column s = o := by
  obtain ⟨front, back, rfl, rfl⟩ := split_of_isBoundary boundary
  obtain ⟨start, here, rfl, starts, plain⟩ := exists_line front
  rw [position_byteLength, Position.advance_line starts plain, List.append_assoc,
    offset_line starts, offsetInLine_unitLength plain, byteLength_append]

/-- Places come in the order of the offsets. -/
theorem position_lt {s : List Char} {o o' : Nat} (first : isBoundary o s = true)
    (second : isBoundary o' s = true) (before : o < o') : position o s < position o' s := by
  obtain ⟨front, back, rfl, rfl⟩ := split_of_isBoundary first
  obtain ⟨front', back', whole, rfl⟩ := split_of_isBoundary second
  rw [position_byteLength, whole, position_byteLength]
  rcases List.append_eq_append_iff.mp whole with ⟨more, rfl, _⟩ | ⟨more, rfl, _⟩
  · rw [Position.advance_append]
    refine Position.lt_advance _ ?_
    rintro rfl
    rw [List.append_nil] at before
    exact Nat.lt_irrefl _ before
  · rw [byteLength_append] at before
    omega

theorem isWord_position {s : List Char} (small : byteLength s < 2 ^ 32) {o : Nat}
    (boundary : isBoundary o s = true) : (position o s).IsWord := by
  obtain ⟨front, back, rfl, rfl⟩ := split_of_isBoundary boundary
  rw [position_byteLength]
  exact fits_of_bytes small front (List.prefix_append _ _)

/-- The columns of a line that a character starts at, and the one that the line ends at. -/
def columnsOf (s : List Char) (line : Nat) : Set Nat :=
  { column | ∃ o, isBoundary o s = true ∧ position o s = ⟨line, column⟩ }

/-- What is added up to the start of a line ends with a line feed. -/
theorem OpensLine.eq_nil {start more : List Char} (starts : OpensLine (start ++ more))
    (plain : '\n' ∉ more) : more = [] := by
  rcases starts with none | ⟨s, whole⟩
  · exact (List.append_eq_nil_iff.mp none).2
  · cases more using List.reverseRecOn with
    | nil => rfl
    | append_singleton more c =>
        rw [← List.append_assoc] at whole
        obtain ⟨-, same⟩ := List.append_inj' whole rfl
        exact absurd (List.mem_append_right _ (same ▸ List.mem_singleton_self _)) plain

/-- Two starts of lines behind equally many line feeds are one. -/
theorem OpensLine.eq_of_count {start start' t t' : List Char} (starts : OpensLine start)
    (starts' : OpensLine start') (count : start.count '\n' = start'.count '\n')
    (whole : start ++ t = start' ++ t') : start = start' := by
  rcases List.append_eq_append_iff.mp whole with ⟨more, rfl, -⟩ | ⟨more, rfl, -⟩
  · rw [List.count_append, Nat.left_eq_add, List.count_eq_zero] at count
    rw [starts'.eq_nil count, List.append_nil]
  · rw [List.count_append, Nat.add_eq_left, List.count_eq_zero] at count
    rw [starts.eq_nil count, List.append_nil]

theorem mem_columnsOf {start text rest : List Char} (starts : OpensLine start)
    (plain : '\n' ∉ text) (ends : rest = [] ∨ ∃ t, rest = '\n' :: t) (column : Nat) :
    column ∈ columnsOf (start ++ (text ++ rest)) (start.count '\n') ↔
      ∃ front, front <+: text ∧ unitLength front = column := by
  constructor
  · rintro ⟨o, boundary, place⟩
    obtain ⟨front, back, whole, rfl⟩ := split_of_isBoundary boundary
    obtain ⟨start', here, rfl, starts', plain'⟩ := exists_line front
    rw [whole, position_byteLength, Position.advance_line starts' plain', Position.mk.injEq] at place
    obtain ⟨count, rfl⟩ := place
    rw [List.append_assoc] at whole
    have same : start = start' := starts.eq_of_count starts' count.symm whole
    subst same
    rw [List.append_cancel_left_eq] at whole
    refine ⟨here, ?_, rfl⟩
    rcases List.append_eq_append_iff.mp whole with ⟨more, rfl, behind⟩ | ⟨more, rfl, _⟩
    · -- the line ends in front of what follows, which starts with a line feed
      rcases ends with rfl | ⟨t, rfl⟩
      · obtain rfl : more = [] := (List.append_eq_nil_iff.mp behind.symm).1
        exact ⟨[], by rw [List.append_nil, List.append_nil]⟩
      · cases more with
        | nil => exact ⟨[], by rw [List.append_nil, List.append_nil]⟩
        | cons c more =>
            rw [List.cons_append, List.cons.injEq] at behind
            rw [← behind.1] at plain'
            exact absurd (List.mem_append_right _ (List.mem_cons_self ..)) plain'
    · exact List.prefix_append _ _
  · rintro ⟨front, ⟨back, rfl⟩, rfl⟩
    have plainFront : '\n' ∉ front := fun member => plain (List.mem_append_left _ member)
    have cut : start ++ (front ++ back ++ rest) = (start ++ front) ++ (back ++ rest) := by
      simp only [List.append_assoc]
    refine ⟨byteLength (start ++ front), ?_, ?_⟩
    · rw [cut]
      exact isBoundary_append _ _
    · rw [cut, position_byteLength, Position.advance_line starts plainFront]

/-- A place on a line that exists leads to the first column of this line that is not in front of it,
and to the end of the line if there is none. -/
theorem position_offset_line {s text : List Char} {line : Nat}
    (here : (splitOn '\n' s)[line]? = some text) (column : Nat) :
    isBoundary (offset line column s) s = true ∧
      (position (offset line column s) s).line = line ∧
      if column ≤ unitLength text then
        IsLeast { k ∈ columnsOf s line | column ≤ k } (position (offset line column s) s).column
      else (position (offset line column s) s).column = unitLength text := by
  obtain ⟨start, rest, rfl, starts, rfl, plain, ends⟩ := split_of_line here
  obtain ⟨front, back, rfl, found, stops, least⟩ := offsetInLine_least plain ends column
  have plainFront : '\n' ∉ front := fun member => plain (List.mem_append_left _ member)
  have reached : offset (start.count '\n') column (start ++ (front ++ back ++ rest)) =
      byteLength (start ++ front) := by
    rw [offset_line starts, found, byteLength_append]
  have cut : start ++ (front ++ back ++ rest) = (start ++ front) ++ (back ++ rest) := by
    simp only [List.append_assoc]
  have place : position (byteLength (start ++ front)) (start ++ (front ++ back ++ rest)) =
      ⟨start.count '\n', unitLength front⟩ := by
    rw [cut, position_byteLength, Position.advance_line starts plainFront]
  rw [reached, place]
  refine ⟨cut ▸ isBoundary_append _ _, rfl, ?_⟩
  split
  case isTrue within =>
    constructor
    · refine ⟨(mem_columnsOf starts plain ends _).mpr ⟨front, List.prefix_append _ _, rfl⟩, ?_⟩
      rcases stops with rfl | stops
      · rwa [List.append_nil] at within
      · exact stops
    · rintro k ⟨among, beyond⟩
      obtain ⟨front', before, rfl⟩ := (mem_columnsOf starts plain ends k).mp among
      exact least front' before beyond
  case isFalse past =>
    rcases stops with rfl | stops
    · rw [List.append_nil]
    · rw [unitLength_append] at past
      omega

/-- Offsets and places go to each other: an offset between two characters has a place in words and is
found again from it, places come in the order of the offsets, and a place that is none leads to the
next one of its line, to the end of the line, or to the end of the text. -/
theorem places_of_offsets (s : List Char) (small : byteLength s < 2 ^ 32) :
    (∀ o, isBoundary o s = true → (position o s).IsWord ∧
      offset (position o s).line (position o s).column s = o) ∧
    (∀ o o', isBoundary o s = true → isBoundary o' s = true → o < o' →
      position o s < position o' s) ∧
    (splitOn '\n' s).length = s.count '\n' + 1 ∧
    ∀ line column, match (splitOn '\n' s)[line]? with
      | none => offset line column s = byteLength s
      | some text =>
          isBoundary (offset line column s) s = true ∧
          (position (offset line column s) s).line = line ∧
          if column ≤ unitLength text then
            IsLeast { k ∈ columnsOf s line | column ≤ k } (position (offset line column s) s).column
          else (position (offset line column s) s).column = unitLength text := by
  refine ⟨fun o boundary => ⟨isWord_position small boundary, offset_position boundary⟩,
    fun o o' first second before => position_lt first second before, length_splitOn _ _, ?_⟩
  intro line column
  cases here : (splitOn '\n' s)[line]? with
  | none =>
      rw [List.getElem?_eq_none_iff, length_splitOn] at here
      exact offset_of_no_line here column
  | some text => exact position_offset_line here column

/-- The column between the two units of a character leads behind it. -/
theorem places_of_wide_character : byteLength "é😀\r\nb".toList < 2 ^ 32 ∧
    offset 0 3 "é😀\r\nb".toList = 6 ∧
    position 2 "é😀\r\nb".toList < position 6 "é😀\r\nb".toList ∧
    IsLeast { k ∈ columnsOf "é😀\r\nb".toList 0 | 2 ≤ k } 3 ∧
    (position (offset 1 7 "é😀\r\nb".toList) "é😀\r\nb".toList).column = 1 ∧
    offset 2 0 "é😀\r\nb".toList = 9 := by
  have small : byteLength "é😀\r\nb".toList < 2 ^ 32 := by decide
  obtain ⟨both, order, -, lines⟩ := places_of_offsets "é😀\r\nb".toList small
  have within := lines 0 2
  rw [show (splitOn '\n' "é😀\r\nb".toList)[0]? = some "é😀\r".toList by decide] at within
  have past := lines 1 7
  rw [show (splitOn '\n' "é😀\r\nb".toList)[1]? = some "b".toList by decide] at past
  refine ⟨small, (both 6 (by decide)).2, order 2 6 (by decide) (by decide) (by decide), ?_, ?_, ?_⟩
  · exact within.2.2
  · exact past.2.2
  · exact lines 2 0

/-! ## Lines without their ends -/

/-- The text of a line: what stands between its start and its line feed, without a carriage return in
front of the line feed, or the rest of the text. -/
def IsLine (source : List Char) (line : Nat) (text : List Char) : Prop :=
  ∃ start ending rest, source = start ++ (text ++ (ending ++ rest)) ∧
    OpensLine start ∧ start.count '\n' = line ∧ '\n' ∉ text ∧
    (ending = ['\r', '\n'] ∨ ending = ['\n'] ∧ text.getLast? ≠ some '\r' ∨ ending = [] ∧ rest = [])

/-- Every line is found among the lines, but for an empty one behind the last line feed. -/
theorem lines_getD {s : List Char} {line : Nat} {text : List Char}
    (here : (splitOn '\n' s)[line]? = some text) :
    (lines s)[line]?.getD [] = if line < s.count '\n' then dropReturn text else text := by
  have length := length_splitOn '\n' s
  obtain ⟨ended, last, parts⟩ : ∃ ended last, splitOn '\n' s = ended ++ [last] :=
    ⟨_, _, (List.dropLast_append_getLast (splitOn_ne_nil '\n' s)).symm⟩
  rw [parts, List.length_append, List.length_singleton, Nat.add_right_cancel_iff] at length
  rw [lines, parts, List.dropLast_concat, List.getLast?_concat, ← length]
  rw [parts] at here
  by_cases before : line < ended.length
  · rw [List.getElem?_append_left before] at here
    have found : (ended.map dropReturn)[line]? = some (dropReturn text) := by
      rw [List.getElem?_map, here]
      rfl
    rw [if_pos before]
    cases last with
    | nil => exact congrArg (·.getD []) found
    | cons c rest =>
        change ((ended.map dropReturn) ++ [c :: rest])[line]?.getD [] = _
        rw [List.getElem?_append_left (by rwa [List.length_map]), found]
        rfl
  · have inside := (List.getElem?_eq_some_iff.mp here).1
    rw [List.length_append, List.length_singleton] at inside
    obtain rfl : line = ended.length := by omega
    rw [List.getElem?_concat_length] at here
    cases here
    rw [if_neg before]
    cases text with
    | nil =>
        change (ended.map dropReturn)[ended.length]?.getD [] = _
        rw [List.getElem?_eq_none (by rw [List.length_map])]
        rfl
    | cons c rest =>
        change ((ended.map dropReturn) ++ [c :: rest])[ended.length]?.getD [] = _
        rw [← List.length_map (f := dropReturn), List.getElem?_concat_length]
        rfl

theorem isLine_lines {s : List Char} {line : Nat} (inside : line ≤ s.count '\n') :
    IsLine s line ((lines s)[line]?.getD []) := by
  have within : line < (splitOn '\n' s).length := by
    rw [length_splitOn]
    omega
  have here := List.getElem?_eq_getElem within
  rw [lines_getD here]
  generalize (splitOn '\n' s)[line] = text at here
  obtain ⟨start, rest, rfl, starts, rfl, plain, ends⟩ := split_of_line here
  rw [List.count_append, List.count_append, List.count_eq_zero_of_not_mem plain, Nat.zero_add]
  rcases ends with rfl | ⟨behind, rfl⟩
  · rw [if_neg (by simp)]
    exact ⟨start, [], [], rfl, starts, rfl, plain, .inr (.inr ⟨rfl, rfl⟩)⟩
  · rw [if_pos (by simp), dropReturn]
    split
    case isTrue returns =>
      obtain ⟨front, rfl⟩ := List.getLast?_eq_some_iff.mp returns
      rw [List.dropLast_concat]
      refine ⟨start, ['\r', '\n'], behind, by simp, starts, rfl, ?_, .inl rfl⟩
      exact fun member => plain (List.mem_append_left _ member)
    case isFalse others =>
      exact ⟨start, ['\n'], behind, rfl, starts, rfl, plain, .inr (.inl ⟨rfl, others⟩)⟩

end JsxPreview.Text
