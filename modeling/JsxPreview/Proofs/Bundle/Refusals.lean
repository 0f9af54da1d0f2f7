import JsxPreview.Bundle.Module
import JsxPreview.Proofs.Analysis.Refusals
import JsxPreview.Proofs.Text.Places
import JsxPreview.Proofs.TypeErasure

/-! # Errors point into the file

A file with types is read twice: as it is, and with white space in place of its types.  What stands
at a firm place of the second text stands there in the first one too (`firm_of_imageOf`), so that
every refusal points between two characters of the file as it was read, and its line, its column and
the text of its line are those of this place (`parse_error_located`).

The reader of data names the byte it fails at by a line and a column, both counted from one, and counts
bytes to the column.  The place that an error shows is looked for by the same line and column, counting
UTF-16 units.  So the line is always that of the byte; the column is the one of the byte if and only if
everything in front of it on its line is a single byte (`parse_data_located_iff`). -/
set_option autoImplicit false
namespace JsxPreview

open JsxPreview.Text

namespace Source

/-! ## Firm places -/

theorem Firm.boundary {source : List Char} {n : Nat} (firm : Firm source n) :
    n ≤ byteLength source ∧ isBoundary n source = true := by
  obtain ⟨front, back, rfl, rfl⟩ : ∃ front back, source = front ++ back ∧ byteLength front = n := by
    rcases firm with rfl | rfl | ⟨text, front, back, whole, place, -⟩
    · exact ⟨[], source, rfl, rfl⟩
    · exact ⟨source, [], (List.append_nil _).symm, rfl⟩
    · exact ⟨front, text ++ back, by rw [whole, List.append_assoc], place⟩
  rw [byteLength_append]
  exact ⟨Nat.le_add_right _ _, isBoundary_append front back⟩

/-- What is left of an erased text stands where it stood. -/
theorem firm_of_imageOf {spans : List Span} {source : List Char} {n : Nat}
    (firm : Firm (Erasure.imageOf spans 0 source) n) : Firm source n := by
  rcases firm with start | last | ⟨text, front, back, whole, place, c, s, rfl, ink⟩
  · exact .inl start
  · rw [Erasure.byteLength_imageOf] at last
    exact .inr (.inl last)
  · rw [List.append_assoc, List.cons_append] at whole
    obtain ⟨front', back', split, length⟩ := Erasure.imageOf_split (.inl ink) _ _ _ whole
    refine .inr (.inr ⟨[c], front', back', ?_, length.trans place, c, [], rfl, ink⟩)
    rw [split, List.append_assoc]
    rfl

end Source

namespace Bundle

open JsxPreview.Source

/-! ## Refusals of files -/

/-- What makes the code of a file refused: its types cannot be erased, or what is left of it is not a
list of tokens, or not one with declarations of imports and exports. -/
inductive Project.Refuses (p : Project) (path : Path) (loader : Loader) (source : String)
    (e : SyntaxError) : Prop
  | types (erases : loader.erasesTypes = true)
      (refused : eraseTypes loader.readsElements source = .error e)
  | tokens {text : String} (parsed : p.parsedText path loader source = .ok text)
      (refused : tokenize ⟨loader.readsElements, false⟩ text = .error e)
  | declarations {text : String} {tokens : List Token}
      (parsed : p.parsedText path loader source = .ok text)
      (scanned : tokenize ⟨loader.readsElements, false⟩ text = .ok tokens)
      (refused : analyze text.toList tokens (p.headerOptions path) = .error e)

variable {p : Project} {path : Path} {loader : Loader} {source : String}

theorem firm_of_parsedText {text : String} (parsed : p.parsedText path loader source = .ok text)
    {n : Nat} (firm : Firm text.toList n) : Firm source.toList n := by
  unfold Project.parsedText at parsed
  split at parsed
  case isTrue =>
    obtain ⟨_, e, _, _, image⟩ := eraseTypes_cases (ok_of_mapError parsed)
    rw [image] at firm
    exact firm_of_imageOf firm
  case isFalse =>
    cases parsed
    exact firm

theorem Project.Refuses.firm {e : SyntaxError} (refuses : p.Refuses path loader source e) :
    Firm source.toList e.offset := by
  cases refuses with
  | types _ refused => exact eraseTypes_firm refused
  | tokens parsed refused => exact firm_of_parsedText parsed (tokenize_firm refused)
  | declarations parsed scanned refused =>
      exact firm_of_parsedText parsed (analyze_firm (tokenize_laid scanned) refused)

/-- The code of a file is refused for one of these reasons. -/
theorem Project.refuses_of_parse (known : Loader.ofPath path = .ok loader) (code : loader ≠ .json)
    {error : BuildError} (refused : p.parse path source = .error error) :
    ∃ e, p.Refuses path loader source e ∧ error = p.located path source e := by
  unfold Project.parse at refused
  rw [known, Except.mapError, bind_of_ok rfl] at refused
  rcases error_of_bind refused with early | ⟨text, parsed, refused⟩
  · unfold Project.parsedText at early
    split at early
    case isTrue erases =>
      obtain ⟨e, erased, rfl⟩ := error_of_mapError early
      exact ⟨e, .types erases erased, rfl⟩
    case isFalse => cases early
  · rcases error_of_bind refused with refused | ⟨body, _, refused⟩
    · rw [Project.parseBody, if_neg code] at refused
      rcases error_of_bind refused with refused | ⟨tokens, scanned, refused⟩
      · obtain ⟨e, unread, rfl⟩ := error_of_mapError refused
        exact ⟨e, .tokens parsed unread, rfl⟩
      · have scanned := ok_of_mapError scanned
        rcases error_of_bind refused with refused | ⟨analysis, _, refused⟩
        · obtain ⟨e, unread, rfl⟩ := error_of_mapError refused
          exact ⟨e, .declarations parsed scanned unread, rfl⟩
        · cases refused
    · cases refused

theorem Project.parse_of_refuses (known : Loader.ofPath path = .ok loader) (code : loader ≠ .json)
    {e : SyntaxError} (refuses : p.Refuses path loader source e) :
    p.parse path source = .error (p.located path source e) := by
  rw [Project.parse, known, Except.mapError, bind_of_ok rfl]
  cases refuses with
  | types erases refused =>
      rw [Project.parsedText, if_pos erases, refused]
      rfl
  | tokens parsed refused =>
      rw [bind_of_ok parsed, Project.parseBody, if_neg code, Project.parseCode, refused]
      rfl
  | declarations parsed scanned refused =>
      rw [bind_of_ok parsed, Project.parseBody, if_neg code, Project.parseCode,
        bind_of_ok (mapError_of_ok scanned), refused]
      rfl

/-- Every syntax error of a file points between two characters of it as it was read: the line counts
the line feeds in front, the column the UTF-16 units behind the last one, the text is that of the line,
and line and column lead back to the place. -/
theorem Project.parse_error_located (p : Project) (path : Path) (loader : Loader) (source : String)
    (error : BuildError) (known : Loader.ofPath path = .ok loader) (code : loader ≠ .json)
    (refused : p.parse path source = .error error) :
    ∃ (e : SyntaxError) (place : Location), p.Refuses path loader source e ∧
      error = ⟨e.message, some place⟩ ∧ e.offset ≤ byteLength source.toList ∧
      isBoundary e.offset source.toList = true ∧
      let front := takeBytes e.offset source.toList
      let line := front.count '\n'
      let column := unitLength (front.rtakeWhile (· ≠ '\n'))
      place.file = p.shownPath path ∧ place.line = UInt32.ofNat (line + 1) ∧
        place.column = UInt32.ofNat column ∧ IsLine source.toList line place.lineText.toList ∧
        (line + 1 < 2 ^ 32 → column < 2 ^ 32 →
          offset (place.line.toNat - 1) place.column.toNat source.toList = e.offset) := by
  obtain ⟨e, refuses, rfl⟩ := Project.refuses_of_parse known code refused
  obtain ⟨within, boundary⟩ := refuses.firm.boundary
  have place := position_takeBytes boundary
  refine ⟨e, p.location path source e.offset, refuses, rfl, within, boundary, rfl, ?_, ?_, ?_, ?_⟩
  · rw [Project.location, place]
  · rw [Project.location, place]
  · rw [Project.location, place, String.toList_ofList]
    refine isLine_lines ?_
    have whole := takeBytes_append_dropBytes e.offset source.toList
    conv => rhs; rw [← whole, List.count_append]
    exact Nat.le_add_right _ _
  · intro lineFits columnFits
    have back := offset_position boundary
    rw [place] at back
    rw [Project.location, place, UInt32.toNat_ofNat', UInt32.toNat_ofNat', Nat.mod_eq_of_lt lineFits,
      Nat.mod_eq_of_lt columnFits, Nat.add_sub_cancel]
    exact back

/-- A script in front of whose error a type with a character of two UTF-16 units is erased. -/
def typedProject : Project where
  entry := ⟨"/p/t/a.ts"⟩
  files := { nodes := [], clock := 0 }
  sources := .diskOnly ⟨"/p/t/a.ts"⟩

theorem typedProject_refuses :
    typedProject.Refuses ⟨"/p/t/a.ts"⟩ .ts "let n: '😀' = 1; export 5\r\n"
      ⟨.unexpectedExport (some "5"), 26⟩ := by
  have erased : eraseTypes false "let n: '😀' = 1; export 5\r\n" =
      .ok "let n   \u00a0\u00a0  = 1; export 5\r\n" := by
    rw [eraseTypes_eq, tokenize_of_not_mem (by decide)]
    decide +kernel
  have read : ((tokenizeWithin (allowance "let n   \u00a0\u00a0  = 1; export 5\r\n".toList)
      ⟨false, false⟩ "let n   \u00a0\u00a0  = 1; export 5\r\n").toOption.bind fun ts =>
        match analyze "let n   \u00a0\u00a0  = 1; export 5\r\n".toList ts
          (typedProject.headerOptions ⟨"/p/t/a.ts"⟩) with
        | .ok _ => none
        | .error e => some e) = some ⟨.unexpectedExport (some "5"), 26⟩ := by decide +kernel
  obtain ⟨ts, scanned, read⟩ := tokenize_of_read read
  split at read
  case h_1 => cases read
  case h_2 e refused =>
    cases read
    exact .declarations (mapError_of_ok erased) scanned refused

/-- The character of the erased type counts as two columns, and the line is shown with it. -/
theorem parse_error_behind_type : ∃ (e : SyntaxError) (place : Location),
    typedProject.parse ⟨"/p/t/a.ts"⟩ "let n: '😀' = 1; export 5\r\n" =
      .error ⟨e.message, some place⟩ ∧
    isBoundary e.offset "let n: '😀' = 1; export 5\r\n".toList = true ∧
    IsLine "let n: '😀' = 1; export 5\r\n".toList
      ((takeBytes e.offset "let n: '😀' = 1; export 5\r\n".toList).count '\n')
      place.lineText.toList ∧
    place = ⟨"t/a.ts", 1, 24, "let n: '😀' = 1; export 5"⟩ ∧ e.offset = 26 := by
  have refused := Project.parse_of_refuses rfl (by decide) typedProject_refuses
  obtain ⟨e, place, -, same, within, boundary, -, -, -, line, back⟩ :=
    Project.parse_error_located _ _ .ts _ _ rfl (by decide) refused
  have placeEq : place = ⟨"t/a.ts", 1, 24, "let n: '😀' = 1; export 5"⟩ := by
    rw [← Option.some.inj (BuildError.mk.inj same).2]
    decide
  have fits : ∀ n ≤ 29,
      (takeBytes n "let n: '😀' = 1; export 5\r\n".toList).count '\n' + 1 < 2 ^ 32 ∧
      unitLength ((takeBytes n "let n: '😀' = 1; export 5\r\n".toList).rtakeWhile (· ≠ '\n')) <
        2 ^ 32 := by decide
  have atMost : byteLength "let n: '😀' = 1; export 5\r\n".toList = 29 := by decide
  obtain ⟨lineFits, columnFits⟩ := fits e.offset (atMost ▸ within)
  refine ⟨e, place, ?_, boundary, line, placeEq, ?_⟩
  · rw [refused, same]
  · rw [← back lineFits columnFits, placeEq]
    decide

end Bundle

namespace Text

/-! ## Columns of bytes and of units -/

variable {s text rest : List Char} {k : Nat}

theorem positionFrom_cons {c : Char} (other : c ≠ '\n') (line column k : Nat) (s : List Char) :
    positionFrom ⟨line, column⟩ k (c :: s) =
      if k = 0 then ⟨line, column⟩
      else if k < c.utf8Size then ⟨line, 0⟩
      else positionFrom ⟨line, column + units c⟩ (k - c.utf8Size) s := by
  rw [positionFrom, Position.after, if_neg other]

/-- A byte of a line stands on this line, at a column of it that counts no more units than there are
bytes in front, and fewer behind a character of several bytes. -/
theorem positionFrom_line {line : Nat} (plain : '\n' ∉ text) : ∀ {column k : Nat},
    k < byteLength text → ∃ found, positionFrom ⟨line, column⟩ k (text ++ rest) = ⟨line, found⟩ ∧
      found < column + unitLength text ∧ found ≤ column + k ∧
      ((¬ ∀ c ∈ takeBytes k text, c.utf8Size = 1) → found < column + k) := by
  induction text with
  | nil => exact fun within => absurd within (Nat.not_lt_zero _)
  | cons c text ih =>
      intro column k within
      rw [List.mem_cons, not_or] at plain
      have positive := units_pos c
      rw [List.cons_append, positionFrom_cons (Ne.symm plain.1), takeBytes, unitLength]
      split
      case isTrue =>
        exact ⟨column, rfl, by omega, by omega, fun wide => absurd (List.forall_mem_nil _) wide⟩
      case isFalse =>
        split
        case isTrue => exact ⟨0, rfl, by omega, by omega, fun _ => by omega⟩
        case isFalse =>
          rw [byteLength_cons] at within
          obtain ⟨found, place, inside, bound, strict⟩ :=
            @ih plain.2 (column + units c) (k - c.utf8Size) (by omega)
          have sizes := Source.Erasure.utf8Size_cases c
          refine ⟨found, place, by omega, by omega, fun wide => ?_⟩
          rw [List.forall_mem_cons, not_and_or] at wide
          rcases wide with wide | wide
          · omega
          · have := strict wide
            omega

/-- Behind single bytes a column of units is one of bytes. -/
theorem offsetInLine_of_single (plain : '\n' ∉ text) : ∀ {k : Nat}, k ≤ byteLength text →
    (∀ c ∈ takeBytes k text, c.utf8Size = 1) → offsetInLine k (text ++ rest) = k := by
  induction text with
  | nil =>
      intro k within _
      obtain rfl : k = 0 := Nat.le_zero.mp within
      cases rest <;> simp [offsetInLine]
  | cons c text ih =>
      intro k within single
      rw [List.mem_cons, not_or] at plain
      rw [byteLength_cons] at within
      rw [takeBytes] at single
      rw [List.cons_append, offsetInLine]
      by_cases zero : k = 0
      · rw [if_pos (.inl zero), zero]
      · rw [if_neg zero, List.forall_mem_cons] at single
        have sizes := Source.Erasure.utf8Size_cases c
        obtain ⟨one, single⟩ := single
        have unit : units c = 1 := by omega
        rw [one] at single
        rw [if_neg (not_or.mpr ⟨zero, Ne.symm plain.1⟩), unit, one, ih plain.2 (by omega) single]
        omega

/-- The place of a column of units is on the line of the byte and never in front of it, and is that of
the byte if and only if single bytes stand in front. -/
theorem position_offset_eq_iff {line : Nat} (here : (splitOn '\n' s)[line]? = some text)
    (within : k = 0 ∨ k < byteLength text) :
    ∃ shown found, position (offset line k s) s = ⟨line, shown⟩ ∧
      position (offset line 0 s + k) s = ⟨line, found⟩ ∧ found ≤ shown ∧
      (shown = found ↔ ∀ c ∈ takeBytes k text, c.utf8Size = 1) := by
  obtain ⟨start, rest, rfl, starts, rfl, plain, ends⟩ := split_of_line here
  have opened : Position.origin.advance start = ⟨start.count '\n', 0⟩ := by
    have line := Position.advance_line starts List.not_mem_nil
    rwa [List.append_nil] at line
  have placed (n : Nat) : position (byteLength start + n) (start ++ (text ++ rest)) =
      positionFrom ⟨start.count '\n', 0⟩ n (text ++ rest) := by
    rw [position, positionFrom_append, opened]
  have first : offsetInLine 0 (text ++ rest) = 0 := offsetInLine_unitLength List.not_mem_nil _
  rw [offset_line starts, offset_line starts, first, Nat.add_zero, placed, placed]
  rcases within with rfl | within
  · have none : takeBytes 0 text = [] := takeBytes_byteLength [] text
    rw [first, none]
    have place := positionFrom_byteLength ⟨start.count '\n', 0⟩ [] (text ++ rest)
    exact ⟨0, 0, place, place, Nat.le_refl 0, iff_of_true rfl (List.forall_mem_nil _)⟩
  obtain ⟨found, place, before, -, strict⟩ := @positionFrom_line text rest _ plain 0 _ within
  by_cases single : ∀ c ∈ takeBytes k text, c.utf8Size = 1
  · rw [offsetInLine_of_single plain (Nat.le_of_lt within) single]
    exact ⟨found, found, place, place, Nat.le_refl found, iff_of_true rfl single⟩
  · -- a column of units is looked for up to the end of the line, so it is one behind the byte
    obtain ⟨front, back, rfl, reached, stops, -⟩ := offsetInLine_least plain ends k
    have plainFront : '\n' ∉ front := fun member => plain (List.mem_append_left _ member)
    have behind : found < unitLength front := by
      have fewer := strict single
      rcases stops with rfl | stops
      · rw [List.append_nil] at before
        omega
      · omega
    refine ⟨unitLength front, found, ?_, place, Nat.le_of_lt behind,
      iff_of_false (Nat.ne_of_gt behind) single⟩
    rw [reached, List.append_assoc, positionFrom_byteLength, Position.advance_plain plainFront,
      Nat.zero_add]

end Text

namespace Json

/-! ## The byte that a failure names -/

/-- A byte stands on a line of the text, behind the bytes of the line that are counted to it. -/
theorem bytePlace_line : ∀ (s : List Char) (line column n : Nat), ∃ i text,
    (splitOn '\n' s)[i]? = some text ∧ (bytePlace line column n s).1 = line + i ∧
      (bytePlace line column n s).2 ≤ (if i = 0 then column else 0) + byteLength text := by
  intro s
  induction s with
  | nil => exact fun line column n => ⟨0, [], rfl, rfl, Nat.le_refl _⟩
  | cons c s ih =>
      intro line column n
      obtain ⟨part, parts, split⟩ := List.exists_cons_of_ne_nil (splitOn_ne_nil '\n' s)
      rw [bytePlace]
      by_cases feed : c = '\n'
      · subst feed
        rw [splitOn_sep, if_pos rfl]
        split
        case isTrue first =>
          have zero : n = 0 := Nat.lt_one_iff.mp first
          exact ⟨0, [], rfl, rfl, Nat.le_of_eq (congrArg (column + ·) zero)⟩
        case isFalse =>
          obtain ⟨i, text, here, same, bound⟩ := ih (line + 1) 0 (n - 1)
          rw [ite_self, Nat.zero_add] at bound
          rw [Nat.add_assoc, Nat.add_comm 1] at same
          exact ⟨i + 1, text, here, same, Nat.le_trans bound (Nat.le_add_left _ _)⟩
      · have cut : splitOn '\n' (c :: s) = (c :: part) :: parts :=
          splitOn_append (s := [c]) (by simpa using Ne.symm feed) split
        rw [cut, if_neg feed]
        split
        case isTrue within =>
          refine ⟨0, c :: part, rfl, rfl, Nat.add_le_add_left ?_ column⟩
          exact Nat.le_trans (Nat.le_of_lt within) (Nat.le_add_right _ _)
        case isFalse =>
          obtain ⟨i, text, here, same, bound⟩ := ih line (column + c.utf8Size) (n - c.utf8Size)
          rw [split] at here
          cases i with
          | zero =>
              obtain rfl : part = text := Option.some.inj here
              rw [if_pos rfl, Nat.add_assoc] at bound
              exact ⟨0, c :: part, rfl, same, bound⟩
          | succ i => exact ⟨i + 1, text, here, same, bound⟩

namespace Failure

/-- The line that a failure is on. -/
def line (f : Failure) (text : String) : List Char :=
  ((splitOn '\n' text.toList)[(f.place text).1 - 1]?).getD []

/-- How many bytes of its line stand in front of the byte that a failure names; a column of zero, right
behind a line feed, names the first byte of the line. -/
def inFront (f : Failure) (text : String) : Nat := (f.place text).2 - 1

/-- The byte that a failure names. -/
def byte (f : Failure) (text : String) : Nat :=
  Text.offset ((f.place text).1 - 1) 0 text.toList + f.inFront text

theorem line_spec (f : Failure) (text : String) :
    (splitOn '\n' text.toList)[(f.place text).1 - 1]? = some (f.line text) ∧
      (f.inFront text = 0 ∨ f.inFront text < byteLength (f.line text)) := by
  obtain ⟨i, here, found, line, bound⟩ := bytePlace_line text.toList 1 0 f.offset
  have index : (f.place text).1 - 1 = i := by
    rw [place, line, Nat.add_sub_cancel_left]
  have same : f.line text = here := by
    rw [Failure.line, index, found, Option.getD_some]
  rw [ite_self, Nat.zero_add] at bound
  rw [index, same, inFront, place]
  exact ⟨found, by omega⟩

end Failure

end Json

namespace Bundle.Project

/-! ## Refusals of data -/

variable {p : Project} {path : Path}

theorem parse_data_error (known : Loader.ofPath path = .ok .json) {text : String}
    {f : Json.Failure} (invalid : Json.parse text = .error f) :
    p.parse path text = .error
      ⟨"Invalid JSON: " ++ f.message text, some (p.location path text (jsonOffset f text))⟩ := by
  have read : p.parsedText path .json text = .ok text := rfl
  rw [parse, known, Except.mapError, bind_of_ok rfl, bind_of_ok read, parseBody,
    if_pos rfl, parseData, invalid]
  rfl

/-- An error of data is shown on the line of the byte that the reader names, and at the column of this
byte if and only if everything in front of it on the line is a single byte. -/
theorem parse_data_located_iff (p : Project) (path : Path) (text : String) (f : Json.Failure)
    (known : Loader.ofPath path = .ok .json) (invalid : Json.parse text = .error f)
    (small : byteLength text.toList < 2 ^ 32) :
    ∃ place, p.parse path text = .error ⟨"Invalid JSON: " ++ f.message text, some place⟩ ∧
      let exact := p.location path text (f.byte text)
      place = { exact with column := place.column } ∧
      (place = exact ↔ ∀ c ∈ takeBytes (f.inFront text) (f.line text), c.utf8Size = 1) := by
  obtain ⟨here, within⟩ := f.line_spec text
  obtain ⟨shown, found, placed, exact, behind, same⟩ := position_offset_eq_iff here within
  have shownWord : shown < 2 ^ 32 := by
    have boundary := (position_offset_line here (f.inFront text)).1
    have word := (isWord_position small boundary).2
    rwa [placed] at word
  have columns : UInt32.ofNat shown = UInt32.ofNat found ↔ shown = found := by
    rw [← UInt32.toNat_inj, UInt32.toNat_ofNat_of_lt' shownWord,
      UInt32.toNat_ofNat_of_lt' (Nat.lt_of_le_of_lt behind shownWord)]
  have exactColumn : (p.location path text (f.byte text)).column = UInt32.ofNat found := by
    rw [location, Json.Failure.byte, exact]
  have place : p.location path text (jsonOffset f text) =
      { p.location path text (f.byte text) with column := UInt32.ofNat shown } := by
    have asked : jsonOffset f text =
        offset ((f.place text).1 - 1) (f.inFront text) text.toList := rfl
    rw [location, location, asked, Json.Failure.byte, placed, exact]
  refine ⟨_, parse_data_error known invalid, by rw [place], ?_⟩
  rw [place, ← same, ← columns, ← exactColumn]
  exact ⟨congrArg Location.column, fun equal => by rw [equal]⟩

/-- A failure to read data, from what the reader can be run to. -/
theorem refused_of_read {text : String} {f : Json.Failure}
    (read : (match Json.parse text with | .ok _ => none | .error f => some f) = some f) :
    Json.parse text = .error f := by
  split at read
  case h_1 => cases read
  case h_2 g refused => rw [refused, Option.some.inj read]

/-- A value that cannot be read. -/
def brokenProject : Project where
  entry := ⟨"/p/t/a.json"⟩
  files := { nodes := [], clock := 0 }
  sources := .diskOnly ⟨"/p/t/a.json"⟩

/-- A wide character on an earlier line does no harm. -/
theorem parse_data_located_behind_line :
    Json.parse "\x7b\"é\": 1,\n \"a\": x\x7d" = .error ⟨.expectedValue, 17⟩ ∧
    byteLength "\x7b\"é\": 1,\n \"a\": x\x7d".toList < 2 ^ 32 ∧
    brokenProject.parse ⟨"/p/t/a.json"⟩ "\x7b\"é\": 1,\n \"a\": x\x7d" =
      .error ⟨"Invalid JSON: expected value at line 2 column 7",
        some ⟨"t/a.json", 2, 6, " \"a\": x\x7d"⟩⟩ := by
  have invalid : Json.parse "\x7b\"é\": 1,\n \"a\": x\x7d" = .error ⟨.expectedValue, 17⟩ :=
    refused_of_read (by decide +kernel)
  have small : byteLength "\x7b\"é\": 1,\n \"a\": x\x7d".toList < 2 ^ 32 := by decide
  obtain ⟨place, error, -, same⟩ := parse_data_located_iff brokenProject ⟨"/p/t/a.json"⟩
    "\x7b\"é\": 1,\n \"a\": x\x7d" ⟨.expectedValue, 17⟩ rfl invalid small
  have message : Json.Failure.message ⟨.expectedValue, 17⟩ "\x7b\"é\": 1,\n \"a\": x\x7d" =
      "expected value at line 2 column 7" := by decide +kernel
  have shown : brokenProject.location ⟨"/p/t/a.json"⟩ "\x7b\"é\": 1,\n \"a\": x\x7d"
      (Json.Failure.byte ⟨.expectedValue, 17⟩ "\x7b\"é\": 1,\n \"a\": x\x7d") =
      ⟨"t/a.json", 2, 6, " \"a\": x\x7d"⟩ := by decide +kernel
  have narrow : (takeBytes (Json.Failure.inFront ⟨.expectedValue, 17⟩ "\x7b\"é\": 1,\n \"a\": x\x7d")
      (Json.Failure.line ⟨.expectedValue, 17⟩ "\x7b\"é\": 1,\n \"a\": x\x7d")).all
        (·.utf8Size == 1) = true := by decide +kernel
  have single := same.mpr fun c member => beq_iff_eq.mp (List.all_eq_true.mp narrow c member)
  rw [single, shown, message] at error
  exact ⟨invalid, small, error⟩

/-- Behind a character of two bytes the column of the error is one behind that of the byte. -/
theorem parse_data_misplaced :
    Json.parse "\x7b\"é\": x\x7d" = .error ⟨.expectedValue, 8⟩ ∧
    Json.Failure.place ⟨.expectedValue, 8⟩ "\x7b\"é\": x\x7d" = (1, 8) ∧
    brokenProject.parse ⟨"/p/t/a.json"⟩ "\x7b\"é\": x\x7d" =
      .error ⟨"Invalid JSON: expected value at line 1 column 8",
        some ⟨"t/a.json", 1, 7, "\x7b\"é\": x\x7d"⟩⟩ ∧
    brokenProject.location ⟨"/p/t/a.json"⟩ "\x7b\"é\": x\x7d"
        (Json.Failure.byte ⟨.expectedValue, 8⟩ "\x7b\"é\": x\x7d") =
      ⟨"t/a.json", 1, 6, "\x7b\"é\": x\x7d"⟩ := by
  have invalid : Json.parse "\x7b\"é\": x\x7d" = .error ⟨.expectedValue, 8⟩ :=
    refused_of_read (by decide +kernel)
  have message : Json.Failure.message ⟨.expectedValue, 8⟩ "\x7b\"é\": x\x7d" =
      "expected value at line 1 column 8" := by decide +kernel
  have shown : brokenProject.location ⟨"/p/t/a.json"⟩ "\x7b\"é\": x\x7d"
      (jsonOffset ⟨.expectedValue, 8⟩ "\x7b\"é\": x\x7d") =
      ⟨"t/a.json", 1, 7, "\x7b\"é\": x\x7d"⟩ := by decide +kernel
  refine ⟨invalid, by decide +kernel, ?_, by decide +kernel⟩
  rw [parse_data_error rfl invalid, message, shown]
  rfl

end Bundle.Project

end JsxPreview
