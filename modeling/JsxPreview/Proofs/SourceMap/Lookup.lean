import Mathlib
import JsxPreview.Proofs.Outcome
import JsxPreview.Proofs.SourceMap.RoundTrip
import JsxPreview.SourceMap.Document

/-! # Looking up a place in any map

The numbers of a map are differences: a column is the sum of the first numbers of the segments of its
line up to its own (`markOf`), and the other fields are sums over all segments in front.  Whatever
numbers a text holds, reading it gives these marks (`decodeLines_marks`), and a look-up gives the
nearest one of its line, in the order by column and of the text among equal columns
(`originalPosition_nearest`). -/
set_option autoImplicit false
namespace JsxPreview

open JsxPreview.Text

namespace SourceMap

/-! ## Marks as sums -/

namespace Vlq

/-- The sum of the numbers in one place of segments; a number that is missing counts for nothing. -/
def total (place : Nat) (segments : List (List Int)) : Int :=
  (segments.map fun fields => fields.getD place 0).sum

/-- The mapping of the last segment of `here`, the beginning of a line behind the segments `before`;
a segment of one number has none. -/
def markOf (line : UInt32) (before here : List (List Int)) : Option Mapping :=
  let fields := here.getLastD []
  let sum := fun place => UInt32.ofInt (total place (before ++ here))
  if fields.length < 4 then none
  else some ⟨line, UInt32.ofInt (total 0 here), sum 1, sum 2, sum 3,
    if fields.length < 5 then none else some (sum 4)⟩

/-- The mappings of a row of segments, in the order of the text. -/
def marksOfRow (line : UInt32) (before row : List (List Int)) : List Mapping :=
  (List.range row.length).filterMap fun i => markOf line before (row.take (i + 1))

/-- The mappings of a line, in the order of the text; a line that does not exist has none. -/
def marksOf (rows : List (List (List Int))) (line : Nat) : List Mapping :=
  marksOfRow (UInt32.ofNat line) (rows.take line).flatten (rows.getD line [])

/-- A segment stands for one, four or five numbers. -/
def IsSegment (segment : List Char) (fields : List Int) : Prop :=
  decodeSegment segment = .ok fields ∧ fields.length ∈ [1, 4, 5]

/-- The numbers of a text of mappings: rows between semicolons, segments between commas. -/
def IsRows (text : String) (rows : List (List (List Int))) : Prop :=
  List.Forall₂ (fun line row => List.Forall₂ IsSegment (segmentsOf line) row)
    (splitOn ';' text.toList) rows

/-- A text has one reading. -/
theorem IsRows.unique {text : String} {rows rows' : List (List (List Int))}
    (first : IsRows text rows) (second : IsRows text rows') : rows = rows' := by
  have numbers : Relator.RightUnique IsSegment := fun segment fields fields' one other =>
    Except.ok.inj (one.1.symm.trans other.1)
  have row : Relator.RightUnique fun line row => List.Forall₂ IsSegment (segmentsOf line) row :=
    fun line row row' one other => List.right_unique_forall₂' numbers one other
  exact List.right_unique_forall₂' row first second

/-- What the next differences are added to. -/
def stateOf (before here : List (List Int)) : State :=
  ⟨total 0 here, total 1 (before ++ here), total 2 (before ++ here), total 3 (before ++ here),
    total 4 (before ++ here)⟩

theorem total_append (place : Nat) (first second : List (List Int)) :
    total place (first ++ second) = total place first + total place second := by
  rw [total, List.map_append, List.sum_append]
  rfl

theorem total_concat (place : Nat) (segments : List (List Int)) (fields : List Int) :
    total place (segments ++ [fields]) = total place segments + fields.getD place 0 := by
  rw [total_append]
  exact congrArg (_ + ·) (Int.add_zero _)

theorem stateOf_concat (before here : List (List Int)) (fields : List Int) :
    stateOf before (here ++ [fields]) =
      let st := stateOf before here
      ⟨st.column + fields.getD 0 0, st.source + fields.getD 1 0, st.line + fields.getD 2 0,
        st.originalColumn + fields.getD 3 0, st.name + fields.getD 4 0⟩ := by
  simp only [stateOf, ← List.append_assoc, total_concat]

theorem markOf_concat (line : UInt32) (before here : List (List Int)) (fields : List Int) :
    markOf line before (here ++ [fields]) =
      let st := stateOf before (here ++ [fields])
      if fields.length < 4 then none
      else some ⟨line, UInt32.ofInt st.column, UInt32.ofInt st.source, UInt32.ofInt st.line,
        UInt32.ofInt st.originalColumn,
        if fields.length < 5 then none else some (UInt32.ofInt st.name)⟩ := by
  simp only [markOf, stateOf, List.getLastD_concat]

/-- Behind the end of a line the columns start again. -/
theorem stateOf_nextLine (before here : List (List Int)) :
    { stateOf before here with column := 0 } = stateOf (before ++ here) [] := by
  simp only [stateOf, List.append_nil]
  rfl

theorem marksOfRow_cons (line : UInt32) (before here : List (List Int)) (fields : List Int)
    (row : List (List Int)) :
    ((List.range (fields :: row).length).filterMap fun i =>
        markOf line before (here ++ (fields :: row).take (i + 1))) =
      (markOf line before (here ++ [fields])).toList ++
        (List.range row.length).filterMap fun i =>
          markOf line before ((here ++ [fields]) ++ row.take (i + 1)) := by
  rw [List.length_cons, List.range_succ_eq_map, List.filterMap_cons, List.filterMap_map]
  simp only [List.take_succ_cons, List.take_zero, Function.comp_def, List.append_assoc,
    List.singleton_append]
  cases markOf line before (here ++ [fields]) <;> rfl

/-- Reading a line gives the mappings of its segments. -/
theorem decodeLine_marks (line : UInt32) (before : List (List Int)) (segments : List (List Char)) :
    ∀ {here : List (List Int)} {ms : List Mapping} {final : State},
      decodeLine line (stateOf before here) segments = .ok (ms, final) →
      ∃ row, List.Forall₂ IsSegment segments row ∧ final = stateOf before (here ++ row) ∧
        ms = (List.range row.length).filterMap fun i =>
          markOf line before (here ++ row.take (i + 1)) := by
  induction segments with
  | nil =>
      intro here ms final read
      cases read
      exact ⟨[], .nil, by rw [List.append_nil], rfl⟩
  | cons segment segments ih =>
      intro here ms final read
      rw [decodeLine] at read
      obtain ⟨fields, decoded, read⟩ := ok_of_bind read
      split at read
      case h_1 column =>
        have next : { stateOf before here with column := (stateOf before here).column + column } =
            stateOf before (here ++ [[column]]) := by
          rw [stateOf_concat]
          simp
        rw [next] at read
        obtain ⟨row, segmentsRead, rfl, rfl⟩ := ih read
        refine ⟨[column] :: row, .cons ⟨decoded, by simp⟩ segmentsRead, by simp, ?_⟩
        rw [marksOfRow_cons]
        simp [markOf]
      case h_2 column source original originalColumn more =>
        -- behind the segment the state holds the sums up to it
        have next : (⟨(stateOf before here).column + column, (stateOf before here).source + source,
            (stateOf before here).line + original,
            (stateOf before here).originalColumn + originalColumn,
            (stateOf before here).name + more.headD 0⟩ : State) =
              stateOf before (here ++ [column :: source :: original :: originalColumn :: more]) := by
          rw [stateOf_concat]
          cases more <;> rfl
        simp only [next] at read
        obtain ⟨m, marked, counted, read⟩ : ∃ m,
            markOf line before
              (here ++ [column :: source :: original :: originalColumn :: more]) = some m ∧
            more.length ≤ 1 ∧
            (decodeLine line (stateOf before
              (here ++ [column :: source :: original :: originalColumn :: more])) segments >>=
                fun rest => pure (m :: rest.1, rest.2)) = .ok (ms, final) := by
          rcases more with _ | ⟨extra, _ | ⟨another, more⟩⟩
          · exact ⟨_, by rw [markOf_concat, stateOf_concat]; rfl, Nat.zero_le _, read⟩
          · exact ⟨_, by rw [markOf_concat, stateOf_concat]; rfl, Nat.le_refl _, read⟩
          · cases read
        obtain ⟨⟨ms', final'⟩, rest, read⟩ := ok_of_bind read
        cases ok_of_pure read
        obtain ⟨row, segmentsRead, rfl, rfl⟩ := ih rest
        refine ⟨(column :: source :: original :: originalColumn :: more) :: row,
          .cons ⟨decoded, ?_⟩ segmentsRead, by simp, ?_⟩
        · simp only [List.length_cons, List.mem_cons]
          omega
        · rw [marksOfRow_cons, marked]
          rfl
      case h_3 => cases read

/-- Reading the lines of a text gives the marks of each, by column. -/
theorem decodeLines_marks (lines : List (List (List Char))) :
    ∀ {current : Nat} {st : State} {before : List (List Int)} {read : List (List Mapping)},
      { st with column := 0 } = stateOf before [] → decodeLines current st lines = .ok read →
      ∃ rows, List.Forall₂ (fun segments row => List.Forall₂ IsSegment segments row) lines rows ∧
        read = (List.range rows.length).map fun i => byColumn (marksOfRow
          (UInt32.ofNat (current + i)) (before ++ (rows.take i).flatten) (rows.getD i [])) := by
  induction lines with
  | nil =>
      intro current st before read _ success
      cases success
      exact ⟨[], .nil, rfl⟩
  | cons segments lines ih =>
      intro current st before read start success
      rw [decodeLines, start] at success
      obtain ⟨⟨ms, final⟩, first, success⟩ := ok_of_bind success
      obtain ⟨others, behind, success⟩ := ok_of_bind success
      cases ok_of_pure success
      obtain ⟨row, segmentsRead, rfl, rfl⟩ := decodeLine_marks _ _ _ first
      obtain ⟨rows, linesRead, rfl⟩ := ih (stateOf_nextLine before ([] ++ row)) behind
      refine ⟨row :: rows, .cons segmentsRead linesRead, ?_⟩
      rw [List.length_cons, List.range_succ_eq_map, List.map_cons, List.map_map]
      refine congrArg₂ List.cons ?_ (List.map_congr_left fun i _ => ?_)
      · simp [byColumn, marksOfRow]
      · simp only [Function.comp_apply, List.take_succ_cons, List.flatten_cons, List.getD_cons_succ,
          List.nil_append, List.append_assoc, Nat.succ_eq_add_one, Nat.add_assoc, Nat.add_comm 1]

/-- What a text of mappings is read as. -/
theorem decodeMappings_marks {text : String} {mappings : Mappings}
    (read : decodeMappings text = .ok mappings) :
    ∃ rows, IsRows text rows ∧
      mappings.lines = (List.range rows.length).map fun i => byColumn (marksOf rows i) := by
  obtain ⟨lines, decoded, read⟩ := ok_of_bind read
  cases ok_of_pure read
  have start : { ({} : State) with column := 0 } = stateOf [] [] := rfl
  obtain ⟨rows, segmentsRead, rfl⟩ := decodeLines_marks _ start decoded
  refine ⟨rows, List.forall₂_map_left_iff.mp segmentsRead, ?_⟩
  simp only [marksOf, Nat.zero_add, List.nil_append]

end Vlq

/-! ## The nearest mapping -/

/-- In the order by column, and by place in the list among equal columns, the mapping at `i` is the
last one that does not lie past a column, or the first one if all of them do. -/
def IsNearest (ms : List Mapping) (column : UInt32) (i : Nat) (m : Mapping) : Prop :=
  ms[i]? = some m ∧
    ((m.generatedColumn ≤ column ∧ ∀ k n, ms[k]? = some n → n.generatedColumn ≤ column →
        n.generatedColumn < m.generatedColumn ∨ n.generatedColumn = m.generatedColumn ∧ k ≤ i) ∨
      ((∀ n ∈ ms, column < n.generatedColumn) ∧ ∀ k n, ms[k]? = some n →
        m.generatedColumn < n.generatedColumn ∨ m.generatedColumn = n.generatedColumn ∧ i ≤ k))

/-- The mappings of a line with their places in the text, by column and then by these places. -/
def ranked (ms : List Mapping) : List (Mapping × Nat) :=
  ms.zipIdx.mergeSort (List.zipIdxLE (·.generatedColumn ≤ ·.generatedColumn))

theorem map_ranked (ms : List Mapping) : (ranked ms).map (·.1) = Vlq.byColumn ms :=
  List.mergeSort_zipIdx

theorem mem_ranked {ms : List Mapping} {m : Mapping} {i : Nat} :
    (m, i) ∈ ranked ms ↔ ms[i]? = some m := by
  rw [ranked, List.mem_mergeSort, List.mem_zipIdx_iff_getElem?]

theorem pairwise_ranked (ms : List Mapping) :
    (ranked ms).Pairwise fun a b => a.1.generatedColumn < b.1.generatedColumn ∨
      a.1.generatedColumn = b.1.generatedColumn ∧ a.2 ≤ b.2 := by
  refine (List.pairwise_mergeSort (List.zipIdxLE_trans Vlq.columns_trans)
    (List.zipIdxLE_total Vlq.columns_total) _).imp ?_
  intro a b before
  simp only [List.zipIdxLE, decide_eq_true_eq, Bool.if_false_right, Bool.and_eq_true] at before
  obtain ⟨le, tie⟩ := before
  by_cases ge : b.1.generatedColumn ≤ a.1.generatedColumn
  · rw [if_pos ge, decide_eq_true_eq] at tie
    exact .inr ⟨UInt32.le_antisymm le ge, tie⟩
  · exact .inl (UInt32.not_le.mp ge)

/-- Behind the first mapping that lies past a column all do. -/
theorem past_of_dropWhile (ms : List Mapping) (column : UInt32) :
    ∀ a ∈ (ranked ms).dropWhile (·.1.generatedColumn ≤ column), column < a.1.generatedColumn := by
  have ascending := (pairwise_ranked ms).sublist
    (List.dropWhile_sublist (·.1.generatedColumn ≤ column))
  have first := List.head?_dropWhile_not (·.1.generatedColumn ≤ column) (ranked ms)
  cases rest : (ranked ms).dropWhile (·.1.generatedColumn ≤ column) with
  | nil => exact fun a member => absurd member List.not_mem_nil
  | cons b others =>
      rw [rest] at ascending first
      have past : column < b.1.generatedColumn := UInt32.not_le.mp (of_decide_eq_false first)
      intro a member
      rcases List.mem_cons.mp member with rfl | member
      · exact past
      · rcases List.rel_of_pairwise_cons ascending member with behind | ⟨same, -⟩
        · exact UInt32.lt_trans past behind
        · exact same ▸ past

/-- The look-up on a line gives its nearest mapping. -/
theorem lookup_nearest {mappings : Mappings} {line : UInt32} {ms : List Mapping}
    (here : mappings.lines[line.toNat]? = some (Vlq.byColumn ms)) (column : UInt32)
    (nonempty : ms ≠ []) :
    ∃ i m, IsNearest ms column i m ∧ mappings.lookup line column = some m := by
  let within : Mapping × Nat → Bool := fun a => a.1.generatedColumn ≤ column
  have ascending := pairwise_ranked ms
  have past := past_of_dropWhile ms column
  have split : (ranked ms).takeWhile within ++ (ranked ms).dropWhile within = ranked ms :=
    List.takeWhile_append_dropWhile
  have answer : mappings.lookup line column =
      match ((ranked ms).takeWhile within).getLast? with
      | some a => some a.1
      | none => (ranked ms).head?.map (·.1) := by
    rw [Mappings.lookup, here, ← map_ranked]
    simp only [List.takeWhile_map, List.getLast?_map, List.head?_map, Function.comp_def, bind,
      Option.bind]
    cases ((ranked ms).takeWhile within).getLast? <;> rfl
  cases last : ((ranked ms).takeWhile within).getLast? with
  | some a =>
      obtain ⟨m, i⟩ := a
      obtain ⟨front, ends⟩ := List.getLast?_eq_some_iff.mp last
      have found : (m, i) ∈ (ranked ms).takeWhile within :=
        ends ▸ List.mem_append_right _ (List.mem_singleton_self _)
      have inRange : within (m, i) = true := List.mem_takeWhile_imp found
      have upTo : m.generatedColumn ≤ column := of_decide_eq_true inRange
      rw [ends] at split
      rw [← split] at ascending
      refine ⟨i, m, ⟨mem_ranked.mp (List.takeWhile_subset _ found), .inl ⟨upTo, ?_⟩⟩, ?_⟩
      · intro k n other le
        have member := mem_ranked.mpr other
        rw [← split, List.append_assoc, List.mem_append, List.singleton_append, List.mem_cons]
          at member
        rcases member with before | same | behind
        · exact (List.pairwise_append.mp (List.pairwise_append.mp ascending).1).2.2 _ before _
            (List.mem_singleton_self _)
        · cases same
          exact .inr ⟨rfl, Nat.le_refl _⟩
        · exact absurd (past _ behind) (UInt32.not_lt.mpr le)
      · rw [answer, last]
  | none =>
      rw [List.getLast?_eq_none_iff] at last
      rw [last, List.nil_append] at split
      rw [split] at past
      cases first : ranked ms with
      | nil =>
          have empty := congrArg List.length first
          rw [ranked, List.length_mergeSort, List.length_zipIdx] at empty
          exact absurd (List.eq_nil_of_length_eq_zero empty) nonempty
      | cons a others =>
          obtain ⟨m, i⟩ := a
          rw [first] at ascending
          refine ⟨i, m, ⟨mem_ranked.mp (first ▸ List.mem_cons_self ..), .inr ⟨?_, ?_⟩⟩, ?_⟩
          · intro n member
            obtain ⟨k, other⟩ := List.getElem?_of_mem member
            exact past _ (mem_ranked.mpr other)
          · intro k n other
            have member := mem_ranked.mpr other
            rw [first] at member
            rcases List.mem_cons.mp member with same | behind
            · cases same
              exact .inr ⟨rfl, Nat.le_refl _⟩
            · exact List.rel_of_pairwise_cons ascending behind
          · rw [answer, last, first]
            rfl

theorem lookup_marks {mappings : Mappings} {rows : List (List (List Int))}
    (lines : mappings.lines = (List.range rows.length).map fun i => Vlq.byColumn (Vlq.marksOf rows i))
    (line column : UInt32) :
    (Vlq.marksOf rows line.toNat = [] ∧ mappings.lookup line column = none) ∨
      (Vlq.marksOf rows line.toNat ≠ [] ∧ ∃ i m, IsNearest (Vlq.marksOf rows line.toNat) column i m ∧
        mappings.lookup line column = some m) := by
  by_cases inside : line.toNat < rows.length
  · have here : mappings.lines[line.toNat]? = some (Vlq.byColumn (Vlq.marksOf rows line.toNat)) := by
      rw [lines, List.getElem?_map, List.getElem?_range inside]
      rfl
    by_cases empty : Vlq.marksOf rows line.toNat = []
    · refine .inl ⟨empty, ?_⟩
      rw [Mappings.lookup, here, empty, Vlq.byColumn, List.mergeSort_nil]
      rfl
    · exact .inr ⟨empty, lookup_nearest here column empty⟩
  · have missing : mappings.lines[line.toNat]? = none := by
      rw [lines, List.getElem?_eq_none_iff, List.length_map, List.length_range]
      exact Nat.not_lt.mp inside
    refine .inl ⟨?_, ?_⟩
    · rw [Vlq.marksOf, List.getD_eq_getElem?_getD, List.getElem?_eq_none (Nat.not_lt.mp inside)]
      rfl
    · rw [Mappings.lookup, missing]
      rfl

end SourceMap

namespace DecodedMap

open SourceMap

theorem mappings_ofMap {document : SourceMap} {d : DecodedMap} (decoded : ofMap document = .ok d) :
    d.document = document ∧ Vlq.decodeMappings document.mappings = .ok d.mappings := by
  rw [ofMap] at decoded
  cases read : Vlq.decodeMappings document.mappings with
  | error cause =>
      rw [read] at decoded
      cases decoded
  | ok mappings =>
      rw [read] at decoded
      cases decoded
      exact ⟨rfl, rfl⟩

/-- For every map that can be read: there is nothing behind line zero and behind a line without
mappings; elsewhere the answer is the nearest mapping of the line, if its source is one of the map. -/
theorem originalPosition_nearest (document : SourceMap) (d : DecodedMap)
    (decoded : DecodedMap.ofMap document = .ok d) :
    ∃ rows, Vlq.IsRows document.mappings rows ∧ ∀ line column : UInt32,
      let ms := Vlq.marksOf rows (line.toNat - 1)
      if line = 0 ∨ ms = [] then d.originalPosition line column = none
      else ∃ i m, IsNearest ms column i m ∧
        d.originalPosition line column = document.sources[m.source.toNat]?.map fun source =>
          ⟨source, UInt32.ofNat (m.line.toNat + 1), m.column,
            m.name.bind fun name => document.names[name.toNat]?⟩ := by
  obtain ⟨rfl, read⟩ := mappings_ofMap decoded
  obtain ⟨rows, isRows, lines⟩ := Vlq.decodeMappings_marks read
  refine ⟨rows, isRows, ?_⟩
  intro line column ms
  by_cases zero : line = 0
  · rw [if_pos (.inl zero), originalPosition, if_pos zero]
  · have index : (line - 1).toNat = line.toNat - 1 := by
      refine UInt32.toNat_sub_of_le _ _ (UInt32.le_iff_toNat_le.mpr ?_)
      exact Nat.one_le_iff_ne_zero.mpr fun same => zero (UInt32.toNat_inj.mp same)
    have answer := lookup_marks lines (line - 1) column
    rw [index] at answer
    rcases answer with ⟨empty, found⟩ | ⟨nonempty, i, m, nearest, found⟩
    · rw [if_pos (.inr empty), originalPosition, if_neg zero, found]
      rfl
    · rw [if_neg (not_or.mpr ⟨zero, nonempty⟩)]
      refine ⟨i, m, nearest, ?_⟩
      have next : m.line + 1 = UInt32.ofNat (m.line.toNat + 1) := by
        rw [UInt32.ofNat_add, UInt32.ofNat_toNat]
        rfl
      rw [originalPosition, if_neg zero, found, ← next]
      simp only [Option.bind_eq_bind, Option.bind_some]
      cases d.document.sources[m.source.toNat]? <;> rfl

/-- Two segments stand at column three, one in front of them at column five: the last of the two is
found, although a segment of one number and an empty one stand among them. -/
theorem originalPosition_between_ties : ∃ d,
    ofMap { sources := ["a.jsx"], mappings := "C,IAAA,FAAC,,AACA;;ACAA" } = .ok d ∧
      d.originalPosition 1 4 = some ⟨"a.jsx", 2, 1, none⟩ ∧
      d.originalPosition 1 0 = some ⟨"a.jsx", 1, 1, none⟩ ∧
      d.originalPosition 2 0 = none ∧ d.originalPosition 3 0 = none := by
  have success : (ofMap
      { sources := ["a.jsx"], mappings := "C,IAAA,FAAC,,AACA;;ACAA" }).toOption.isSome = true := by
    decide
  obtain ⟨d, decoded⟩ := Option.isSome_iff_exists.mp success
  have decoded := ok_of_toOption decoded
  obtain ⟨rows, isRows, answers⟩ := originalPosition_nearest _ d decoded
  have concrete : Vlq.IsRows "C,IAAA,FAAC,,AACA;;ACAA"
      [[[1], [4, 0, 0, 0], [-2, 0, 0, 1], [0, 0, 1, 0]], [], [[0, 1, 0, 0]]] := by
    unfold Vlq.IsRows Vlq.IsSegment
    decide +kernel
  obtain rfl := isRows.unique concrete
  refine ⟨d, decoded, ?_, ?_, ?_, ?_⟩
  · obtain ⟨i, m, ⟨place, ⟨upTo, last⟩ | ⟨past, -⟩⟩, found⟩ := answers 1 4
    · have third := last 2 _ rfl (by decide)
      rcases i with _ | _ | _ | i
      · cases place
        exact absurd upTo (by decide)
      · cases place
        exact absurd third (by decide)
      · cases place
        exact found
      · cases place
    · exact absurd (past _ (List.mem_of_getElem? (i := 2) rfl)) (by decide)
  · obtain ⟨i, m, ⟨place, ⟨upTo, -⟩ | ⟨-, first⟩⟩, found⟩ := answers 1 0
    · rcases i with _ | _ | _ | i
      all_goals cases place
      all_goals exact absurd upTo (by decide)
    · have second := first 1 _ rfl
      rcases i with _ | _ | _ | i
      · cases place
        exact absurd second (by decide)
      · cases place
        exact found
      · cases place
        exact absurd second (by decide)
      · cases place
  · exact answers 2 0
  · obtain ⟨i, m, ⟨place, -⟩, found⟩ := answers 3 0
    rcases i with _ | i
    · cases place
      exact found
    · cases place

end DecodedMap

end JsxPreview
