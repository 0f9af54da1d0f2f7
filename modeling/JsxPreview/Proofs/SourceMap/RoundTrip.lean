import JsxPreview.Proofs.SourceMap.Writer
import JsxPreview.Proofs.Text.Split

/-! # A map gives its mappings back

A builder keeps the mappings that are added to it but those that repeat the one right before
(`Builder.kept_addMapping`), and sorts them by generated place.  The text of the map is read as the
same mappings: as many lines as the last one needs, on each line its mappings by column, and those of
one column in the order in which they were added (`Builder.decode_build`). -/
set_option autoImplicit false
namespace JsxPreview

open JsxPreview.Text

namespace Text.Position

theorem le_total (p q : Position) : p ≤ q ∨ q ≤ p := by
  simp only [le_iff]
  omega

end Text.Position

namespace SourceMap

namespace Builder

theorem isNotBehind_trans (m n o : Mapping) (first : isNotBehind m n = true)
    (second : isNotBehind n o = true) : isNotBehind m o = true := by
  rw [isNotBehind_iff] at *
  exact Position.le_trans first second

theorem isNotBehind_total (m n : Mapping) : (isNotBehind m n || isNotBehind n m) = true := by
  rw [Bool.or_eq_true, isNotBehind_iff, isNotBehind_iff]
  exact Position.le_total _ _

/-- The mappings that a builder keeps, in the order in which they were added. -/
def kept (b : Builder) : List Mapping := b.latest.reverse

theorem kept_loop (ms : List Mapping) : ∀ (b : Builder) (m : Mapping) (earlier : List Mapping),
    b.latest = m :: earlier →
      (ms.foldl addMapping b).kept = List.eraseRepsBy.loop (· == ·) m ms earlier := by
  induction ms with
  | nil =>
      intro b m earlier latest
      rw [List.foldl_nil, kept, latest, List.eraseRepsBy.loop]
  | cons n ms ih =>
      intro b m earlier latest
      rw [List.foldl_cons, List.eraseRepsBy.loop]
      by_cases again : m = n
      · have same : b.addMapping n = b := by
          rw [addMapping, latest, List.head?_cons, again, if_pos rfl]
        rw [beq_iff_eq.mpr again, same]
        exact ih b m earlier latest
      · have added : (b.addMapping n).latest = n :: m :: earlier := by
          rw [addMapping, latest, List.head?_cons, if_neg (by simpa using again)]
        rw [beq_eq_false_iff_ne.mpr again]
        exact ih _ n (m :: earlier) added

/-- A builder without mappings keeps of those that are added all but the repeated ones. -/
theorem kept_addMapping {b : Builder} (start : b.latest = []) (added : List Mapping) :
    (added.foldl addMapping b).kept = added.eraseReps := by
  cases added with
  | nil =>
      rw [List.foldl_nil, kept, start]
      rfl
  | cons m ms =>
      have first : (b.addMapping m).latest = [m] := by
        rw [addMapping, start, if_neg (by simp)]
      rw [List.foldl_cons, kept_loop ms _ m [] first]
      rfl

theorem mem_kept_addMapping (added : List Mapping) : ∀ (b : Builder) (m : Mapping),
    m ∈ (added.foldl addMapping b).kept ↔ m ∈ b.latest ∨ m ∈ added := by
  induction added with
  | nil =>
      intro b m
      simp [kept]
  | cons n ms ih =>
      intro b m
      have latest : m ∈ (b.addMapping n).latest ↔ m ∈ b.latest ∨ m = n := by
        unfold addMapping
        split
        case isTrue again =>
          have among : n ∈ b.latest := List.mem_of_head? again
          exact ⟨.inl, fun either => either.elim id fun same => same ▸ among⟩
        case isFalse => rw [List.mem_cons, or_comm]
      rw [List.foldl_cons, ih, latest, List.mem_cons, or_assoc]

theorem ascending_sorted (b : Builder) : Ascending b.sorted := by
  refine (List.pairwise_mergeSort isNotBehind_trans isNotBehind_total _).imp ?_
  intro m n notBehind
  exact (isNotBehind_iff m n).mp notBehind

/-- Sorting leaves the mappings of one place in the order in which they were added. -/
theorem filter_sorted (b : Builder) (line : Nat) (column : UInt32) :
    (b.sorted.filter fun m => m.generatedLine.toNat == line && m.generatedColumn == column) =
      b.kept.filter fun m => m.generatedLine.toNat == line && m.generatedColumn == column := by
  refine filter_mergeSort isNotBehind_trans isNotBehind_total ?_ _
  intro m n first second
  simp only [Bool.and_eq_true, beq_iff_eq] at first second
  have columns : m.generatedColumn.toNat ≤ n.generatedColumn.toNat :=
    Nat.le_of_eq (congrArg UInt32.toNat (first.2.trans second.2.symm))
  rw [isNotBehind_iff, Position.le_iff]
  exact .inr ⟨first.1.trans second.1.symm, columns⟩

end Builder

/-! ## Lines by column -/

namespace Vlq

theorem columns_trans (m n o : Mapping) (first : decide (m.generatedColumn ≤ n.generatedColumn))
    (second : decide (n.generatedColumn ≤ o.generatedColumn)) :
    decide (m.generatedColumn ≤ o.generatedColumn) = true := by
  rw [decide_eq_true_eq] at *
  exact UInt32.le_trans first second

theorem columns_total (m n : Mapping) : (decide (m.generatedColumn ≤ n.generatedColumn) ||
    decide (n.generatedColumn ≤ m.generatedColumn)) = true := by
  rw [Bool.or_eq_true, decide_eq_true_eq, decide_eq_true_eq]
  exact UInt32.le_total _ _

theorem pairwise_byColumn (ms : List Mapping) :
    (byColumn ms).Pairwise fun m n => m.generatedColumn ≤ n.generatedColumn := by
  refine (List.pairwise_mergeSort columns_trans columns_total _).imp ?_
  intro m n notBehind
  exact of_decide_eq_true notBehind

theorem filter_byColumn (ms : List Mapping) (column : UInt32) :
    (byColumn ms).filter (·.generatedColumn == column) =
      ms.filter (·.generatedColumn == column) := by
  refine filter_mergeSort columns_trans columns_total ?_ _
  intro m n first second
  rw [beq_iff_eq] at first second
  rw [first, second]
  exact decide_eq_true (UInt32.le_refl _)

end Vlq

/-- How many lines it takes to hold mappings, one at least. -/
def lineCount (ms : List Mapping) : Nat := (ms.map (·.generatedLine.toNat)).max?.getD 0 + 1

theorem lineCount_eq {ms : List Mapping} {count : Nat}
    (bound : ∀ m ∈ ms, m.generatedLine.toNat < count + 1)
    (last : count = 0 ∨ ∃ m ∈ ms, m.generatedLine.toNat = count) : lineCount ms = count + 1 := by
  rw [lineCount]
  congr 1
  cases greatest : (ms.map (·.generatedLine.toNat)).max? with
  | none =>
      have nothing : ms = [] := List.map_eq_nil_iff.mp (List.max?_eq_none_iff.mp greatest)
      rcases last with zero | ⟨m, member, _⟩
      · exact zero.symm
      · exact absurd (nothing ▸ member) List.not_mem_nil
  | some line =>
      obtain ⟨member, all⟩ := List.max?_eq_some_iff.mp greatest
      obtain ⟨m, among, rfl⟩ := List.mem_map.mp member
      have upTo := bound m among
      rw [Option.getD_some]
      rcases last with zero | ⟨n, other, there⟩
      · omega
      · have := all _ (List.mem_map_of_mem other)
        omega

namespace Builder

/-- Reading the map of a builder to which mappings were added gives these mappings without the
repeated ones, line by line, by column, and those of one place in the order in which they came. -/
theorem decode_build (sources : List String) (contents : List (Option String))
    (added : List Mapping) (file : Option String) : ∃ lines,
    Vlq.decodeMappings ((added.foldl addMapping ⟨sources, contents, []⟩).build file).mappings =
        .ok ⟨lines⟩ ∧
      lines.length = lineCount added ∧
      ∀ line, ((lines.getD line []).Pairwise fun m n => m.generatedColumn ≤ n.generatedColumn) ∧
        ∀ column, (lines.getD line []).filter (·.generatedColumn == column) =
          added.eraseReps.filter fun m =>
            m.generatedLine.toNat == line && m.generatedColumn == column := by
  let b := added.foldl addMapping ⟨sources, contents, []⟩
  have among (m : Mapping) : m ∈ b.sorted ↔ m ∈ added := by
    rw [sorted, List.mem_mergeSort]
    refine (mem_kept_addMapping added _ m).trans ?_
    simp
  obtain ⟨count, reads, bound, last⟩ := Vlq.decodeMappings_encodeMappings b.ascending_sorted.lines
  refine ⟨_, reads, ?_, ?_⟩
  · rw [List.length_map, List.length_range]
    refine (lineCount_eq ?_ ?_).symm
    · intro m member
      exact bound m ((among m).mpr member)
    · refine last.imp_right ?_
      rintro ⟨m, member, there⟩
      exact ⟨m, (among m).mp member, there⟩
  · intro line
    have read : ((List.range (count + 1)).map fun line =>
        Vlq.byColumn (Vlq.lineOf b.sorted line)).getD line [] =
          Vlq.byColumn (Vlq.lineOf b.sorted line) := by
      rw [List.getD_eq_getElem?_getD, List.getElem?_map]
      by_cases inside : line < count + 1
      · rw [List.getElem?_range inside]
        rfl
      · -- behind the last line there is nothing to be read, and nothing was added there
        have nothing : Vlq.lineOf b.sorted line = [] := by
          refine List.filter_eq_nil_iff.mpr ?_
          intro m member
          have := bound m member
          rw [beq_iff_eq]
          omega
        rw [nothing, Vlq.byColumn, List.mergeSort_nil,
          List.getElem?_eq_none (by rw [List.length_range]; omega)]
        rfl
    rw [read]
    refine ⟨Vlq.pairwise_byColumn _, ?_⟩
    intro column
    have kept : b.kept = added.eraseReps := kept_addMapping (b := ⟨sources, contents, []⟩) rfl added
    rw [Vlq.filter_byColumn, Vlq.lineOf, List.filter_filter, ← kept, ← filter_sorted]
    exact List.filter_congr fun m _ => Bool.and_comm _ _

end Builder

end SourceMap

end JsxPreview
