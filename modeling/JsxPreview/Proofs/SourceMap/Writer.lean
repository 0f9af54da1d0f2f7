import JsxPreview.Proofs.SourceMap.Vlq
import JsxPreview.SourceMap.Builder

/-! # A writer marks the places of its code

Places are ordered as they follow each other in a text.  What a writer comes to (`Leads`) goes on with
the code that it has, and the mappings that it adds lie in order between the two places
(`Leads.trail`).  So the last mapping at the start of a text that is not empty is found again from the
finished map (`lookup_mark`), as long as lines and columns are words (`Fits`). -/
set_option autoImplicit false
namespace JsxPreview

open JsxPreview.Text

/-! ## Places -/

theorem Text.units_pos (c : Char) : 0 < units c := by
  unfold units
  split <;> decide

namespace Text.Position

variable {p q r : Position}

instance : LE Position :=
  ⟨fun p q => p.line < q.line ∨ p.line = q.line ∧ p.column ≤ q.column⟩

instance : LT Position :=
  ⟨fun p q => p.line < q.line ∨ p.line = q.line ∧ p.column < q.column⟩

theorem le_iff : p ≤ q ↔ p.line < q.line ∨ p.line = q.line ∧ p.column ≤ q.column := Iff.rfl

theorem lt_iff : p < q ↔ p.line < q.line ∨ p.line = q.line ∧ p.column < q.column := Iff.rfl

theorem le_refl (p : Position) : p ≤ p := .inr ⟨rfl, Nat.le_refl _⟩

theorem le_trans (first : p ≤ q) (second : q ≤ r) : p ≤ r := by
  rw [le_iff] at *
  omega

theorem lt_of_lt_of_le (first : p < q) (second : q ≤ r) : p < r := by
  rw [le_iff] at second
  rw [lt_iff] at *
  omega

theorem le_of_lt (before : p < q) : p ≤ q := by
  rw [lt_iff] at before
  rw [le_iff]
  omega

theorem lt_after (p : Position) (c : Char) : p < p.after c := by
  rw [lt_iff, after]
  split
  · exact .inl (Nat.lt_succ_self _)
  · exact .inr ⟨rfl, Nat.lt_add_of_pos_right (units_pos c)⟩

theorem le_advance (p : Position) (s : List Char) : p ≤ p.advance s := by
  induction s generalizing p with
  | nil => exact le_refl p
  | cons c s ih => exact le_trans (le_of_lt (lt_after p c)) (ih _)

theorem lt_advance (p : Position) {s : List Char} (some : s ≠ []) : p < p.advance s := by
  cases s with
  | nil => exact absurd rfl some
  | cons c s => exact lt_of_lt_of_le (lt_after p c) (le_advance _ s)

theorem units_le_utf8Size (c : Char) : units c ≤ c.utf8Size := by
  unfold units
  split
  case isTrue => exact c.utf8Size_pos
  case isFalse wide =>
    have value : 65535 < c.val := UInt32.lt_iff_toNat_lt.mpr (Nat.not_lt.mp wide)
    have above (n : UInt32) (small : n ≤ 65535) : ¬ c.val ≤ n :=
      UInt32.not_le.mpr (UInt32.lt_of_le_of_lt small value)
    unfold Char.utf8Size
    rw [if_neg (above _ (by decide)), if_neg (above _ (by decide)), if_neg (above _ (by decide))]
    decide

theorem after_le (p : Position) (c : Char) : (p.after c).line ≤ p.line + c.utf8Size ∧
    (p.after c).column ≤ p.column + c.utf8Size := by
  have size := c.utf8Size_pos
  unfold after
  split
  · exact ⟨Nat.add_le_add_left size _, Nat.zero_le _⟩
  · exact ⟨Nat.le_add_right _ _, Nat.add_le_add_left (units_le_utf8Size c) _⟩

/-- A place is at most as many lines and columns on as there are bytes in front of it. -/
theorem advance_le (s : List Char) : ∀ p : Position,
    (p.advance s).line ≤ p.line + byteLength s ∧
      (p.advance s).column ≤ p.column + byteLength s := by
  induction s with
  | nil =>
      intro p
      exact ⟨Nat.le_refl _, Nat.le_refl _⟩
  | cons c s ih =>
      intro p
      obtain ⟨line, column⟩ := ih (p.after c)
      obtain ⟨lineAfter, columnAfter⟩ := after_le p c
      rw [advance_cons, byteLength_cons]
      omega

/-- A place in words. -/
def IsWord (p : Position) : Prop := p.line < 2 ^ 32 ∧ p.column < 2 ^ 32

end Text.Position

/-- Every place of a text is in words. -/
def Fits (code : List Char) : Prop :=
  ∀ front, front <+: code → (Position.origin.advance front).IsWord

theorem Fits.front {code front : List Char} (fits : Fits code) (before : front <+: code) :
    Fits front :=
  fun first within => fits first (within.trans before)

theorem Text.byteLength_toList (s : String) : byteLength s.toList = s.utf8ByteSize := by
  have whole : ∀ l : List Char, (String.ofList l).utf8ByteSize = byteLength l := by
    intro l
    induction l with
    | nil => rfl
    | cons c l ih =>
        rw [← List.singleton_append, String.ofList_append, String.utf8ByteSize_append, ih,
          byteLength_append]
        congr 1
        exact String.utf8ByteSize_singleton
  rw [← whole, String.ofList_toList]

/-- A text of fewer bytes than there are words has its places in words. -/
theorem fits_of_bytes {code : List Char} (small : byteLength code < 2 ^ 32) : Fits code := by
  rintro front ⟨back, whole⟩
  have bytes : byteLength front ≤ byteLength code := by
    rw [← whole, byteLength_append]
    exact Nat.le_add_right _ _
  obtain ⟨line, column⟩ := Position.advance_le front .origin
  have zeroLine : Position.origin.line = 0 := rfl
  have zeroColumn : Position.origin.column = 0 := rfl
  constructor <;> omega

/-! ## Mappings in order -/

namespace SourceMap

/-- The generated place of a mapping. -/
def Mapping.place (m : Mapping) : Position := ⟨m.generatedLine.toNat, m.generatedColumn.toNat⟩

theorem Builder.isNotBehind_iff (m n : Mapping) :
    Builder.isNotBehind m n = true ↔ m.place ≤ n.place := by
  simp only [Builder.isNotBehind, Bool.or_eq_true, Bool.and_eq_true, decide_eq_true_eq, beq_iff_eq,
    Position.le_iff, Mapping.place, UInt32.lt_iff_toNat_lt, UInt32.le_iff_toNat_le,
    ← UInt32.toNat_inj]

/-- Mappings by generated place. -/
def Ascending (ms : List Mapping) : Prop := ms.Pairwise fun m n => m.place ≤ n.place

theorem Builder.sorted_of_ascending {b : Builder} (ascending : Ascending b.latest.reverse) :
    b.sorted = b.latest.reverse := by
  refine List.mergeSort_of_pairwise (ascending.imp ?_)
  intro m n notBehind
  rw [isNotBehind_iff]
  exact notBehind

variable {ms : List Mapping}

theorem Ascending.lines (ascending : Ascending ms) :
    ms.Pairwise (·.generatedLine.toNat ≤ ·.generatedLine.toNat) := by
  refine ascending.imp ?_
  intro m n notBehind
  rw [Position.le_iff] at notBehind
  rcases notBehind with before | ⟨same, _⟩
  · exact Nat.le_of_lt before
  · exact Nat.le_of_eq same

/-- The mappings of one line are in the order of their columns. -/
theorem Ascending.byColumn (ascending : Ascending ms) (line : Nat) :
    Vlq.byColumn (Vlq.lineOf ms line) = Vlq.lineOf ms line := by
  refine List.mergeSort_of_pairwise ?_
  have onLine : ∀ m ∈ Vlq.lineOf ms line, m.generatedLine.toNat = line := by
    intro m member
    exact beq_iff_eq.mp (List.mem_filter.mp member).2
  refine (List.Pairwise.filter _ ascending).imp_of_mem ?_
  intro m n first second notBehind
  rw [Position.le_iff] at notBehind
  have := onLine m first
  have := onLine n second
  simp only [decide_eq_true_eq, UInt32.le_iff_toNat_le]
  simp only [Mapping.place] at notBehind
  omega

/-- The last mapping at a place is what the place is looked up as. -/
theorem lookup_last {early late : List Mapping} {m : Mapping} {mappings : Mappings}
    (ascending : Ascending (early ++ m :: late)) (behind : ∀ n ∈ late, m.place < n.place)
    (decoded : Vlq.decodeMappings (Vlq.encodeMappings (early ++ m :: late)) = .ok mappings) :
    mappings.lookup m.generatedLine m.generatedColumn = some m := by
  obtain ⟨count, reads, bound, -⟩ := Vlq.decodeMappings_encodeMappings ascending.lines
  rw [decoded] at reads
  cases reads
  have here := bound m (List.mem_append_right _ (List.mem_cons_self ..))
  have split : Vlq.lineOf (early ++ m :: late) m.generatedLine.toNat =
      Vlq.lineOf early m.generatedLine.toNat ++ m :: Vlq.lineOf late m.generatedLine.toNat := by
    simp only [Vlq.lineOf, List.filter_append, List.filter_cons, beq_self_eq_true, if_true]
  have all : ∀ n ∈ Vlq.lineOf early m.generatedLine.toNat,
      decide (n.generatedColumn ≤ m.generatedColumn) = true := by
    intro n member
    obtain ⟨among, onLine⟩ := List.mem_filter.mp member
    have before := (List.pairwise_append.mp ascending).2.2 n among m (List.mem_cons_self ..)
    rw [beq_iff_eq] at onLine
    simp only [Position.le_iff, Mapping.place, onLine] at before
    simp only [decide_eq_true_eq, UInt32.le_iff_toNat_le]
    omega
  have nothing : (Vlq.lineOf late m.generatedLine.toNat).takeWhile
      (·.generatedColumn ≤ m.generatedColumn) = [] := by
    cases rest : Vlq.lineOf late m.generatedLine.toNat with
    | nil => rfl
    | cons n others =>
        obtain ⟨among, onLine⟩ := List.mem_filter.mp (rest ▸ List.mem_cons_self (l := others))
        have after := behind n among
        rw [beq_iff_eq] at onLine
        simp only [Position.lt_iff, Mapping.place, onLine] at after
        refine List.takeWhile_cons_of_neg ?_
        simp only [decide_eq_true_eq, UInt32.le_iff_toNat_le]
        omega
  have upTo : (Vlq.lineOf (early ++ m :: late) m.generatedLine.toNat).takeWhile
      (·.generatedColumn ≤ m.generatedColumn) =
        Vlq.lineOf early m.generatedLine.toNat ++ [m] := by
    rw [split, List.takeWhile_append_of_pos all, List.takeWhile_cons_of_pos (by simp), nothing]
  rw [Mappings.lookup, List.getElem?_map, List.getElem?_range here]
  simp only [Option.map_some, ascending.byColumn, bind, Option.bind, upTo, List.getLast?_concat]

end SourceMap

/-! ## Writers -/

namespace CodeWriter

open SourceMap

/-- What a writer comes to by writing, marking and adding sources. -/
inductive Leads (w : CodeWriter) : CodeWriter → Prop
  | refl : Leads w w
  | write {w' : CodeWriter} (text : String) : Leads w w' → Leads w (w'.write text)
  | mapTo {w' : CodeWriter} (source line column : UInt32) :
      Leads w w' → Leads w (w'.mapTo source line column)
  | addSource {w' : CodeWriter} (name : String) (content : Option String) :
      Leads w w' → Leads w (w'.addSource name content).1

variable {w w' w'' : CodeWriter}

theorem Leads.trans (first : w.Leads w') (second : w'.Leads w'') : w.Leads w'' := by
  induction second with
  | refl => exact first
  | write text _ ih => exact .write text ih
  | mapTo source line column _ ih => exact .mapTo source line column ih
  | addSource name content _ ih => exact .addSource name content ih

theorem code_start : ({} : CodeWriter).code.toList = [] := rfl

theorem code_write (w : CodeWriter) (text : String) :
    (w.write text).code.toList = w.code.toList ++ text.toList := by
  simp [code, write, String.toList_join]

@[simp] theorem code_mapTo (w : CodeWriter) (source line column : UInt32) :
    (w.mapTo source line column).code = w.code := rfl

@[simp] theorem code_addSource (w : CodeWriter) (name : String) (content : Option String) :
    (w.addSource name content).1.code = w.code := rfl

/-- The names of the sources so far, and what they hold. -/
def files (w : CodeWriter) : List String × List (Option String) := (w.map.sources, w.map.contents)

theorem files_mapTo (w : CodeWriter) (source line column : UInt32) :
    (w.mapTo source line column).files = w.files := by
  simp only [files, mapTo, Builder.addMapping]
  split <;> rfl

/-- The writer knows the place behind its code. -/
def Placed (w : CodeWriter) : Prop := w.place = Position.origin.advance w.code.toList

theorem placed_start : Placed {} := rfl

theorem Leads.placed (leads : w.Leads w') (placed : w.Placed) : w'.Placed := by
  induction leads with
  | refl => exact placed
  | @write w' text _ ih =>
      rw [Placed, code_write, Position.advance_append, ← ih]
      rfl
  | mapTo _ _ _ _ ih => exact ih
  | addSource _ _ _ ih => exact ih

theorem Leads.code (leads : w.Leads w') : w.code.toList <+: w'.code.toList := by
  induction leads with
  | refl => exact List.prefix_refl _
  | write text _ ih =>
      rw [code_write]
      exact ih.trans (List.prefix_append _ _)
  | mapTo _ _ _ _ ih => exact ih
  | addSource _ _ _ ih => exact ih

/-- The mapping that ties the place of a writer to a source. -/
def markAt (w : CodeWriter) (source line column : UInt32) : Mapping :=
  ⟨UInt32.ofNat w.place.line, UInt32.ofNat w.place.column, source, line, column, none⟩

theorem place_markAt (word : w.place.IsWord) (source line column : UInt32) :
    (w.markAt source line column).place = w.place := by
  obtain ⟨line, column⟩ := word
  simp only [markAt, Mapping.place, UInt32.toNat_ofNat']
  rw [Nat.mod_eq_of_lt line, Nat.mod_eq_of_lt column]

theorem Placed.isWord (placed : w.Placed) (fits : Fits w.code.toList) : w.place.IsWord := by
  rw [placed]
  exact fits _ (List.prefix_refl _)

/-- Of two equal mappings in a row one is kept. -/
theorem latest_mapTo (w : CodeWriter) (source line column : UInt32) :
    ∃ earlier, (w.mapTo source line column).map.latest = w.markAt source line column :: earlier ∧
      (earlier = w.map.latest ∨ w.markAt source line column :: earlier = w.map.latest) := by
  unfold mapTo Builder.addMapping
  simp only
  split
  case isTrue again =>
    obtain ⟨earlier, same⟩ := List.head?_eq_some_iff.mp again
    exact ⟨earlier, same, .inr same.symm⟩
  case isFalse => exact ⟨_, rfl, .inl rfl⟩

/-- What a writer adds lies in order behind its place. -/
theorem Leads.trail (leads : w.Leads w') (placed : w.Placed) (fits : Fits w'.code.toList) :
    ∃ late, w'.map.latest = late ++ w.map.latest ∧
      (∀ m ∈ late, w.place ≤ m.place ∧ m.place ≤ w'.place) ∧ Ascending late.reverse := by
  induction leads with
  | refl => exact ⟨[], rfl, fun _ member => absurd member List.not_mem_nil, .nil⟩
  | @write w' text _ ih =>
      have before : w'.code.toList <+: (w'.write text).code.toList :=
        code_write w' text ▸ List.prefix_append _ _
      obtain ⟨late, latest, between, ascending⟩ := ih (fits.front before)
      refine ⟨late, latest, ?_, ascending⟩
      intro m member
      obtain ⟨behind, upTo⟩ := between m member
      exact ⟨behind, Position.le_trans upTo (Position.le_advance _ _)⟩
  | addSource _ _ _ ih => exact ih fits
  | @mapTo w' source line column leads ih =>
      obtain ⟨late, latest, between, ascending⟩ := ih fits
      obtain ⟨earlier, added, kept | same⟩ := latest_mapTo w' source line column
      · have here := place_markAt ((leads.placed placed).isWord fits) source line column
        have reached : w.place ≤ w'.place := by
          obtain ⟨behind, whole⟩ := leads.code
          rw [leads.placed placed, placed, ← whole, Position.advance_append]
          exact Position.le_advance _ _
        refine ⟨w'.markAt source line column :: late, ?_, ?_, ?_⟩
        · rw [added, kept, latest]
          rfl
        · intro m member
          rcases List.mem_cons.mp member with rfl | member
          · rw [here]
            exact ⟨reached, Position.le_refl _⟩
          · exact between m member
        · rw [Ascending, List.reverse_cons, List.pairwise_append]
          refine ⟨ascending, List.pairwise_singleton _ _, ?_⟩
          intro m member n last
          rw [List.mem_singleton.mp last, here]
          exact (between m (List.mem_reverse.mp member)).2
      · exact ⟨late, by rw [added, same, latest], between, ascending⟩

/-- The mappings of a writer that started with nothing are in order. -/
theorem Leads.ascending (leads : Leads {} w) (fits : Fits w.code.toList) :
    Ascending w.map.latest.reverse := by
  obtain ⟨late, latest, _, ascending⟩ := leads.trail placed_start fits
  have all : w.map.latest = late := by
    rw [latest]
    exact List.append_nil _
  rw [all]
  exact ascending

theorem Leads.mappings (leads : Leads {} w) (fits : Fits w.code.toList) (file : Option String) :
    (w.map.build file).mappings = Vlq.encodeMappings w.map.latest.reverse := by
  rw [← Builder.sorted_of_ascending (leads.ascending fits)]
  rfl

theorem Leads.decodes (leads : Leads {} w) (fits : Fits w.code.toList) (file : Option String) :
    ∃ mappings, Vlq.decodeMappings (w.map.build file).mappings = .ok mappings := by
  rw [leads.mappings fits]
  obtain ⟨_, reads, -⟩ := Vlq.decodeMappings_encodeMappings (leads.ascending fits).lines
  exact ⟨_, reads⟩

/-- The finished map leads from the start of a marked text that is not empty to its mark. -/
theorem Leads.lookup_mark (started : Leads {} w) {source line column : UInt32} {text : String}
    (nonempty : text.toList ≠ []) {final : CodeWriter}
    (leads : ((w.mapTo source line column).write text).Leads final)
    (fits : Fits final.code.toList) {file : Option String} {mappings : Mappings}
    (decoded : Vlq.decodeMappings (final.map.build file).mappings = .ok mappings) :
    mappings.lookup (UInt32.ofNat w.place.line) (UInt32.ofNat w.place.column) =
      some (w.markAt source line column) := by
  have begun : Leads {} ((w.mapTo source line column).write text) := .write _ (.mapTo _ _ _ started)
  have whole : Leads {} final := begun.trans leads
  have behindText := begun.placed placed_start
  obtain ⟨late, latest, between, _⟩ := leads.trail behindText fits
  obtain ⟨earlier, marked, _⟩ := latest_mapTo w source line column
  have split : final.map.latest.reverse =
      earlier.reverse ++ w.markAt source line column :: late.reverse := by
    change final.map.latest = late ++ (w.mapTo source line column).map.latest at latest
    rw [latest, marked, List.reverse_append, List.reverse_cons, List.append_assoc]
    rfl
  have before : w.code.toList <+: final.code.toList := by
    refine List.IsPrefix.trans ?_ leads.code
    rw [code_write]
    exact List.prefix_append _ _
  have here := place_markAt ((started.placed placed_start).isWord (fits.front before))
    source line column
  have ascending := whole.ascending fits
  rw [whole.mappings fits, split] at decoded
  rw [split] at ascending
  refine lookup_last ascending ?_ decoded
  intro n member
  have moved : w.place < ((w.mapTo source line column).write text).place :=
    Position.lt_advance w.place nonempty
  rw [here]
  exact Position.lt_of_lt_of_le moved (between n (List.mem_reverse.mp member)).1

end CodeWriter

end JsxPreview
