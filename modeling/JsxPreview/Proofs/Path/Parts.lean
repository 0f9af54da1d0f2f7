import JsxPreview.Bundle.Specifier
import JsxPreview.Proofs.Text.Split

/-! # The parts of paths

A path from the top is its parts with a slash in front of each.  What is said of every part of a path
(`PartsAre`) holds of the files that the path may mean as well, when it holds of every name that is
long enough and made of the same characters (`Lasting`, `partsAre_candidates`). -/
set_option autoImplicit false
namespace JsxPreview.Path

open JsxPreview.Text

variable {ok : List Char → Prop} {p : Path}

/-- A path from the top of which every part behind the first slash is ok. -/
def PartsAre (ok : List Char → Prop) (p : Path) : Prop :=
  ∃ s, p.text.toList = '/' :: s ∧ ∀ part ∈ splitOn '/' s, ok part

theorem isAbsolute_iff : p.isAbsolute = true ↔ ∃ s, p.text.toList = '/' :: s := by
  unfold isAbsolute
  cases p.text.toList with
  | nil => simp
  | cons c s =>
      rw [List.head?_cons, beq_iff_eq, Option.some.injEq]
      constructor
      · rintro rfl
        exact ⟨s, rfl⟩
      · rintro ⟨_, same⟩
        exact (List.cons.inj same).1

theorem PartsAre.isAbsolute (parts : p.PartsAre ok) : p.isAbsolute = true := by
  obtain ⟨s, text, _⟩ := parts
  exact isAbsolute_iff.mpr ⟨s, text⟩

theorem parts_of_text {s : List Char} (text : p.text.toList = '/' :: s) :
    p.parts = [] :: splitOn '/' s := by
  rw [parts, text, splitOn_sep]

theorem opening_of_text {s : List Char} (text : p.text.toList = '/' :: s) :
    p.opening = (some "/", splitOn '/' s) := by
  unfold opening
  rw [parts_of_text text, isAbsolute_iff.mpr ⟨s, text⟩]
  rfl

theorem components_of_text {s : List Char} (text : p.text.toList = '/' :: s) :
    p.components = .root :: bodyComponents (splitOn '/' s) := by
  rw [components, isAbsolute_iff.mpr ⟨s, text⟩, parts_of_text text]
  rfl

/-! ## Paths from the top -/

theorem isAbsolute_join {p : Path} (absolute : p.isAbsolute = true) (s : String) :
    (p.join s).isAbsolute = true := by
  unfold Path.join
  obtain ⟨t, text⟩ := isAbsolute_iff.mp absolute
  split
  case isTrue here =>
    rcases Bool.or_eq_true_iff.mp here with itself | empty
    · exact itself
    · rw [String.isEmpty_iff.mp empty] at text
      exact absurd text (by simp)
  case isFalse =>
    split
    · exact isAbsolute_iff.mpr ⟨t ++ s.toList, by simp [text]⟩
    · exact isAbsolute_iff.mpr ⟨t ++ '/' :: s.toList, by simp [text]⟩

theorem isAbsolute_parent? {p q : Path} (absolute : p.isAbsolute = true)
    (above : p.parent? = some q) : q.isAbsolute = true := by
  obtain ⟨s, text⟩ := isAbsolute_iff.mp absolute
  unfold parent? at above
  rw [opening_of_text text] at above
  simp only at above
  split at above
  case h_1 => exact absurd ‹some "/" = some "."› (by decide)
  case h_2 => exact absurd above (by simp)
  case h_3 =>
    cases above
    exact isAbsolute_iff.mpr ⟨_, by rw [ofParts, String.toList_append]; rfl⟩

theorem isAbsolute_parentDir {p : Path} (absolute : p.isAbsolute = true) :
    p.parentDir.isAbsolute = true := by
  unfold parentDir
  cases above : p.parent? with
  | none => exact absolute
  | some q => exact isAbsolute_parent? absolute above

theorem isAbsolute_climbFrom (fuel : Nat) : ∀ {p : Path}, p.isAbsolute = true →
    ∀ q ∈ climbFrom fuel p, q.isAbsolute = true := by
  induction fuel with
  | zero =>
      intro p absolute q member
      rw [List.mem_singleton.mp member]
      exact absolute
  | succ fuel ih =>
      intro p absolute q member
      unfold climbFrom at member
      split at member
      case h_1 above isAbove =>
        rcases List.mem_cons.mp member with rfl | member
        · exact absolute
        · exact ih (isAbsolute_parent? absolute isAbove) q member
      case h_2 =>
        rw [List.mem_singleton.mp member]
        exact absolute

/-! ## What lasts -/

/-- Every name of at least three characters is ok, when each of them is a letter, a dot, or in
something ok. -/
def Lasting (ok : List Char → Prop) : Prop :=
  ∀ name : List Char, 3 ≤ name.length →
    (∀ c ∈ name, c.isAlpha = true ∨ c = '.' ∨ ∃ part, ok part ∧ c ∈ part) → ok name

/-- A text of letters and dots. -/
def IsLettered (s : String) : Prop := ∀ c ∈ s.toList, c.isAlpha = true ∨ c = '.'

instance (s : String) : Decidable (IsLettered s) :=
  show Decidable (∀ c ∈ s.toList, c.isAlpha = true ∨ c = '.') from List.decidableBAll _ _

theorem IsLettered.not_mem {s : String} (lettered : IsLettered s) : '/' ∉ s.toList := by
  intro member
  rcases lettered '/' member with letter | dot
  · exact absurd letter (by decide)
  · exact absurd dot (by decide)

theorem Lasting.append (lasting : Lasting ok) {part : List Char} (good : ok part) {s : String}
    (lettered : IsLettered s) (long : 3 ≤ s.toList.length) : ok (part ++ s.toList) := by
  refine lasting _ (by simp only [List.length_append]; omega) fun c member => ?_
  rcases List.mem_append.mp member with member | member
  · exact .inr (.inr ⟨part, good, member⟩)
  · exact (lettered c member).imp_right .inl

/-- A text of letters adds to the last part. -/
theorem PartsAre.append (lasting : Lasting ok) (parts : p.PartsAre ok) {s : String}
    (lettered : IsLettered s) (long : 3 ≤ s.toList.length) : PartsAre ok ⟨p.text ++ s⟩ := by
  obtain ⟨body, text, good⟩ := parts
  refine ⟨body ++ s.toList, by rw [String.toList_append, text]; rfl, ?_⟩
  have split := List.dropLast_concat_getLast (splitOn_ne_nil '/' body)
  rw [splitOn_append_plain lettered.not_mem body _ split.symm]
  intro part member
  rcases List.mem_append.mp member with member | member
  · exact good part ((List.dropLast_sublist _).mem member)
  · rw [List.mem_singleton.mp member]
    exact lasting.append (good _ (List.getLast_mem _)) lettered long

/-- What a relative path names from a path has the parts of both. -/
theorem PartsAre.join (parts : p.PartsAre ok) {s : String} (relative : Path.isAbsolute ⟨s⟩ = false)
    (good : ∀ part ∈ splitOn '/' s.toList, ok part) : PartsAre ok (p.join s) := by
  obtain ⟨body, text, inBody⟩ := parts
  have some : p.text.isEmpty = false := by
    rw [Bool.eq_false_iff]
    intro empty
    rw [String.isEmpty_iff.mp empty] at text
    exact absurd text (by simp)
  unfold Path.join
  rw [relative, some, Bool.or_self, if_neg Bool.false_ne_true]
  split
  case isTrue slash =>
    refine ⟨body ++ s.toList, by rw [String.toList_append, text]; rfl, ?_⟩
    rw [text] at slash
    rcases List.eq_nil_or_concat body with rfl | ⟨front, c, rfl⟩
    · exact good
    · -- the slash at the end ends the last part of the path in front
      have same : c = '/' := by
        rw [List.concat_eq_append, ← List.cons_append, List.getLast?_concat, beq_iff_eq] at slash
        exact Option.some.inj slash
      subst same
      rw [List.concat_eq_append, splitOn_append_sep] at inBody
      rw [List.concat_eq_append, List.append_assoc, List.singleton_append, splitOn_append_sep]
      intro part member
      rcases List.mem_append.mp member with member | member
      · exact inBody part (List.mem_append_left _ member)
      · exact good part member
  case isFalse =>
    refine ⟨body ++ '/' :: s.toList, by simp [text], ?_⟩
    rw [splitOn_append_sep]
    intro part member
    rcases List.mem_append.mp member with member | member
    · exact inBody part member
    · exact good part member

/-! ## The file name -/

theorem mem_dropIdleEnd {parts : List (List Char)} {part : List Char}
    (member : part ∈ dropIdleEnd parts) : part ∈ parts :=
  List.mem_reverse.mp ((List.dropWhile_sublist _).mem (List.mem_reverse.mp member))

/-- The stem of a name holds characters of the name and dots alone. -/
theorem mem_splitName {name : String} {c : Char} (member : c ∈ (splitName name).1.toList) :
    c ∈ name.toList ∨ c = '.' := by
  unfold splitName at member
  split at member
  case h_1 last second rest split =>
    simp only at member
    split at member
    · exact .inl member
    · rw [String.toList_ofList] at member
      rcases mem_joinWith member with dot | ⟨part, inside, here⟩
      · exact .inr (List.mem_singleton.mp dot)
      · have whole : part ∈ splitOn '.' name.toList := by
          rw [← List.mem_reverse, split]
          exact List.mem_cons_of_mem _ (List.mem_reverse.mp inside)
        exact .inl (mem_of_mem_splitOn whole here)
  case h_2 => exact .inl member

/-- The name of a file is one of the parts of its path. -/
theorem fileName?_mem {s : List Char} (text : p.text.toList = '/' :: s) {name : String}
    (found : p.fileName? = some name) : name.toList ∈ splitOn '/' s := by
  unfold fileName? at found
  rw [components_of_text text] at found
  split at found
  case h_2 => exact absurd found (by simp)
  case h_1 name' last =>
    cases found
    have member : Component.name name ∈ bodyComponents (splitOn '/' s) := by
      rcases List.mem_cons.mp (List.mem_of_getLast? last) with absurd | member
      · exact nomatch absurd
      · exact member
    obtain ⟨part, here, same⟩ := List.mem_map.mp member
    unfold Component.ofPart at same
    split at same
    · exact nomatch same
    · cases same
      rw [String.toList_ofList]
      exact (List.mem_filter.mp here).1

theorem PartsAre.withExtension (lasting : Lasting ok) (parts : p.PartsAre ok) {e : String}
    (lettered : IsLettered e) (long : 2 ≤ e.toList.length) : PartsAre ok (p.withExtension e) := by
  obtain ⟨s, text, good⟩ := id parts
  unfold Path.withExtension
  rw [opening_of_text text]
  simp only
  cases stem : p.stem? with
  | none => exact parts
  | some stem =>
      obtain ⟨name, found, rfl⟩ := Option.map_eq_some_iff.mp stem
      have here := fileName?_mem text found
      have renamed : ∀ part, part = ((splitName name).1 ++ "." ++ e).toList →
          ok part ∧ '/' ∉ part := by
        rintro part rfl
        have made : ∀ c ∈ ((splitName name).1 ++ "." ++ e).toList,
            c.isAlpha = true ∨ c = '.' ∨ c ∈ name.toList := by
          intro c member
          simp only [String.toList_append, List.mem_append] at member
          rcases member with (member | member) | member
          · rcases mem_splitName member with inName | dot
            · exact .inr (.inr inName)
            · exact .inr (.inl dot)
          · exact .inr (.inl (by simpa using member))
          · exact (lettered c member).imp_right .inl
        refine ⟨lasting _ ?_ fun c member => ?_, fun member => ?_⟩
        · simp only [String.toList_append, List.length_append]
          have : ".".toList.length = 1 := rfl
          omega
        · exact (made c member).imp_right (Or.imp_right fun inName => ⟨name.toList, good _ here, inName⟩)
        · rcases made '/' member with letter | dot | inName
          · exact absurd letter (by decide)
          · exact absurd dot (by decide)
          · exact not_mem_splitOn _ here inName
      have pieces : ∀ part ∈ (dropIdleEnd (splitOn '/' s)).dropLast ++
          [((splitName name).1 ++ "." ++ e).toList], ok part ∧ '/' ∉ part := by
        intro part member
        rcases List.mem_append.mp member with member | member
        · have inside := mem_dropIdleEnd ((List.dropLast_sublist _).mem member)
          exact ⟨good part inside, not_mem_splitOn part inside⟩
        · exact renamed part (List.mem_singleton.mp member)
      refine ⟨joinWith ['/'] ((dropIdleEnd (splitOn '/' s)).dropLast ++
        [((splitName name).1 ++ "." ++ e).toList]), by simp [ofParts], ?_⟩
      rw [splitOn_joinWith (List.append_ne_nil_of_right_ne_nil _ (List.cons_ne_nil _ _))
        fun part member => (pieces part member).2]
      exact fun part member => (pieces part member).1

end JsxPreview.Path

namespace JsxPreview.Bundle

open JsxPreview.Path JsxPreview.Text

/-- The files that a path may mean have parts of its kind. -/
theorem partsAre_candidates {ok : List Char → Prop} (lasting : Lasting ok) {base : Path}
    (parts : base.PartsAre ok) : ∀ c ∈ candidates base, c.PartsAre ok := by
  have typed : ∀ e ∈ typedExtensions base.extension?, IsLettered e ∧ 2 ≤ e.toList.length := by
    unfold typedExtensions
    split <;> decide
  intro c member
  unfold candidates at member
  simp only [List.mem_append, List.mem_singleton, List.mem_map] at member
  rcases member with ((rfl | ⟨e, here, rfl⟩) | ⟨e, here, rfl⟩) | ⟨e, here, rfl⟩
  · exact parts
  · exact parts.withExtension lasting (typed e here).1 (typed e here).2
  · obtain ⟨lettered, long⟩ : IsLettered ("." ++ e) ∧ 3 ≤ ("." ++ e).toList.length := by
      revert e
      decide
    rw [String.append_assoc]
    exact parts.append lasting lettered long
  · obtain ⟨lettered, long, relative⟩ : IsLettered ("index." ++ e) ∧
        3 ≤ ("index." ++ e).toList.length ∧ Path.isAbsolute ⟨"index." ++ e⟩ = false := by
      revert e
      decide
    have alone : splitOn '/' _ = _ := splitOn_plain lettered.not_mem
    refine parts.join relative fun part member => ?_
    rw [alone] at member
    rw [List.mem_singleton.mp member]
    exact lasting _ long fun c inside => (lettered c inside).imp_right .inl

end JsxPreview.Bundle
