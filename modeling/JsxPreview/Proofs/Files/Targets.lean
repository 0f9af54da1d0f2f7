import JsxPreview.Proofs.Files.Publishing
import JsxPreview.Proofs.Path.Laws
import Mathlib.Data.List.Find

/-! # What an override is for

An override names a file below the root of the project (`target`), and edits are kept under places that are
read in a way of their own: as seen from the top, where a climb leads nowhere (`foldl_climb`).  Both
agree on a path exactly when it never climbs out of the root, or the root is the top itself
(`overrideFor?_eq_iff`). -/
set_option autoImplicit false
namespace JsxPreview

namespace Path

open JsxPreview.Text

/-- At no point are there more climbs than names in front of it. -/
def StaysBelow (s : String) : Prop :=
  ∀ front, front <+: splitOn '/' (slashed s) →
    front.count ['.', '.'] ≤ front.countP fun part => decide (IsName part)

instance (s : String) : Decidable (StaysBelow s) :=
  decidable_of_iff (∀ front ∈ (splitOn '/' (slashed s)).inits,
      front.count ['.', '.'] ≤ front.countP fun part => decide (IsName part)) <| by
    simp only [List.mem_inits, StaysBelow]

/-! ## Targets -/

/-- The file that a path in a list of overrides names below a root. -/
def target (root : Path) (path : String) : Path :=
  (root.join (String.ofList ((slashed path).dropWhile (· == '/')))).normalize

theorem bodyComponents_dropSlashes (s : List Char) :
    bodyComponents (splitOn '/' (s.dropWhile (· == '/'))) = bodyComponents (splitOn '/' s) := by
  induction s with
  | nil => rfl
  | cons c s ih =>
      by_cases slash : c = '/'
      · subst slash
        rw [List.dropWhile_cons_of_pos rfl, ih, splitOn_sep]
        rfl
      · rw [List.dropWhile_cons_of_neg (by simpa using slash)]

theorem isAbsolute_dropSlashes (s : List Char) :
    Path.isAbsolute ⟨String.ofList (s.dropWhile (· == '/'))⟩ = false := by
  rw [Bool.eq_false_iff]
  intro absolute
  obtain ⟨rest, text⟩ := isAbsolute_iff.mp absolute
  rw [String.toList_ofList] at text
  have first := List.head?_dropWhile_not (· == '/') s
  rw [text, List.head?_cons] at first
  exact nomatch first

variable {start : List String}

/-- The place under which an edit is kept, and the file that it is for. -/
theorem target_names (areStart : AreNames start) (path : String) : ∃ names lost, PlainNames names ∧
    normalizeRelative path = joinComponents (named names) ∧
      target (ofNames start) path = ofNames (start.take (start.length - lost) ++ names) ∧
      (lost = 0 ↔ StaysBelow path) := by
  obtain ⟨inner, lost, taken, climbed, -, level⟩ := foldl_climb (splitOn '/' (slashed path)) []
  have plain : ∀ n ∈ inner, IsName n.toList ∧ '/' ∉ n.toList ∧ '\\' ∉ n.toList := by
    intro n member
    refine foldl_takePart_plain path n.toList ?_
    rw [← List.map_nil (f := String.toList), taken]
    exact List.mem_map_of_mem member
  refine ⟨inner.reverse, lost, ⟨fun n member => ?_, fun n member => ?_⟩, ?_, ?_, ?_⟩
  · have isPlain := plain n (List.mem_reverse.mp member)
    exact ⟨isPlain.1, isPlain.2.1⟩
  · exact (plain n (List.mem_reverse.mp member)).2.2
  · refine String.toList_injective ?_
    rw [joinComponents_named, List.map_reverse, ← taken]
    exact String.toList_ofList
  · have comes : ((ofNames start).join
        (String.ofList ((slashed path).dropWhile (· == '/')))).ComesTo
          (start.take (start.length - lost) ++ inner.reverse) := by
      have climbed := climbed start.reverse
      rw [List.drop_reverse] at climbed
      rw [ComesTo, components_join (isAbsolute_ofNames start) (isAbsolute_dropSlashes _),
        String.toList_ofList, bodyComponents_dropSlashes, components_ofNames areStart, List.foldl_append,
        List.reverse_append, List.reverse_reverse, ← climbed]
      exact congrArg (List.foldl climb · _) (foldl_climb_named start [.root])
    exact comes.normalize
  · rw [← Nat.le_zero, level]
    simp [Level, StaysBelow]

/-- An edit is kept under the place of the file that it is for, unless it climbs out of a root that has
something above it. -/
theorem target_eq_iff (areStart : AreNames start) (path : String) :
    target (ofNames start) path =
        ((ofNames start).join (normalizeRelative path)).normalize ↔
      StaysBelow path ∨ ofNames start = ofNames [] := by
  obtain ⟨names, lost, plain, place, targeted, level⟩ := target_names areStart path
  have areTaken : AreNames (start.take (start.length - lost) ++ names) :=
    areNames_append (fun n member => areStart n (List.mem_of_mem_take member)) plain.areNames
  rw [targeted, place, normalize_join areStart plain.areNames, ← level]
  constructor
  · intro same
    have lengths := congrArg List.length
      (ofNames_injective areTaken (areNames_append areStart plain.areNames) same)
    rw [List.length_append, List.length_append, List.length_take] at lengths
    by_cases top : start = []
    · exact .inr (congrArg ofNames top)
    · have some := List.length_pos_iff.mpr top
      exact .inl (by omega)
  · rintro (none | top)
    · rw [none, Nat.sub_zero, List.take_length]
    · have top := ofNames_injective areStart (fun _ member => absurd member List.not_mem_nil) top
      rw [top, List.take_nil]

end Path

namespace Sources

open JsxPreview.Path

variable {entry p : Path} {edits : List FileOverride}

/-- The last edit that is for a file. -/
def lastFor (root : Path) (edits : List FileOverride) (p : Path) : Option FileOverride :=
  edits.reverse.find? fun f => root.target f.path == p.normalize

theorem relativeTo_normal {start names : List String} (areStart : AreNames start)
    (areNames : AreNames names) (ends : p.normalize = ofNames names) :
    (ofNames start).relativeTo p = (below? (named start) (named names)).map joinComponents :=
  relativeTo_eq areStart areNames (normalize_ofNames areStart) ends

/-- A path is looked up among the edits kept under its own place, and one outside of the root nowhere. -/
theorem overrideFor?_root {start names : List String} (isRoot : entry.normalize.projectRoot = ofNames start)
    (areStart : AreNames start) (areNames : AreNames names) (ends : p.normalize = ofNames names)
    (plain : ∀ place, (ofNames start).relativeTo p = some place → '\\' ∉ place.toList) :
    (withOverrides entry edits).overrideFor? p = (edits.reverse.find? fun f =>
      ((ofNames start).join (normalizeRelative f.path)).normalize == p.normalize).map (·.content) := by
  have targets (f : FileOverride) : ∃ names', PlainNames names' ∧
      normalizeRelative f.path = joinComponents (named names') ∧
      (((ofNames start).join (normalizeRelative f.path)).normalize = p.normalize ↔
        start ++ names' = names) := by
    obtain ⟨names', plain, place⟩ := normalizeRelative_names f.path
    refine ⟨names', plain, place, ?_⟩
    rw [place, normalize_join areStart plain.areNames, ends]
    exact ⟨ofNames_injective (areNames_append areStart plain.areNames) areNames, congrArg ofNames⟩
  rw [overrideFor?_eq, isRoot]
  rw [relativeTo_normal areStart areNames ends] at plain ⊢
  cases behind : below? (named start) (named names) with
  | none =>
      rw [List.find?_eq_none.mpr fun f _ here => ?_]
      · rfl
      · obtain ⟨names', -, -, same⟩ := targets f
        have below := below?_named.mpr ⟨names', (same.mp (beq_iff_eq.mp here)).symm, rfl⟩
        rw [behind] at below
        exact nomatch below
  | some rest =>
      obtain ⟨names', rfl, rfl⟩ := below?_named.mp behind
      have plainNames : PlainNames names' := by
        refine plainNames_of_text (fun n member => areNames n (List.mem_append_right _ member)) ?_
        have plain := plain _ (by rw [behind]; rfl)
        rw [text_ofNames]
        simpa using plain
      rw [Option.map_some, Option.bind_some, normalizeRelative_named plainNames, lastEdit]
      refine congrArg (fun q => (edits.reverse.find? q).map _) (funext fun f => ?_)
      obtain ⟨other, isPlain, place, same⟩ := targets f
      rw [Bool.eq_iff_iff, beq_iff_eq, beq_iff_eq, same, List.append_cancel_left_eq, place]
      exact ⟨joinNames_injective isPlain.areNames plainNames.areNames, fun same => same ▸ rfl⟩

theorem projectRoot_names (absolute : entry.isAbsolute = true) :
    ∃ start, AreNames start ∧ entry.normalize.projectRoot = ofNames start := by
  obtain ⟨names, -, normal⟩ := normalize_of_isAbsolute absolute
  rw [normal]
  exact normalize_of_isAbsolute (isAbsolute_join (isAbsolute_join (isAbsolute_ofNames names) _) _)

/-- For every list of edits of these paths, and every path from the top whose part below the root has no
backslash: what is read is the last edit that is for the file, and nothing when there is none.  This is so
exactly when none of the paths climbs out of a root that has something above it. -/
theorem overrideFor?_eq_iff (absolute : entry.isAbsolute = true) (paths : String → Prop) :
    (∀ edits : List FileOverride, (∀ f ∈ edits, paths f.path) → ∀ p : Path, p.isAbsolute = true →
      (∀ place, entry.normalize.projectRoot.relativeTo p = some place → '\\' ∉ place.toList) →
        (withOverrides entry edits).overrideFor? p =
          (lastFor entry.normalize.projectRoot edits p).map (·.content)) ↔
      ∀ path, paths path → StaysBelow path ∨ entry.normalize.projectRoot = ⟨"/"⟩ := by
  obtain ⟨start, areStart, isRoot⟩ := projectRoot_names absolute
  have top : ofNames [] = ⟨"/"⟩ := rfl
  rw [isRoot, ← top]
  constructor
  · intro agree path member
    obtain ⟨names, plain, place⟩ := normalizeRelative_names path
    have areNames := areNames_append areStart plain.areNames
    have ends : ((ofNames start).join (normalizeRelative path)).normalize = ofNames (start ++ names) := by
      rw [place, normalize_join areStart plain.areNames]
    have normal := normalize_ofNames areNames
    -- the edit is read for the file behind the place under which it is kept
    have noBackslash : ∀ place, (ofNames start).relativeTo (ofNames (start ++ names)) = some place →
        '\\' ∉ place.toList := by
      intro place relative
      rw [relativeTo_normal areStart areNames normal, below?_named.mpr ⟨names, rfl, rfl⟩] at relative
      cases relative
      exact plain.not_mem
    have read := agree [⟨path, ""⟩] (by simpa using member) (ofNames (start ++ names))
      (isAbsolute_ofNames _) noBackslash
    rw [overrideFor?_root isRoot areStart areNames normal noBackslash, lastFor] at read
    rw [← target_eq_iff areStart, ends]
    by_contra other
    rw [List.reverse_singleton, List.find?_singleton, List.find?_singleton, ends, normal,
      if_pos (beq_self_eq_true _), if_neg (by simpa using other)] at read
    exact nomatch read
  · intro level edits members p fromTop plain
    obtain ⟨names, areNames, ends⟩ := normalize_of_isAbsolute fromTop
    rw [overrideFor?_root isRoot areStart areNames ends plain, lastFor]
    refine congrArg (Option.map _) (List.find?_congr fun f member => ?_)
    rw [(target_eq_iff areStart f.path).mpr (level _ (members f (List.mem_reverse.mp member)))]

/-- Two spellings of one file: the last edit of it is read. -/
theorem overrideFor?_of_spellings :
    (withOverrides ⟨"/work/app/emails/a.jsx"⟩
      [⟨"emails\\b.jsx", "1"⟩, ⟨"/emails/./c/../b.jsx", "2"⟩, ⟨"emails/c", "3"⟩]).overrideFor?
        ⟨"/work/app/x/../emails/b.jsx"⟩ = some "2" := by
  have read := (@overrideFor?_eq_iff ⟨"/work/app/emails/a.jsx"⟩ (by decide)
    (· ∈ ["emails\\b.jsx", "/emails/./c/../b.jsx", "emails/c"])).mpr (by decide)
    [⟨"emails\\b.jsx", "1"⟩, ⟨"/emails/./c/../b.jsx", "2"⟩, ⟨"emails/c", "3"⟩] (by decide)
    ⟨"/work/app/x/../emails/b.jsx"⟩ (by decide) (by decide)
  rw [read]
  decide

/-- A path that climbs out of the root is for a file in front of it, and is read for one inside. -/
theorem overrideFor?_of_climb :
    (withOverrides ⟨"/work/app/emails/a.jsx"⟩ [⟨"../x.jsx", "A"⟩]).overrideFor?
        ⟨"/work/app/x.jsx"⟩ = some "A" ∧
      lastFor ⟨"/work/app"⟩ [⟨"../x.jsx", "A"⟩] ⟨"/work/app/x.jsx"⟩ = none := by
  decide

end Sources

end JsxPreview
