import JsxPreview.Proofs.Path.Names

/-! # Names below a root

What lies below a root is the names behind it (`relativeTo_ofNames`).  A list of overrides writes such
a place with slashes alone (`normalizeRelative_names`); a path is plain when its names can be written
so, and the files that a plain path may mean are plain. -/
set_option autoImplicit false
namespace JsxPreview

namespace Path

open JsxPreview.Text

variable {start names : List String}

/-- What lies below components is what a list of components goes on with. -/
theorem below?_eq_some {above cs rest : List Component} :
    below? above cs = some rest ↔ cs = above ++ rest := by
  induction above generalizing cs with
  | nil => exact Option.some_inj
  | cons c above ih =>
      cases cs with
      | nil => exact iff_of_false (fun below => nomatch below) (fun same => nomatch same)
      | cons c' cs =>
          rw [below?, List.cons_append, List.cons_eq_cons]
          split
          case isTrue same => rw [ih, eq_comm (a := c'), and_iff_right same]
          case isFalse other => exact iff_of_false (fun below => nomatch below) (fun same => other same.1.symm)

/-- What lies below a list of names is what a list of names goes on with. -/
theorem below?_named {rest : List Component} :
    below? (named start) (named names) = some rest ↔
      ∃ names', names = start ++ names' ∧ rest = named names' := by
  rw [below?_eq_some, named, List.map_eq_append_iff]
  constructor
  · rintro ⟨front, names', rfl, same, rfl⟩
    exact ⟨names', congrArg (· ++ names') ((List.map_inj_right fun _ _ => Component.name.inj).mp same), rfl⟩
  · rintro ⟨names', rfl, rfl⟩
    exact ⟨start, names', rfl, rfl, rfl⟩

/-- A place as seen from a root, from the names that both come to. -/
theorem relativeTo_eq {root q : Path} (areStart : AreNames start) (areNames : AreNames names)
    (starts : root.normalize = ofNames start) (ends : q.normalize = ofNames names) :
    root.relativeTo q = (below? (named start) (named names)).map joinComponents := by
  rw [relativeTo, starts, ends, components_ofNames areStart, components_ofNames areNames]
  rfl

/-- The place of a path that does not climb, as seen from a root. -/
theorem relativeTo_ofNames {q : Path} (areStart : AreNames start)
    (components : q.components = .root :: named names) (areNames : AreNames names) :
    (ofNames start).relativeTo q = (below? (named start) (named names)).map joinComponents :=
  relativeTo_eq areStart areNames (normalize_of_components (components_ofNames areStart))
    (normalize_of_components components)

/-! ## Places of overrides -/

/-- Names without a backslash. -/
structure PlainNames (names : List String) : Prop where
  areNames : AreNames names
  plain : ∀ n ∈ names, '\\' ∉ n.toList

theorem part_cases (part : List Char) : isIdle part = true ∨ part = ['.', '.'] ∨ IsName part := by
  cases idle : isIdle part with
  | true => exact .inl rfl
  | false =>
      by_cases up : part = ['.', '.']
      · exact .inr (.inl up)
      · exact .inr (.inr ⟨idle, up⟩)

theorem takePart_idle {above : List (List Char)} {part : List Char} (idle : isIdle part = true) :
    takePart above part = above := by
  rw [takePart, idle, if_pos rfl]

theorem takePart_up (above : List (List Char)) : takePart above ['.', '.'] = above.drop 1 := rfl

theorem takePart_name {above : List (List Char)} {part : List Char} (isName : IsName part) :
    takePart above part = part :: above := by
  rw [takePart, isName.counts, if_neg Bool.false_ne_true, if_neg (by simpa using isName.level)]

theorem takePart_plain {above : List (List Char)} {part : List Char}
    (plain : ∀ q ∈ above, IsName q ∧ '/' ∉ q ∧ '\\' ∉ q) (here : '/' ∉ part ∧ '\\' ∉ part) :
    ∀ q ∈ takePart above part, IsName q ∧ '/' ∉ q ∧ '\\' ∉ q := by
  rcases part_cases part with idle | rfl | isName
  · rwa [takePart_idle idle]
  · exact fun q member => plain q (List.mem_of_mem_drop member)
  · rw [takePart_name isName]
    exact List.forall_mem_cons.mpr ⟨⟨isName, here⟩, plain⟩

/-- A text with slashes for its backslashes. -/
def slashed (s : String) : List Char := s.toList.map fun c => if c = '\\' then '/' else c

theorem not_mem_slashed (s : String) : '\\' ∉ slashed s := by
  intro member
  obtain ⟨c, _, same⟩ := List.mem_map.mp member
  split at same
  · exact absurd same (by decide)
  · exact ‹¬ c = '\\'› same

theorem foldl_takePart_plain (s : String) :
    ∀ q ∈ (splitOn '/' (slashed s)).foldl takePart [], IsName q ∧ '/' ∉ q ∧ '\\' ∉ q := by
  refine List.foldlRecOn
    (motive := fun above : List (List Char) => ∀ q ∈ above, IsName q ∧ '/' ∉ q ∧ '\\' ∉ q)
    _ _ (fun _ member => absurd member List.not_mem_nil) fun above plain part member => ?_
  exact takePart_plain plain ⟨not_mem_splitOn part member,
    fun inside => not_mem_slashed s (mem_of_mem_splitOn member inside)⟩

theorem normalizeRelative_eq (s : String) : normalizeRelative s =
    joinComponents (named (((splitOn '/' (slashed s)).foldl takePart []).reverse.map String.ofList)) := by
  refine String.toList_injective ?_
  have same : String.toList ∘ String.ofList = id := funext fun _ => String.toList_ofList
  rw [joinComponents_named, List.map_map, same, List.map_id]
  exact String.toList_ofList

/-- A place in a list of overrides is written with plain names. -/
theorem normalizeRelative_names (s : String) :
    ∃ names, PlainNames names ∧ normalizeRelative s = joinComponents (named names) := by
  have plain : ∀ n ∈ ((splitOn '/' (slashed s)).foldl takePart []).reverse.map String.ofList,
      IsName n.toList ∧ '/' ∉ n.toList ∧ '\\' ∉ n.toList := by
    intro n member
    obtain ⟨part, inside, rfl⟩ := List.mem_map.mp member
    rw [String.toList_ofList]
    exact foldl_takePart_plain s part (List.mem_reverse.mp inside)
  exact ⟨_, ⟨fun n member => ⟨(plain n member).1, (plain n member).2.1⟩,
    fun n member => (plain n member).2.2⟩, normalizeRelative_eq s⟩

theorem foldl_takePart_names (areNames : AreNames names) : ∀ above : List (List Char),
    (names.map String.toList).foldl takePart above = (names.map String.toList).reverse ++ above := by
  induction names with
  | nil => exact fun _ => rfl
  | cons n names ih =>
      intro above
      have here := (areNames n (List.mem_cons_self ..)).1
      rw [List.map_cons, List.foldl_cons, takePart_name here,
        ih fun m member => areNames m (List.mem_cons_of_mem _ member), List.reverse_cons, List.append_assoc]
      rfl

theorem PlainNames.not_mem (plain : PlainNames names) :
    '\\' ∉ (joinComponents (named names)).toList := by
  intro member
  rw [joinComponents_named] at member
  rcases mem_joinWith member with slash | ⟨part, inside, here⟩
  · exact absurd (List.mem_singleton.mp slash) (by decide)
  · obtain ⟨n, member, rfl⟩ := List.mem_map.mp inside
    exact plain.plain n member here

/-- Plain names are written as they are. -/
theorem normalizeRelative_named (plain : PlainNames names) :
    normalizeRelative (joinComponents (named names)) = joinComponents (named names) := by
  have kept : ((joinComponents (named names)).toList.map fun c => if c = '\\' then '/' else c) =
      (joinComponents (named names)).toList := by
    rw [List.map_congr_left (g := id) fun c member => ?_, List.map_id]
    refine if_neg ?_
    rintro rfl
    exact plain.not_mem member
  unfold normalizeRelative
  simp only
  rw [kept]
  by_cases none : names = []
  · subst none
    rfl
  · refine String.toList_injective ?_
    rw [splitOn_joinComponents plain.areNames none, foldl_takePart_names plain.areNames,
      List.append_nil, List.reverse_reverse, joinComponents_named]
    exact String.toList_ofList

/-- The normal path to a place below a root. -/
theorem normalize_join (areStart : AreNames start) (areNames : AreNames names) :
    ((ofNames start).join (joinComponents (named names))).normalize = ofNames (start ++ names) := by
  refine normalize_of_components ?_
  by_cases none : names = []
  · subst none
    have relative : Path.isAbsolute ⟨joinComponents (named [])⟩ = false := rfl
    rw [components_join (ofNames_level areStart).isAbsolute relative, components_ofNames areStart,
      List.append_nil]
    exact List.append_nil _
  · rw [join_ofNames areStart areNames none, components_ofNames (areNames_append areStart areNames)]

/-! ## Plain paths -/

/-- A normal path from the top without a backslash. -/
def IsPlain (p : Path) : Prop := ∃ names, PlainNames names ∧ p = ofNames names

theorem ofNames_injective {names' : List String} (areNames : AreNames names)
    (areNames' : AreNames names') (same : ofNames names = ofNames names') : names = names' := by
  have components := components_ofNames areNames
  rw [same, components_ofNames areNames'] at components
  have inner : named names' = named names := (List.cons.inj components).2
  exact ((List.map_inj_right fun _ _ => Component.name.inj).mp inner).symm

theorem plainNames_of_text (areNames : AreNames names)
    (plain : '\\' ∉ (ofNames names).text.toList) : PlainNames names := by
  refine ⟨areNames, fun n member here => plain ?_⟩
  have some : names ≠ [] := List.ne_nil_of_mem member
  have part : n.toList ∈ splitOn '/' (joinComponents (named names)).toList := by
    rw [splitOn_joinComponents areNames some]
    exact List.mem_map_of_mem member
  rw [text_ofNames]
  exact List.mem_cons_of_mem _ (mem_of_mem_splitOn part here)

/-- A text whose parts are all names. -/
theorem names_of_text {s : String} (parts : ∀ part ∈ splitOn '/' s.toList, IsName part) :
    ∃ names, AreNames names ∧ names ≠ [] ∧ s = joinComponents (named names) := by
  have same : String.toList ∘ String.ofList = id := funext fun _ => String.toList_ofList
  refine ⟨(splitOn '/' s.toList).map String.ofList, ?_, ?_, ?_⟩
  · intro n member
    obtain ⟨part, inside, rfl⟩ := List.mem_map.mp member
    rw [String.toList_ofList]
    exact ⟨parts part inside, not_mem_splitOn part inside⟩
  · simpa using splitOn_ne_nil '/' s.toList
  · refine String.toList_injective ?_
    rw [joinComponents_named, List.map_map, same, List.map_id, join_splitOn]

/-- A part that counts, is no climb, and has no backslash. -/
def IsPlainPart (part : List Char) : Prop := IsName part ∧ '\\' ∉ part

theorem isPlain_of_parts {p : Path} (parts : p.PartsAre IsPlainPart) : p.IsPlain := by
  obtain ⟨s, text, good⟩ := parts
  have same : String.toList ∘ String.ofList = id := funext fun _ => String.toList_ofList
  refine ⟨(splitOn '/' s).map String.ofList, ⟨?_, ?_⟩, ?_⟩
  · intro n member
    obtain ⟨part, inside, rfl⟩ := List.mem_map.mp member
    rw [String.toList_ofList]
    exact ⟨(good part inside).1, not_mem_splitOn part inside⟩
  · intro n member
    obtain ⟨part, inside, rfl⟩ := List.mem_map.mp member
    rw [String.toList_ofList]
    exact (good part inside).2
  · have texts : p.text.toList = (ofNames ((splitOn '/' s).map String.ofList)).text.toList := by
      rw [text_ofNames, joinComponents_named, List.map_map, same, List.map_id, join_splitOn, text]
    exact congrArg Path.mk (String.toList_injective texts)

theorem IsPlain.parts {p : Path} (plain : p.IsPlain) :
    p = ofNames [] ∨ p.PartsAre IsPlainPart := by
  obtain ⟨names, plain, rfl⟩ := plain
  by_cases none : names = []
  · exact .inl (congrArg ofNames none)
  · exact .inr (partsAre_ofNames plain.areNames none fun n here =>
      ⟨(plain.areNames n here).1, plain.plain n here⟩)

theorem plain_lasting : Lasting IsPlainPart := by
  intro name long made
  refine ⟨⟨?_, ?_⟩, ?_⟩
  · rw [isIdle, Bool.or_eq_false_iff, beq_eq_false_iff_ne, beq_eq_false_iff_ne]
    constructor
    · rintro rfl
      exact absurd long (by decide)
    · rintro rfl
      exact absurd long (by decide)
  · rintro rfl
    exact absurd long (by decide)
  · intro member
    rcases made '\\' member with letter | dot | ⟨part, plain, here⟩
    · exact absurd letter (by decide)
    · exact absurd dot (by decide)
    · exact plain.2 here

theorem plainNames_lettered {n : String} (lettered : IsLettered n) (long : 3 ≤ n.toList.length) :
    PlainNames [n] := by
  have part : IsPlainPart n.toList :=
    plain_lasting _ long fun c member => (lettered c member).imp_right .inl
  refine ⟨fun m member => ?_, fun m member => ?_⟩
  · rw [List.mem_singleton.mp member]
    exact ⟨part.1, lettered.not_mem⟩
  · rw [List.mem_singleton.mp member]
    exact part.2

end Path

namespace Bundle

open JsxPreview.Path JsxPreview.Text

/-- The files that a plain path may mean are plain. -/
theorem isPlain_candidates {base : Path} (plain : base.IsPlain) :
    ∀ c ∈ candidates base, c.IsPlain := by
  rcases plain.parts with rfl | parts
  · have top : candidates (ofNames []) = ofNames [] :: ((knownExtensions.map ("." ++ ·)) ++
        knownExtensions.map ("index." ++ ·)).map fun n => ofNames [n] := by decide
    rw [top]
    intro c member
    rcases List.mem_cons.mp member with rfl | member
    · exact plain
    · obtain ⟨n, inside, rfl⟩ := List.mem_map.mp member
      obtain ⟨lettered, long⟩ : IsLettered n ∧ 3 ≤ n.toList.length := by
        revert n
        decide
      exact ⟨[n], plainNames_lettered lettered long, rfl⟩
  · exact fun c member => isPlain_of_parts (partsAre_candidates plain_lasting parts c member)

end Bundle

end JsxPreview
