import JsxPreview.Proofs.Path.Parts

/-! # Paths as lists of names

`ofNames` is the path from the top through a list of names; its components are just these
(`components_ofNames`).  Every path from the top comes to a list of names (`ComesTo`), which is what it is
normalized to, and one that does not climb comes to its own (`normalize_of_components`).  A list of names
is known by its text (`joinNames_injective`). -/
set_option autoImplicit false
namespace JsxPreview.Path

open JsxPreview.Text

variable {p : Path} {names : List String}

/-- A part that counts and is no climb. -/
structure IsName (part : List Char) : Prop where
  counts : isIdle part = false
  level : part ≠ ['.', '.']

/-- The components that names are. -/
def named (names : List String) : List Component := names.map .name

def ofNames (names : List String) : Path := ofComponents (.root :: named names)

/-- Names that a path can be made of. -/
def AreNames (names : List String) : Prop := ∀ n ∈ names, IsName n.toList ∧ '/' ∉ n.toList

instance (part : List Char) : Decidable (IsName part) :=
  decidable_of_iff (isIdle part = false ∧ part ≠ ['.', '.'])
    ⟨fun ⟨counts, level⟩ => ⟨counts, level⟩, fun isName => ⟨isName.counts, isName.level⟩⟩

instance (names : List String) : Decidable (AreNames names) :=
  inferInstanceAs (Decidable (∀ n ∈ names, IsName n.toList ∧ '/' ∉ n.toList))

/-! ## Components -/

theorem components_body {s : List Char} : ∀ c ∈ bodyComponents (splitOn '/' s),
    c = .up ∨ ∃ n, c = .name n ∧ IsName n.toList ∧ '/' ∉ n.toList := by
  intro c member
  obtain ⟨part, here, rfl⟩ := List.mem_map.mp member
  obtain ⟨inside, counts⟩ := List.mem_filter.mp here
  unfold Component.ofPart
  split
  case isTrue => exact .inl rfl
  case isFalse level =>
    refine .inr ⟨_, rfl, ?_⟩
    rw [String.toList_ofList]
    exact ⟨⟨by simpa using counts, by simpa using level⟩, not_mem_splitOn part inside⟩

/-- A path from the top that does not climb is made of names. -/
theorem components_of_level (level : p.PartsAre (· ≠ ['.', '.'])) :
    ∃ names, p.components = .root :: named names ∧ AreNames names := by
  obtain ⟨s, text, good⟩ := level
  have made : ∀ parts : List (List Char), (∀ part ∈ parts, part ∈ splitOn '/' s) →
      ∃ names, bodyComponents parts = named names ∧ AreNames names := by
    intro parts
    induction parts with
    | nil => exact fun _ => ⟨[], rfl, fun _ member => nomatch member⟩
    | cons part parts ih =>
        intro inside
        obtain ⟨names, body, areNames⟩ := ih fun q member => inside q (List.mem_cons_of_mem _ member)
        have here := inside part (List.mem_cons_self ..)
        cases idle : isIdle part with
        | true =>
            refine ⟨names, ?_, areNames⟩
            rw [← body]
            simp [bodyComponents, idle]
        | false =>
            refine ⟨String.ofList part :: names, ?_, ?_⟩
            · have kind : Component.ofPart part = .name (String.ofList part) :=
                if_neg (by simpa using good part here)
              rw [named, List.map_cons, ← kind, ← named, ← body]
              simp [bodyComponents, idle]
            · intro n member
              rcases List.mem_cons.mp member with rfl | member
              · rw [String.toList_ofList]
                exact ⟨⟨idle, good part here⟩, not_mem_splitOn part here⟩
              · exact areNames n member
  obtain ⟨names, body, areNames⟩ := made _ fun _ member => member
  exact ⟨names, by rw [components_of_text text, body], areNames⟩

/-! ## The text of names -/

theorem joinWith_eq (sep : List Char) (parts : List (List Char)) :
    joinWith sep parts = sep.intercalate parts := by
  induction parts with
  | nil => rfl
  | cons part rest ih =>
      cases rest with
      | nil => simp [joinWith]
      | cons next rest => rw [joinWith_cons _ _ (List.cons_ne_nil _ _), ih, List.intercalate_cons_cons]

theorem text_named (names : List String) : (named names).map (·.text) = names := by
  rw [named, List.map_map]
  exact List.map_id names

theorem joinComponents_named (names : List String) :
    (joinComponents (named names)).toList = joinWith ['/'] (names.map String.toList) := by
  rw [joinComponents, text_named, String.toList_intercalate, joinWith_eq]
  rfl

theorem splitOn_joinComponents (areNames : AreNames names) (some : names ≠ []) :
    splitOn '/' (joinComponents (named names)).toList = names.map String.toList := by
  rw [joinComponents_named]
  refine splitOn_joinWith (fun none => some (List.map_eq_nil_iff.mp none)) fun part member => ?_
  obtain ⟨n, here, rfl⟩ := List.mem_map.mp member
  exact (areNames n here).2

theorem joinComponents_ne_nil (areNames : AreNames names) (some : names ≠ []) :
    joinComponents (named names) ≠ "" := by
  intro empty
  have parts := splitOn_joinComponents areNames some
  rw [empty] at parts
  cases names with
  | nil => exact some rfl
  | cons n names =>
      have first : [] = n.toList := (List.cons.inj parts).1
      have counts := (areNames n (List.mem_cons_self ..)).1.counts
      rw [← first] at counts
      exact absurd counts (by decide)

/-- Lists of names with one text are one list. -/
theorem joinNames_injective {names' : List String} (areNames : AreNames names)
    (areNames' : AreNames names')
    (same : joinComponents (named names) = joinComponents (named names')) : names = names' := by
  by_cases none : names = []
  · by_cases none' : names' = []
    · rw [none, none']
    · rw [none] at same
      exact absurd same.symm (joinComponents_ne_nil areNames' none')
  · by_cases none' : names' = []
    · rw [none'] at same
      exact absurd same (joinComponents_ne_nil areNames none)
    · have parts := splitOn_joinComponents areNames none
      rw [same, splitOn_joinComponents areNames' none'] at parts
      exact ((List.map_inj_right fun _ _ => String.toList_inj.mp).mp parts).symm

theorem text_ofNames (names : List String) :
    (ofNames names).text.toList = '/' :: (joinComponents (named names)).toList := by
  rw [ofNames, ofComponents, String.toList_append]
  rfl

theorem partsAre_ofNames {ok : List Char → Prop} (areNames : AreNames names) (some : names ≠ [])
    (good : ∀ n ∈ names, ok n.toList) : (ofNames names).PartsAre ok := by
  refine ⟨_, text_ofNames names, fun part member => ?_⟩
  rw [splitOn_joinComponents areNames some] at member
  obtain ⟨n, here, rfl⟩ := List.mem_map.mp member
  exact good n here

theorem ofNames_level (areNames : AreNames names) :
    (ofNames names).PartsAre (· ≠ ['.', '.']) := by
  by_cases none : names = []
  · subst none
    exact ⟨[], rfl, by decide⟩
  · exact partsAre_ofNames areNames none fun n here => (areNames n here).1.level

theorem bodyComponents_names (areNames : AreNames names) :
    bodyComponents (names.map String.toList) = named names := by
  induction names with
  | nil => rfl
  | cons n names ih =>
      have here := (areNames n (List.mem_cons_self ..)).1
      have kind : Component.ofPart n.toList = .name n := by
        unfold Component.ofPart
        rw [if_neg (by simpa using here.level), String.ofList_toList]
      have ih := ih fun m member => areNames m (List.mem_cons_of_mem _ member)
      rw [bodyComponents, List.map_cons, List.filter_cons_of_pos (by simp [here.counts]),
        List.map_cons, kind, ← bodyComponents, ih]
      rfl

theorem components_ofNames (areNames : AreNames names) :
    (ofNames names).components = .root :: named names := by
  rw [components_of_text (text_ofNames names)]
  by_cases none : names = []
  · subst none
    rfl
  · rw [splitOn_joinComponents areNames none, bodyComponents_names areNames]

/-! ## Normal paths -/

/-- Steps from a list of names lead to a list of names. -/
theorem climb_names {cs : List Component}
    (steps : ∀ c ∈ cs, c = .up ∨ ∃ n, c = .name n ∧ IsName n.toList ∧ '/' ∉ n.toList) :
    ∀ above : List String, AreNames above → ∃ above', AreNames above' ∧
      cs.foldl climb (named above ++ [.root]) = named above' ++ [.root] := by
  induction cs with
  | nil => exact fun above areNames => ⟨above, areNames, rfl⟩
  | cons c cs ih =>
      intro above areNames
      have others := fun c member => steps c (List.mem_cons_of_mem _ member)
      rcases steps c (List.mem_cons_self ..) with rfl | ⟨n, rfl, isName⟩
      · cases above with
        | nil => exact ih others [] areNames
        | cons m above => exact ih others above fun n member => areNames n (List.mem_cons_of_mem _ member)
      · refine ih others (n :: above) fun m member => ?_
        rcases List.mem_cons.mp member with rfl | member
        · exact isName
        · exact areNames m member

/-- Taking the components of a path from the top one after the other comes to these names. -/
def ComesTo (p : Path) (names : List String) : Prop :=
  p.components.foldl climb [] = named names.reverse ++ [.root]

theorem ComesTo.normalize (comes : p.ComesTo names) : p.normalize = ofNames names := by
  rw [Path.normalize, comes, List.reverse_append, ofNames, named, named, List.map_reverse,
    List.reverse_reverse]
  rfl

theorem comesTo_of_isAbsolute (absolute : p.isAbsolute = true) :
    ∃ names, AreNames names ∧ p.ComesTo names := by
  obtain ⟨s, text⟩ := isAbsolute_iff.mp absolute
  obtain ⟨above, areNames, climbed⟩ :=
    climb_names (components_body : ∀ c ∈ bodyComponents (splitOn '/' s), _) []
      fun _ member => nomatch member
  refine ⟨above.reverse, fun n member => areNames n (List.mem_reverse.mp member), ?_⟩
  rw [ComesTo, components_of_text text, List.foldl_cons, List.reverse_reverse]
  exact climbed

/-- A path from the top is normalized to a list of names. -/
theorem normalize_of_isAbsolute (absolute : p.isAbsolute = true) :
    ∃ names, AreNames names ∧ p.normalize = ofNames names := by
  obtain ⟨names, areNames, comes⟩ := comesTo_of_isAbsolute absolute
  exact ⟨names, areNames, comes.normalize⟩

theorem foldl_climb_named (names : List String) : ∀ above : List Component,
    (named names).foldl climb above = named names.reverse ++ above := by
  induction names with
  | nil => exact fun _ => rfl
  | cons n names ih =>
      intro above
      have step : climb above (.name n) = .name n :: above := by
        unfold climb
        split <;> first | rfl | contradiction
      change (named names).foldl climb (climb above (.name n)) = _
      rw [step, ih, List.reverse_cons, named, named, List.map_append, List.append_assoc]
      rfl

theorem comesTo_of_components (components : p.components = .root :: named names) : p.ComesTo names := by
  rw [ComesTo, components]
  exact foldl_climb_named names [.root]

/-- A path that does not climb is normalized to its own components. -/
theorem normalize_of_components (components : p.components = .root :: named names) :
    p.normalize = ofNames names :=
  (comesTo_of_components components).normalize

/-! ## Joins -/

theorem bodyComponents_append (first second : List (List Char)) :
    bodyComponents (first ++ second) = bodyComponents first ++ bodyComponents second := by
  rw [bodyComponents, List.filter_append, List.map_append]
  rfl

/-- A relative path adds its components. -/
theorem components_join (absolute : p.isAbsolute = true) {q : String}
    (relative : Path.isAbsolute ⟨q⟩ = false) :
    (p.join q).components = p.components ++ bodyComponents (splitOn '/' q.toList) := by
  obtain ⟨s, text⟩ := isAbsolute_iff.mp absolute
  have some : p.text.isEmpty = false := by
    rw [Bool.eq_false_iff]
    intro empty
    rw [String.isEmpty_iff.mp empty] at text
    exact absurd text (by simp)
  have behind : (Path.join p q).text.toList = '/' :: (s ++ '/' :: q.toList) ∨
      (∃ front, (s = [] ∧ front = [] ∨ s = front ++ ['/']) ∧
        (Path.join p q).text.toList = '/' :: (s ++ q.toList)) := by
    unfold Path.join
    rw [relative, some, Bool.or_self, if_neg Bool.false_ne_true]
    split
    case isFalse =>
      refine .inl ?_
      simp [text]
    case isTrue slash =>
      have joined : (p.text ++ q).toList = '/' :: (s ++ q.toList) := by simp [text]
      rw [text] at slash
      rcases List.eq_nil_or_concat s with rfl | ⟨front, c, rfl⟩
      · exact .inr ⟨[], .inl ⟨rfl, rfl⟩, joined⟩
      · rw [List.concat_eq_append, ← List.cons_append, List.getLast?_concat, beq_iff_eq] at slash
        cases Option.some.inj slash
        exact .inr ⟨front, .inr List.concat_eq_append, joined⟩
  rw [components_of_text text]
  rcases behind with apart | ⟨front, ends, apart⟩
  · rw [components_of_text apart, splitOn_append_sep, bodyComponents_append]
    rfl
  · rw [components_of_text apart]
    rcases ends with ⟨rfl, rfl⟩ | rfl
    · rfl
    · -- the slash at the end leaves an empty part, which does not count
      rw [List.append_assoc, List.singleton_append, splitOn_append_sep, splitOn_append_sep,
        bodyComponents_append, bodyComponents_append]
      have idle : bodyComponents (splitOn '/' []) = [] := rfl
      rw [idle, List.append_nil]
      rfl

theorem areNames_append {more : List String} (areNames : AreNames names) (others : AreNames more) :
    AreNames (names ++ more) := by
  intro n member
  rcases List.mem_append.mp member with member | member
  · exact areNames n member
  · exact others n member

theorem areNames_dropLast (areNames : AreNames names) : AreNames names.dropLast :=
  fun n member => areNames n ((List.dropLast_sublist _).mem member)

/-- What a path of names names from one is a path of the names of both. -/
theorem join_ofNames {more : List String} (areNames : AreNames names) (others : AreNames more)
    (some : more ≠ []) :
    (ofNames names).join (joinComponents (named more)) = ofNames (names ++ more) := by
  have relative : Path.isAbsolute ⟨joinComponents (named more)⟩ = false := by
    rw [Bool.eq_false_iff]
    intro absolute
    obtain ⟨s, text⟩ := isAbsolute_iff.mp absolute
    have parts := splitOn_joinComponents others some
    rw [text, splitOn_sep] at parts
    cases more with
    | nil => exact some rfl
    | cons n more =>
        have counts := (others n (List.mem_cons_self ..)).1.counts
        rw [← (List.cons.inj parts).1] at counts
        exact absurd counts (by decide)
  have text : ((ofNames names).join (joinComponents (named more))).text.toList =
      (ofNames (names ++ more)).text.toList := by
    have full : (ofNames names).text.isEmpty = false := by
      rw [Bool.eq_false_iff]
      intro empty
      have := text_ofNames names
      rw [String.isEmpty_iff.mp empty] at this
      exact nomatch this
    rw [text_ofNames, joinComponents_named, List.map_append]
    unfold Path.join
    rw [relative, full, Bool.or_self, if_neg Bool.false_ne_true, text_ofNames, joinComponents_named]
    by_cases none : names = []
    · subst none
      rw [if_pos (by rfl), String.toList_append, text_ofNames, joinComponents_named,
        joinComponents_named]
      rfl
    · have last : ('/' :: joinWith ['/'] (names.map String.toList)).getLast? ≠ .some '/' := by
        intro slash
        have parts := splitOn_joinComponents areNames none
        rw [joinComponents_named] at parts
        rcases List.eq_nil_or_concat (joinWith ['/'] (names.map String.toList)) with empty | ⟨front, c, ends⟩
        · exact joinComponents_ne_nil areNames none
            (String.toList_injective ((joinComponents_named names).trans empty))
        · rw [ends, List.concat_eq_append, ← List.cons_append, List.getLast?_concat] at slash
          cases Option.some.inj slash
          rw [ends, List.concat_eq_append, splitOn_append_sep] at parts
          have empty : [] ∈ names.map String.toList := by
            rw [← parts]
            exact List.mem_append_right _ (List.mem_singleton_self _)
          obtain ⟨n, member, none⟩ := List.mem_map.mp empty
          have counts := (areNames n member).1.counts
          rw [none] at counts
          exact absurd counts (by decide)
      rw [if_neg (by simpa using last), String.toList_append, String.toList_append, text_ofNames,
        joinComponents_named, joinComponents_named,
        joinWith_append _ (by simpa using none) (by simpa using some)]
      simp
  exact congrArg Path.mk (String.toList_injective text)

/-! ## Directories -/

theorem climb_up (above : List String) :
    climb (named above ++ [.root]) .up = named above.tail ++ [.root] := by
  cases above with
  | nil => rfl
  | cons n above => rfl

theorem dropIdleEnd_names (areNames : AreNames names) :
    dropIdleEnd (names.map String.toList) = names.map String.toList := by
  unfold dropIdleEnd
  rcases List.eq_nil_or_concat names with rfl | ⟨front, n, rfl⟩
  · rfl
  · have counts := (areNames n (by simp)).1.counts
    rw [List.concat_eq_append, List.map_append, List.reverse_append, List.map_singleton,
      List.reverse_singleton, List.singleton_append, List.dropWhile_cons, counts, if_neg Bool.false_ne_true,
      List.reverse_cons, List.reverse_reverse]

theorem parent?_ofNames (areNames : AreNames names) :
    (ofNames names).parent? = if names = [] then none else some (ofNames names.dropLast) := by
  unfold parent?
  rw [opening_of_text (text_ofNames names)]
  by_cases none : names = []
  · subst none
    rfl
  · have others := areNames_dropLast areNames
    have full : names.map String.toList ≠ [] := by simpa using none
    rw [if_neg none, splitOn_joinComponents areNames none]
    simp only
    rw [dropIdleEnd_names areNames]
    split
    case h_1 empty _ => exact absurd empty full
    case h_2 empty _ => exact absurd empty full
    case h_3 =>
      rw [← List.map_dropLast, dropIdleEnd_names others, ofParts, ofNames, ofComponents]
      refine congrArg Option.some (congrArg Path.mk (congrArg ("/" ++ ·) ?_))
      refine String.toList_injective ?_
      rw [String.toList_ofList, ← joinComponents_named]
      rfl

theorem parentDir_ofNames (areNames : AreNames names) :
    (ofNames names).parentDir = ofNames names.dropLast := by
  unfold parentDir
  rw [parent?_ofNames areNames]
  split
  case isTrue none =>
    subst none
    rfl
  case isFalse => rfl

/-- The directories above a path of names are paths of names in front. -/
theorem climbFrom_ofNames (fuel : Nat) : ∀ {names : List String}, AreNames names →
    ∀ q ∈ climbFrom fuel (ofNames names), ∃ front, front <+: names ∧ q = ofNames front := by
  induction fuel with
  | zero =>
      intro names areNames q member
      exact ⟨names, List.prefix_refl _, List.mem_singleton.mp member⟩
  | succ fuel ih =>
      intro names areNames q member
      unfold climbFrom at member
      rw [parent?_ofNames areNames] at member
      split at member
      case h_1 above isAbove =>
        split at isAbove
        · exact nomatch isAbove
        · cases isAbove
          rcases List.mem_cons.mp member with rfl | member
          · exact ⟨names, List.prefix_refl _, rfl⟩
          · obtain ⟨front, inFront, same⟩ := ih (areNames_dropLast areNames) q member
            exact ⟨front, inFront.trans (List.dropLast_prefix _), same⟩
      case h_2 => exact ⟨names, List.prefix_refl _, List.mem_singleton.mp member⟩

end JsxPreview.Path
