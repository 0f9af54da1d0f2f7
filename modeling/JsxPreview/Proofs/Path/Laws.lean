import JsxPreview.Proofs.Path.Diff
import JsxPreview.Proofs.Path.Relative
import Mathlib.Data.List.Infix

/-! # Laws of paths

Parts of a path take names back, their own before those of what is in front of them; how many of the
latter is `lost` in `foldl_climb`.  A relative path that is normalized alone has nothing in front and
keeps a climb, but takes a kept one back at the next: of the climbs out of its start an odd one is left.
So it keeps its meaning exactly when it climbs out of its start once at most
(`normalize_join_normalize_iff`).

A path from the top comes to a list of names, and what is asked of such paths is asked of these lists:
normal paths are the lists themselves, the place below a root is what a list goes on with
(`relativeTo_eq_some_iff`), and directories are lists without their last name (`absolute_laws`). -/
set_option autoImplicit false
namespace JsxPreview.Path

open JsxPreview.Text

variable {p : Path} {names : List String}

/-! ## Parts -/

theorem bodyComponents_cons_idle {part : List Char} (idle : isIdle part = true)
    (parts : List (List Char)) : bodyComponents (part :: parts) = bodyComponents parts := by
  rw [bodyComponents, List.filter_cons_of_neg (by simp [idle])]
  rfl

theorem bodyComponents_cons_up (parts : List (List Char)) :
    bodyComponents (['.', '.'] :: parts) = .up :: bodyComponents parts := rfl

theorem bodyComponents_cons_name {part : List Char} (isName : IsName part) (parts : List (List Char)) :
    bodyComponents (part :: parts) = .name (String.ofList part) :: bodyComponents parts := by
  have kind : Component.ofPart part = .name (String.ofList part) :=
    if_neg (by simpa using isName.level)
  rw [bodyComponents, List.filter_cons_of_pos (by simp [isName.counts]), List.map_cons, kind]
  rfl

/-! ## Levels -/

/-- Whether parts, taken behind this many names, climb above none of what is in front of these. -/
def Level (height : Nat) (parts : List (List Char)) : Prop :=
  ∀ front, front <+: parts →
    front.count ['.', '.'] ≤ height + front.countP fun part => decide (IsName part)

instance (height : Nat) (parts : List (List Char)) : Decidable (Level height parts) :=
  decidable_of_iff (∀ front ∈ parts.inits,
      front.count ['.', '.'] ≤ height + front.countP fun part => decide (IsName part)) <| by
    simp only [List.mem_inits, Level]

theorem level_nil (height : Nat) : Level height [] := by
  intro front isFront
  rw [List.prefix_nil.mp isFront]
  exact Nat.zero_le _

theorem level_cons {height : Nat} {part : List Char} {parts : List (List Char)} :
    Level height (part :: parts) ↔ ∀ front, front <+: parts →
      (part :: front).count ['.', '.'] ≤
        height + (part :: front).countP fun part => decide (IsName part) := by
  constructor
  · exact fun level front isFront => level (part :: front) (List.cons_prefix_cons.mpr ⟨rfl, isFront⟩)
  · intro level front isFront
    rcases List.prefix_cons_iff.mp isFront with rfl | ⟨behind, rfl, isBehind⟩
    · exact Nat.zero_le _
    · exact level behind isBehind

theorem level_cons_idle {height : Nat} {part : List Char} (idle : isIdle part = true)
    (parts : List (List Char)) : Level height (part :: parts) ↔ Level height parts := by
  have noUp : part ≠ ['.', '.'] := by
    rintro rfl
    exact absurd idle (by decide)
  have noName : ¬ IsName part := fun isName => by simp [isName.counts] at idle
  rw [level_cons]
  simp [Level, noUp, noName]

theorem level_cons_up (height : Nat) (parts : List (List Char)) :
    Level (height + 1) (['.', '.'] :: parts) ↔ Level height parts := by
  have noName : ¬ IsName ['.', '.'] := fun isName => isName.level rfl
  rw [level_cons]
  simp only [Level, List.count_cons_self, List.countP_cons, noName, decide_false,
    Bool.false_eq_true, if_false]
  exact forall₂_congr fun front _ => by omega

theorem not_level_cons_up (parts : List (List Char)) : ¬ Level 0 (['.', '.'] :: parts) := by
  intro level
  have first := level [['.', '.']] (List.cons_prefix_cons.mpr ⟨rfl, List.nil_prefix⟩)
  exact absurd first (by decide)

theorem level_cons_name {height : Nat} {part : List Char} (isName : IsName part)
    (parts : List (List Char)) : Level height (part :: parts) ↔ Level (height + 1) parts := by
  rw [level_cons]
  simp only [Level, List.count_cons_of_ne (Ne.symm isName.level).symm, List.countP_cons, isName,
    decide_true, if_true]
  exact forall₂_congr fun front _ => by omega

/-! ## Where parts lead -/

/-- What parts lead to: the names that are left of their own, and behind as many of the names in front as
they climb out of.  From the top they lead to their own names alone; with nothing in front every second
of these climbs is kept, and taken back at the next. -/
theorem foldl_climb (parts : List (List Char)) : ∀ inner : List String, ∃ inner' lost,
    parts.foldl takePart (inner.map String.toList) = inner'.map String.toList ∧
      (∀ above, (bodyComponents parts).foldl climb (named (inner ++ above) ++ [.root]) =
        named (inner' ++ above.drop lost) ++ [.root]) ∧
      (∀ kept < 2, (bodyComponents parts).foldl climb (named inner ++ List.replicate kept .up) =
        named inner' ++ List.replicate ((kept + lost) % 2) .up) ∧
      ∀ height, lost ≤ height ↔ Level (inner.length + height) parts := by
  induction parts with
  | nil =>
      intro inner
      refine ⟨inner, 0, rfl, fun _ => rfl, fun kept few => ?_, fun height => ?_⟩
      · rw [Nat.add_zero, Nat.mod_eq_of_lt few]
        rfl
      · exact iff_of_true (Nat.zero_le _) (level_nil _)
  | cons part parts ih =>
      intro inner
      rcases part_cases part with idle | rfl | isName
      · obtain ⟨inner', lost, taken, climbed, alone, level⟩ := ih inner
        refine ⟨inner', lost, ?_, ?_, ?_, fun height => ?_⟩
        · rwa [List.foldl_cons, takePart_idle idle]
        · rwa [bodyComponents_cons_idle idle]
        · rwa [bodyComponents_cons_idle idle]
        · rw [level, level_cons_idle idle]
      · cases inner with
        | nil =>
            obtain ⟨inner', lost, taken, climbed, alone, level⟩ := ih []
            refine ⟨inner', lost + 1, ?_, fun above => ?_, fun kept few => ?_, fun height => ?_⟩
            · rwa [List.foldl_cons, takePart_up]
            · rw [bodyComponents_cons_up, List.foldl_cons]
              cases above with
              | nil => exact (climbed []).trans (by rw [List.drop_nil, List.drop_nil])
              | cons n above => exact climbed above
            · -- a climb with nothing in front is kept, and one behind a kept climb takes this back
              have step : climb (List.replicate kept .up) .up = List.replicate (1 - kept) .up := by
                obtain rfl | rfl : kept = 0 ∨ kept = 1 := by omega
                · rfl
                · rfl
              have turns : (1 - kept + lost) % 2 = (kept + (lost + 1)) % 2 := by omega
              rw [bodyComponents_cons_up, List.foldl_cons, ← turns, ← alone (1 - kept) (by omega)]
              exact congrArg (List.foldl climb · _) step
            · cases height with
              | zero => exact iff_of_false (Nat.not_succ_le_zero lost) (not_level_cons_up parts)
              | succ height =>
                  rw [Nat.add_le_add_iff_right, level, ← Nat.add_assoc, level_cons_up]
        | cons n inner =>
            obtain ⟨inner', lost, taken, climbed, alone, level⟩ := ih inner
            refine ⟨inner', lost, ?_, fun above => ?_, fun kept few => ?_, fun height => ?_⟩
            · rwa [List.foldl_cons, takePart_up]
            · rw [bodyComponents_cons_up, List.foldl_cons]
              exact climbed above
            · rw [bodyComponents_cons_up, List.foldl_cons]
              exact alone kept few
            · rw [level, List.length_cons, Nat.add_right_comm, level_cons_up]
      · obtain ⟨inner', lost, taken, climbed, alone, level⟩ := ih (String.ofList part :: inner)
        have step (below : List Component) : climb below (.name (String.ofList part)) =
            named [String.ofList part] ++ below :=
          foldl_climb_named [String.ofList part] below
        refine ⟨inner', lost, ?_, fun above => ?_, fun kept few => ?_, fun height => ?_⟩
        · rw [List.foldl_cons, takePart_name isName]
          rwa [List.map_cons, String.toList_ofList] at taken
        · rw [bodyComponents_cons_name isName, List.foldl_cons, step]
          exact climbed above
        · rw [bodyComponents_cons_name isName, List.foldl_cons, step]
          exact alone kept few
        · rw [level, List.length_cons, level_cons_name isName, Nat.add_right_comm]

/-! ## Relative paths -/

theorem ofComponents_steps {cs : List Component} (steps : ∀ c ∈ cs, IsStep c) :
    ofComponents cs = ⟨joinComponents cs⟩ := by
  cases cs with
  | nil => rfl
  | cons c cs =>
      rcases steps c (List.mem_cons_self ..) with rfl | ⟨n, rfl, _⟩
      · rfl
      · rfl

/-- A path that is written as steps has these components. -/
theorem components_steps {cs : List Component} (steps : ∀ c ∈ cs, IsStep c) :
    (Path.mk (joinComponents cs)).components = cs := by
  have start : ((Path.mk (joinComponents cs)).parts.head? == some ['.']) = false := by
    rw [beq_eq_false_iff_ne, parts]
    cases cs with
    | nil => decide
    | cons c cs =>
        rw [splitOn_steps steps (List.cons_ne_nil _ _), List.map_cons, List.head?_cons]
        intro dot
        have counts := (steps c (List.mem_cons_self ..)).counts
        rw [Option.some.inj dot] at counts
        exact absurd counts (by decide)
  rw [components, isAbsolute_steps steps, start]
  exact bodyComponents_join steps

/-- A single dot at the start leads nowhere. -/
theorem foldl_climb_relative (relative : p.isAbsolute = false) :
    p.components.foldl climb [] = (bodyComponents p.parts).foldl climb [] := by
  rw [components, relative, if_neg Bool.false_ne_true]
  split
  · rfl
  · rfl

/-- A relative path climbs so many times out of where it starts, and goes down these names.  Normalized alone
it keeps a climb when there is an odd number of them. -/
structure Goes (p : Path) (climbs : Nat) (names : List String) : Prop where
  relative : p.isAbsolute = false
  areNames : AreNames names
  normal : p.normalize = ⟨joinComponents (List.replicate (climbs % 2) .up ++ named names)⟩
  leads : ∀ above, (bodyComponents p.parts).foldl climb (named above ++ [.root]) =
    named (names.reverse ++ above.drop climbs) ++ [.root]
  level : ∀ height, climbs ≤ height ↔ Level height p.parts

theorem goes_of_relative (relative : p.isAbsolute = false) : ∃ climbs names, p.Goes climbs names := by
  obtain ⟨inner, climbs, -, climbed, alone, level⟩ := foldl_climb p.parts []
  have areNames : AreNames inner := by
    obtain ⟨above, areNames, ends⟩ := climb_names (components_body : ∀ c ∈ bodyComponents p.parts, _) []
      fun _ member => absurd member List.not_mem_nil
    have same := (climbed []).symm.trans ends
    rw [List.drop_nil, List.append_nil, List.append_cancel_right_eq] at same
    rwa [(List.map_inj_right fun _ _ => Component.name.inj).mp same]
  have areReversed : AreNames inner.reverse := fun n member => areNames n (List.mem_reverse.mp member)
  have ends : p.components.foldl climb [] = named inner ++ List.replicate (climbs % 2) .up := by
    have alone := alone 0 (by decide)
    rw [Nat.zero_add] at alone
    rw [foldl_climb_relative relative, ← alone]
    rfl
  refine ⟨climbs, inner.reverse, relative, areReversed, ?_, fun above => ?_, fun height => ?_⟩
  · rw [normalize, ends, List.reverse_append, List.reverse_replicate, named, ← List.map_reverse, ← named]
    exact ofComponents_steps (isStep_climbs _ areReversed)
  · rw [List.reverse_reverse]
    exact climbed above
  · rw [level, List.length_nil, Nat.zero_add]

/-- How many names a path from the top comes to. -/
def depth (p : Path) : Nat := p.normalize.components.countP (· ≠ .root)

theorem ComesTo.depth (comes : p.ComesTo names) (areNames : AreNames names) :
    p.depth = names.length := by
  have counted : (named names).countP (· ≠ .root) = (named names).length := by
    rw [List.countP_eq_length]
    intro c member
    obtain ⟨n, -, rfl⟩ := List.mem_map.mp member
    rfl
  rw [Path.depth, comes.normalize, components_ofNames areNames]
  exact counted.trans (List.length_map _)

namespace Goes

variable {climbs : Nat} {d : Path} {above : List String}

theorem components_normalize (goes : p.Goes climbs names) :
    p.normalize.components = List.replicate (climbs % 2) .up ++ named names := by
  rw [goes.normal, components_steps (isStep_climbs _ goes.areNames)]

/-- From a directory a path takes back a name for each of its climbs. -/
theorem join (goes : p.Goes climbs names) (comes : d.ComesTo above) (absolute : d.isAbsolute = true) :
    (d.join p.text).ComesTo (above.take (above.length - climbs) ++ names) := by
  refine comes.join absolute goes.relative ((goes.leads _).trans ?_)
  rw [List.reverse_append, List.drop_reverse]

/-- From a directory the normal path takes back one name at most. -/
theorem join_normalize (goes : p.Goes climbs names) (comes : d.ComesTo above)
    (absolute : d.isAbsolute = true) :
    (d.join p.normalize.text).ComesTo (above.take (above.length - climbs % 2) ++ names) := by
  have steps := isStep_climbs (climbs % 2) goes.areNames
  rw [goes.normal]
  refine comes.join absolute (isAbsolute_steps steps) ?_
  rw [bodyComponents_join steps, foldl_climb_steps, List.reverse_append, List.drop_reverse]

/-- A directory that is just deep enough shows how often a path climbs. -/
theorem join_normalize_iff (goes : p.Goes climbs names) :
    (∀ d : Path, d.isAbsolute = true → Level d.depth p.parts →
      (d.join p.normalize.text).normalize = (d.join p.text).normalize) ↔ climbs ≤ 1 := by
  constructor
  · intro agree
    let above := List.replicate climbs "a"
    have areAbove : AreNames above := by
      intro n member
      rw [List.eq_of_mem_replicate member]
      decide
    have length : above.length = climbs := List.length_replicate
    have comes := comesTo_of_components (components_ofNames areAbove)
    have absolute := isAbsolute_ofNames above
    have deep : Level (ofNames above).depth p.parts := by
      rw [comes.depth areAbove, length, ← goes.level]
    have same := agree (ofNames above) absolute deep
    rw [(goes.join_normalize comes absolute).normalize, (goes.join comes absolute).normalize] at same
    have taken (count : Nat) : AreNames (above.take count ++ names) :=
      areNames_append (fun n member => areAbove n (List.mem_of_mem_take member)) goes.areNames
    have lengths := congrArg List.length (ofNames_injective (taken _) (taken _) same)
    rw [List.length_append, List.length_append, List.length_take, List.length_take, length] at lengths
    omega
  · intro once d absolute _
    obtain ⟨above, -, comes⟩ := comesTo_of_isAbsolute absolute
    rw [(goes.join_normalize comes absolute).normalize, (goes.join comes absolute).normalize,
      Nat.mod_eq_of_lt (Nat.lt_succ_of_le once)]

end Goes

/-- A relative path is normalized to climbs in front of names.  For every directory that is deep enough
for the path, the normal path leads to the same place, exactly when the path never climbs more than once
out of where it starts. -/
theorem normalize_join_normalize_iff (relative : p.isAbsolute = false) :
    (∃ climbs names, AreNames names ∧
      p.normalize.components = List.replicate climbs .up ++ named names) ∧
    ((∀ d : Path, d.isAbsolute = true → Level d.depth p.parts →
      (d.join p.normalize.text).normalize = (d.join p.text).normalize) ↔ Level 1 p.parts) := by
  obtain ⟨climbs, names, goes⟩ := goes_of_relative relative
  constructor
  · exact ⟨climbs % 2, names, goes.areNames, goes.components_normalize⟩
  · rw [goes.join_normalize_iff, goes.level]

/-- Names, dots and one climb out of the start. -/
theorem normalize_join_normalize_once : (Path.mk "./a/../../b//./c/../d").isAbsolute = false ∧
    (Path.mk "./a/../../b//./c/../d").normalize = ⟨"../b/d"⟩ ∧
      (Path.join ⟨"/work/x/../app"⟩ "../b/d").normalize =
        (Path.join ⟨"/work/x/../app"⟩ "./a/../../b//./c/../d").normalize := by
  have normal : (Path.mk "./a/../../b//./c/../d").normalize = ⟨"../b/d"⟩ := by decide
  have kept := (@normalize_join_normalize_iff ⟨"./a/../../b//./c/../d"⟩ (by decide)).2.mpr (by decide)
    ⟨"/work/x/../app"⟩ (by decide) (by decide)
  rw [normal] at kept
  exact ⟨by decide, normal, kept⟩

/-- The second climb takes the first one back, and nothing is left. -/
theorem normalize_join_normalize_twice : (Path.mk "../..").isAbsolute = false ∧
    Level (depth ⟨"/work/app"⟩) (parts ⟨"../.."⟩) ∧
      (Path.join ⟨"/work/app"⟩ (Path.mk "../..").normalize.text).normalize = ⟨"/work/app"⟩ ∧
      (Path.join ⟨"/work/app"⟩ "../..").normalize = ⟨"/"⟩ := by
  decide

/-! ## Paths from the top -/

variable {root : Path} {start : List String}

/-- The parts of a normal path are names, but for an empty one in front and at the top one behind. -/
theorem mem_parts_ofNames {part : List Char} (areNames : AreNames names)
    (member : part ∈ (ofNames names).parts) : part = [] ∨ IsName part := by
  rw [parts_of_text (text_ofNames names), List.mem_cons] at member
  rcases member with rfl | member
  · exact .inl rfl
  · by_cases none : names = []
    · subst none
      exact .inl (List.mem_singleton.mp member)
    · rw [splitOn_joinComponents areNames none] at member
      obtain ⟨n, inside, rfl⟩ := List.mem_map.mp member
      exact .inr (areNames n inside).1

/-- A place lies below a root when its names go on where those of the root end. -/
theorem relativeTo_eq_some_iff {place : String} (areStart : AreNames start) (areNames : AreNames names)
    (starts : root.ComesTo start) (ends : p.ComesTo names) : root.relativeTo p = some place ↔
      ∃ names', names = start ++ names' ∧ place = joinComponents (named names') := by
  rw [relativeTo_eq areStart areNames starts.normalize ends.normalize, Option.map_eq_some_iff]
  constructor
  · rintro ⟨rest, below, rfl⟩
    obtain ⟨names', same, rfl⟩ := below?_named.mp below
    exact ⟨names', same, rfl⟩
  · rintro ⟨names', same, rfl⟩
    exact ⟨named names', below?_named.mpr ⟨names', same, rfl⟩, rfl⟩

/-- The place of a path below a root leads from the root to the path. -/
theorem ComesTo.join_named (starts : root.ComesTo start) (absolute : root.isAbsolute = true)
    (areNames : AreNames names) :
    (root.join (joinComponents (named names))).ComesTo (start ++ names) := by
  have steps := isStep_named areNames
  refine starts.join absolute (isAbsolute_steps steps) ?_
  rw [bodyComponents_join steps, List.reverse_append]
  exact foldl_climb_steps 0 names start.reverse

theorem normalize_normalize (absolute : p.isAbsolute = true) : p.normalize.normalize = p.normalize := by
  obtain ⟨names, areNames, ends⟩ := normalize_of_isAbsolute absolute
  rw [ends, normalize_ofNames areNames]

theorem components_normalize (areNames : AreNames names) (ends : p.ComesTo names) :
    p.normalize.components = .root :: named names := by
  rw [ends.normalize, components_ofNames areNames]

theorem mem_components_normalize (absolute : p.isAbsolute = true) {c : Component}
    (member : c ∈ p.normalize.components) : c ≠ .here ∧ c ≠ .up := by
  obtain ⟨names, areNames, ends⟩ := comesTo_of_isAbsolute absolute
  rw [components_normalize areNames ends, List.mem_cons] at member
  rcases member with rfl | member
  · exact ⟨nofun, nofun⟩
  · obtain ⟨n, -, rfl⟩ := List.mem_map.mp member
    exact ⟨nofun, nofun⟩

theorem mem_parts_normalize (absolute : p.isAbsolute = true) {part : List Char}
    (member : part ∈ p.normalize.parts) : part ≠ ['.'] ∧ part ≠ ['.', '.'] := by
  obtain ⟨names, areNames, ends⟩ := normalize_of_isAbsolute absolute
  rw [ends] at member
  rcases mem_parts_ofNames areNames member with rfl | isName
  · exact ⟨nofun, nofun⟩
  · refine ⟨?_, isName.level⟩
    rintro rfl
    exact absurd isName.counts (by decide)

theorem exists_relativeTo_iff (fromTop : root.isAbsolute = true) (absolute : p.isAbsolute = true) :
    (∃ place, root.relativeTo p = some place) ↔
      root.normalize.components <+: p.normalize.components := by
  obtain ⟨names, areNames, ends⟩ := comesTo_of_isAbsolute absolute
  obtain ⟨start, areStart, starts⟩ := comesTo_of_isAbsolute fromTop
  rw [components_normalize areNames ends, components_normalize areStart starts, List.cons_prefix_cons,
    and_iff_right rfl]
  constructor
  · rintro ⟨place, below⟩
    obtain ⟨names', rfl, -⟩ := (relativeTo_eq_some_iff areStart areNames starts ends).mp below
    rw [named, named, List.map_append]
    exact List.prefix_append _ _
  · rintro ⟨rest, whole⟩
    obtain ⟨names', same, -⟩ := below?_named.mp (below?_eq_some.mpr whole.symm)
    exact ⟨_, (relativeTo_eq_some_iff areStart areNames starts ends).mpr ⟨names', same, rfl⟩⟩

theorem normalize_join_relativeTo (fromTop : root.isAbsolute = true) (absolute : p.isAbsolute = true)
    {place : String} (below : root.relativeTo p = some place) :
    (root.join place).normalize = p.normalize := by
  obtain ⟨names, areNames, ends⟩ := comesTo_of_isAbsolute absolute
  obtain ⟨start, areStart, starts⟩ := comesTo_of_isAbsolute fromTop
  obtain ⟨names', rfl, rfl⟩ := (relativeTo_eq_some_iff areStart areNames starts ends).mp below
  have areBehind : AreNames names' := fun n member => areNames n (List.mem_append_right _ member)
  rw [(starts.join_named fromTop areBehind).normalize, ends.normalize]

theorem projectRoot_eq_parentDir (absolute : p.isAbsolute = true) :
    p.projectRoot = p.normalize.parentDir.parentDir.normalize := by
  obtain ⟨names, areNames, ends⟩ := comesTo_of_isAbsolute absolute
  have areFront := areNames_dropLast areNames
  rw [ends.projectRoot absolute, ends.normalize, parentDir_ofNames areNames, parentDir_ofNames areFront,
    normalize_ofNames (areNames_dropLast areFront)]

theorem components_projectRoot (absolute : p.isAbsolute = true) :
    p.projectRoot.components = .root :: (p.normalize.components.drop 1).dropLast.dropLast := by
  obtain ⟨names, areNames, ends⟩ := comesTo_of_isAbsolute absolute
  have areFirst := areNames_dropLast (areNames_dropLast areNames)
  rw [ends.projectRoot absolute, components_ofNames areFirst, components_normalize areNames ends, named,
    named, List.map_dropLast, List.map_dropLast]
  rfl

end JsxPreview.Path
