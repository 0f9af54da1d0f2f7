import JsxPreview.Proofs.Path.Names

/-! # The way from one path to another

The way from a directory to a path climbs out of the names that are the directory's alone and goes down
those that are the path's alone (`diff_eq`); followed from the directory, or from a path with the same
components, it leads to the path (`normalize_join_diff`).  The root of a project is found as such a way of
two climbs (`ComesTo.projectRoot`). -/
set_option autoImplicit false
namespace JsxPreview.Path

open JsxPreview.Text

variable {d p : Path} {names : List String}

theorem isAbsolute_ofNames (names : List String) : (ofNames names).isAbsolute = true :=
  isAbsolute_iff.mpr ⟨_, text_ofNames names⟩

theorem normalize_ofNames (areNames : AreNames names) :
    (ofNames names).normalize = ofNames names :=
  normalize_of_components (components_ofNames areNames)

/-! ## Texts of steps -/

/-- A climb, or a name. -/
def IsStep (c : Component) : Prop :=
  c = .up ∨ ∃ n, c = .name n ∧ IsName n.toList ∧ '/' ∉ n.toList

theorem isStep_named (areNames : AreNames names) : ∀ c ∈ named names, IsStep c := by
  intro c member
  obtain ⟨n, here, rfl⟩ := List.mem_map.mp member
  exact .inr ⟨n, rfl, areNames n here⟩

theorem isStep_climbs (climbs : Nat) (areNames : AreNames names) :
    ∀ c ∈ List.replicate climbs .up ++ named names, IsStep c := by
  intro c member
  rcases List.mem_append.mp member with member | member
  · exact .inl (List.eq_of_mem_replicate member)
  · exact isStep_named areNames c member

theorem IsStep.counts {c : Component} (step : IsStep c) : isIdle c.text.toList = false := by
  rcases step with rfl | ⟨n, rfl, isName, _⟩
  · decide
  · exact isName.counts

theorem IsStep.not_mem {c : Component} (step : IsStep c) : '/' ∉ c.text.toList := by
  rcases step with rfl | ⟨n, rfl, _, absent⟩
  · decide
  · exact absent

theorem IsStep.ofPart {c : Component} (step : IsStep c) : Component.ofPart c.text.toList = c := by
  rcases step with rfl | ⟨n, rfl, isName, _⟩
  · rfl
  · change (if (n.toList == ['.', '.']) = true then Component.up
      else .name (String.ofList n.toList)) = _
    rw [if_neg (by simpa using isName.level), String.ofList_toList]

theorem bodyComponents_steps {cs : List Component} (steps : ∀ c ∈ cs, IsStep c) :
    bodyComponents (cs.map (·.text.toList)) = cs := by
  induction cs with
  | nil => rfl
  | cons c cs ih =>
      have step := steps c (List.mem_cons_self ..)
      have later := ih fun c' member => steps c' (List.mem_cons_of_mem _ member)
      rw [bodyComponents, List.map_cons, List.filter_cons_of_pos (by simp [step.counts]),
        List.map_cons, step.ofPart, ← bodyComponents, later]

theorem splitOn_steps {cs : List Component} (steps : ∀ c ∈ cs, IsStep c) (some : cs ≠ []) :
    splitOn '/' (joinComponents cs).toList = cs.map (·.text.toList) := by
  have text : (joinComponents cs).toList = joinWith ['/'] (cs.map (·.text.toList)) := by
    rw [joinComponents, String.toList_intercalate, joinWith_eq, List.map_map]
    rfl
  rw [text]
  refine splitOn_joinWith (fun none => some (List.map_eq_nil_iff.mp none)) fun part member => ?_
  obtain ⟨c, here, rfl⟩ := List.mem_map.mp member
  exact (steps c here).not_mem

/-- The text of steps is read as these steps. -/
theorem bodyComponents_join {cs : List Component} (steps : ∀ c ∈ cs, IsStep c) :
    bodyComponents (splitOn '/' (joinComponents cs).toList) = cs := by
  by_cases none : cs = []
  · subst none
    rfl
  · rw [splitOn_steps steps none, bodyComponents_steps steps]

theorem isAbsolute_steps {cs : List Component} (steps : ∀ c ∈ cs, IsStep c) :
    Path.isAbsolute ⟨joinComponents cs⟩ = false := by
  rw [Bool.eq_false_iff]
  intro absolute
  obtain ⟨s, text⟩ := isAbsolute_iff.mp absolute
  cases cs with
  | nil => exact nomatch text
  | cons c cs =>
      have parts := splitOn_steps steps (List.cons_ne_nil _ _)
      rw [text, splitOn_sep, List.map_cons] at parts
      have counts := (steps c (List.mem_cons_self ..)).counts
      rw [← (List.cons.inj parts).1] at counts
      exact absurd counts (by decide)

/-! ## Following the way -/

/-- Two lists of names part behind what they start with in common. -/
theorem apart_named (names names' : List String) : ∃ front out rest,
    names = front ++ out ∧ names' = front ++ rest ∧
      apart (named names) (named names') = (named out, named rest) := by
  induction names generalizing names' with
  | nil => exact ⟨[], [], names', rfl, rfl, rfl⟩
  | cons n names ih =>
      cases names' with
      | nil => exact ⟨[], n :: names, [], rfl, rfl, rfl⟩
      | cons n' names' =>
          change ∃ front out rest, _ ∧ _ ∧
            (if Component.name n = .name n' then apart (named names) (named names')
              else (named (n :: names), named (n' :: names'))) = _
          by_cases same : n = n'
          · subst same
            obtain ⟨front, out, rest, here, there, both⟩ := ih names'
            rw [if_pos rfl]
            exact ⟨n :: front, out, rest, by rw [here]; rfl, by rw [there]; rfl, both⟩
          · rw [if_neg fun same' => same (Component.name.inj same')]
            exact ⟨[], n :: names, n' :: names', rfl, rfl, rfl⟩

theorem diff_eq {names' : List String} (areNames : AreNames names) (areNames' : AreNames names')
    (starts : d.ComesTo names) (ends : p.ComesTo names') : ∃ front out rest,
      names = front ++ out ∧ names' = front ++ rest ∧
        d.diff p = joinComponents (List.replicate out.length .up ++ named rest) := by
  obtain ⟨front, out, rest, here, there, both⟩ := apart_named names names'
  refine ⟨front, out, rest, here, there, ?_⟩
  have ways : apart (.root :: named names) (.root :: named names') = (named out, named rest) := both
  rw [diff, starts.normalize, ends.normalize, components_ofNames areNames,
    components_ofNames areNames', ways]
  simp only [List.map_const', named, List.length_map]

/-- Climbs take back as many names, as far as there are any, and names behind them are gone down. -/
theorem foldl_climb_steps (climbs : Nat) (rest : List String) : ∀ above : List String,
    (List.replicate climbs Component.up ++ named rest).foldl climb (named above ++ [.root]) =
      named (rest.reverse ++ above.drop climbs) ++ [.root] := by
  induction climbs with
  | zero =>
      intro above
      rw [List.replicate_zero, List.nil_append, foldl_climb_named, ← List.append_assoc, named, named,
        named, List.map_append]
      rfl
  | succ climbs ih =>
      intro above
      rw [List.replicate_succ, List.cons_append, List.foldl_cons, climb_up, ih, ← List.drop_one,
        List.drop_drop, Nat.add_comm]

/-- The steps of a relative path are taken behind the names that a path comes to. -/
theorem ComesTo.join (comes : d.ComesTo names) (absolute : d.isAbsolute = true) {q : String}
    (relative : Path.isAbsolute ⟨q⟩ = false) {more : List String}
    (leads : (bodyComponents (splitOn '/' q.toList)).foldl climb (named names.reverse ++ [.root]) =
      named more.reverse ++ [.root]) : (d.join q).ComesTo more := by
  rw [ComesTo, components_join absolute relative, List.foldl_append, comes, leads]

/-- The way from a directory to a path leads there, also from a path with the same components. -/
theorem normalize_join_diff {d' : Path} (absolute : d.isAbsolute = true)
    (absolute' : d'.isAbsolute = true) (same : d'.components = d.components)
    (placed : p.isAbsolute = true) :
    Path.isAbsolute ⟨d.diff p⟩ = false ∧ (d'.join (d.diff p)).normalize = p.normalize := by
  obtain ⟨names, areNames, starts⟩ := comesTo_of_isAbsolute absolute
  obtain ⟨names', areNames', ends⟩ := comesTo_of_isAbsolute placed
  obtain ⟨front, out, rest, here, there, way⟩ := diff_eq areNames areNames' starts ends
  have areRest : AreNames rest := by
    intro n member
    exact areNames' n (there ▸ List.mem_append_right _ member)
  have steps := isStep_climbs out.length areRest
  have relative : Path.isAbsolute ⟨d.diff p⟩ = false := way ▸ isAbsolute_steps steps
  have begins : d'.ComesTo names := by
    rw [ComesTo, same]
    exact starts
  have arrives : (d'.join (d.diff p)).ComesTo names' := by
    refine begins.join absolute' relative ?_
    rw [way, bodyComponents_join steps, foldl_climb_steps, here, there, List.reverse_append,
      List.reverse_append, List.drop_left' (List.length_reverse ..)]
  exact ⟨relative, by rw [arrives.normalize, ends.normalize]⟩

/-! ## Directories of files -/

theorem ComesTo.join_up (comes : p.ComesTo names) (absolute : p.isAbsolute = true) :
    (p.join "..").ComesTo names.dropLast := by
  refine comes.join absolute rfl ?_
  rw [← List.tail_reverse]
  exact climb_up names.reverse

/-- The root of a project is two names above its entry. -/
theorem ComesTo.projectRoot (comes : p.ComesTo names) (absolute : p.isAbsolute = true) :
    p.projectRoot = ofNames names.dropLast.dropLast :=
  ((comes.join_up absolute).join_up (isAbsolute_join absolute _)).normalize

theorem projectRoot_of_components (absolute : p.isAbsolute = true)
    (components : p.components = .root :: named names) :
    p.projectRoot = ofNames names.dropLast.dropLast :=
  (comesTo_of_components components).projectRoot absolute

theorem projectRoot_ofNames (areNames : AreNames names) :
    (ofNames names).projectRoot = ofNames names.dropLast.dropLast :=
  projectRoot_of_components (isAbsolute_ofNames names) (components_ofNames areNames)

theorem bodyComponents_idle {parts : List (List Char)} (idle : ∀ part ∈ parts, isIdle part = true) :
    bodyComponents parts = [] := by
  rw [bodyComponents, List.filter_eq_nil_iff.mpr fun part member => by simp [idle part member]]
  rfl

theorem bodyComponents_dropIdleEnd (parts : List (List Char)) :
    bodyComponents (dropIdleEnd parts) = bodyComponents parts := by
  have split : parts = dropIdleEnd parts ++ (parts.reverse.takeWhile isIdle).reverse := by
    rw [dropIdleEnd, ← List.reverse_append, List.takeWhile_append_dropWhile, List.reverse_reverse]
  have idle : bodyComponents (parts.reverse.takeWhile isIdle).reverse = [] :=
    bodyComponents_idle fun part member =>
      (List.all_eq_true.mp List.all_takeWhile) part (List.mem_reverse.mp member)
  calc bodyComponents (dropIdleEnd parts)
      = bodyComponents (dropIdleEnd parts) ++
          bodyComponents (parts.reverse.takeWhile isIdle).reverse := by rw [idle, List.append_nil]
    _ = bodyComponents parts := by rw [← bodyComponents_append, ← split]

theorem counts_of_dropIdleEnd {parts front : List (List Char)} {last : List Char}
    (ends : dropIdleEnd parts = front ++ [last]) : isIdle last = false := by
  have first : parts.reverse.dropWhile isIdle = last :: front.reverse := by
    rw [← List.reverse_reverse (parts.reverse.dropWhile isIdle), ← dropIdleEnd, ends,
      List.reverse_append]
    rfl
  have kept := List.head?_dropWhile_not isIdle parts.reverse
  rw [first] at kept
  exact kept

theorem components_ofParts {parts : List (List Char)} (absent : ∀ part ∈ parts, '/' ∉ part) :
    (ofParts (some "/") parts).components = .root :: bodyComponents parts := by
  have text : (ofParts (some "/") parts).text.toList = '/' :: joinWith ['/'] parts := by
    simp [ofParts]
  rw [components_of_text text]
  by_cases none : parts = []
  · subst none
    rfl
  · rw [splitOn_joinWith none absent]

/-- The directory of a path from the top has its components without the last. -/
theorem components_parentDir {cs : List Component} (absolute : p.isAbsolute = true)
    (components : p.components = .root :: cs) : p.parentDir.components = .root :: cs.dropLast := by
  obtain ⟨s, text⟩ := isAbsolute_iff.mp absolute
  have body : bodyComponents (dropIdleEnd (splitOn '/' s)) = cs := by
    rw [components_of_text text] at components
    rw [bodyComponents_dropIdleEnd]
    exact (List.cons.inj components).2
  unfold parentDir parent?
  rw [opening_of_text text]
  simp only
  split
  case h_1 => exact absurd ‹some "/" = some "."› (by decide)
  case h_2 none _ =>
    rw [none] at body
    rw [← body]
    exact components.trans (by rw [← body]; rfl)
  case h_3 some _ =>
    obtain ⟨front, last, ends⟩ : ∃ front last, dropIdleEnd (splitOn '/' s) = front ++ [last] :=
      ⟨_, _, (List.dropLast_concat_getLast fun none => some none).symm⟩
    have counted : bodyComponents [last] = [.ofPart last] := by
      rw [bodyComponents, List.filter_cons_of_pos (by simp [counts_of_dropIdleEnd ends])]
      rfl
    have absent : ∀ part ∈ dropIdleEnd front, '/' ∉ part := fun part member =>
      not_mem_splitOn part
        (mem_dropIdleEnd (ends ▸ List.mem_append_left _ (mem_dropIdleEnd member)))
    rw [ends, List.dropLast_concat, Option.getD_some, components_ofParts absent,
      bodyComponents_dropIdleEnd, ← body, ends, bodyComponents_append, counted, List.dropLast_concat]

theorem components_join_name {n : String} (absolute : p.isAbsolute = true) (isName : AreNames [n]) :
    (p.join n).components = p.components ++ [.name n] := by
  have alone : joinComponents (named [n]) = n := String.toList_injective (joinComponents_named [n])
  have steps := isStep_named isName
  have relative := isAbsolute_steps steps
  have body := bodyComponents_join steps
  rw [alone] at relative body
  rw [components_join absolute relative, body]
  rfl

/-- A file lies in the directory that its name is joined to. -/
theorem components_parentDir_join {n : String} (absolute : p.isAbsolute = true)
    (isName : AreNames [n]) : (p.join n).parentDir.components = p.components := by
  obtain ⟨s, text⟩ := isAbsolute_iff.mp absolute
  have joined := components_join_name absolute isName
  rw [components_of_text text, List.cons_append] at joined
  rw [components_parentDir (isAbsolute_join absolute n) joined, List.dropLast_concat,
    components_of_text text]

end JsxPreview.Path
