import JsxPreview.Files.Tree

/-! # What a write changes

A tree answers for every place on its own: putting a node in one place leaves all others, and so a
write gives one place its content, makes the directories above it, and leaves the rest
(`node?_write`).  A write that something stands in the way of changes nothing. -/
set_option autoImplicit false
namespace JsxPreview.Files

/-- Leaving out entries of other keys does not change what a key leads to. -/
theorem lookup_filter {α β : Type} [BEq α] [LawfulBEq α] {l : List (α × β)} {keep : α × β → Bool}
    {key : α} (kept : ∀ b, keep (key, b) = true) : (l.filter keep).lookup key = l.lookup key := by
  induction l with
  | nil => rfl
  | cons x l ih =>
      obtain ⟨other, b⟩ := x
      cases here : key == other with
      | true =>
          cases eq_of_beq here
          rw [List.filter_cons_of_pos (kept b), List.lookup_cons_self, List.lookup_cons_self]
      | false =>
          rw [List.filter_cons]
          split <;> simp only [List.lookup_cons, here, ih]

namespace Tree

variable {t : Tree}

theorem node?_of_ne {place : List String} (below : place ≠ []) :
    t.node? place = t.nodes.lookup place :=
  if_neg (by simpa using below)

theorem node?_put (t : Tree) (place q : List String) (n : Node) :
    (t.put place n).node? q = if q = place ∧ q ≠ [] then some n else t.node? q := by
  by_cases top : q = []
  · rw [if_neg fun here => here.2 top, top]
    rfl
  · rw [node?_of_ne top, node?_of_ne top]
    by_cases here : q = place
    · rw [if_pos ⟨here, top⟩, here]
      exact List.lookup_cons_self
    · rw [if_neg fun there => here there.1]
      have other : (q == place) = false := by simpa using here
      have kept : ∀ n' : Node, ((q, n').1 != place) = true := fun _ => by simpa using here
      simp only [put, List.lookup_cons, other]
      exact lookup_filter kept

theorem clock_put (t : Tree) (place : List String) (n : Node) :
    (t.put place n).clock = t.clock + 1 := rfl

/-- Makes directories in places. -/
def makeDirectories (t : Tree) (places : List (List String)) : Tree :=
  places.foldl (fun t dir => t.put dir .directory) t

theorem node?_makeDirectories (places : List (List String)) (q : List String) : ∀ t : Tree,
    (t.makeDirectories places).node? q =
      if q ∈ places ∧ q ≠ [] then some .directory else t.node? q := by
  induction places with
  | nil => exact fun _ => rfl
  | cons dir places ih =>
      intro t
      change ((t.put dir .directory).makeDirectories places).node? q = _
      rw [ih, node?_put]
      by_cases top : q = []
      · simp [top]
      · by_cases here : q = dir
        · subst here
          simp [top]
        · simp [here, top]

/-- The directories above a place that are not there yet. -/
def missing (t : Tree) (place : List String) : List (List String) :=
  (above place).filter fun dir => (t.node? dir).isNone

/-- The tree with a node in a place, and all directories above it. -/
def grow (t : Tree) (place : List String) (n : Node) : Tree :=
  (t.makeDirectories (t.missing place)).put place n

/-- Whether a node can be written in a place: no file stands above it, and nothing in it that it
cannot replace. -/
def Clear (t : Tree) (place : List String) (content : Content) : Prop :=
  (∀ dir ∈ above place, ∀ stamp text, t.node? dir ≠ some (.file stamp text)) ∧
    t.node? place ≠ some .directory ∧
    ∀ stamp text, t.node? place = some (.file stamp text) → content ≠ .directory

theorem write_cases (t : Tree) (p : Path) (content : Content) :
    t.write p content = t ∧ ¬ t.Clear (placeOf p) content ∨ t.Clear (placeOf p) content ∧
      t.write p content = t.grow (placeOf p) (content.node (t.clock + 1)) := by
  unfold write
  extract_lets place isBlocked isTaken
  by_cases stops : ((above place).any isBlocked || isTaken) = true
  · rw [if_pos stops]
    refine .inl ⟨rfl, ?_⟩
    rintro ⟨above, here, replaces⟩
    rcases Bool.or_eq_true_iff.mp stops with blocked | taken
    · obtain ⟨dir, member, file⟩ := List.any_eq_true.mp blocked
      simp only [isBlocked] at file
      split at file
      case h_1 there => exact above dir member _ _ there
      case h_2 => exact absurd file (by simp)
    · simp only [isTaken] at taken
      split at taken
      case h_1 there => exact here there
      case h_2 there => exact replaces _ _ there rfl
      case h_3 => exact absurd taken (by simp)
  · rw [if_neg stops]
    obtain ⟨open_, free⟩ := not_or.mp fun stops' => stops (Bool.or_eq_true_iff.mpr stops')
    refine .inr ⟨⟨?_, ?_, ?_⟩, rfl⟩
    · intro dir member stamp text file
      refine open_ (List.any_eq_true.mpr ⟨dir, member, ?_⟩)
      simp only [isBlocked, file]
    · intro directory
      refine free ?_
      simp only [isTaken, place, directory]
    · rintro stamp text file rfl
      refine free ?_
      simp only [isTaken, place, file]

theorem node?_grow (t : Tree) (place q : List String) (n : Node) :
    (t.grow place n).node? q =
      if q = place ∧ q ≠ [] then some n
      else if q ∈ t.missing place ∧ q ≠ [] then some .directory
      else t.node? q := by
  rw [grow, node?_put, node?_makeDirectories]

/-! ## Places above -/

theorem mem_above {place q : List String} :
    q ∈ above place ↔ q ≠ [] ∧ ∃ rest, rest ≠ [] ∧ place = q ++ rest := by
  have range : (List.range place.length).tail = List.range' 1 (place.length - 1) := by
    rw [List.range_eq_range', List.tail_range']
  unfold above
  rw [range, List.mem_map]
  constructor
  · rintro ⟨k, member, rfl⟩
    rw [List.mem_range'_1] at member
    refine ⟨fun none => ?_, place.drop k, fun none => ?_, (List.take_append_drop k place).symm⟩
    · have := congrArg List.length none
      rw [List.length_take, List.length_nil] at this
      omega
    · have := congrArg List.length none
      rw [List.length_drop, List.length_nil] at this
      omega
  · rintro ⟨some, rest, more, rfl⟩
    refine ⟨q.length, List.mem_range'_1.mpr ⟨List.length_pos_iff.mpr some, ?_⟩, by simp⟩
    have := List.length_pos_iff.mpr more
    rw [List.length_append]
    omega

theorem mem_missing {place q : List String} :
    q ∈ t.missing place ↔ q ∈ above place ∧ t.node? q = none := by
  rw [missing, List.mem_filter, Option.isNone_iff_eq_none]

/-- Above a place that is clear, a write leaves directories alone. -/
theorem node?_grow_above {place q : List String} {content : Content} {n : Node}
    (clear : t.Clear place content) (isAbove : q ∈ above place) :
    (t.grow place n).node? q = some .directory := by
  obtain ⟨below, rest, more, split⟩ := mem_above.mp isAbove
  have other : q ≠ place := by
    rintro rfl
    exact more (List.self_eq_append_right.mp split)
  rw [node?_grow, if_neg fun here => other here.1]
  cases found : t.node? q with
  | none => rw [if_pos ⟨mem_missing.mpr ⟨isAbove, found⟩, below⟩]
  | some n =>
      rw [if_neg fun here => absurd (mem_missing.mp here.1).2 (by simp [found])]
      cases n with
      | directory => rfl
      | file stamp text => exact absurd found (clear.1 q isAbove stamp text)

theorem clock_makeDirectories (places : List (List String)) : ∀ t : Tree,
    (t.makeDirectories places).clock = t.clock + places.length := by
  induction places with
  | nil => exact fun _ => rfl
  | cons dir places ih =>
      intro t
      change ((t.put dir .directory).makeDirectories places).clock = _
      rw [ih, clock_put, List.length_cons]
      omega

theorem clock_grow (t : Tree) (place : List String) (n : Node) : t.clock < (t.grow place n).clock := by
  rw [grow, clock_put, clock_makeDirectories]
  omega

/-- What is left after a removal was there before. -/
theorem node?_of_remove {p : Path} {q : List String} {n : Node}
    (found : (t.remove p).node? q = some n) : t.node? q = some n := by
  by_cases top : q = []
  · subst top
    exact found
  · rw [node?_of_ne top] at found ⊢
    simp only [remove] at found
    obtain ⟨front, back, split, _⟩ := List.lookup_eq_some_iff.mp found
    have kept : (q, n) ∈ t.nodes.filter fun e => !(placeOf p).isPrefixOf e.1 := by
      rw [split]
      exact List.mem_append_right _ (List.mem_cons_self ..)
    have outside : (!(placeOf p).isPrefixOf q) = true := (List.mem_filter.mp kept).2
    have same : (t.nodes.filter fun e => !(placeOf p).isPrefixOf e.1).lookup q = t.nodes.lookup q :=
      lookup_filter fun _ => outside
    exact same.symm.trans found

/-! ## What stays -/

/-- Away from the place that is written, no file comes or goes. -/
theorem file_grow {place q : List String} {n : Node} (apart : q ≠ place) (stamp : Stamp)
    (text : Option String) : (t.grow place n).node? q = some (.file stamp text) ↔
      t.node? q = some (.file stamp text) := by
  rw [node?_grow, if_neg fun here => apart here.1]
  split
  case isTrue here =>
    rw [(mem_missing.mp here.1).2]
    simp
  case isFalse => exact Iff.rfl

theorem directory_write {p : Path} {content : Content} {q : List String}
    (found : t.node? q = some .directory) : (t.write p content).node? q = some .directory := by
  rcases t.write_cases p content with ⟨same, _⟩ | ⟨clear, grown⟩
  · rw [same]
    exact found
  · have other : q ≠ placeOf p := by
      rintro rfl
      exact clear.2.1 found
    rw [grown, node?_grow, if_neg fun here => other here.1]
    split
    · rfl
    · exact found

/-- A file stays a file. -/
theorem file_write {p : Path} {s : String} {q : List String} {stamp : Stamp} {text : Option String}
    (found : t.node? q = some (.file stamp text)) :
    ∃ stamp' text', (t.write p (.text s)).node? q = some (.file stamp' text') := by
  rcases t.write_cases p (.text s) with ⟨same, _⟩ | ⟨clear, grown⟩
  · rw [same]
    exact ⟨stamp, text, found⟩
  · by_cases here : q = placeOf p
    · have below : q ≠ [] := by
        rintro rfl
        exact nomatch found
      rw [grown, node?_grow, if_pos ⟨here, below⟩]
      exact ⟨_, _, rfl⟩
    · rw [grown]
      exact ⟨stamp, text, (file_grow here stamp text).mpr found⟩

/-- A write makes no directory but those above its place. -/
theorem directory_of_write {p : Path} {s : String} {q : List String}
    (found : (t.write p (.text s)).node? q = some .directory) :
    t.node? q = some .directory ∨ q ∈ above (placeOf p) := by
  rcases t.write_cases p (.text s) with ⟨same, _⟩ | ⟨_, grown⟩
  · rw [same] at found
    exact .inl found
  · rw [grown, node?_grow] at found
    split at found
    · exact nomatch found
    · split at found
      case isTrue here => exact .inr (mem_missing.mp here.1).1
      case isFalse => exact .inl found

end Tree

end JsxPreview.Files
