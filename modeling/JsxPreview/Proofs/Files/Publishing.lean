import JsxPreview.Files.Overrides
import JsxPreview.Proofs.Files.Places
import JsxPreview.Proofs.Files.Writing

/-! # Edits written to the files

A list of edits is looked up by the place of an edit, the last edit of a place first
(`lookup_overrides`).  Written to the files one after the other, the edits give each of their places the
text of its last edit (`node?_of_edit`); all other files stay, and no directories are made but those
above an edit. -/
set_option autoImplicit false
namespace JsxPreview

namespace Files.Tree

variable {t : Tree} {edits : List (Path × String)}

/-- Writes texts to paths, one after the other. -/
def writeAll (t : Tree) (edits : List (Path × String)) : Tree :=
  edits.foldl (fun t e => t.write e.1 (.text e.2)) t

theorem writeAll_cons (t : Tree) (e : Path × String) (edits : List (Path × String)) :
    t.writeAll (e :: edits) = (t.write e.1 (.text e.2)).writeAll edits := List.foldl_cons ..

theorem writeAll_append (t : Tree) (front back : List (Path × String)) :
    t.writeAll (front ++ back) = (t.writeAll front).writeAll back := List.foldl_append ..

theorem Closed.write (closed : t.Closed) (p : Path) (content : Content) :
    (t.write p content).Closed := by
  rcases t.write_cases p content with ⟨same, _⟩ | ⟨clear, grown⟩
  · rw [same]
    exact closed
  · intro place part n found
    have isAbove (rest : List String) (split : placeOf p = place ++ part :: rest) :
        (t.write p content).node? place = some .directory := by
      by_cases top : place = []
      · subst top
        rfl
      · rw [grown]
        exact node?_grow_above clear
          (mem_above.mpr ⟨top, part :: rest, List.cons_ne_nil _ _, split⟩)
    rw [grown, node?_grow] at found
    split at found
    case isTrue here => exact isAbove [] here.1.symm
    case isFalse =>
      split at found
      case isTrue here =>
        obtain ⟨_, rest, _, split⟩ := mem_above.mp (mem_missing.mp here.1).1
        exact isAbove rest (by rw [split, List.append_assoc]; rfl)
      case isFalse => exact directory_write (closed place part n found)

theorem Closed.writeAll (edits : List (Path × String)) : ∀ {t : Tree}, t.Closed →
    (t.writeAll edits).Closed := by
  induction edits with
  | nil => exact fun closed => closed
  | cons e edits ih =>
      intro t closed
      rw [writeAll_cons]
      exact ih (closed.write e.1 (.text e.2))

theorem directory_writeAll {q : List String} (edits : List (Path × String)) : ∀ {t : Tree},
    t.node? q = some .directory → (t.writeAll edits).node? q = some .directory := by
  induction edits with
  | nil => exact fun found => found
  | cons e edits ih =>
      intro t found
      rw [writeAll_cons]
      exact ih (directory_write found)

theorem file_writeAll {q : List String} (edits : List (Path × String)) :
    ∀ {t : Tree} {stamp : Stamp} {text : Option String}, t.node? q = some (.file stamp text) →
      ∃ stamp' text', (t.writeAll edits).node? q = some (.file stamp' text') := by
  induction edits with
  | nil => exact fun found => ⟨_, _, found⟩
  | cons e edits ih =>
      intro t stamp text found
      obtain ⟨stamp', text', found⟩ := file_write (p := e.1) (s := e.2) found
      rw [writeAll_cons]
      exact ih found

/-- Files in places that are not written stay as they are. -/
theorem file_writeAll_apart {q : List String} (edits : List (Path × String))
    (apart : ∀ e ∈ edits, q ≠ placeOf e.1) (stamp : Stamp) (text : Option String) : ∀ {t : Tree},
    (t.writeAll edits).node? q = some (.file stamp text) ↔ t.node? q = some (.file stamp text) := by
  induction edits with
  | nil => exact Iff.rfl
  | cons e edits ih =>
      intro t
      rw [writeAll_cons, ih fun e member => apart e (List.mem_cons_of_mem _ member)]
      rcases t.write_cases e.1 (.text e.2) with ⟨same, _⟩ | ⟨_, grown⟩
      · rw [same]
      · rw [grown]
        exact file_grow (apart e (List.mem_cons_self ..)) stamp text

/-- Directories that come with the edits lie above one of them. -/
theorem directory_of_writeAll {q : List String} (edits : List (Path × String)) : ∀ {t : Tree},
    (t.writeAll edits).node? q = some .directory →
      t.node? q = some .directory ∨ ∃ e ∈ edits, q ∈ above (placeOf e.1) := by
  induction edits with
  | nil => exact fun found => .inl found
  | cons e edits ih =>
      intro t found
      rw [writeAll_cons] at found
      rcases ih found with before | ⟨e', member, isAbove⟩
      · exact (directory_of_write before).imp_right fun isAbove => ⟨e, List.mem_cons_self .., isAbove⟩
      · exact .inr ⟨e', List.mem_cons_of_mem _ member, isAbove⟩

/-- A place that holds a file in the end was clear for it all the time. -/
theorem clear_of_file {p : Path} {s : String} {stamp : Stamp} {text : Option String}
    (closed : t.Closed) (ends : (t.writeAll edits).node? (placeOf p) = some (.file stamp text)) :
    t.Clear (placeOf p) (.text s) := by
  refine ⟨fun dir isAbove stamp' text' file => ?_, fun directory => ?_, fun _ _ _ => by simp⟩
  · obtain ⟨_, rest, more, split⟩ := mem_above.mp isAbove
    obtain ⟨_, _, still⟩ := file_writeAll edits file
    rw [split] at ends
    rw [(closed.writeAll edits).above rest more ends] at still
    exact nomatch still
  · rw [directory_writeAll edits directory] at ends
    exact nomatch ends

/-- The place of an edit that leads to a file in the end has the text of its last edit. -/
theorem node?_of_edit (front : List (Path × String)) {back : List (Path × String)}
    (e : Path × String) (closed : t.Closed) (last : ∀ e' ∈ back, placeOf e.1 ≠ placeOf e'.1)
    (ends : ∃ stamp text, (t.writeAll (front ++ e :: back)).node? (placeOf e.1) =
      some (.file stamp text)) :
    ∃ stamp, (t.writeAll (front ++ e :: back)).node? (placeOf e.1) =
      some (.file stamp (some e.2)) := by
  obtain ⟨stamp, text, ends⟩ := ends
  have split : t.writeAll (front ++ e :: back) =
      ((t.writeAll front).write e.1 (.text e.2)).writeAll back := by
    rw [writeAll_append, writeAll_cons]
  have below : placeOf e.1 ≠ [] := by
    intro top
    rw [top] at ends
    exact nomatch ends
  have clear : (t.writeAll front).Clear (placeOf e.1) (.text e.2) := by
    have still : ((t.writeAll front).writeAll (e :: back)).node? (placeOf e.1) =
        some (.file stamp text) := by
      rw [← ends, split, writeAll_cons]
    exact clear_of_file (closed.writeAll front) still
  refine ⟨⟨(t.writeAll front).clock + 1, e.2.utf8ByteSize⟩, ?_⟩
  rw [split, file_writeAll_apart back last]
  rcases (t.writeAll front).write_cases e.1 (.text e.2) with ⟨_, blocked⟩ | ⟨_, grown⟩
  · exact absurd clear blocked
  · rw [grown, node?_grow, if_pos ⟨rfl, below⟩]
    rfl

end Files.Tree

namespace Sources

/-- The last of some edits with a place. -/
def lastEdit (edits : List FileOverride) (place : String) : Option FileOverride :=
  edits.reverse.find? fun f => Path.normalizeRelative f.path == place

theorem lookup_insertOverride (acc : List (String × String)) (f : FileOverride) (place : String) :
    (insertOverride acc f).lookup place =
      if Path.normalizeRelative f.path = place then some f.content else acc.lookup place := by
  unfold insertOverride
  simp only
  by_cases here : Path.normalizeRelative f.path = place
  · rw [if_pos here, here]
    exact List.lookup_cons_self
  · have other : (place == Path.normalizeRelative f.path) = false := by
      rw [beq_eq_false_iff_ne]
      exact Ne.symm here
    have kept : ∀ s : String, ((place, s).1 != Path.normalizeRelative f.path) = true := by
      intro s
      rw [bne, other]
      rfl
    rw [if_neg here, List.lookup_cons, other]
    exact Files.lookup_filter kept

theorem lookup_foldl (edits : List FileOverride) (place : String) :
    ∀ acc : List (String × String), (edits.foldl insertOverride acc).lookup place =
      ((lastEdit edits place).map (·.content)).or (acc.lookup place) := by
  induction edits with
  | nil => exact fun _ => rfl
  | cons f edits ih =>
      intro acc
      rw [List.foldl_cons, ih, lookup_insertOverride, lastEdit, lastEdit, List.reverse_cons,
        List.find?_append]
      cases edits.reverse.find? fun f => Path.normalizeRelative f.path == place with
      | some g => rfl
      | none =>
          by_cases here : Path.normalizeRelative f.path = place
          · simp [here]
          · simp [here]

/-- An override is looked up as the last edit of its place. -/
theorem lookup_overrides (entry : Path) (edits : List FileOverride) (place : String) :
    (withOverrides entry edits).overrides.lookup place =
      (lastEdit edits place).map (·.content) := by
  change (edits.foldl insertOverride []).lookup place = _
  rw [lookup_foldl]
  exact Option.or_none

theorem root_withOverrides (entry : Path) (edits : List FileOverride) :
    (withOverrides entry edits).root = entry.normalize.projectRoot := by
  rw [withOverrides, diskOnly]

/-- What lies below the root is looked up as the last edit of its place. -/
theorem overrideFor?_eq (entry : Path) (edits : List FileOverride) (p : Path) :
    (withOverrides entry edits).overrideFor? p = (entry.normalize.projectRoot.relativeTo p).bind
      fun place => (lastEdit edits (Path.normalizeRelative place)).map (·.content) := by
  unfold overrideFor?
  rw [root_withOverrides]
  cases entry.normalize.projectRoot.relativeTo p with
  | none => exact ite_self none
  | some place =>
      rw [Option.bind_some, ← lookup_overrides entry]
      split
      case isTrue none =>
        rw [List.isEmpty_iff.mp none]
        rfl
      case isFalse => rfl

/-- The last edit with a place, and the edits in front of it and behind it. -/
theorem lastEdit_eq_some {edits : List FileOverride} {place : String} {f : FileOverride} :
    lastEdit edits place = some f ↔ Path.normalizeRelative f.path = place ∧
      ∃ front back, edits = front ++ f :: back ∧
        ∀ g ∈ back, Path.normalizeRelative g.path ≠ place := by
  rw [lastEdit, List.find?_eq_some_iff_append]
  constructor
  · rintro ⟨here, back, front, split, last⟩
    refine ⟨beq_iff_eq.mp here, front.reverse, back.reverse, ?_, ?_⟩
    · rw [← List.reverse_reverse edits, split]
      simp
    · intro g member same
      have other := last g (List.mem_reverse.mp member)
      rw [same] at other
      exact absurd other (by simp)
  · rintro ⟨here, front, back, rfl, last⟩
    refine ⟨beq_iff_eq.mpr here, back.reverse, front.reverse, by simp, ?_⟩
    intro g member
    simpa using last g (List.mem_reverse.mp member)

theorem lastEdit_eq_none {edits : List FileOverride} {place : String} :
    lastEdit edits place = none ↔ ∀ f ∈ edits, Path.normalizeRelative f.path ≠ place := by
  simp [lastEdit]

end Sources

end JsxPreview
