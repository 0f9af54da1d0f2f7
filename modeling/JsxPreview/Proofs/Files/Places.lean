import JsxPreview.Files.Tree
import JsxPreview.Proofs.Outcome
import JsxPreview.Proofs.Path.Names

/-! # The places of paths

A path that leads anywhere leads to the place that its components name (`look_place`).  In a tree in
which every node lies in a directory (`Closed`), a path through names leads to just the node in its
place, unless the path or a name is too long (`look_names`). -/
set_option autoImplicit false
namespace JsxPreview.Files

namespace Tree

variable {t : Tree}

/-- Where a component leads from a place. -/
def descend (place : List String) : Path.Component → List String
  | .root | .here => place
  | .up => place.dropLast
  | .name s => place ++ [s]

theorem step_idle {place place' : List String} {part : List Char} (idle : Path.isIdle part = true)
    (success : t.step place (String.ofList part) = .ok place') : place' = place := by
  have dot : String.ofList part = "" ∨ String.ofList part = "." := by
    rcases Bool.or_eq_true_iff.mp idle with empty | dot
    · exact .inl (congrArg String.ofList (beq_iff_eq.mp empty))
    · exact .inr (congrArg String.ofList (beq_iff_eq.mp dot))
  unfold step at success
  split at success
  · exact absurd success (by simp)
  · exact absurd success (by simp)
  · rw [if_pos dot] at success
    cases success
    rfl

theorem step_counted {place place' : List String} {part : List Char}
    (counts : Path.isIdle part = false) (success : t.step place (String.ofList part) = .ok place') :
    place' = descend place (.ofPart part) := by
  obtain ⟨some, noDot⟩ : part ≠ [] ∧ part ≠ ['.'] := by
    simpa [Path.isIdle] using counts
  have named : ¬ (String.ofList part = "" ∨ String.ofList part = ".") := by
    rintro (empty | dot)
    · exact some (String.ofList_injective empty)
    · exact noDot (String.ofList_injective dot)
  unfold step at success
  split at success
  · exact absurd success (by simp)
  · exact absurd success (by simp)
  · rw [if_neg named] at success
    by_cases up : part = ['.', '.']
    · subst up
      cases success
      rfl
    · have other : String.ofList part ≠ ".." := fun same => up (String.ofList_injective same)
      have kind : Path.Component.ofPart part = .name (String.ofList part) :=
        if_neg (by simpa using up)
      rw [if_neg other] at success
      split at success
      · exact absurd success (by simp)
      · cases success
        rw [kind]
        rfl

theorem steps_place (parts : List (List Char)) : ∀ {place place' : List String},
    (parts.map String.ofList).foldlM t.step place = .ok place' →
      place' = (Path.bodyComponents parts).foldl descend place := by
  induction parts with
  | nil =>
      intro place place' success
      exact (ok_of_pure success).symm
  | cons part parts ih =>
      intro place place' success
      rw [List.map_cons, List.foldlM_cons] at success
      obtain ⟨next, stepped, success⟩ := ok_of_bind success
      rw [ih success]
      cases idle : Path.isIdle part with
      | true =>
          rw [step_idle idle stepped]
          simp [Path.bodyComponents, idle]
      | false =>
          rw [step_counted idle stepped]
          simp [Path.bodyComponents, idle]

/-- What makes a path lead to a node. -/
theorem look_iff {p : Path} {n : Node} :
    t.look p = .ok n ↔ '\x00' ∉ p.text.toList ∧ p.text.utf8ByteSize < 4096 ∧ p.isAbsolute = true ∧
      ∃ place, (p.parts.map String.ofList).foldlM t.step [] = .ok place ∧
        t.node? place = some n := by
  have steps : t.look p =
      if '\x00' ∈ p.text.toList then .error .invalidInput
      else if 4096 ≤ p.text.utf8ByteSize then .error .invalidName
      else if p.isAbsolute = false then .error .notFound
      else (p.parts.map String.ofList).foldlM t.step [] >>= fun place =>
        (t.node? place).elim (.error .notFound) .ok := by
    unfold look
    simp only [List.contains_iff_mem, Bool.not_eq_true']
    split
    · rfl
    · split
      · rfl
      · split
        · rfl
        · exact congrArg _ (funext fun place => by cases t.node? place <;> rfl)
  rw [steps]
  split
  case isTrue written => simp [written]
  case isFalse plain =>
    split
    case isTrue long => simp [Nat.not_lt.mpr long]
    case isFalse short =>
      split
      case isTrue relative => simp [relative]
      case isFalse absolute =>
        constructor
        · intro found
          obtain ⟨place, walked, found⟩ := ok_of_bind found
          refine ⟨plain, by omega, by simpa using absolute, place, walked, ?_⟩
          cases node : t.node? place with
          | none => exact absurd (node ▸ found) (by simp)
          | some node' => simpa [node] using found
        · rintro ⟨_, _, _, place, walked, found⟩
          rw [bind_of_ok walked, found]
          rfl

/-- A path that leads to a node leads to the one in the place that its components name. -/
theorem look_place {p : Path} {n : Node} (found : t.look p = .ok n) :
    t.node? (p.components.foldl descend []) = some n := by
  obtain ⟨_, _, absolute, place, walked, found⟩ := look_iff.mp found
  have components : p.components = .root :: Path.bodyComponents p.parts := by
    rw [Path.components, if_pos absolute]
    rfl
  rw [components, List.foldl_cons, ← found, steps_place p.parts walked]
  rfl

/-! ## Paths through names -/

/-- Every node lies in a directory. -/
def Closed (t : Tree) : Prop :=
  ∀ place part n, t.node? (place ++ [part]) = some n → t.node? place = some .directory

theorem Closed.above (closed : t.Closed) {n : Node} (rest : List String) (some : rest ≠ []) :
    ∀ {place : List String}, t.node? (place ++ rest) = .some n →
      t.node? place = .some .directory := by
  induction rest with
  | nil => exact absurd rfl some
  | cons part rest ih =>
      intro place found
      by_cases last : rest = []
      · subst last
        exact closed place part n found
      · refine closed place part .directory (ih last ?_)
        rw [List.append_assoc]
        exact found

theorem closed_of_nodes (inside : ∀ x ∈ t.nodes, t.node? x.1.dropLast = some .directory) :
    t.Closed := by
  intro place part n found
  have here : t.nodes.lookup (place ++ [part]) = some n := by
    rw [node?, if_neg (by simp)] at found
    exact found
  obtain ⟨front, back, split, _⟩ := List.lookup_eq_some_iff.mp here
  have directory := inside (place ++ [part], n) (by rw [split]; exact List.mem_append_right _ (List.mem_cons_self ..))
  rwa [List.dropLast_concat] at directory

/-- A path and its names are short enough to be looked up. -/
structure Fits (names : List String) : Prop where
  plain : '\x00' ∉ (Path.ofNames names).text.toList
  path : (Path.ofNames names).text.utf8ByteSize < 4096
  names : ∀ m ∈ names, m.utf8ByteSize ≤ 255

/-- A step to a name, from a directory. -/
theorem step_name {place : List String} {m : String} (isName : Path.IsName m.toList)
    (directory : t.node? place = some .directory) :
    t.step place m = if m.utf8ByteSize > 255 then .error .invalidName else .ok (place ++ [m]) := by
  have counts := isName.counts
  rw [Path.isIdle, Bool.or_eq_false_iff, beq_eq_false_iff_ne, beq_eq_false_iff_ne] at counts
  have named : ¬ (m = "" ∨ m = ".") := by
    rintro (rfl | rfl)
    · exact counts.1 rfl
    · exact counts.2 rfl
  have level : m ≠ ".." := by
    rintro rfl
    exact isName.level rfl
  unfold step
  rw [directory]
  simp only [if_neg named, if_neg level]

theorem directory_of_step {place place' : List String} {part : String}
    (success : t.step place part = .ok place') : t.node? place = some .directory := by
  unfold step at success
  split at success
  case h_1 => exact absurd success (by simp)
  case h_2 => exact absurd success (by simp)
  case h_3 found => exact found

theorem walk_names (closed : t.Closed) {n : Node} {names : List String}
    (areNames : Path.AreNames names) (short : ∀ m ∈ names, m.utf8ByteSize ≤ 255) :
    ∀ place : List String, t.node? (place ++ names) = some n →
      names.foldlM t.step place = .ok (place ++ names) := by
  induction names with
  | nil =>
      intro place _
      rw [List.append_nil]
      rfl
  | cons m names ih =>
      intro place found
      have directory := closed.above (m :: names) (List.cons_ne_nil _ _) found
      have step : t.step place m = .ok (place ++ [m]) := by
        rw [step_name (areNames m (List.mem_cons_self ..)).1 directory,
          if_neg (Nat.not_lt.mpr (short m (List.mem_cons_self ..)))]
      rw [List.foldlM_cons, bind_of_ok step, ih (fun n member => areNames n (List.mem_cons_of_mem _ member))
        (fun n member => short n (List.mem_cons_of_mem _ member)) _ (by rwa [List.append_assoc]),
        List.append_assoc]
      rfl

theorem short_of_walk {names : List String} (areNames : Path.AreNames names) :
    ∀ {place place' : List String}, names.foldlM t.step place = .ok place' →
      ∀ m ∈ names, m.utf8ByteSize ≤ 255 := by
  induction names with
  | nil => exact fun _ _ member => nomatch member
  | cons m names ih =>
      intro place place' walked n member
      rw [List.foldlM_cons] at walked
      obtain ⟨next, step, walked⟩ := ok_of_bind walked
      rcases List.mem_cons.mp member with rfl | member
      · rw [step_name (areNames n (List.mem_cons_self ..)).1 (directory_of_step step)] at step
        split at step
        · exact absurd step (by simp)
        · omega
      · exact ih (fun n member => areNames n (List.mem_cons_of_mem _ member)) walked n member

theorem descend_named (names : List String) : ∀ place : List String,
    (Path.named names).foldl descend place = place ++ names := by
  induction names with
  | nil => exact fun place => (List.append_nil place).symm
  | cons m names ih =>
      intro place
      change (Path.named names).foldl descend (place ++ [m]) = _
      rw [ih, List.append_assoc]
      rfl

/-- The steps through a path of names. -/
theorem steps_names {names : List String} (areNames : Path.AreNames names) :
    ((Path.ofNames names).parts.map String.ofList).foldlM t.step [] = names.foldlM t.step [] := by
  have start : t.step [] "" = .ok [] := rfl
  rw [Path.parts_of_text (Path.text_ofNames names), List.map_cons, List.foldlM_cons]
  change t.step [] "" >>= _ = _
  rw [bind_of_ok start]
  by_cases none : names = []
  · subst none
    rfl
  · rw [Path.splitOn_joinComponents areNames none, List.map_map]
    have same : String.ofList ∘ String.toList = id := funext fun _ => String.ofList_toList
    rw [same, List.map_id]

/-- Where a path through names leads in a closed tree. -/
theorem look_names (closed : t.Closed) {names : List String} (areNames : Path.AreNames names)
    {n : Node} : t.look (Path.ofNames names) = .ok n ↔ Fits names ∧ t.node? names = some n := by
  constructor
  · intro found
    have here := look_place found
    rw [Path.components_ofNames areNames, List.foldl_cons] at here
    rw [show descend [] .root = [] from rfl, descend_named, List.nil_append] at here
    obtain ⟨plain, path, _, place, walked, _⟩ := look_iff.mp found
    rw [steps_names areNames] at walked
    exact ⟨⟨plain, path, short_of_walk areNames walked⟩, here⟩
  · rintro ⟨fits, found⟩
    refine look_iff.mpr ⟨fits.plain, fits.path, (Path.ofNames_level areNames).isAbsolute, names, ?_, found⟩
    rw [steps_names areNames]
    exact walk_names closed areNames fits.names [] found

/-! ## Files -/

theorem isFile_iff {p : Path} :
    t.isFile p = true ↔ ∃ stamp text, t.look p = .ok (.file stamp text) := by
  unfold isFile
  constructor
  · intro file
    split at file
    case h_1 stamp text found => exact ⟨stamp, text, found⟩
    case h_2 => exact nomatch file
  · rintro ⟨stamp, text, found⟩
    rw [found]

theorem isDirectory_iff {p : Path} : t.isDirectory p = true ↔ t.look p = .ok .directory := by
  unfold isDirectory
  constructor
  · intro directory
    split at directory
    case h_1 found => exact found
    case h_2 => exact nomatch directory
  · intro found
    rw [found]

theorem read_iff {p : Path} {text : String} :
    t.read p = .ok text ↔ ∃ stamp, t.look p = .ok (.file stamp (some text)) := by
  constructor
  · intro success
    obtain ⟨n, found, success⟩ := ok_of_bind success
    cases n with
    | directory => exact nomatch success
    | file stamp content =>
        cases content with
        | none => exact nomatch success
        | some content =>
            cases success
            exact ⟨stamp, found⟩
  · rintro ⟨stamp, found⟩
    exact bind_of_ok found

/-- Trees in which a path leads to one file read alike. -/
theorem read_of_files {t' : Tree} {p : Path}
    (same : ∀ stamp text, t.look p = .ok (.file stamp text) ↔ t'.look p = .ok (.file stamp text)) :
    t.isFile p = t'.isFile p ∧ (t.read p).toOption = (t'.read p).toOption := by
  constructor
  · rw [Bool.eq_iff_iff, isFile_iff, isFile_iff]
    simp only [same]
  · have reads (text : String) : t.read p = .ok text ↔ t'.read p = .ok text := by
      rw [read_iff, read_iff]
      simp only [same]
    cases first : t.read p with
    | ok text => rw [(reads text).mp first]
    | error e =>
        cases second : t'.read p with
        | error e' => rfl
        | ok text =>
            rw [(reads text).mpr second] at first
            exact nomatch first

end Tree

end JsxPreview.Files
