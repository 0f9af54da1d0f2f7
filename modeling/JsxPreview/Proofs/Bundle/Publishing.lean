import JsxPreview.Proofs.Bundle.Bases
import JsxPreview.Proofs.Bundle.Reach
import JsxPreview.Proofs.Bundle.Simulation
import JsxPreview.Proofs.Files.Publishing
import JsxPreview.Proofs.Path.Relative
import Mathlib.Data.List.Find

/-! # Edits and files

A project may be bundled with edits over its files, or with the edits written to the files.  Files are
found and read alike in both (`isFile_publish`, `read_publish`), so that a specifier leads to the same
file as long as packages are the same.  Packages are looked for on the disk alone: an edit that makes a
package, or changes the manifest of one, is not seen before it is written. -/
set_option autoImplicit false
namespace JsxPreview.Bundle

open JsxPreview.Path JsxPreview.Files JsxPreview.Source JsxPreview.Text

/-- The paths of the edits below the directory of the entry, with the texts of the edits. -/
def published (entry : Path) (edits : List FileOverride) : List (Path × String) :=
  edits.filterMap fun f =>
    let path := (entry.normalize.projectRoot.join (normalizeRelative f.path)).normalize
    if entry.parentDir.isWithin path then some (path, f.content) else none

namespace Project

/-- The project with edits over its files. -/
def withEdits (p : Project) (edits : List FileOverride) : Project :=
  { p with sources := .withOverrides p.entry edits }

/-- The project with the edits written to its files. -/
def publish (p : Project) (edits : List FileOverride) : Project :=
  { p with files := p.files.writeAll (published p.entry edits), sources := .diskOnly p.entry }

/-- The edits can be written: the files are closed, and each edit leads to a file in the end. -/
structure Publishable (p : Project) (edits : List FileOverride) : Prop where
  entry : p.entry.IsPlain
  closed : p.files.Closed
  written : ∀ e ∈ published p.entry edits, (p.publish edits).files.isFile e.1 = true

variable {p : Project} {edits : List FileOverride}

/-! ## Roots -/

theorem root_withEdits (p : Project) (edits : List FileOverride) :
    (p.withEdits edits).root = p.entry.normalize.projectRoot := by
  rw [root, withEdits, Sources.withOverrides, Sources.diskOnly]

theorem root_publish (p : Project) (edits : List FileOverride) :
    (p.publish edits).root = p.entry.normalize.projectRoot := by
  rw [root, publish, Sources.diskOnly]

theorem root_same (p : Project) (edits : List FileOverride) :
    (p.publish edits).root = (p.withEdits edits).root :=
  (root_publish p edits).trans (root_withEdits p edits).symm

theorem root_names (publishable : p.Publishable edits) :
    ∃ start, PlainNames start ∧ p.entry.normalize.projectRoot = ofNames start := by
  obtain ⟨names, plain, entry⟩ := publishable.entry
  have kept {n : String} (member : n ∈ names.dropLast.dropLast) : n ∈ names :=
    (List.dropLast_sublist _).mem ((List.dropLast_sublist _).mem member)
  rw [entry, root_of_entry plain.areNames]
  exact ⟨_, ⟨fun n member => plain.areNames n (kept member), fun n member => plain.plain n (kept member)⟩,
    rfl⟩

/-! ## Edits -/

theorem placeOf_ofNames {names : List String} (areNames : AreNames names) :
    Tree.placeOf (ofNames names) = names := by
  unfold Tree.placeOf
  rw [normalize_of_components (components_ofNames areNames), components_ofNames areNames,
    List.filterMap_cons]
  induction names with
  | nil => rfl
  | cons n names ih =>
      have ih := ih fun m member => areNames m (List.mem_cons_of_mem _ member)
      simp only [named, List.map_cons, List.filterMap_cons] at ih ⊢
      rw [ih]

/-- The path of an edit is one through names, in scope. -/
theorem mem_published {start : List String} (areStart : AreNames start)
    (root : p.entry.normalize.projectRoot = ofNames start) {e : Path × String} :
    e ∈ published p.entry edits ↔ ∃ f ∈ edits, ∃ names, PlainNames names ∧
      normalizeRelative f.path = joinComponents (named names) ∧
      e = (ofNames (start ++ names), f.content) ∧ p.isInScope (ofNames (start ++ names)) = true := by
  unfold published
  rw [List.mem_filterMap, root]
  constructor
  · rintro ⟨f, member, applies⟩
    obtain ⟨names, plain, place⟩ := normalizeRelative_names f.path
    simp only at applies
    rw [place, normalize_join areStart plain.areNames] at applies
    split at applies
    case isTrue inScope =>
      cases applies
      exact ⟨f, member, names, plain, place, rfl, inScope⟩
    case isFalse => exact nomatch applies
  · rintro ⟨f, member, names, plain, place, rfl, inScope⟩
    refine ⟨f, member, ?_⟩
    simp only
    rw [place, normalize_join areStart plain.areNames]
    exact if_pos inScope

/-- Whether an edit is for a path. -/
def Edits (p : Project) (edits : List FileOverride) (q : Path) : Prop :=
  ∃ e ∈ published p.entry edits, e.1 = q

/-- What the sources hold for a plain path in scope: the text of the last edit of it, or nothing when
there is none. -/
theorem overrideFor?_cases (publishable : p.Publishable edits) {q : Path} (plain : q.IsPlain)
    (inScope : p.isInScope q = true) :
    (∃ content front back, (p.withEdits edits).sources.overrideFor? q = some content ∧
      published p.entry edits = front ++ (q, content) :: back ∧ ∀ e ∈ back, e.1 ≠ q) ∨
    (p.withEdits edits).sources.overrideFor? q = none ∧ ¬ p.Edits edits q := by
  obtain ⟨start, ⟨areStart, _⟩, root⟩ := root_names publishable
  obtain ⟨names, plain, rfl⟩ := plain
  have looked : (p.withEdits edits).sources.overrideFor? (ofNames names) =
      ((below? (named start) (named names)).map joinComponents).bind fun place =>
        (Sources.lastEdit edits (normalizeRelative place)).map (·.content) := by
    rw [← relativeTo_ofNames areStart (components_ofNames plain.areNames) plain.areNames, ← root]
    exact Sources.overrideFor?_eq p.entry edits (ofNames names)
  rw [looked]
  cases below : below? (named start) (named names) with
  | none =>
      refine .inr ⟨rfl, ?_⟩
      rintro ⟨e, member, here⟩
      obtain ⟨f, _, rest, plain', _, rfl, _⟩ := (mem_published areStart root).mp member
      have split := ofNames_injective (areNames_append areStart plain'.areNames) plain.areNames here
      rw [below?_named.mpr ⟨rest, split.symm, rfl⟩] at below
      exact nomatch below
  | some rest' =>
      obtain ⟨rest, rfl, rfl⟩ := below?_named.mp below
      have plainRest : PlainNames rest :=
        ⟨fun n member => plain.areNames n (List.mem_append_right _ member),
          fun n member => plain.plain n (List.mem_append_right _ member)⟩
      rw [Option.map_some, Option.bind_some, normalizeRelative_named plainRest]
      have sameEdit {f : FileOverride} {names : List String} (plain' : PlainNames names)
          (place : normalizeRelative f.path = joinComponents (named names)) :
          ofNames (start ++ names) = ofNames (start ++ rest) ↔
            normalizeRelative f.path = joinComponents (named rest) := by
        constructor
        · intro same
          have split := ofNames_injective (areNames_append areStart plain'.areNames) plain.areNames same
          rw [place, List.append_cancel_left split]
        · intro same
          rw [place] at same
          rw [joinNames_injective plain'.areNames plainRest.areNames same]
      cases last : Sources.lastEdit edits (joinComponents (named rest)) with
      | none =>
          refine .inr ⟨rfl, ?_⟩
          rintro ⟨e, member, here⟩
          obtain ⟨f, isEdit, names, plain', place, rfl, _⟩ := (mem_published areStart root).mp member
          exact Sources.lastEdit_eq_none.mp last f isEdit ((sameEdit plain' place).mp here)
      | some f =>
          obtain ⟨place, front, back, split, later⟩ := Sources.lastEdit_eq_some.mp last
          refine .inl ⟨f.content, published p.entry front, published p.entry back, rfl, ?_, ?_⟩
          · have here : published p.entry [f] = [(ofNames (start ++ rest), f.content)] := by
              unfold published
              rw [root, List.filterMap_cons, List.filterMap_nil]
              simp only
              rw [place, normalize_join areStart plainRest.areNames,
                if_pos (show p.entry.parentDir.isWithin _ = true from inScope)]
            rw [split, ← List.singleton_append, published, List.filterMap_append,
              List.filterMap_append]
            change _ ++ (published p.entry [f] ++ _) = _
            rw [here]
            rfl
          · intro e member same
            obtain ⟨g, isBehind, names, plain', place', rfl, _⟩ :=
              (mem_published areStart root).mp member
            exact later g isBehind ((sameEdit plain' place').mp same)

/-! ## Files -/

theorem Publishable.closed_publish (publishable : p.Publishable edits) :
    (p.publish edits).files.Closed := publishable.closed.writeAll _

/-- The place of an edit has the text of its last edit. -/
theorem look_of_edit (publishable : p.Publishable edits) {q : Path} {content : String}
    {front back : List (Path × String)}
    (split : published p.entry edits = front ++ (q, content) :: back) (last : ∀ e ∈ back, e.1 ≠ q) :
    ∃ stamp, (p.publish edits).files.look q = .ok (.file stamp (some content)) := by
  obtain ⟨start, ⟨areStart, _⟩, root⟩ := root_names publishable
  have isName {e : Path × String} (member : e ∈ published p.entry edits) :
      ∃ names, AreNames names ∧ e.1 = ofNames names := by
    obtain ⟨f, _, names, plain, _, rfl, _⟩ := (mem_published areStart root).mp member
    exact ⟨start ++ names, areNames_append areStart plain.areNames, rfl⟩
  have here : (q, content) ∈ published p.entry edits := by
    rw [split]
    exact List.mem_append_right _ (List.mem_cons_self ..)
  obtain ⟨names, areNames, same⟩ := isName here
  have same : q = ofNames names := same
  subst same
  obtain ⟨stamp, text, found⟩ := Tree.isFile_iff.mp (publishable.written _ here)
  obtain ⟨fits, found⟩ := (Tree.look_names publishable.closed_publish areNames).mp found
  have later : ∀ e ∈ back, Tree.placeOf (ofNames names) ≠ Tree.placeOf e.1 := by
    intro e member place
    obtain ⟨names', areNames', path⟩ := isName
      (show e ∈ published p.entry edits by
        rw [split]
        exact List.mem_append_right _ (List.mem_cons_of_mem _ member))
    rw [path, placeOf_ofNames areNames, placeOf_ofNames areNames'] at place
    exact last e member (by rw [path, place])
  have written := Tree.node?_of_edit front (ofNames names, content) publishable.closed later
  rw [← split, placeOf_ofNames areNames] at written
  obtain ⟨stamp, written⟩ := written ⟨stamp, text, found⟩
  exact ⟨stamp, (Tree.look_names publishable.closed_publish areNames).mpr ⟨fits, written⟩⟩

/-- A path that no edit is for leads to the file that it led to before. -/
theorem look_apart (publishable : p.Publishable edits) {names : List String}
    (areNames : AreNames names) (apart : ¬ p.Edits edits (ofNames names)) (stamp : Stamp)
    (text : Option String) : (p.publish edits).files.look (ofNames names) = .ok (.file stamp text) ↔
      p.files.look (ofNames names) = .ok (.file stamp text) := by
  obtain ⟨start, ⟨areStart, _⟩, root⟩ := root_names publishable
  have others : ∀ e ∈ published p.entry edits, names ≠ Tree.placeOf e.1 := by
    intro e member same
    obtain ⟨f, _, rest, plain, _, rfl, _⟩ := (mem_published areStart root).mp member
    rw [placeOf_ofNames (areNames_append areStart plain.areNames)] at same
    exact apart ⟨_, member, by rw [same]⟩
  rw [Tree.look_names publishable.closed_publish areNames, Tree.look_names publishable.closed areNames]
  exact and_congr_right fun _ => Tree.file_writeAll_apart _ others stamp text

theorem edits_inScope (publishable : p.Publishable edits) {q : Path} (edit : p.Edits edits q) :
    p.isInScope q = true := by
  obtain ⟨start, ⟨areStart, _⟩, root⟩ := root_names publishable
  obtain ⟨e, member, rfl⟩ := edit
  obtain ⟨f, _, rest, _, _, rfl, inScope⟩ := (mem_published areStart root).mp member
  exact inScope

/-- Through the sources a plain path in scope reads as it does in the files with the edits. -/
theorem sources_publish (publishable : p.Publishable edits) {q : Path} (plain : q.IsPlain)
    (inScope : p.isInScope q = true) :
    (p.withEdits edits).sources.isFile p.files q = (p.publish edits).files.isFile q ∧
      ((p.withEdits edits).sources.read p.files q).toOption =
        ((p.publish edits).files.read q).toOption := by
  unfold Sources.isFile Sources.read
  rcases overrideFor?_cases publishable plain inScope with
    ⟨content, front, back, found, split, last⟩ | ⟨absent, apart⟩
  · obtain ⟨stamp, written⟩ := look_of_edit publishable split last
    rw [found, Tree.isFile_iff.mpr ⟨stamp, _, written⟩, Tree.read_iff.mpr ⟨stamp, written⟩]
    exact ⟨rfl, rfl⟩
  · obtain ⟨names, plain, rfl⟩ := plain
    rw [absent]
    exact Tree.read_of_files fun stamp text =>
      (look_apart publishable plain.areNames apart stamp text).symm

theorem sources_diskOnly (p : Project) (edits : List FileOverride) (files : Tree) (q : Path) :
    (p.publish edits).sources.isFile files q = files.isFile q ∧
      (p.publish edits).sources.read files q = files.read q := by
  have none : (p.publish edits).sources.overrides = [] := rfl
  rw [Sources.isFile, Sources.read, Sources.overrideFor?, none]
  exact ⟨rfl, rfl⟩

theorem read_uncached (p : Project) (q : Path) : (p.read none q).1 =
    if q.isSame p.renderer = true then .ok rendererText
    else if p.isInScope q = true then p.sources.read p.files q else p.files.read q := by
  unfold Project.read
  split
  · rfl
  · split <;> rfl

/-- A plain path leads to a file, and reads as a text, with the edits as in the files. -/
theorem files_publish (publishable : p.Publishable edits) {q : Path} (plain : q.IsPlain) :
    (p.withEdits edits).isFile q = (p.publish edits).isFile q ∧
      ((p.withEdits edits).read none q).1.toOption = ((p.publish edits).read none q).1.toOption := by
  have renderer : (p.withEdits edits).renderer = (p.publish edits).renderer := by
    rw [Project.renderer, Project.renderer, root_same]
  have scope : (p.withEdits edits).isInScope q = p.isInScope q ∧
      (p.publish edits).isInScope q = p.isInScope q := by
    simp only [isInScope, withEdits, publish, and_self]
  have files : (p.withEdits edits).files = p.files := by rw [withEdits]
  obtain ⟨isFile, read⟩ := sources_diskOnly p edits (p.publish edits).files q
  rw [read_uncached, read_uncached, Project.isFile, Project.isFile, renderer, scope.1, scope.2, files,
    isFile, read]
  by_cases same : q.isSame (p.publish edits).renderer = true
  · rw [if_pos same, if_pos same, if_pos same, if_pos same]
    exact ⟨rfl, rfl⟩
  · rw [if_neg same, if_neg same, if_neg same, if_neg same]
    by_cases inScope : p.isInScope q = true
    · rw [if_pos inScope, if_pos inScope, if_pos inScope, if_pos inScope]
      exact sources_publish publishable plain inScope
    · rw [if_neg inScope, if_neg inScope, if_neg inScope, if_neg inScope]
      obtain ⟨names, plain, rfl⟩ := plain
      exact Tree.read_of_files fun stamp text => (look_apart publishable plain.areNames
        (fun edit => inScope (edits_inScope publishable edit)) stamp text).symm

/-! ## Packages -/

/-- Below a directory of packages, edits stay in directories that are there, and are no manifests. -/
def KeepsPackages (p : Project) (edits : List FileOverride) : Prop :=
  ∀ e ∈ published p.entry edits, "node_modules" ∈ (Tree.placeOf e.1).dropLast →
    p.files.node? (Tree.placeOf e.1).dropLast = some .directory ∧
      (Tree.placeOf e.1).getLast? ≠ some "package.json"

/-- A specifier of a package is made of names, and no base path has a backslash. -/
structure PlainSpecifier (p : Project) (specifier : String) (importer : Path) : Prop where
  package : classify specifier p.options.renderSpecifier p.hosts = .package →
    ∀ text ∈ (splitPackage specifier).1 :: (splitPackage specifier).2.toList,
      ∀ part ∈ splitOn '/' text.toList, IsName part
  bases : ∀ base ∈ p.bases specifier importer, '\\' ∉ base.text.toList

/-- The directories in which packages are looked for. -/
theorem nodeModules_names {names : List String} (areNames : AreNames names) :
    ∀ d ∈ nodeModules (ofNames names), ∃ front, AreNames front ∧
      d = ofNames (front ++ ["node_modules"]) := by
  intro d member
  obtain ⟨above, inside, rfl⟩ := List.mem_map.mp member
  obtain ⟨front, inFront, rfl⟩ := climbFrom_ofNames _ areNames above (List.mem_filter.mp inside).1
  have areFront : AreNames front := fun n member => areNames n (inFront.sublist.mem member)
  have modules : AreNames ["node_modules"] :=
    by decide
  exact ⟨front, areFront, join_ofNames areFront modules (List.cons_ne_nil _ _)⟩

/-- A package is a directory with the edits exactly when it is one in the files. -/
theorem isDirectory_publish (publishable : p.Publishable edits) (keeps : p.KeepsPackages edits)
    {names : List String} (areNames : AreNames names) (inModules : "node_modules" ∈ names) :
    (p.publish edits).files.isDirectory (ofNames names) = p.files.isDirectory (ofNames names) := by
  rw [Bool.eq_iff_iff, Tree.isDirectory_iff, Tree.isDirectory_iff,
    Tree.look_names publishable.closed_publish areNames, Tree.look_names publishable.closed areNames]
  refine and_congr_right fun _ => ⟨fun found => ?_, Tree.directory_writeAll _⟩
  rcases Tree.directory_of_writeAll _ found with before | ⟨e, member, isAbove⟩
  · exact before
  · -- a directory that came with an edit holds one that an edit stays in
    obtain ⟨_, rest, more, split⟩ := Tree.mem_above.mp isAbove
    have front : (Tree.placeOf e.1).dropLast = names ++ rest.dropLast := by
      rw [split, List.dropLast_append_of_ne_nil more]
    have stays := (keeps e member (by rw [front]; exact List.mem_append_left _ inModules)).1
    rw [front] at stays
    by_cases last : rest.dropLast = []
    · rwa [last, List.append_nil] at stays
    · exact publishable.closed.above _ last stays

/-- The manifest of a package reads alike. -/
theorem manifest_publish (publishable : p.Publishable edits) (keeps : p.KeepsPackages edits)
    {names : List String} (areNames : AreNames names) (inModules : "node_modules" ∈ names) :
    ((p.publish edits).files.read ((ofNames names).join "package.json")).toOption =
      (p.files.read ((ofNames names).join "package.json")).toOption := by
  have manifest : AreNames ["package.json"] :=
    by decide
  have path : (ofNames names).join "package.json" = ofNames (names ++ ["package.json"]) :=
    join_ofNames areNames manifest (List.cons_ne_nil _ _)
  have areAll := areNames_append areNames manifest
  rw [path]
  refine (Tree.read_of_files (look_apart publishable areAll ?_)).2
  rintro ⟨e, member, same⟩
  have place : Tree.placeOf e.1 = names ++ ["package.json"] := by
    rw [same, placeOf_ofNames areAll]
  have kept := keeps e member (by rw [place, List.dropLast_concat]; exact inModules)
  rw [place] at kept
  exact kept.2 List.getLast?_concat

theorem packageBases_publish (publishable : p.Publishable edits) (keeps : p.KeepsPackages edits)
    {names : List String} (areNames : AreNames names) (inModules : "node_modules" ∈ names)
    (inside : Option String) : (p.publish edits).packageBases inside (ofNames names) =
      (p.withEdits edits).packageBases inside (ofNames names) := by
  have files : (p.withEdits edits).files = p.files := by rw [withEdits]
  unfold packageBases declaredMain
  rw [files, isDirectory_publish publishable keeps areNames inModules,
    manifest_publish publishable keeps areNames inModules]

/-- The packages that a specifier may name lie below a directory of packages. -/
theorem packages_names {specifier : String} {importer : Path} (plain : importer.IsPlain)
    (isPlain : ∀ part ∈ splitOn '/' (splitPackage specifier).1.toList, IsName part) :
    ∀ package ∈ (nodeModules importer.parentDir).map (·.join (splitPackage specifier).1),
      ∃ names, AreNames names ∧ "node_modules" ∈ names ∧ package = ofNames names := by
  obtain ⟨names, plain, rfl⟩ := plain
  intro package member
  obtain ⟨d, isModules, rfl⟩ := List.mem_map.mp member
  rw [parentDir_ofNames plain.areNames] at isModules
  obtain ⟨front, areFront, rfl⟩ := nodeModules_names
    (fun n member => plain.areNames n ((List.dropLast_sublist _).mem member)) d isModules
  obtain ⟨rest, areRest, some, text⟩ := names_of_text isPlain
  have modules : AreNames ["node_modules"] :=
    by decide
  refine ⟨front ++ ["node_modules"] ++ rest,
    areNames_append (areNames_append areFront modules) areRest, by simp, ?_⟩
  rw [text, join_ofNames (areNames_append areFront modules) areRest some]

theorem bases_publish (publishable : p.Publishable edits) (keeps : p.KeepsPackages edits)
    {specifier : String} {importer : Path} (plain : importer.IsPlain)
    (isPlain : (p.withEdits edits).PlainSpecifier specifier importer) :
    (p.publish edits).bases specifier importer = (p.withEdits edits).bases specifier importer := by
  have kind : classify specifier (p.publish edits).options.renderSpecifier (p.publish edits).hosts =
      classify specifier (p.withEdits edits).options.renderSpecifier (p.withEdits edits).hosts := by
    rw [publish, withEdits]
  unfold bases
  rw [kind]
  split
  case h_1 | h_2 | h_3 => rfl
  case h_4 isPackage =>
    refine List.flatMap_congr fun package member => ?_
    obtain ⟨names, areNames, inModules, rfl⟩ := packages_names plain
      (isPlain.package isPackage _ (List.mem_cons_self ..)) package member
    exact packageBases_publish publishable keeps areNames inModules _

/-- The base paths of a plain specifier are plain. -/
theorem isPlain_bases {p : Project} {specifier : String} {importer : Path} (plain : importer.IsPlain)
    (isPlain : p.PlainSpecifier specifier importer) :
    ∀ base ∈ p.bases specifier importer, base.IsPlain := by
  intro base member
  suffices names : ∃ names, AreNames names ∧ base = ofNames names by
    obtain ⟨names, areNames, rfl⟩ := names
    exact ⟨names, plainNames_of_text areNames (isPlain.bases _ member), rfl⟩
  have absolute : importer.isAbsolute = true := by
    obtain ⟨names, plain, rfl⟩ := plain
    exact (ofNames_level plain.areNames).isAbsolute
  unfold bases at member
  split at member
  case h_1 | h_2 => exact absurd member List.not_mem_nil
  case h_3 =>
    rw [List.mem_singleton.mp member]
    exact normalize_of_isAbsolute (isAbsolute_join (isAbsolute_parentDir absolute) _)
  case h_4 isPackage =>
    obtain ⟨package, isAmong, member⟩ := List.mem_flatMap.mp member
    have parts := isPlain.package isPackage
    obtain ⟨names, areNames, _, rfl⟩ := packages_names plain (parts _ (List.mem_cons_self ..)) package isAmong
    unfold packageBases at member
    split at member
    · exact absurd member List.not_mem_nil
    · split at member
      case h_1 place asked =>
        rw [List.mem_singleton.mp member]
        obtain ⟨rest, areRest, some, rfl⟩ := names_of_text (parts place
          (by rw [asked]; exact List.mem_cons_of_mem _ (List.mem_singleton_self _)))
        exact ⟨_, areNames_append areNames areRest, join_ofNames areNames areRest some⟩
      case h_2 =>
        rcases List.mem_append.mp member with member | member
        · obtain ⟨main, _, rfl⟩ := Option.map_eq_some_iff.mp (Option.mem_toList.mp member)
          exact normalize_of_isAbsolute (isAbsolute_join (ofNames_level areNames).isAbsolute main)
        · have index : AreNames ["index"] := by decide
          rw [List.mem_singleton.mp member]
          exact ⟨_, areNames_append areNames index,
            join_ofNames areNames index (List.cons_ne_nil _ _)⟩

/-- A plain specifier leads to the same place with the edits and in the files. -/
theorem resolve_publish (publishable : p.Publishable edits) (keeps : p.KeepsPackages edits)
    {specifier : String} {importer : Path} (plain : importer.IsPlain)
    (isPlain : (p.withEdits edits).PlainSpecifier specifier importer) :
    (p.withEdits edits).resolve specifier importer =
      (p.publish edits).resolve specifier importer := by
  have kind : classify specifier (p.publish edits).options.renderSpecifier (p.publish edits).hosts =
      classify specifier (p.withEdits edits).options.renderSpecifier (p.withEdits edits).hosts := by
    rw [publish, withEdits]
  have renderer : (p.withEdits edits).renderer = (p.publish edits).renderer := by
    rw [Project.renderer, Project.renderer, root_same]
  have first : ((p.withEdits edits).bases specifier importer).findSome? (p.withEdits edits).firstFile =
      ((p.withEdits edits).bases specifier importer).findSome? (p.publish edits).firstFile :=
    findSome?_congr fun base member => List.find?_congr fun c isCandidate =>
      (files_publish publishable
        (isPlain_candidates (isPlain_bases plain isPlain base member) c isCandidate)).1
  rw [resolve_eq, resolve_eq, kind, bases_publish publishable keeps plain isPlain, first, renderer]

end Project

end JsxPreview.Bundle
