import JsxPreview.Bundle.Graph
import JsxPreview.Proofs.Path.Diff

/-! # Where specifiers lead

A specifier that names a path or a package stands for some base paths (`bases`), and leads to the first
file that one of them may mean (`resolve_eq`).  Seen from a path from the top, all of them are paths
from the top.  Prepared sources put the root of a project two levels above its entry
(`placed_of_prepare`). -/
set_option autoImplicit false
namespace JsxPreview.Bundle

theorem isAbsolute_nodeModules {directory : Path} (absolute : directory.isAbsolute = true) :
    ∀ d ∈ nodeModules directory, d.isAbsolute = true := by
  intro d member
  obtain ⟨above, inside, rfl⟩ := List.mem_map.mp member
  exact Path.isAbsolute_join
    (Path.isAbsolute_climbFrom _ absolute above (List.mem_filter.mp inside).1) _

namespace Project

/-- The path that the manifest of a package names. -/
def declaredMain (p : Project) (package : Path) : Option Path :=
  ((p.files.read (package.join "package.json")).toOption >>= packageEntry).map fun main =>
    (package.join main).normalize

def packageBases (p : Project) (inside : Option String) (package : Path) : List Path :=
  if !p.files.isDirectory package then []
  else match inside with
    | some place => [package.join place]
    | none => (p.declaredMain package).toList ++ [package.join "index"]

/-- The paths that a specifier may stand for, in the order in which they are tried. -/
def bases (p : Project) (specifier : String) (importer : Path) : List Path :=
  match classify specifier p.options.renderSpecifier p.hosts with
  | .reserved | .outside => []
  | .path => [(importer.parentDir.join specifier).normalize]
  | .package =>
      ((nodeModules importer.parentDir).map (·.join (splitPackage specifier).1)).flatMap
        (p.packageBases (splitPackage specifier).2)

theorem packageFile_eq (p : Project) (package : Path) (inside : Option String) :
    p.packageFile package inside = (p.packageBases inside package).findSome? p.firstFile := by
  unfold packageFile packageBases
  split
  · rfl
  · cases inside with
    | some place => simp
    | none =>
        unfold declaredMain
        cases (p.files.read (package.join "package.json")).toOption >>= packageEntry with
        | none => simp
        | some main =>
            simp only [bind, Option.bind, Option.map_some, Option.toList_some, List.cons_append,
              List.nil_append, List.findSome?_cons]
            cases p.firstFile (package.join main).normalize with
            | some file => rfl
            | none => cases p.firstFile (package.join "index") <;> rfl

theorem findSome?_congr {α β : Type} {f g : α → Option β} {l : List α}
    (same : ∀ a ∈ l, f a = g a) : l.findSome? f = l.findSome? g := by
  induction l with
  | nil => rfl
  | cons a l ih =>
      rw [List.findSome?_cons, List.findSome?_cons, same a (List.mem_cons_self ..),
        ih fun b member => same b (List.mem_cons_of_mem _ member)]

theorem findSome?_flatMap {α β γ : Type} (f : α → List β) (g : β → Option γ) (l : List α) :
    (l.flatMap f).findSome? g = l.findSome? fun a => (f a).findSome? g := by
  induction l with
  | nil => rfl
  | cons a l ih =>
      rw [List.flatMap_cons, List.findSome?_append, ih, List.findSome?_cons]
      cases (f a).findSome? g <;> rfl

/-- A specifier leads to the renderer, outside, or to the first file that one of its bases may
mean. -/
theorem resolve_eq (p : Project) (specifier : String) (importer : Path) :
    p.resolve specifier importer =
      match classify specifier p.options.renderSpecifier p.hosts with
      | .reserved => some (.module p.renderer)
      | .outside => some (.outside specifier)
      | _ => ((p.bases specifier importer).findSome? p.firstFile).map .module := by
  unfold resolve bases
  cases classify specifier p.options.renderSpecifier p.hosts with
  | reserved | outside => rfl
  | path => simp
  | package =>
      simp only [findSome?_flatMap, List.findSome?_map, Function.comp_def, packageFile_eq]

theorem target_of_resolve {p : Project} {specifier : String} {importer target : Path}
    (resolved : p.resolve specifier importer = some (.module target)) :
    target = p.renderer ∨ ∃ base ∈ p.bases specifier importer, target ∈ candidates base := by
  rw [resolve_eq] at resolved
  have found (first : ((p.bases specifier importer).findSome? p.firstFile).map .module =
      some (Resolution.module target)) :
      ∃ base ∈ p.bases specifier importer, target ∈ candidates base := by
    obtain ⟨file, found, same⟩ := Option.map_eq_some_iff.mp first
    cases same
    obtain ⟨base, member, first⟩ := List.exists_of_findSome?_eq_some found
    exact ⟨base, member, List.mem_of_find?_eq_some first⟩
  split at resolved
  case h_1 =>
    cases resolved
    exact .inl rfl
  case h_2 => exact absurd resolved (by simp)
  case h_3 => exact .inr (found resolved)

theorem isAbsolute_bases {p : Project} {specifier : String} {importer : Path}
    (absolute : importer.isAbsolute = true) :
    ∀ base ∈ p.bases specifier importer, base.isAbsolute = true := by
  have directory := Path.isAbsolute_parentDir absolute
  intro base member
  unfold bases at member
  split at member
  case h_1 | h_2 => exact absurd member List.not_mem_nil
  case h_3 =>
    rw [List.mem_singleton.mp member]
    obtain ⟨names, _, normal⟩ := Path.normalize_of_isAbsolute (Path.isAbsolute_join directory specifier)
    rw [normal]
    exact Path.isAbsolute_iff.mpr ⟨_, Path.text_ofNames names⟩
  case h_4 =>
    obtain ⟨package, inside, member⟩ := List.mem_flatMap.mp member
    obtain ⟨d, above, rfl⟩ := List.mem_map.mp inside
    have absolute := Path.isAbsolute_join (isAbsolute_nodeModules directory d above)
      (splitPackage specifier).1
    unfold packageBases at member
    split at member
    · exact absurd member List.not_mem_nil
    · split at member
      · rw [List.mem_singleton.mp member]
        exact Path.isAbsolute_join absolute _
      · rcases List.mem_append.mp member with member | member
        · obtain ⟨main, _, rfl⟩ := Option.map_eq_some_iff.mp (Option.mem_toList.mp member)
          obtain ⟨names, _, normal⟩ := Path.normalize_of_isAbsolute (Path.isAbsolute_join absolute main)
          rw [normal]
          exact Path.isAbsolute_iff.mpr ⟨_, Path.text_ofNames names⟩
        · rw [List.mem_singleton.mp member]
          exact Path.isAbsolute_join absolute _

/-! ## The place of a project -/

/-- The root lies two levels above the entry, which is a normal path from the top. -/
structure Placed (p : Project) : Prop where
  entry : ∃ names, Path.AreNames names ∧ p.entry = Path.ofNames names
  root : p.root = p.entry.normalize.projectRoot

/-- The root of a normal entry is two names above it. -/
theorem root_of_entry {names : List String} (areNames : Path.AreNames names) :
    (Path.ofNames names).normalize.projectRoot = Path.ofNames names.dropLast.dropLast := by
  rw [Path.normalize_of_components (Path.components_ofNames areNames), Path.projectRoot_ofNames areNames]

theorem root_of_placed {p : Project} (placed : p.Placed) :
    ∃ names, Path.AreNames names ∧ p.root = Path.ofNames names := by
  obtain ⟨names, areNames, entry⟩ := placed.entry
  rw [placed.root, entry, root_of_entry areNames]
  exact ⟨_, fun n member => areNames n
    ((List.dropLast_sublist _).mem ((List.dropLast_sublist _).mem member)), rfl⟩

theorem root_of_prepare {entry : Path} {overrideSet : Option String}
    {service : Option OverrideService} {policy : OverridePolicy} {sources : Sources}
    (prepared : Sources.prepare entry overrideSet service policy = .ok sources) :
    sources.root = entry.normalize.projectRoot := by
  unfold Sources.prepare at prepared
  split at prepared
  · rw [← Except.ok.inj prepared, Sources.diskOnly]
  · rw [← Except.ok.inj prepared, Sources.diskOnly]
  · rw [← Except.ok.inj prepared, Sources.withOverrides, Sources.diskOnly]
  · split at prepared
    · exact absurd prepared (by simp)
    · rw [← Except.ok.inj prepared, Sources.diskOnly]

/-- Prepared sources place a project. -/
theorem placed_of_prepare (directory path : Path) (absolute : directory.isAbsolute = true)
    {overrideSet : Option String} {service : Option OverrideService} {policy : OverridePolicy}
    {sources : Sources} (prepared : Sources.prepare (Path.absolute directory path) overrideSet service
      policy = .ok sources) (files : Files.Tree) (options : Options) (hosts : List String) :
    Placed ⟨Path.absolute directory path, files, sources, options, hosts⟩ where
  entry := by
    unfold Path.absolute
    split
    case isTrue here => exact Path.normalize_of_isAbsolute here
    case isFalse => exact Path.normalize_of_isAbsolute (Path.isAbsolute_join absolute path.text)
  root := root_of_prepare prepared

end Project

end JsxPreview.Bundle
