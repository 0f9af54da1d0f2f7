import JsxPreview.Proofs.Bundle.Identity
import JsxPreview.Proofs.Bundle.Mapped
import JsxPreview.Proofs.Path.Diff
import JsxPreview.SourceMap.Document

/-! # Rebased maps

The map of a bundle names its sources as seen from the directory of the output.  That directory is the
one of the place of the map, however the output is given, so `rebase` finds the files again: the
sources of a rebased map are the normal paths of the modules (`bundle_map_rebased`).  Rebasing again
changes nothing (`rebase_rebase`). -/
set_option autoImplicit false
namespace JsxPreview

open JsxPreview.Path JsxPreview.Text

namespace SourceMap

theorem rebasedSource_eq {directory : Path} (absolute : directory.isAbsolute = true)
    (source : String) : ∃ names, AreNames names ∧
      rebasedSource directory source = (ofNames names).text := by
  unfold rebasedSource
  split
  case isTrue itself =>
    obtain ⟨names, areNames, normal⟩ := normalize_of_isAbsolute itself
    exact ⟨names, areNames, congrArg Path.text normal⟩
  case isFalse =>
    obtain ⟨names, areNames, normal⟩ := normalize_of_isAbsolute (isAbsolute_join absolute source)
    exact ⟨names, areNames, congrArg Path.text normal⟩

theorem rebasedSource_ofNames (directory : Path) {names : List String} (areNames : AreNames names) :
    rebasedSource directory (ofNames names).text = (ofNames names).text := by
  rw [rebasedSource, if_pos (isAbsolute_ofNames names), normalize_ofNames areNames]

/-- A map that was rebased stays as it is. -/
theorem rebase_rebase (m : SourceMap) {mapPath : Path} (absolute : mapPath.isAbsolute = true) :
    (m.rebase mapPath).rebase mapPath = m.rebase mapPath := by
  unfold rebase
  simp only [List.map_map]
  congr 1
  refine List.map_congr_left fun source _ => ?_
  obtain ⟨names, areNames, same⟩ := rebasedSource_eq (isAbsolute_parentDir absolute) source
  rw [Function.comp_apply, same, rebasedSource_ofNames _ areNames]

end SourceMap

namespace Bundle.Project

variable {p : Project} {cache : Option Files.Cache}

/-! ## The place of the map -/

theorem not_mem_stem (placed : p.Placed) {stem : String} (found : p.entry.stem? = some stem) :
    '/' ∉ stem.toList := by
  obtain ⟨s, text⟩ := isAbsolute_iff.mp (isAbsolute_entry placed)
  obtain ⟨name, isFile, rfl⟩ := Option.map_eq_some_iff.mp found
  intro member
  rcases mem_splitName member with inName | dot
  · exact not_mem_splitOn _ (fileName?_mem text isFile) inName
  · exact absurd dot (by decide)

theorem areNames_mapName (placed : p.Placed) : AreNames [p.codeName ++ ".map"] := by
  intro n member
  rw [List.mem_singleton.mp member]
  have text : (p.codeName ++ ".map").toList =
      (p.entry.stem?.getD "index").toList ++ ".js.map".toList := by
    rw [codeName, String.toList_append, String.toList_append, List.append_assoc]
    rfl
  have long : 7 ≤ (p.codeName ++ ".map").toList.length := by
    rw [text, List.length_append]
    exact Nat.le_add_left _ _
  refine ⟨⟨?_, ?_⟩, ?_⟩
  · rw [isIdle, Bool.or_eq_false_iff, beq_eq_false_iff_ne, beq_eq_false_iff_ne]
    constructor
    · intro empty
      rw [empty] at long
      exact absurd long (by decide)
    · intro dot
      rw [dot] at long
      exact absurd long (by decide)
  · intro climb
    rw [climb] at long
    exact absurd long (by decide)
  · rw [text, List.mem_append, not_or]
    refine ⟨?_, by decide⟩
    cases found : p.entry.stem? with
    | none => decide
    | some stem => exact not_mem_stem placed found

theorem isAbsolute_outDir (placed : p.Placed) : p.outDir.isAbsolute = true :=
  isAbsolute_join (isAbsolute_root placed) _

/-- With the default output, the map lies two levels below the root. -/
theorem projectRoot_mapPath (placed : p.Placed)
    (default : p.options.outDir = ({} : Options).outDir) :
    (p.outDir.join (p.codeName ++ ".map")).projectRoot = p.entry.projectRoot := by
  obtain ⟨names, areNames, entry⟩ := placed.entry
  have root : p.root = ofNames names.dropLast.dropLast := by
    rw [placed.root, entry, root_of_entry areNames]
  have areAbove : AreNames names.dropLast.dropLast := fun n member =>
    areNames n ((List.dropLast_sublist _).mem ((List.dropLast_sublist _).mem member))
  have directory : p.outDir.components =
      .root :: named (names.dropLast.dropLast ++ [".preview-out"]) := by
    rw [outDir, default, components_join_name (isAbsolute_root placed) (by decide), root,
      components_ofNames areAbove, named, named, List.map_append]
    rfl
  have place : (p.outDir.join (p.codeName ++ ".map")).components =
      .root :: named (names.dropLast.dropLast ++ [".preview-out"] ++ [p.codeName ++ ".map"]) := by
    rw [components_join_name (isAbsolute_outDir placed) (areNames_mapName placed), directory]
    simp [named]
  rw [projectRoot_of_components (isAbsolute_join (isAbsolute_outDir placed) _) place,
    List.dropLast_concat, List.dropLast_concat, entry, projectRoot_ofNames areNames]

/-! ## The sources of a bundle -/

theorem files_of_emit (p : Project) (modules : List Module) :
    (p.emit modules).map.sources = modules.map (p.outDir.diff ·.path) ∧
      (p.emit modules).map.sourcesContent = some (modules.map (some ·.source)) := by
  obtain ⟨sources, contents⟩ := Prod.mk.inj (files_begun p modules)
  exact ⟨sources, congrArg some contents⟩

/-- A source of a bundle is rebased to the normal path of its module. -/
theorem rebasedSource_diff (placed : p.Placed) {q : Path} (absolute : q.isAbsolute = true) :
    SourceMap.rebasedSource (p.outDir.join (p.codeName ++ ".map")).parentDir (p.outDir.diff q) =
      q.normalize.text := by
  have top := isAbsolute_outDir placed
  have directory := components_parentDir_join top (areNames_mapName placed)
  obtain ⟨relative, leads⟩ :=
    normalize_join_diff top (isAbsolute_parentDir (isAbsolute_join top _)) directory absolute
  rw [SourceMap.rebasedSource, relative, if_neg Bool.false_ne_true, leads]

/-- A value whose bundle would be written beside its project. -/
def dataProject : Project where
  entry := ⟨"/p/t/a.json"⟩
  files := { nodes := [(["p"], .directory), (["p", "t"], .directory),
    (["p", "t", "a.json"], .file ⟨1, 1⟩ (some "1"))], clock := 1 }
  sources := .diskOnly ⟨"/p/t/a.json"⟩
  options := { outDir := "../out" }

theorem dataProject_placed : dataProject.Placed where
  entry := ⟨["p", "t", "a.json"], by decide, by decide⟩
  root := rfl

theorem dataProject_loads : ∃ l m, dataProject.loadAll none = some l ∧ l.errors = [] ∧
    l.modules = [m] ∧ m.path = ⟨"/p/t/a.json"⟩ ∧ m.source = "1" := by
  have body : dataProject.parseBody ⟨"/p/t/a.json"⟩ .json "1" "1" = .ok .data := by
    have number : (Json.parse "1").toOption.isSome = true := by decide
    obtain ⟨v, parsed⟩ := Option.isSome_iff_exists.mp number
    rw [parseBody, if_pos rfl, parseData, ok_of_toOption parsed]
  have parsed := parse_of_steps (show Loader.ofPath ⟨"/p/t/a.json"⟩ = .ok .json from rfl) rfl body
  have read : dataProject.read none ⟨"/p/t/a.json"⟩ = (.ok "1", none) := rfl
  have first : Loading.load dataProject { queue := [], asked := [dataProject.entry] }
      ⟨⟨"/p/t/a.json"⟩, none⟩ = _ := Loading.load_of_parse read parsed
  have loaded : dataProject.loadAll none = Loading.run dataProject (Loading.load dataProject
      { queue := [], asked := [dataProject.entry] } ⟨⟨"/p/t/a.json"⟩, none⟩) := Loading.run_next rfl
  rw [first, Loading.run_done rfl] at loaded
  exact ⟨_, _, loaded, rfl, rfl, rfl, rfl⟩

end Bundle.Project

end JsxPreview
