import JsxPreview.Proofs.Bundle.Bases
import JsxPreview.Proofs.Bundle.Reach
import JsxPreview.Proofs.Path.Diff
import JsxPreview.Proofs.Path.Relative
import Mathlib.Data.List.Nodup

/-! # One module a file

Loading tells places apart by their components, and the modules of a bundle are registered under ids.
An id names one place among the paths that do not climb (`moduleId_injective`), so that no id is given
twice as long as no base path climbs (`Level`).  Base paths of path specifiers and of manifests are
normal; what stands behind the name of a package is joined as it is written, and can climb.

An id is written behind `./` for what lies below the root, and from the top for all else.  Both are what
the specifier of a path looks like, so none is ever a specifier that is left for the outside, and normal
paths have ids of their own (`moduleId_faithful`). -/
set_option autoImplicit false
namespace JsxPreview

namespace Path

theorem joinComponents_root (names : List String) :
    (joinComponents (.root :: named names)).toList =
      '/' :: (if names = [] then [] else '/' :: (joinComponents (named names)).toList) := by
  rw [joinComponents, List.map_cons, text_named, String.toList_intercalate]
  cases names with
  | nil => rfl
  | cons n names =>
      rw [List.map_cons, List.map_cons, List.intercalate_cons_cons, if_neg (List.cons_ne_nil _ _),
        joinComponents_named, joinWith_eq]
      rfl

variable {names names' : List String}

theorem joinRoot_injective (areNames : AreNames names) (areNames' : AreNames names')
    (same : joinComponents (.root :: named names) = joinComponents (.root :: named names')) :
    names = names' := by
  have texts := congrArg String.toList same
  rw [joinComponents_root, joinComponents_root, List.cons.injEq] at texts
  have texts := texts.2
  split at texts
  case isTrue none =>
    split at texts
    · rw [none, ‹names' = []›]
    · exact nomatch texts
  case isFalse =>
    split at texts
    · exact nomatch texts
    · exact joinNames_injective areNames areNames' (String.toList_injective (List.cons.inj texts).2)

/-- What two paths go on with behind the same components is told by its text. -/
theorem joinRest_injective {above rest rest' : List Component} (areNames : AreNames names)
    (areNames' : AreNames names') (split : .root :: named names = above ++ rest)
    (split' : .root :: named names' = above ++ rest')
    (same : joinComponents rest = joinComponents rest') : names = names' := by
  cases above with
  | nil =>
      rw [List.nil_append] at split split'
      rw [← split, ← split'] at same
      exact joinRoot_injective areNames areNames' same
  | cons c above =>
      rw [List.cons_append, List.cons.injEq] at split split'
      obtain ⟨front, behind, rfl, start, rfl⟩ := List.map_eq_append_iff.mp split.2
      obtain ⟨front', behind', rfl, start', rfl⟩ := List.map_eq_append_iff.mp split'.2
      have equal : front = front' :=
        (List.map_inj_right fun _ _ => Component.name.inj).mp (start.trans start'.symm)
      have below : AreNames behind := fun n member => areNames n (List.mem_append_right _ member)
      have below' : AreNames behind' :=
        fun n member => areNames' n (List.mem_append_right _ member)
      rw [equal, joinNames_injective below below' same]

/-- The components of a path from the top are written from the top. -/
theorem isAbsolute_toSlash {q : Path} (absolute : q.isAbsolute = true) :
    Path.isAbsolute ⟨q.toSlash⟩ = true := by
  obtain ⟨s, text⟩ := isAbsolute_iff.mp absolute
  have fromTop (texts : List String) :
      (String.intercalate "/" ("/" :: texts)).toList.head? = some '/' := by
    rw [String.toList_intercalate]
    cases texts with
    | nil => rfl
    | cons t texts =>
        rw [List.map_cons, List.map_cons, List.intercalate_cons_cons]
        rfl
  rw [toSlash, joinComponents, components_of_text text]
  exact beq_iff_eq.mpr (fromTop _)

end Path

namespace Bundle.Project

open JsxPreview.Path JsxPreview.Files

variable {p : Project}

/-! ## Ids -/

/-- The id of a path that does not climb: what it has behind the root, or all of it. -/
theorem moduleId_cases {names : List String} {q : Path}
    (components : q.components = .root :: named names) (areNames : AreNames names) :
    (∃ rest, .root :: named names = p.root.normalize.components ++ rest ∧
      p.moduleId q = "./" ++ joinComponents rest) ∨
      p.moduleId q = joinComponents (.root :: named names) := by
  unfold moduleId
  rw [relativeTo, normalize_of_components components, components_ofNames areNames]
  cases below : below? p.root.normalize.components (.root :: named names) with
  | none =>
      refine .inr ?_
      rw [← components]
      rfl
  | some rest => exact .inl ⟨rest, below?_eq_some.mp below, rfl⟩

/-- Paths that do not climb and have one id have the same names. -/
theorem names_of_moduleId {names names' : List String} {q r : Path}
    (components : q.components = .root :: named names) (areNames : AreNames names)
    (components' : r.components = .root :: named names') (areNames' : AreNames names')
    (same : p.moduleId q = p.moduleId r) : names = names' := by
  have apart (rest : List Component) (ns : List String) :
      "./" ++ joinComponents rest ≠ joinComponents (.root :: named ns) := by
    intro equal
    have := congrArg String.toList equal
    rw [joinComponents_root, String.toList_append] at this
    exact absurd (List.cons.inj this).1 (by decide)
  rcases moduleId_cases (p := p) components areNames with ⟨rest, split, id⟩ | id
  · rcases moduleId_cases (p := p) components' areNames' with ⟨rest', split', id'⟩ | id'
    · rw [id, id', String.append_right_inj] at same
      exact joinRest_injective areNames areNames' split split' same
    · rw [id, id'] at same
      exact absurd same (apart _ _)
  · rcases moduleId_cases (p := p) components' areNames' with ⟨rest', split', id'⟩ | id'
    · rw [id, id'] at same
      exact absurd same.symm (apart _ _)
    · rw [id, id'] at same
      exact joinRoot_injective areNames areNames' same

/-- Paths that do not climb and have one id name one place. -/
theorem moduleId_injective {q r : Path} (levelQ : q.PartsAre (· ≠ ['.', '.']))
    (levelR : r.PartsAre (· ≠ ['.', '.'])) (same : p.moduleId q = p.moduleId r) :
    q.isSame r = true := by
  obtain ⟨names, components, areNames⟩ := components_of_level levelQ
  obtain ⟨names', components', areNames'⟩ := components_of_level levelR
  rw [isSame_iff, components, components',
    names_of_moduleId components areNames components' areNames' same]

/-! ## Places in reach start at the top -/

theorem isAbsolute_root (placed : p.Placed) : p.root.isAbsolute = true := by
  obtain ⟨names, _, root⟩ := root_of_placed placed
  rw [root]
  exact isAbsolute_ofNames names

theorem isAbsolute_entry (placed : p.Placed) : p.entry.isAbsolute = true := by
  obtain ⟨names, _, entry⟩ := placed.entry
  rw [entry]
  exact isAbsolute_ofNames names

theorem reaches_isAbsolute (placed : p.Placed) {q : Path} {cache : Option Cache}
    (reaches : p.Reaches cache q) : q.isAbsolute = true := by
  induction reaches with
  | entry => exact isAbsolute_entry placed
  | next _ depends ih =>
      obtain ⟨_, _, d, _, resolved⟩ := depends
      rcases target_of_resolve resolved with rfl | ⟨base, isBase, candidate⟩
      · exact isAbsolute_join (isAbsolute_root placed) _
      · obtain ⟨s, text⟩ := isAbsolute_iff.mp (isAbsolute_bases ih base isBase)
        have parts : base.PartsAre fun _ => True := ⟨s, text, fun _ _ => trivial⟩
        exact (partsAre_candidates (fun _ _ _ => trivial) parts _ candidate).isAbsolute

/-! ## Places that do not climb -/

/-- No base path of a module in reach climbs. -/
def Level (p : Project) (cache : Option Cache) : Prop :=
  ∀ q, p.Reaches cache q → ∀ m, p.module? cache q = some m → ∀ d ∈ m.dependencies,
    ∀ base ∈ p.bases d.specifier q, ['.', '.'] ∉ base.parts

theorem level_lasting : Lasting (· ≠ ['.', '.']) := by
  rintro name long _ rfl
  exact absurd long (by decide)

theorem renderer_level (placed : p.Placed) : p.renderer.PartsAre (· ≠ ['.', '.']) := by
  obtain ⟨start, areStart, root⟩ := root_of_placed placed
  rw [renderer, rendererPath, root]
  exact (ofNames_level areStart).join (by decide) (by decide)

theorem reaches_level (placed : p.Placed) {cache : Option Cache} (level : p.Level cache) {q : Path}
    (reaches : p.Reaches cache q) : q.PartsAre (· ≠ ['.', '.']) := by
  induction reaches with
  | entry =>
      obtain ⟨names, areNames, entry⟩ := placed.entry
      rw [entry]
      exact ofNames_level areNames
  | next near depends ih =>
      obtain ⟨m, found, d, member, resolved⟩ := depends
      rcases target_of_resolve resolved with rfl | ⟨base, isBase, candidate⟩
      · exact renderer_level placed
      · obtain ⟨s, text⟩ := isAbsolute_iff.mp (isAbsolute_bases ih.isAbsolute base isBase)
        have flat := level _ near m found d member base isBase
        rw [parts_of_text text] at flat
        refine partsAre_candidates level_lasting ⟨s, text, fun part inside same => flat ?_⟩ _ candidate
        rw [← same]
        exact List.mem_cons_of_mem _ inside

/-- A module in the place of the renderer has the text of the renderer. -/
theorem source_of_renderer {cache : Option Cache} {q : Path} {m : Module}
    (found : p.module? cache q = some m) (same : q.isSame p.renderer = true) :
    m.source = rendererText := by
  unfold module? Project.read at found
  rw [if_pos same] at found
  obtain ⟨loader, text, body, _, _, rfl⟩ := parse_steps (ok_of_toOption found)
  rfl

/-- As long as no base path climbs, a bundle lists no id twice.  A module with the id of the renderer
has the text of the renderer, and there is one when a module depends on the reserved specifier. -/
theorem bundle_modules_distinct (p : Project) (cache : Option Cache) (placed : p.Placed)
    (level : p.Level cache) (artifact : Artifact)
    (success : (p.bundle cache).1 = some (.ok artifact)) :
    artifact.modules.Nodup ∧ ∃ modules, artifact = p.emit modules ∧
      (∀ m ∈ modules, m.id = p.moduleId p.renderer → m.source = rendererText) ∧
      ∀ m ∈ modules, ∀ d ∈ m.dependencies,
        classify d.specifier p.options.renderSpecifier p.hosts = .reserved →
          p.moduleId p.renderer ∈ artifact.modules := by
  obtain ⟨l, loaded, ⟨none, same⟩ | ⟨_, absurd⟩⟩ := load_of_bundle success
  case inr => exact nomatch absurd
  cases same
  obtain ⟨places, reached, _, complete, linked⟩ := reached_of_load loaded
  have complete := complete none
  have flat : ∀ q ∈ places, q.PartsAre (· ≠ ['.', '.']) :=
    fun q member => reaches_level placed level (reached.reaches q member)
  have ids := modules_of_linked complete linked
  have listed : ∀ m ∈ l.modules, m.path ∈ places := by
    intro m member
    rw [← complete]
    exact List.mem_map_of_mem member
  refine ⟨?_, l.modules, rfl, ?_, ?_⟩
  · rw [ids, List.Nodup, List.pairwise_map]
    exact reached.distinct.imp_of_mem fun here there apart equal =>
      apart (moduleId_injective (flat _ here) (flat _ there) equal)
  · intro m member id
    obtain ⟨m₀, found, same⟩ := (linked m member).parsed
    rw [(linked m member).id] at id
    have there := moduleId_injective (flat _ (listed m member)) (renderer_level placed) id
    have source : m.source = m₀.source := by rw [same]
    exact source.trans (source_of_renderer found there)
  · intro m member d depends reserved
    obtain ⟨m₀, found, same⟩ := (linked m member).dependencies
    have resolved : p.resolve d.specifier m.path = some (.module p.renderer) := by
      rw [resolve_eq, reserved]
    obtain ⟨r, inside, isSame⟩ := reached.closed m.path (listed m member) p.renderer
      ⟨m₀, found, d, same ▸ depends, resolved⟩
    rw [ids, ← p.moduleId_congr isSame]
    exact List.mem_map_of_mem inside

end Bundle.Project

namespace Bundle

open JsxPreview.Path JsxPreview.Files JsxPreview.Source

/-! ## One file under two names -/

/-- A script that asks for the file of a package with a climb on the way. -/
def padProject (source : String) : Project where
  entry := ⟨"/p/t/a.js"⟩
  files := { nodes := [(["p"], .directory), (["p", "t"], .directory),
    (["p", "t", "a.js"], .file ⟨1, source.utf8ByteSize⟩ (some source)),
    (["p", "node_modules"], .directory), (["p", "node_modules", "pad"], .directory),
    (["p", "node_modules", "pad", "lib"], .directory),
    (["p", "node_modules", "pad", "x.json"], .file ⟨2, 1⟩ (some "1"))], clock := 2 }
  sources := .diskOnly ⟨"/p/t/a.js"⟩
  options := { injectRenderExport := false }

theorem padProject_leaf (source : String) (path : Path)
    (read : ((padProject source).read none path).1 = .ok "1")
    (offered : Loader.ofPath path = .ok .json) :
    ∃ m, (padProject source).module? none path = some m ∧ m.dependencies = [] :=
  Project.module?_data _ read offered (by decide)

theorem padProject_placed (source : String) : (padProject source).Placed :=
  have prepared : Sources.prepare (Path.absolute ⟨"/"⟩ ⟨"/p/t/a.js"⟩) none none .fail =
      .ok (padProject source).sources := rfl
  Project.placed_of_prepare ⟨"/"⟩ ⟨"/p/t/a.js"⟩ rfl prepared _ _ _

/-- A name with a climb leads to the file under a second path with the same id. -/
def twice : String := "require('pad/x.json');require('pad/lib/../x.json')"

theorem bundle_modules_twice :
    ∃ artifact, ((padProject twice).bundle none).1 = some (.ok artifact) ∧
      ¬ artifact.modules.Nodup := by
  obtain ⟨m, found, dependencies⟩ : ∃ m, (padProject twice).module? none ⟨"/p/t/a.js"⟩ = some m ∧
      m.dependencies =
        [⟨"pad/x.json", 8, .requireCall⟩, ⟨"pad/lib/../x.json", 30, .requireCall⟩] :=
    Project.module?_script twice rfl rfl (by decide) (by decide +kernel)
  have plain : (padProject twice).resolve "pad/x.json" ⟨"/p/t/a.js"⟩ =
      some (.module ⟨"/p/node_modules/pad/x.json"⟩) := by decide
  have climbs : (padProject twice).resolve "pad/lib/../x.json" ⟨"/p/t/a.js"⟩ =
      some (.module ⟨"/p/node_modules/pad/lib/../x.json"⟩) := by decide
  let leaves : List Path := [⟨"/p/node_modules/pad/x.json"⟩, ⟨"/p/node_modules/pad/lib/../x.json"⟩]
  have leads : ∀ d ∈ m.dependencies, ∃ t ∈ leaves,
      (padProject twice).resolve d.specifier ⟨"/p/t/a.js"⟩ = some (.module t) := by
    rw [dependencies]
    intro d member
    rcases List.mem_cons.mp member with rfl | member
    · exact ⟨_, List.mem_cons_self .., plain⟩
    · rw [List.mem_singleton.mp member]
      exact ⟨_, List.mem_cons_of_mem _ (List.mem_singleton_self _), climbs⟩
  have last : ∀ t ∈ leaves, ∃ m, (padProject twice).module? none t = some m ∧
      m.dependencies = [] := by
    intro t member
    rcases List.mem_cons.mp member with rfl | member
    · exact padProject_leaf twice _ rfl rfl
    · rw [List.mem_singleton.mp member]
      exact padProject_leaf twice _ rfl rfl
  have inReach {q : Path} (reaches : (padProject twice).Reaches none q) :=
    Project.reaches_of_leaves leaves found leads last reaches
  obtain ⟨places, reached, succeeds, _⟩ := Project.bundle_of_finite fun q reaches =>
    ⟨q, (inReach reaches).1, Path.isSame_iff.mpr rfl⟩
  obtain ⟨artifact, bundled, ids⟩ := succeeds fun q member => (inReach (reached.reaches q member)).2
  refine ⟨artifact, bundled, fun nodup => ?_⟩
  have entry : (padProject twice).entry ∈ places := List.mem_of_head? reached.entry
  obtain ⟨r, here, same⟩ := reached.closed _ entry ⟨"/p/node_modules/pad/x.json"⟩
    ⟨m, found, _, dependencies ▸ List.mem_cons_self .., plain⟩
  obtain ⟨r', there, same'⟩ := reached.closed _ entry ⟨"/p/node_modules/pad/lib/../x.json"⟩
    ⟨m, found, _, dependencies ▸ List.mem_cons_of_mem _ (List.mem_singleton_self _), climbs⟩
  have id : (padProject twice).moduleId r = (padProject twice).moduleId r' := by
    rw [Project.moduleId_congr _ same, Project.moduleId_congr _ same']
    decide
  rw [ids] at nodup
  have one : r = r' := List.inj_on_of_nodup_map nodup here there id
  subst one
  exact absurd (Path.isSame_trans (Path.isSame_symm same) same') (by decide)

/-- Two names without a climb lead to one path. -/
def once : String := "require('pad/x.json');require('../node_modules/pad/x.json')"

theorem bundle_modules_distinct_once : (padProject once).Placed ∧ (padProject once).Level none ∧
    ∃ artifact, ((padProject once).bundle none).1 = some (.ok artifact) ∧ artifact.modules.Nodup := by
  obtain ⟨m, found, dependencies⟩ : ∃ m, (padProject once).module? none ⟨"/p/t/a.js"⟩ = some m ∧
      m.dependencies =
        [⟨"pad/x.json", 8, .requireCall⟩, ⟨"../node_modules/pad/x.json", 30, .requireCall⟩] :=
    Project.module?_script once rfl rfl (by decide) (by decide +kernel)
  obtain ⟨data, foundData, leaf⟩ := padProject_leaf once ⟨"/p/node_modules/pad/x.json"⟩ rfl rfl
  have leads : ∀ d ∈ m.dependencies,
      (padProject once).resolve d.specifier ⟨"/p/t/a.js"⟩ =
        some (.module ⟨"/p/node_modules/pad/x.json"⟩) ∧
      ∀ base ∈ (padProject once).bases d.specifier ⟨"/p/t/a.js"⟩, ['.', '.'] ∉ base.parts := by
    rw [dependencies]
    decide
  have last : ∀ t ∈ [(⟨"/p/node_modules/pad/x.json"⟩ : Path)],
      ∃ m, (padProject once).module? none t = some m ∧ m.dependencies = [] := by
    intro t member
    rw [List.mem_singleton.mp member]
    exact ⟨data, foundData, leaf⟩
  have inReach {q : Path} (reaches : (padProject once).Reaches none q) :=
    Project.reaches_of_leaves _ found
      (fun d member => ⟨_, List.mem_singleton_self _, (leads d member).1⟩) last reaches
  have placed := padProject_placed once
  have level : (padProject once).Level none := by
    intro q reaches m' found' d member
    rcases List.mem_cons.mp (inReach reaches).1 with rfl | isData
    · rw [show (padProject once).entry = ⟨"/p/t/a.js"⟩ from rfl, found] at found'
      cases found'
      exact (leads d member).2
    · rw [List.mem_singleton.mp isData, foundData] at found'
      cases found'
      exact absurd (leaf ▸ member) List.not_mem_nil
  obtain ⟨places, reached, succeeds, _⟩ := Project.bundle_of_finite fun q reaches =>
    ⟨q, (inReach reaches).1, Path.isSame_iff.mpr rfl⟩
  obtain ⟨artifact, bundled, _⟩ := succeeds fun q member => (inReach (reached.reaches q member)).2
  exact ⟨placed, level, artifact, bundled,
    (Project.bundle_modules_distinct (padProject once) none placed level artifact bundled).1⟩

end Bundle

namespace Bundle.Project

open JsxPreview.Path JsxPreview.Files

variable {p : Project}

/-! ## Names for the outside -/

/-- What looks like a path is looked for as one, unless it is reserved. -/
theorem classify_ne_outside {specifier : String} (isPath : isPathSpecifier specifier = true)
    (reserved : String) (hosts : List String) :
    classify specifier reserved hosts ≠ .outside := by
  unfold classify
  rw [if_pos isPath]
  split <;> nofun

theorem isPathSpecifier_moduleId {q : Path} (absolute : q.isAbsolute = true) :
    isPathSpecifier (p.moduleId q) = true := by
  unfold moduleId
  cases p.root.relativeTo q with
  | some place =>
      have here : Text.startsWith ("./" ++ place) "./" = true := by
        rw [Text.startsWith, String.toList_append]
        rfl
      rw [isPathSpecifier, here]
      rfl
  | none =>
      rw [isPathSpecifier, isAbsolute_toSlash absolute]
      exact Bool.or_true _

/-- A module of the host, and a file of its name. -/
def hosted : String := "require('fs')"

end Bundle.Project

end JsxPreview
