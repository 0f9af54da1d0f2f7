import JsxPreview.Proofs.Bundle.Publishing

/-! # A bundle with edits

Projects that share their entry, their root and their options parse and write modules alike
(`parse_congr`, `emit_congr`).  Where specifiers lead to the same places, and plain paths read alike, a
load with edits keeps step with a load over the files that the edits are written to
(`load_publish`), and both give one bundle. -/
set_option autoImplicit false
namespace JsxPreview.Bundle

open JsxPreview.Path JsxPreview.Files JsxPreview.Source JsxPreview.Text

namespace Project

/-! ## What files do not matter for -/

/-- Projects that differ in their files alone. -/
structure Alike (p p' : Project) : Prop where
  entry : p.entry = p'.entry
  root : p.root = p'.root
  options : p.options = p'.options
  hosts : p.hosts = p'.hosts

variable {p p' : Project}

theorem Alike.moduleId (alike : p.Alike p') : p.moduleId = p'.moduleId := by
  funext path
  unfold Project.moduleId
  rw [alike.root]

theorem Alike.location (alike : p.Alike p') : p.location = p'.location := by
  funext path source offset
  unfold Project.location shownPath
  rw [alike.root]

theorem Alike.headerOptions (alike : p.Alike p') : p.headerOptions = p'.headerOptions := by
  funext path
  unfold Project.headerOptions
  rw [alike.entry, alike.options]

theorem Alike.parseBody (alike : p.Alike p') : p.parseBody = p'.parseBody := by
  funext path loader source text
  unfold Project.parseBody parseData parseCode located
  rw [alike.location, alike.headerOptions]

theorem Alike.parse (alike : p.Alike p') : p.parse = p'.parse := by
  funext path source
  unfold Project.parse parsedText located
  rw [alike.location, alike.parseBody, alike.moduleId]

theorem Alike.emit (alike : p.Alike p') : p.emit = p'.emit := by
  funext modules
  unfold Project.emit codeName outDir
  rw [alike.moduleId, alike.entry, alike.root, alike.options]

end Project

namespace Loading

variable {p p' : Project}

/-- Dependencies that resolve alike are linked alike. -/
theorem foldl_link_congr (alike : p.Alike p') {q : Path} (ds : List Dependency)
    (resolves : ∀ d ∈ ds, p.resolve d.specifier q = p'.resolve d.specifier q) :
    ∀ (l : Loading) (m : Module), m.path = q →
      ds.foldl (link p) (l, m) = ds.foldl (link p') (l, m) := by
  induction ds with
  | nil => exact fun _ _ _ => rfl
  | cons d ds ih =>
      intro l m place
      have step : link p (l, m) d = link p' (l, m) d := by
        unfold link
        simp only
        rw [place, resolves d (List.mem_cons_self ..), alike.location, alike.moduleId]
      have kept : (link p (l, m) d).2.path = q := by
        rw [(link_links p l m d).2, led_path, place]
      rw [List.foldl_cons, List.foldl_cons, ← step]
      exact ih (fun d member => resolves d (List.mem_cons_of_mem _ member)) _ _ kept

/-- A place that reads alike, and whose dependencies resolve alike, is loaded alike. -/
theorem load_congr (alike : p.Alike p') {l : Loading} (uncached : l.cache = none) {r : Request}
    (read : (p.read none r.path).1.toOption = (p'.read none r.path).1.toOption)
    (resolves : ∀ m, p.module? none r.path = some m → ∀ d ∈ m.dependencies,
      p.resolve d.specifier r.path = p'.resolve d.specifier r.path) :
    load p l r = load p' l r := by
  unfold load
  rw [uncached, p.read_none, p'.read_none]
  simp only
  unfold Project.module? at resolves
  cases first : (p.read none r.path).1 with
  | error e =>
      rw [first] at read
      cases second : (p'.read none r.path).1 with
      | error e' => rfl
      | ok text =>
          rw [second] at read
          exact nomatch read
  | ok text =>
      rw [first] at read resolves
      rw [ok_of_toOption read.symm]
      simp only
      rw [← alike.parse]
      cases parsed : p.parse r.path text with
      | error e => rfl
      | ok m =>
          have resolves := resolves m (by simp only [parsed, Except.toOption])
          have place := (Project.parse_module parsed).1
          simp only
          rw [foldl_link_congr alike _ (fun d member => resolves d (distinct_subset _ _ d member)) _ _ place]

end Loading

namespace Project

variable {p : Project} {edits : List FileOverride}

/-- The project with edits and the one with the files differ in their files alone. -/
theorem alike_publish (p : Project) (edits : List FileOverride) :
    (p.withEdits edits).Alike (p.publish edits) where
  entry := by rw [withEdits, publish]
  root := (root_same p edits).symm
  options := by rw [withEdits, publish]
  hosts := by rw [withEdits, publish]

/-- All specifiers of modules in reach are plain. -/
def PlainSpecifiers (p : Project) : Prop :=
  ∀ q, p.Reaches none q → ∀ m, p.module? none q = some m → ∀ d ∈ m.dependencies,
    p.PlainSpecifier d.specifier q

theorem reaches_plain (publishable : p.Publishable edits)
    (plain : (p.withEdits edits).PlainSpecifiers) {q : Path}
    (reaches : (p.withEdits edits).Reaches none q) : q.IsPlain := by
  induction reaches with
  | entry =>
      have same : (p.withEdits edits).entry = p.entry := by rw [withEdits]
      rw [same]
      exact publishable.entry
  | next near depends ih =>
      obtain ⟨m, found, d, member, resolved⟩ := depends
      have isPlain := plain _ near m found d member
      rcases target_of_resolve resolved with same | ⟨base, isBase, candidate⟩
      · obtain ⟨start, areStart, root⟩ := root_names publishable
        have renderer : AreNames ["node_modules", "@preview", "render", "index.js"] := by decide
        have flat : ∀ n ∈ ["node_modules", "@preview", "render", "index.js"], '\\' ∉ n.toList := by
          decide
        refine ⟨start ++ ["node_modules", "@preview", "render", "index.js"],
          ⟨areNames_append areStart.areNames renderer, fun n member => ?_⟩, ?_⟩
        · exact (List.mem_append.mp member).elim (areStart.plain n) (flat n)
        · have text : "node_modules/@preview/render/index.js" = joinComponents
              (named ["node_modules", "@preview", "render", "index.js"]) := by decide
          rw [same, Project.renderer, rendererPath, root_withEdits, root, text]
          exact join_ofNames areStart.areNames renderer (List.cons_ne_nil _ _)
      · exact isPlain_candidates (isPlain_bases ih isPlain base isBase) _ candidate

/-- A place in reach is loaded with the edits as from the files. -/
theorem load_publish (publishable : p.Publishable edits) (keeps : p.KeepsPackages edits)
    (plain : (p.withEdits edits).PlainSpecifiers) {l : Loading} (uncached : l.cache = none)
    {r : Request} (reaches : (p.withEdits edits).Reaches none r.path) :
    Loading.load (p.withEdits edits) l r = Loading.load (p.publish edits) l r := by
  have isPlain := reaches_plain publishable plain reaches
  refine Loading.load_congr (alike_publish p edits) uncached (files_publish publishable isPlain).2 ?_
  intro m found d member
  exact resolve_publish publishable keeps isPlain (plain _ reaches m found d member)

/-- A bundle with edits is the bundle of the files to which the edits are written. -/
theorem bundle_publish (publishable : p.Publishable edits) (keeps : p.KeepsPackages edits)
    (plain : (p.withEdits edits).PlainSpecifiers) :
    ((p.withEdits edits).bundle none).1 = ((p.publish edits).bundle none).1 := by
  let R : Loading → Loading → Prop := fun l l' => l = l' ∧ l.cache = none ∧
    ∃ handled, Loading.Valid (p.withEdits edits) none handled l
  have step : ∀ {l l' r queue}, R l l' → l.queue = r :: queue →
      R (Loading.load (p.withEdits edits) { l with queue } r)
        (Loading.load (p.publish edits) { l' with queue } r) := by
    rintro l _ r queue ⟨rfl, uncached, handled, valid⟩ next
    have reaches : (p.withEdits edits).Reaches none r.path := by
      refine reaches_of_list valid.entry (fun front q back split some => ?_) r.path ?_
      · obtain ⟨r', inFront, _, depends⟩ := valid.behind front q back split some
        exact ⟨r', inFront, depends⟩
      · rw [valid.asked, next]
        exact List.mem_append_right _ (List.mem_cons_self ..)
    have read := (p.withEdits edits).read_none r.path
    refine ⟨load_publish publishable keeps plain (l := { l with queue }) uncached reaches, ?_, _,
      valid.load next⟩
    exact (Loading.load_cache (l := { l with queue }) (by rw [uncached]; exact read) read).1
  have started : R (Loading.start (p.withEdits edits) none) (Loading.start (p.publish edits) none) := by
    refine ⟨?_, rfl, [], Loading.valid_start⟩
    rw [Loading.start, Loading.start, (alike_publish p edits).entry]
  have queues : ∀ {l l'}, R l l' → l.queue = l'.queue := by
    intro l l' related
    rw [related.1]
  have related : Option.Rel R ((p.withEdits edits).loadAll none) ((p.publish edits).loadAll none) :=
    Loading.run_simulates queues step started
  have same : (p.withEdits edits).loadAll none = (p.publish edits).loadAll none := by
    revert related
    generalize (p.withEdits edits).loadAll none = first, (p.publish edits).loadAll none = second
    intro related
    cases related with
    | none => rfl
    | some related => rw [related.1]
  unfold bundle
  rw [same, (alike_publish p edits).emit]

end Project

/-! ## Edits of packages -/

/-- A script in a project with one package. -/
def editProject (source : String) : Project where
  entry := ⟨"/p/t/a.js"⟩
  files := { nodes := [(["p"], .directory), (["p", "t"], .directory),
    (["p", "t", "a.js"], .file ⟨1, source.utf8ByteSize⟩ (some source)),
    (["p", "t", "node_modules"], .directory), (["p", "t", "node_modules", "pad"], .directory),
    (["p", "t", "node_modules", "pad", "x.json"], .file ⟨2, 1⟩ (some "1"))], clock := 2 }
  sources := .diskOnly ⟨"/p/t/a.js"⟩
  options := { injectRenderExport := false }

theorem editProject_publishable {source : String} {edits : List FileOverride}
    (written : ∀ e ∈ published ⟨"/p/t/a.js"⟩ edits,
      ((editProject source).files.writeAll (published ⟨"/p/t/a.js"⟩ edits)).isFile e.1 = true) :
    (editProject source).Publishable edits where
  entry := ⟨["p", "t", "a.js"], ⟨by decide, by decide⟩,
    show (⟨"/p/t/a.js"⟩ : Path) = ofNames ["p", "t", "a.js"] by decide⟩
  closed := Tree.closed_of_nodes (by
    intro x member
    simp only [editProject, List.mem_cons, List.not_mem_nil, or_false] at member
    rcases member with rfl | rfl | rfl | rfl | rfl | rfl <;> rfl)
  written := written

/-- A file of a package is edited, and one that is not there yet, twice. -/
def someEdits : List FileOverride :=
  [⟨"t/b.json", "2"⟩, ⟨"t/node_modules/pad/x.json", "7"⟩, ⟨"./t//b.json", "3"⟩]

def someScript : String := "require('pad/x.json');require('./b.json')"

theorem bundle_publish_someEdits : (editProject someScript).Publishable someEdits ∧
    (editProject someScript).KeepsPackages someEdits ∧
    ((editProject someScript).withEdits someEdits).PlainSpecifiers ∧
    (((editProject someScript).withEdits someEdits).bundle none).1 =
      (((editProject someScript).publish someEdits).bundle none).1 := by
  let p := (editProject someScript).withEdits someEdits
  have publishable : (editProject someScript).Publishable someEdits :=
    editProject_publishable (by decide +kernel)
  have keeps : (editProject someScript).KeepsPackages someEdits := by
    unfold Project.KeepsPackages
    decide +kernel
  obtain ⟨m, found, dependencies⟩ : ∃ m, p.module? none ⟨"/p/t/a.js"⟩ = some m ∧
      m.dependencies = [⟨"pad/x.json", 8, .requireCall⟩, ⟨"./b.json", 30, .requireCall⟩] :=
    Project.module?_script someScript (by decide +kernel) rfl (by decide)
      (by decide +kernel)
  have leads : ∀ d ∈ m.dependencies,
      (∃ t ∈ [(⟨"/p/t/node_modules/pad/x.json"⟩ : Path), ⟨"/p/t/b.json"⟩],
        p.resolve d.specifier ⟨"/p/t/a.js"⟩ = some (.module t)) ∧
      (∀ text ∈ (splitPackage d.specifier).1 :: (splitPackage d.specifier).2.toList,
        classify d.specifier p.options.renderSpecifier p.hosts = .package →
          ∀ part ∈ splitOn '/' text.toList, IsName part) ∧
      ∀ base ∈ p.bases d.specifier ⟨"/p/t/a.js"⟩, '\\' ∉ base.text.toList := by
    rw [dependencies]
    decide +kernel
  have last : ∀ t ∈ [(⟨"/p/t/node_modules/pad/x.json"⟩ : Path), ⟨"/p/t/b.json"⟩],
      ∃ m, p.module? none t = some m ∧ m.dependencies = [] := by
    intro t member
    rcases List.mem_cons.mp member with rfl | member
    · exact Project.module?_data "7" (by decide +kernel) rfl (by decide +kernel)
    · rw [List.mem_singleton.mp member]
      exact Project.module?_data "3" (by decide +kernel) rfl (by decide +kernel)
  have plain : p.PlainSpecifiers := by
    intro q reaches m' found' d member
    have within := (Project.reaches_of_leaves _ found (fun d member => (leads d member).1) last reaches).1
    rcases List.mem_cons.mp within with rfl | isLeaf
    · cases found.symm.trans found'
      obtain ⟨_, names, bases⟩ := leads d member
      exact ⟨fun package text inside => names text inside package, bases⟩
    · obtain ⟨m'', found'', none⟩ := last q isLeaf
      cases found''.symm.trans found'
      exact absurd (none ▸ member) List.not_mem_nil
  exact ⟨publishable, keeps, plain, Project.bundle_publish publishable keeps plain⟩

/-- An edit that would make a package. -/
def newPackage : List FileOverride := [⟨"t/node_modules/new/index.json", "2"⟩]

theorem newPackage_unseen : (editProject "require('new')").Publishable newPackage ∧
    (((editProject "require('new')").withEdits newPackage).bundle none).1 ≠
      (((editProject "require('new')").publish newPackage).bundle none).1 := by
  let p := (editProject "require('new')").withEdits newPackage
  let p' := (editProject "require('new')").publish newPackage
  have script (q : Project) (read : (q.read none ⟨"/p/t/a.js"⟩).1 = .ok "require('new')")
      (header : q.headerOptions ⟨"/p/t/a.js"⟩ = p.headerOptions ⟨"/p/t/a.js"⟩) :
      ∃ m, q.module? none ⟨"/p/t/a.js"⟩ = some m ∧ m.dependencies = [⟨"new", 8, .requireCall⟩] := by
    refine Project.module?_script _ read rfl (by decide) ?_
    rw [header]
    decide +kernel
  refine ⟨editProject_publishable (by decide +kernel), ?_⟩
  obtain ⟨m, found, dependencies⟩ := script p (by decide +kernel) rfl
  have nowhere : p.resolve "new" ⟨"/p/t/a.js"⟩ = none := by decide +kernel
  have alone {q : Path} (reaches : p.Reaches none q) : q ∈ [p.entry] := by
    refine Project.reaches_within [] found (fun d member t resolved => ?_)
      (fun _ member => nomatch member) reaches
    rw [dependencies] at member
    rw [List.mem_singleton.mp member] at resolved
    exact nomatch nowhere.symm.trans resolved
  obtain ⟨places, reached, _, fails⟩ := Project.bundle_of_finite fun q reaches =>
    ⟨q, alone reaches, isSame_iff.mpr rfl⟩
  obtain ⟨failure, failed⟩ := fails ⟨p.entry, List.mem_of_head? reached.entry, by
    rintro ⟨m', found', resolves⟩
    cases found.symm.trans found'
    have resolved := resolves _ (dependencies ▸ List.mem_singleton_self _)
    exact nomatch nowhere ▸ resolved⟩
  obtain ⟨m', found', dependencies'⟩ := script p' (by decide +kernel) rfl
  have somewhere : p'.resolve "new" ⟨"/p/t/a.js"⟩ =
      some (.module ⟨"/p/t/node_modules/new/index.json"⟩) := by decide +kernel
  have leads : ∀ d ∈ m'.dependencies, ∃ t ∈ [(⟨"/p/t/node_modules/new/index.json"⟩ : Path)],
      p'.resolve d.specifier ⟨"/p/t/a.js"⟩ = some (.module t) := by
    rw [dependencies']
    intro d member
    rw [List.mem_singleton.mp member]
    exact ⟨_, List.mem_singleton_self _, somewhere⟩
  have last : ∀ t ∈ [(⟨"/p/t/node_modules/new/index.json"⟩ : Path)],
      ∃ m, p'.module? none t = some m ∧ m.dependencies = [] := by
    intro t member
    rw [List.mem_singleton.mp member]
    exact Project.module?_data "2" (by decide +kernel) rfl (by decide +kernel)
  have inReach {q : Path} (reaches : p'.Reaches none q) :=
    Project.reaches_of_leaves _ found' leads last reaches
  obtain ⟨places', reached', succeeds, _⟩ := Project.bundle_of_finite fun q reaches =>
    ⟨q, (inReach reaches).1, isSame_iff.mpr rfl⟩
  obtain ⟨artifact, bundled, _⟩ := succeeds fun q member => (inReach (reached'.reaches q member)).2
  intro same
  exact nomatch failed.symm.trans (same.trans bundled)

end JsxPreview.Bundle
