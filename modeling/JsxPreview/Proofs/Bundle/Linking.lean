import JsxPreview.Bundle.Graph
import JsxPreview.Proofs.Analysis.Edits

/-! # Reading and linking one module

A place is named by paths that are the same but for parts that do not count, and all of them name one
module id.  `module?` is the module in a place.  Linking resolves its dependencies in turn: `Links`
says what that does to the state of a load, and the table of the module then holds an id for every
specifier that resolves (`lookup_leads`). -/
set_option autoImplicit false
namespace JsxPreview

open JsxPreview.Files JsxPreview.Source

theorem Path.isSame_iff {p q : Path} : p.isSame q = true ↔ p.components = q.components := by
  rw [Path.isSame, beq_iff_eq]

theorem Path.isSame_symm {p q : Path} (same : p.isSame q = true) : q.isSame p = true :=
  Path.isSame_iff.mpr (Path.isSame_iff.mp same).symm

theorem Path.isSame_trans {p q r : Path} (first : p.isSame q = true) (second : q.isSame r = true) :
    p.isSame r = true :=
  Path.isSame_iff.mpr ((Path.isSame_iff.mp first).trans (Path.isSame_iff.mp second))

/-! ## Reading apart -/

namespace Files.Cache

variable {c c' : Cache} {q : Path}

/-- What a cache answers for a path depends on its entry for it alone. -/
theorem read_congr (files : Tree) (same : c.find? q = c'.find? q) :
    (c.read files q).1 = (c'.read files q).1 := by
  unfold Cache.read
  rw [same]
  cases files.stamp q with
  | error e => rfl
  | ok stamp =>
      simp only
      cases (c'.find? q).filter (·.stamp = stamp) with
      | some entry => rfl
      | none =>
          simp only
          cases files.read q <;> rfl

theorem find?_insert {e : CachedText} (apart : ¬ e.path.isSame q = true) :
    (c.insert e).find? q = c.find? q := by
  have kept : (fun x : CachedText => decide ((!x.path.isSame e.path) = true ∧
      x.path.isSame q = true)) = fun x => x.path.isSame q := by
    funext x
    rw [Bool.eq_iff_iff, decide_eq_true_iff]
    refine ⟨And.right, fun here => ⟨?_, here⟩⟩
    cases there : x.path.isSame e.path with
    | false => rfl
    | true => exact absurd (Path.isSame_trans (Path.isSame_symm there) here) apart
  simp only [find?, insert, forget, List.find?_cons, apart, List.find?_filter, kept]

theorem find?_read (files : Tree) {r : Path} (apart : ¬ r.isSame q = true) :
    (c.read files r).2.find? q = c.find? q := by
  unfold Cache.read
  cases files.stamp r with
  | error e => rfl
  | ok stamp =>
      simp only
      cases (c.find? r).filter (·.stamp = stamp) with
      | some entry => rfl
      | none =>
          simp only
          cases files.read r with
          | error e => rfl
          | ok text => exact find?_insert apart

end Files.Cache

namespace Bundle

/-- Reading a place changes nothing for any other. -/
theorem Project.read_apart (p : Project) (cache : Option Cache) {q r : Path}
    (apart : ¬ r.isSame q = true) : (p.read (p.read cache r).2 q).1 = (p.read cache q).1 := by
  have keeps : ∀ c, cache = some c → ∃ c', (p.read cache r).2 = some c' ∧ c'.find? q = c.find? q := by
    rintro c rfl
    unfold Project.read
    split
    · exact ⟨c, rfl, rfl⟩
    · split
      · cases p.sources.isOverridden with
        | true => exact ⟨c, rfl, rfl⟩
        | false => exact ⟨(c.read p.files r).2, rfl, Cache.find?_read p.files apart⟩
      · exact ⟨c, rfl, rfl⟩
  have keepsNone : cache = none → (p.read cache r).2 = none := by
    rintro rfl
    unfold Project.read
    split
    · rfl
    · split <;> rfl
  cases cache with
  | none => rw [keepsNone rfl]
  | some c =>
      obtain ⟨c', after, found⟩ := keeps c rfl
      rw [after]
      unfold Project.read
      split
      · rfl
      · split
        · cases p.sources.isOverridden with
          | true => rfl
          | false => exact Cache.read_congr p.files found
        · rfl

/-! ## The module in a place -/

namespace Project

/-- The module in a place that can be read and parsed, before it is linked. -/
def module? (p : Project) (cache : Option Cache) (q : Path) : Option Module :=
  match (p.read cache q).1 with
  | .error _ => none
  | .ok text => (p.parse q text).toOption

/-- Paths to one place name one module. -/
theorem moduleId_congr (p : Project) {q r : Path} (same : q.isSame r = true) :
    p.moduleId q = p.moduleId r := by
  have components := Path.isSame_iff.mp same
  have normal : q.normalize = r.normalize := by
    unfold Path.normalize
    rw [components]
  unfold moduleId Path.relativeTo Path.toSlash
  rw [normal, components]

/-- The steps of parsing. -/
theorem parse_steps {p : Project} {q : Path} {source : String} {m : Module}
    (success : p.parse q source = .ok m) :
    ∃ loader text body, p.parsedText q loader source = .ok text ∧
      p.parseBody q loader source text = .ok body ∧
        m = { path := q, id := p.moduleId q, source, text, body } := by
  obtain ⟨loader, _, success⟩ := ok_of_bind success
  obtain ⟨text, erased, success⟩ := ok_of_bind success
  obtain ⟨body, parses, success⟩ := ok_of_bind success
  exact ⟨loader, text, body, erased, parses, (ok_of_pure success).symm⟩

/-- Code has tokens and an analysis of them. -/
theorem parseBody_code {p : Project} {q : Path} {loader : Loader} {source text : String}
    {tokens : List Token} {a : Analysis}
    (success : p.parseBody q loader source text = .ok (.code tokens a)) :
    tokenize ⟨loader.readsElements, false⟩ text = .ok tokens ∧
      analyze text.toList tokens (p.headerOptions q) = .ok a := by
  unfold parseBody at success
  split at success
  case isTrue =>
    unfold parseData at success
    split at success <;> exact absurd success (by simp)
  case isFalse =>
    obtain ⟨tokens', scanned, success⟩ := ok_of_bind success
    obtain ⟨a', analyzed, success⟩ := ok_of_bind success
    cases ok_of_pure success
    exact ⟨ok_of_mapError scanned, ok_of_mapError analyzed⟩

/-- What parsing gives a module, and what linking relies on. -/
theorem parse_module {p : Project} {q : Path} {text : String} {m : Module}
    (success : p.parse q text = .ok m) :
    m.path = q ∧ m.id = p.moduleId q ∧ m.resolved = [] ∧
      ∀ tokens a, m.body = .code tokens a → a.Registered := by
  obtain ⟨loader, parsed, body, _, parses, rfl⟩ := parse_steps success
  refine ⟨rfl, rfl, rfl, ?_⟩
  intro tokens a same
  cases same
  exact analyze_registered (parseBody_code parses).2

end Project

/-! ## Linking -/

/-- The id that a specifier leads to from a place. -/
def Resolution.id (p : Project) : Resolution → String
  | .outside specifier => specifier
  | .module target => p.moduleId target

namespace Loading

variable {p : Project} {q : Path}

/-- No two paths of a list name one place. -/
def Distinct (places : List Path) : Prop := places.Pairwise fun q r => ¬ q.isSame r = true

/-- What resolving the dependencies `ds` of the module in `q` does to a load: the places `new` are
asked for, and an error is noted for each specifier that leads nowhere. -/
structure Links (p : Project) (q : Path) (ds : List Dependency) (l l' : Loading)
    (new : List Request) : Prop where
  queue : l'.queue = l.queue ++ new
  asked : l'.asked = l.asked ++ new.map (·.path)
  modules : l'.modules = l.modules
  cache : l'.cache = l.cache
  distinct : Distinct l.asked → Distinct l'.asked
  targets : ∀ r ∈ new, ∃ d ∈ ds, p.resolve d.specifier q = some (.module r.path)
  covers : ∀ d ∈ ds, ∀ target, p.resolve d.specifier q = some (.module target) →
    ∃ r ∈ l'.asked, r.isSame target = true
  errors : l'.errors = [] ↔ l.errors = [] ∧ ∀ d ∈ ds, (p.resolve d.specifier q).isSome = true

/-- Dependencies for which no place is asked that was not asked before. -/
theorem Links.of_unasked {ds : List Dependency} {l : Loading} {errors : List BuildError}
    (covers : ∀ d ∈ ds, ∀ target, p.resolve d.specifier q = some (.module target) →
      ∃ r ∈ l.asked, r.isSame target = true)
    (noted : errors = [] ↔ l.errors = [] ∧ ∀ d ∈ ds, (p.resolve d.specifier q).isSome = true) :
    Links p q ds l { l with errors } [] where
  queue := (List.append_nil _).symm
  asked := (List.append_nil _).symm
  modules := rfl
  cache := rfl
  distinct := id
  targets := fun _ member => absurd member List.not_mem_nil
  covers := covers
  errors := noted

theorem Links.refl (p : Project) (q : Path) (l : Loading) : Links p q [] l l [] :=
  .of_unasked (fun _ member => absurd member List.not_mem_nil) (by simp)

theorem Links.append {ds ds' : List Dependency} {l l' l'' : Loading} {new new' : List Request}
    (first : Links p q ds l l' new) (second : Links p q ds' l' l'' new') :
    Links p q (ds ++ ds') l l'' (new ++ new') where
  queue := by rw [second.queue, first.queue, List.append_assoc]
  asked := by rw [second.asked, first.asked, List.map_append, List.append_assoc]
  modules := second.modules.trans first.modules
  cache := second.cache.trans first.cache
  distinct := second.distinct ∘ first.distinct
  targets := by
    intro r member
    rcases List.mem_append.mp member with member | member
    · obtain ⟨d, here, resolved⟩ := first.targets r member
      exact ⟨d, List.mem_append_left _ here, resolved⟩
    · obtain ⟨d, here, resolved⟩ := second.targets r member
      exact ⟨d, List.mem_append_right _ here, resolved⟩
  covers := by
    intro d member target resolved
    rcases List.mem_append.mp member with member | member
    · obtain ⟨r, asked, same⟩ := first.covers d member target resolved
      exact ⟨r, second.asked ▸ List.mem_append_left _ asked, same⟩
    · exact second.covers d member target resolved
  errors := by
    rw [second.errors, first.errors, and_assoc]
    simp only [List.mem_append, or_imp, forall_and]

/-- Asking for a place that is new puts it behind all others. -/
theorem links_ask (l : Loading) {d : Dependency} {target : Path} (at_ : Location)
    (resolved : p.resolve d.specifier q = some (.module target)) :
    ∃ new, Links p q [d] l (l.ask target at_) new := by
  have resolves : ∀ d' ∈ [d], (p.resolve d'.specifier q).isSome = true := by
    intro d' member
    rw [List.mem_singleton.mp member, resolved]
    rfl
  by_cases known : l.asked.any (·.isSame target) = true
  · have unchanged : l.ask target at_ = l := if_pos known
    obtain ⟨r, asked, same⟩ := List.any_eq_true.mp known
    refine ⟨[], ?_⟩
    rw [unchanged]
    refine .of_unasked ?_ ⟨fun none => ⟨none, resolves⟩, And.left⟩
    intro d' member target' resolved'
    rw [List.mem_singleton.mp member, resolved] at resolved'
    cases resolved'
    exact ⟨r, asked, same⟩
  · have grown : l.ask target at_ =
        { l with queue := l.queue ++ [⟨target, some at_⟩], asked := l.asked ++ [target] } :=
      if_neg known
    refine ⟨[⟨target, some at_⟩], ?_⟩
    rw [grown]
    exact {
      queue := rfl
      asked := rfl
      modules := rfl
      cache := rfl
      distinct := by
        intro distinct
        refine List.pairwise_append.mpr ⟨distinct, List.pairwise_singleton _ _, ?_⟩
        intro r asked t member same
        rw [List.mem_singleton.mp member] at same
        exact known (List.any_eq_true.mpr ⟨r, asked, same⟩)
      targets := by
        intro r member
        rw [List.mem_singleton.mp member]
        exact ⟨d, List.mem_singleton_self _, resolved⟩
      covers := by
        intro d' member target' resolved'
        rw [List.mem_singleton.mp member, resolved] at resolved'
        cases resolved'
        exact ⟨target, List.mem_append_right _ (List.mem_singleton_self _), Path.isSame_iff.mpr rfl⟩
      errors := ⟨fun none => ⟨none, resolves⟩, And.left⟩ }

/-- A module whose table also has the entry of a dependency. -/
def led (p : Project) (m : Module) (d : Dependency) : Module :=
  match p.resolve d.specifier m.path with
  | some r => { m with resolved := m.resolved ++ [(d.specifier, r.id p)] }
  | none => m

theorem led_path (p : Project) (m : Module) (d : Dependency) : (led p m d).path = m.path := by
  unfold led
  split <;> rfl

theorem link_links (p : Project) (l : Loading) (m : Module) (d : Dependency) :
    (∃ new, Links p m.path [d] l (link p (l, m) d).1 new) ∧ (link p (l, m) d).2 = led p m d := by
  unfold link led
  simp only
  cases resolved : p.resolve d.specifier m.path with
  | none =>
      refine ⟨⟨[], .of_unasked ?_ (by simp [resolved])⟩, rfl⟩
      intro d' member target resolved'
      rw [List.mem_singleton.mp member, resolved] at resolved'
      exact absurd resolved' (by simp)
  | some r =>
      cases r with
      | outside specifier =>
          refine ⟨⟨[], .of_unasked ?_ (by simp [resolved])⟩, rfl⟩
          intro d' member target resolved'
          rw [List.mem_singleton.mp member, resolved] at resolved'
          exact absurd resolved' (by simp)
      | module target => exact ⟨links_ask l _ resolved, rfl⟩

theorem foldl_link (p : Project) (ds : List Dependency) : ∀ (l : Loading) (m : Module),
    (∃ new, Links p m.path ds l (ds.foldl (link p) (l, m)).1 new) ∧
      (ds.foldl (link p) (l, m)).2 = ds.foldl (led p) m := by
  induction ds with
  | nil =>
      intro l m
      exact ⟨⟨[], .refl ..⟩, rfl⟩
  | cons d ds ih =>
      intro l m
      obtain ⟨⟨first, linked⟩, leads⟩ := link_links p l m d
      have pair : link p (l, m) d = ((link p (l, m) d).1, led p m d) := Prod.ext rfl leads
      obtain ⟨⟨others, linkedLater⟩, leadsLater⟩ := ih (link p (l, m) d).1 (led p m d)
      rw [led_path] at linkedLater
      rw [List.foldl_cons, List.foldl_cons, pair]
      exact ⟨⟨first ++ others, linked.append linkedLater⟩, leadsLater⟩

/-! ## The table of a linked module -/

theorem foldl_led (p : Project) (ds : List Dependency) (m : Module) :
    ds.foldl (led p) m = { m with resolved := m.resolved ++ ds.filterMap fun d =>
      (p.resolve d.specifier m.path).map fun r => (d.specifier, r.id p) } := by
  induction ds generalizing m with
  | nil => simp
  | cons d ds ih =>
      rw [List.foldl_cons, ih, led_path]
      unfold led
      cases resolved : p.resolve d.specifier m.path with
      | none => simp [resolved]
      | some r => simp [resolved, List.append_assoc]

/-- A table that gives every specifier what it leads to answers with just that. -/
theorem lookup_leads (p : Project) (q : Path) {ds : List Dependency} {specifier : String}
    {r : Resolution} (resolved : p.resolve specifier q = some r)
    (asked : ∃ d ∈ ds, d.specifier = specifier) :
    (ds.filterMap fun d => (p.resolve d.specifier q).map fun r => (d.specifier, r.id p)).lookup
      specifier = some (r.id p) := by
  induction ds with
  | nil =>
      obtain ⟨d, member, _⟩ := asked
      exact absurd member List.not_mem_nil
  | cons d ds ih =>
      by_cases here : d.specifier = specifier
      · rw [List.filterMap_cons, here, resolved]
        simp
      · have later : ∃ d ∈ ds, d.specifier = specifier := by
          obtain ⟨d', member, same⟩ := asked
          rcases List.mem_cons.mp member with rfl | member
          · exact absurd same here
          · exact ⟨d', member, same⟩
        rw [List.filterMap_cons]
        cases p.resolve d.specifier q with
        | none => exact ih later
        | some r' =>
            have other : (specifier == d.specifier) = false := by
              rw [beq_eq_false_iff_ne]
              exact fun same => here same.symm
            simp only [Option.map_some, List.lookup_cons, other]
            exact ih later

theorem distinct_subset (ds : List Dependency) : ∀ (seen : List String),
    ∀ d ∈ distinct seen ds, d ∈ ds := by
  induction ds with
  | nil => exact fun _ _ member => member
  | cons d ds ih =>
      intro seen d' member
      simp only [distinct] at member
      split at member
      · exact List.mem_cons_of_mem _ (ih seen d' member)
      · rcases List.mem_cons.mp member with rfl | member
        · exact List.mem_cons_self ..
        · exact List.mem_cons_of_mem _ (ih _ d' member)

/-- Leaving out repeated specifiers leaves one dependency on each. -/
theorem distinct_covers (ds : List Dependency) : ∀ (seen : List String), ∀ d ∈ ds,
    d.specifier ∈ seen ∨ ∃ d' ∈ distinct seen ds, d'.specifier = d.specifier := by
  induction ds with
  | nil => exact fun _ _ member => absurd member List.not_mem_nil
  | cons d ds ih =>
      intro seen d' member
      simp only [distinct]
      split
      case isTrue known =>
        rcases List.mem_cons.mp member with rfl | member
        · exact .inl (List.contains_iff_mem.mp known)
        · exact ih seen d' member
      case isFalse =>
        rcases List.mem_cons.mp member with rfl | member
        · exact .inr ⟨d', List.mem_cons_self .., rfl⟩
        · rcases ih (d.specifier :: seen) d' member with known | ⟨d'', later, same⟩
          · rcases List.mem_cons.mp known with same | known
            · exact .inr ⟨d, List.mem_cons_self .., same.symm⟩
            · exact .inl known
          · exact .inr ⟨d'', List.mem_cons_of_mem _ later, same⟩

theorem distinct_specifier {ds : List Dependency} {d : Dependency} (member : d ∈ ds) :
    ∃ d' ∈ distinct [] ds, d'.specifier = d.specifier :=
  (distinct_covers ds [] d member).resolve_left List.not_mem_nil

end Loading

end Bundle

end JsxPreview
