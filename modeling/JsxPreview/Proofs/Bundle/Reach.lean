import JsxPreview.Proofs.Bundle.Closure
import Mathlib.Data.List.Perm.Subperm

/-! # Places in reach

The places in reach of the entry are the entry itself and what dependencies of places in reach lead to
(`Reaches`); these are the places that loading handles.  Loading ends when there are finitely many of
them (`loads_of_finite`), and gives a bundle of just these places when all of them are sound. -/
set_option autoImplicit false
namespace JsxPreview.Bundle

open JsxPreview.Files JsxPreview.Source

namespace Project

variable {p : Project} {cache : Option Cache}

/-- The places that the entry reaches through dependencies. -/
inductive Reaches (p : Project) (cache : Option Cache) : Path → Prop where
  | entry : Reaches p cache p.entry
  | next {q target : Path} (near : Reaches p cache q) (depends : p.DependsOn cache q target) :
      Reaches p cache target

/-- A list that starts with the entry and in which each place is asked for by one in front of it holds
places in reach alone. -/
theorem reaches_of_list {places : List Path} (entry : places.head? = some p.entry)
    (behind : ∀ front q back, places = front ++ q :: back → front ≠ [] →
      ∃ r ∈ front, p.DependsOn cache r q) : ∀ q ∈ places, p.Reaches cache q := by
  suffices all : ∀ back front, places = front ++ back → (∀ q ∈ front, p.Reaches cache q) →
      ∀ q ∈ places, p.Reaches cache q from
    all places [] rfl fun _ member => nomatch member
  intro back
  induction back with
  | nil =>
      rintro front rfl known q member
      rw [List.append_nil] at member
      exact known q member
  | cons r back ih =>
      intro front split known
      refine ih (front ++ [r]) (by rw [split, List.append_assoc]; rfl) fun q member => ?_
      rcases List.mem_append.mp member with member | member
      · exact known q member
      · rw [List.mem_singleton.mp member]
        cases front with
        | nil =>
            rw [split] at entry
            cases entry
            exact .entry
        | cons first front =>
            obtain ⟨q, inFront, depends⟩ := behind _ r back split (List.cons_ne_nil _ _)
            exact .next (known q inFront) depends

theorem Reached.reaches {places : List Path} (reached : p.Reached cache places) :
    ∀ q ∈ places, p.Reaches cache q :=
  reaches_of_list reached.entry reached.behind

end Project

namespace Loading

variable {p : Project} {cache : Option Cache}

theorem Valid.asked_length {handled : List Path} {l : Loading} (valid : Valid p cache handled l)
    {places : List Path} (finite : ∀ q, p.Reaches cache q → ∃ r ∈ places, r.isSame q = true) :
    l.asked.length ≤ places.length := by
  have reaches := Project.reaches_of_list valid.entry fun front q back split some =>
    let ⟨r, inFront, _, depends⟩ := valid.behind front q back split some
    ⟨r, inFront, depends⟩
  have distinct : (l.asked.map Path.components).Nodup :=
    List.pairwise_map.mpr (valid.distinct.imp fun apart same => apart (Path.isSame_iff.mpr same))
  have inside : l.asked.map Path.components ⊆ places.map Path.components := by
    intro components member
    obtain ⟨q, asked, rfl⟩ := List.mem_map.mp member
    obtain ⟨r, here, same⟩ := finite q (reaches q asked)
    rw [← Path.isSame_iff.mp same]
    exact List.mem_map_of_mem here
  have bound := (distinct.subperm inside).length_le
  rwa [List.length_map, List.length_map] at bound

/-- Each step handles one more of finitely many places. -/
theorem run_of_finite {places : List Path}
    (finite : ∀ q, p.Reaches cache q → ∃ r ∈ places, r.isSame q = true) (n : Nat) :
    ∀ {handled : List Path} {l : Loading}, Valid p cache handled l →
      places.length ≤ handled.length + n → ∃ final, run p l = some final := by
  induction n with
  | zero =>
      intro handled l valid bound
      have asked := valid.asked_length finite
      rw [valid.asked, List.length_append, List.length_map] at asked
      exact ⟨l, run_done (List.eq_nil_of_length_eq_zero (by omega))⟩
  | succ n ih =>
      intro handled l valid bound
      cases next : l.queue with
      | nil => exact ⟨l, run_done next⟩
      | cons r queue =>
          rw [run_next next]
          refine ih (valid.load next) ?_
          rw [List.length_append, List.length_singleton]
          omega

end Loading

namespace Project

variable {p : Project} {cache : Option Cache}

theorem loads_of_finite {places : List Path}
    (finite : ∀ q, p.Reaches cache q → ∃ r ∈ places, r.isSame q = true) :
    ∃ l, p.loadAll cache = some l :=
  Loading.run_of_finite finite places.length Loading.valid_start (Nat.le_add_left _ _)

/-- A bundle of linked modules lists the ids of their places. -/
theorem modules_of_linked {modules : List Module} {places : List Path}
    (complete : modules.map (·.path) = places) (linked : ∀ m ∈ modules, m.Linked p cache) :
    (p.emit modules).modules = places.map p.moduleId :=
  calc (p.emit modules).modules = modules.map (·.id) := p.emit_modules modules
    _ = modules.map (p.moduleId ·.path) := List.map_congr_left fun m member => (linked m member).id
    _ = (modules.map (·.path)).map p.moduleId := by rw [List.map_map, Function.comp_def]
    _ = places.map p.moduleId := by rw [complete]

/-- Bundling ends over finitely many places. -/
theorem bundle_of_finite {places : List Path}
    (finite : ∀ q, p.Reaches cache q → ∃ r ∈ places, r.isSame q = true) :
    ∃ reached, p.Reached cache reached ∧
      ((∀ q ∈ reached, p.Sound cache q) → ∃ artifact,
        (p.bundle cache).1 = some (.ok artifact) ∧ artifact.modules = reached.map p.moduleId) ∧
      ((∃ q ∈ reached, ¬ p.Sound cache q) → ∃ failure,
        (p.bundle cache).1 = some (.error failure)) := by
  obtain ⟨l, loaded⟩ := loads_of_finite finite
  obtain ⟨reached, isReached, sound, complete, linked⟩ := reached_of_load loaded
  refine ⟨reached, isReached, fun all => ?_, fun ⟨q, member, unsound⟩ => ?_⟩
  · have none := sound.mpr all
    exact ⟨p.emit l.modules, by simp [bundle, loaded, none],
      modules_of_linked (complete none) linked⟩
  · have some : l.errors ≠ [] := fun none => unsound (sound.mp none q member)
    exact ⟨⟨l.errors⟩, by simp [bundle, loaded, some]⟩

/-- An entry whose dependencies lead to places without dependencies, if anywhere, reaches no others. -/
theorem reaches_within (leaves : List Path) {m : Module} (entry : p.module? cache p.entry = some m)
    (leads : ∀ d ∈ m.dependencies, ∀ t,
      p.resolve d.specifier p.entry = some (.module t) → t ∈ leaves)
    (last : ∀ t ∈ leaves, ∃ m, p.module? cache t = some m ∧ m.dependencies = []) {q : Path}
    (reaches : p.Reaches cache q) : q ∈ p.entry :: leaves := by
  induction reaches with
  | entry => exact List.mem_cons_self ..
  | next _ depends ih =>
      obtain ⟨m', found, d, here, resolved⟩ := depends
      rcases List.mem_cons.mp ih with rfl | member
      · rw [entry] at found
        cases found
        exact List.mem_cons_of_mem _ (leads d here _ resolved)
      · obtain ⟨m'', found', none⟩ := last _ member
        rw [found'] at found
        cases found
        exact absurd (none ▸ here) List.not_mem_nil

/-- When all of them lead somewhere, the places in reach are sound. -/
theorem reaches_of_leaves (leaves : List Path) {m : Module}
    (entry : p.module? cache p.entry = some m)
    (leads : ∀ d ∈ m.dependencies, ∃ t ∈ leaves, p.resolve d.specifier p.entry = some (.module t))
    (last : ∀ t ∈ leaves, ∃ m, p.module? cache t = some m ∧ m.dependencies = []) {q : Path}
    (reaches : p.Reaches cache q) : q ∈ p.entry :: leaves ∧ p.Sound cache q := by
  have within : q ∈ p.entry :: leaves := by
    refine reaches_within leaves entry (fun d here t resolved => ?_) last reaches
    obtain ⟨t', isLeaf, leads⟩ := leads d here
    rw [leads] at resolved
    cases resolved
    exact isLeaf
  refine ⟨within, ?_⟩
  rcases List.mem_cons.mp within with rfl | member
  · refine ⟨m, entry, fun d here => ?_⟩
    obtain ⟨t, _, resolved⟩ := leads d here
    rw [resolved]
    rfl
  · obtain ⟨m', found, none⟩ := last q member
    exact ⟨m', found, fun d here => absurd (none ▸ here) List.not_mem_nil⟩

/-! ## Modules that are known -/

theorem module?_of_parse {path : Path} {source : String} {m : Module}
    (read : (p.read cache path).1 = .ok source) (parsed : p.parse path source = .ok m) :
    p.module? cache path = some m := by
  unfold module?
  rw [read]
  simp only [parsed, Except.toOption]

/-- A script without a backslash, whose dependencies are known. -/
theorem module?_script (source : String) {path : Path} {ds : List Dependency}
    (read : (p.read cache path).1 = .ok source) (offered : Loader.ofPath path = .ok .jsx)
    (absent : '\\' ∉ source.toList)
    (known : ((tokenizeWithin (allowance source.toList) ⟨true, false⟩ source).toOption.bind
      fun tokens => (analyze source.toList tokens (p.headerOptions path)).toOption.map
        (·.dependencies)) = some ds) :
    ∃ m, p.module? cache path = some m ∧ m.dependencies = ds := by
  obtain ⟨tokens, scanned, known⟩ := Option.bind_eq_some_iff.mp known
  obtain ⟨a, analyzed, dependencies⟩ := Option.map_eq_some_iff.mp known
  have body : p.parseBody path .jsx source source = .ok (.code tokens a) :=
    parseBody_of_scan (by decide) absent (ok_of_toOption scanned) (ok_of_toOption analyzed)
  have parsed := parse_of_steps offered rfl body
  exact ⟨_, module?_of_parse read parsed, dependencies⟩

theorem module?_data (source : String) {path : Path}
    (read : (p.read cache path).1 = .ok source) (offered : Loader.ofPath path = .ok .json)
    (known : (Json.parse source).toOption.isSome = true) :
    ∃ m, p.module? cache path = some m ∧ m.dependencies = [] := by
  obtain ⟨v, valid⟩ := Option.isSome_iff_exists.mp known
  have body : p.parseBody path .json source source = .ok .data := by
    rw [parseBody, if_pos rfl, parseData, ok_of_toOption valid]
  have parsed := parse_of_steps offered rfl body
  exact ⟨_, module?_of_parse read parsed, rfl⟩

end Project

end JsxPreview.Bundle
