import JsxPreview.Proofs.Bundle.Linking
import JsxPreview.Proofs.Scanner.Termination

/-! # A bundle is closed and complete

Loading handles the places of a project in the order in which they are asked for.  `Loading.Valid`
holds at every step: each place that was asked for is the entry or a target of a dependency of a place
handled before it, what handled places depend on has been asked for, and there is no error exactly
when every handled place is sound.  When nothing is left, the handled places are all that the entry
reaches (`Reached`). -/
set_option autoImplicit false
namespace JsxPreview.Bundle

open JsxPreview.Files JsxPreview.Source

namespace Project

variable (p : Project) (cache : Option Cache)

/-- Whether a dependency of the module in `q` leads to `target`. -/
def DependsOn (q target : Path) : Prop :=
  ∃ m, p.module? cache q = some m ∧
    ∃ d ∈ m.dependencies, p.resolve d.specifier q = some (.module target)

/-- A place can be read and parsed, and each of its dependency specifiers resolves. -/
def Sound (q : Path) : Prop :=
  ∃ m, p.module? cache q = some m ∧ ∀ d ∈ m.dependencies, (p.resolve d.specifier q).isSome = true

/-- The places that the entry reaches through dependencies, each in the spelling in which it is met
first. -/
structure Reached (places : List Path) : Prop where
  entry : places.head? = some p.entry
  distinct : Loading.Distinct places
  behind : ∀ front q back, places = front ++ q :: back → front ≠ [] →
    ∃ r ∈ front, p.DependsOn cache r q
  closed : ∀ q ∈ places, ∀ target, p.DependsOn cache q target →
    ∃ r ∈ places, r.isSame target = true

end Project

/-- A loaded module: its table holds what its specifiers lead to. -/
structure Module.Linked (p : Project) (cache : Option Cache) (m : Module) : Prop where
  parsed : ∃ m₀, p.module? cache m.path = some m₀ ∧ m = { m₀ with resolved := m.resolved }
  id : m.id = p.moduleId m.path
  registered : ∀ tokens a, m.body = .code tokens a → a.Registered
  resolved : ∀ d ∈ m.dependencies, ∀ r, p.resolve d.specifier m.path = some r →
    m.resolved.lookup d.specifier = some (r.id p)

/-- The specifiers whose ids the header or a rewrite of a module writes. -/
def Module.WritesId (m : Module) (specifier : String) : Prop :=
  ∃ tokens a, m.body = .code tokens a ∧ (.moduleId specifier ∈ a.header ∨
    ∃ e ∈ a.rewrites.entries, .moduleId specifier ∈ e.2.pieces)

section Tables

variable {p : Project} {cache : Option Cache} {m : Module}

/-- What a module writes an id for, it depends on. -/
theorem Module.Linked.depends (linked : m.Linked p cache) {specifier : String}
    (writes : m.WritesId specifier) : ∃ d ∈ m.dependencies, d.specifier = specifier := by
  obtain ⟨tokens, a, body, place⟩ := writes
  have registered := linked.registered tokens a body
  have dependencies : m.dependencies = a.dependencies := by rw [Module.dependencies, body]
  rw [dependencies]
  rcases place with inHeader | ⟨e, entry, inRewrite⟩
  · exact registered.1 _ inHeader
  · exact registered.2 e entry _ inRewrite

theorem Module.Linked.dependencies (linked : m.Linked p cache) :
    ∃ m₀, p.module? cache m.path = some m₀ ∧ m₀.dependencies = m.dependencies := by
  obtain ⟨m₀, found, same⟩ := linked.parsed
  refine ⟨m₀, found, ?_⟩
  rw [same]
  rfl

theorem Module.Linked.resolves (linked : m.Linked p cache) (sound : p.Sound cache m.path)
    {d : Dependency} (member : d ∈ m.dependencies) :
    ∃ r, p.resolve d.specifier m.path = some r := by
  obtain ⟨m₀, found, same⟩ := linked.dependencies
  obtain ⟨m₁, again, resolves⟩ := sound
  rw [found] at again
  cases again
  exact Option.isSome_iff_exists.mp (resolves d (same ▸ member))

end Tables

namespace Loading

/-- What holds when the places `handled` have been handled. -/
structure Valid (p : Project) (cache : Option Cache) (handled : List Path) (l : Loading) :
    Prop where
  asked : l.asked = handled ++ l.queue.map (·.path)
  entry : l.asked.head? = some p.entry
  distinct : Distinct l.asked
  behind : ∀ front q back, l.asked = front ++ q :: back → front ≠ [] →
    ∃ r ∈ front, r ∈ handled ∧ p.DependsOn cache r q
  closed : ∀ q ∈ handled, ∀ target, p.DependsOn cache q target →
    ∃ r ∈ l.asked, r.isSame target = true
  errors : l.errors = [] ↔ ∀ q ∈ handled, p.Sound cache q
  places : l.errors = [] → l.modules.map (·.path) = handled
  linked : ∀ m ∈ l.modules, m.Linked p cache
  unread : ∀ q, (∀ r ∈ handled, ¬ r.isSame q = true) → (p.read l.cache q).1 = (p.read cache q).1

variable {p : Project} {cache : Option Cache}

theorem valid_start : Valid p cache [] (start p cache) where
  asked := rfl
  entry := rfl
  distinct := List.pairwise_singleton _ _
  behind := by
    intro front q back split some
    cases front with
    | nil => exact absurd rfl some
    | cons first front =>
        have := congrArg List.length split
        simp [start] at this
  closed := fun _ member => absurd member List.not_mem_nil
  errors := ⟨fun _ _ member => absurd member List.not_mem_nil, fun _ => rfl⟩
  places := fun _ => rfl
  linked := fun _ member => absurd member List.not_mem_nil
  unread := fun _ _ => rfl

section Step

variable {handled : List Path} {l : Loading} {r : Request} {queue : List Request}

theorem Valid.next_apart (valid : Valid p cache handled l) (next : l.queue = r :: queue) :
    ∀ q ∈ handled, ¬ q.isSame r.path = true := by
  intro q member
  have distinct := valid.distinct
  rw [valid.asked, next, Distinct, List.pairwise_append] at distinct
  exact distinct.2.2 q member r.path (List.mem_cons_self ..)

/-- The text in the next place is what it was at the start. -/
theorem Valid.read_next (valid : Valid p cache handled l) (next : l.queue = r :: queue) :
    (p.read l.cache r.path).1 = (p.read cache r.path).1 :=
  valid.unread r.path (valid.next_apart next)

theorem Valid.unread_next (valid : Valid p cache handled l) :
    ∀ q, (∀ r' ∈ handled ++ [r.path], ¬ r'.isSame q = true) →
      (p.read (p.read l.cache r.path).2 q).1 = (p.read cache q).1 := by
  intro q apart
  rw [p.read_apart l.cache (apart r.path (List.mem_append_right _ (List.mem_singleton_self _)))]
  exact valid.unread q fun r' member => apart r' (List.mem_append_left _ member)

theorem Valid.module_next (valid : Valid p cache handled l) (next : l.queue = r :: queue) :
    p.module? l.cache r.path = p.module? cache r.path := by
  unfold Project.module?
  rw [valid.read_next next]

/-- Handling the next place keeps what was asked for in front of it. -/
theorem Valid.asked_next (valid : Valid p cache handled l) (next : l.queue = r :: queue) :
    l.asked = (handled ++ [r.path]) ++ queue.map (·.path) := by
  rw [valid.asked, next, List.map_cons, List.append_assoc]
  rfl

theorem Valid.behind_next (valid : Valid p cache handled l) {front back : List Path} {q : Path}
    (split : l.asked = front ++ q :: back) (some : front ≠ []) :
    ∃ r' ∈ front, r' ∈ handled ++ [r.path] ∧ p.DependsOn cache r' q := by
  obtain ⟨r', inFront, member, depends⟩ := valid.behind front q back split some
  exact ⟨r', inFront, List.mem_append_left _ member, depends⟩

/-- A place without a module leaves an error. -/
theorem Valid.fail (valid : Valid p cache handled l) (next : l.queue = r :: queue)
    (refused : p.module? cache r.path = none) (e : BuildError) :
    Valid p cache (handled ++ [r.path])
      (Loading.fail { l with queue, cache := (p.read l.cache r.path).2 } e) where
  asked := valid.asked_next next
  entry := valid.entry
  distinct := valid.distinct
  behind := fun _ _ _ => valid.behind_next
  closed := by
    intro q member target depends
    rcases List.mem_append.mp member with member | member
    · exact valid.closed q member target depends
    · obtain ⟨m, found, _⟩ := depends
      rw [List.mem_singleton.mp member, refused] at found
      exact absurd found (by simp)
  errors := by
    constructor
    · intro none
      exact absurd none (List.append_ne_nil_of_right_ne_nil _ (List.cons_ne_nil _ _))
    · intro sound
      obtain ⟨m, found, _⟩ := sound r.path (List.mem_append_right _ (List.mem_singleton_self _))
      rw [refused] at found
      exact absurd found (by simp)
  places := fun none => absurd none (List.append_ne_nil_of_right_ne_nil _ (List.cons_ne_nil _ _))
  linked := valid.linked
  unread := valid.unread_next

/-- An element of two joined lists is in the first one, or in the second one behind all of the
first. -/
theorem split_append {α : Type} {first second front back : List α} {q : α}
    (split : first ++ second = front ++ q :: back) :
    (∃ rest, first = front ++ q :: rest) ∨ (q ∈ second ∧ ∀ x ∈ first, x ∈ front) := by
  rcases List.append_eq_append_iff.mp split with ⟨more, rfl, rfl⟩ | ⟨rest, rfl, behind⟩
  · exact .inr ⟨List.mem_append_right _ (List.mem_cons_self ..),
      fun x member => List.mem_append_left _ member⟩
  · cases rest with
    | nil =>
        refine .inr ⟨?_, fun x member => by simpa using member⟩
        rw [← show q :: back = second from behind]
        exact List.mem_cons_self ..
    | cons q' rest =>
        cases behind
        exact .inl ⟨rest, rfl⟩

/-- The specifiers of all dependencies resolve when those of the distinct ones do. -/
theorem resolves_distinct {ds : List Dependency} {q : Path} :
    (∀ d ∈ Loading.distinct [] ds, (p.resolve d.specifier q).isSome = true) ↔
      ∀ d ∈ ds, (p.resolve d.specifier q).isSome = true := by
  constructor
  · intro resolves d member
    obtain ⟨d', here, same⟩ := distinct_specifier member
    rw [← same]
    exact resolves d' here
  · intro resolves d member
    exact resolves d (distinct_subset ds [] d member)

/-- A module is loaded and linked. -/
theorem Valid.link (valid : Valid p cache handled l) (next : l.queue = r :: queue) {m m' : Module}
    (found : p.module? cache r.path = some m) {l' : Loading} {new : List Request}
    (links : Links p r.path (Loading.distinct [] m.dependencies)
      { l with queue, cache := (p.read l.cache r.path).2 } l' new)
    (place : m'.path = r.path) (linked : m'.Linked p cache) :
    Valid p cache (handled ++ [r.path]) { l' with modules := l'.modules ++ [m'] } where
  asked := by
    change l'.asked = _ ++ l'.queue.map (·.path)
    rw [links.asked, links.queue, List.map_append, ← List.append_assoc, ← valid.asked_next next]
  entry := by
    change l'.asked.head? = _
    rw [links.asked, List.head?_append]
    simp [valid.entry]
  distinct := links.distinct valid.distinct
  behind := by
    intro front q back split some
    change l'.asked = _ at split
    rw [links.asked] at split
    rcases split_append split with ⟨rest, here⟩ | ⟨isNew, inFront⟩
    · exact valid.behind_next here some
    · -- a new place is a target of the module that is linked, which stands in front of it
      obtain ⟨r', member, rfl⟩ := List.mem_map.mp isNew
      obtain ⟨d, here, resolved⟩ := links.targets r' member
      have handledNow : r.path ∈ handled ++ [r.path] :=
        List.mem_append_right _ (List.mem_singleton_self _)
      refine ⟨r.path, inFront r.path ?_, handledNow, m, found, d, distinct_subset _ _ _ here,
        resolved⟩
      change r.path ∈ l.asked
      rw [valid.asked_next next]
      exact List.mem_append_left _ handledNow
  closed := by
    intro q member target depends
    change ∃ r' ∈ l'.asked, r'.isSame target = true
    rcases List.mem_append.mp member with member | member
    · obtain ⟨r', asked, same⟩ := valid.closed q member target depends
      exact ⟨r', links.asked ▸ List.mem_append_left _ asked, same⟩
    · rw [List.mem_singleton.mp member] at depends
      obtain ⟨m₀, again, d, here, resolved⟩ := depends
      rw [found] at again
      cases again
      obtain ⟨d', there, same⟩ := distinct_specifier here
      rw [← same] at resolved
      exact links.covers d' there target resolved
  errors := by
    change l'.errors = [] ↔ _
    have sound : (∀ d ∈ Loading.distinct [] m.dependencies, (p.resolve d.specifier r.path).isSome = true) ↔
        p.Sound cache r.path := by
      rw [resolves_distinct]
      constructor
      · exact fun resolves => ⟨m, found, resolves⟩
      · rintro ⟨m₀, again, resolves⟩
        rw [found] at again
        cases again
        exact resolves
    rw [links.errors, sound]
    change l.errors = [] ∧ _ ↔ _
    rw [valid.errors]
    simp only [List.mem_append, List.mem_singleton, or_imp, forall_and, forall_eq]
  places := by
    intro none
    change l'.errors = [] at none
    change (l'.modules ++ [m']).map (·.path) = _
    have before : l.errors = [] := (links.errors.mp none).1
    rw [List.map_append, links.modules, List.map_singleton, place]
    change l.modules.map (·.path) ++ _ = _
    rw [valid.places before]
  linked := by
    intro m₁ member
    change m₁ ∈ l'.modules ++ [m'] at member
    rw [links.modules] at member
    rcases List.mem_append.mp member with member | member
    · exact valid.linked m₁ member
    · rw [List.mem_singleton.mp member]
      exact linked
  unread := by
    change ∀ q, _ → (p.read l'.cache q).1 = _
    rw [links.cache]
    exact valid.unread_next

/-- A place has no module, and an error is noted; or its module is linked and kept. -/
theorem load_cases (p : Project) (l : Loading) (r : Request) :
    (p.module? l.cache r.path = none ∧
      ∃ e, load p l r = Loading.fail { l with cache := (p.read l.cache r.path).2 } e) ∨
    ∃ m text, p.module? l.cache r.path = some m ∧ p.parse r.path text = .ok m ∧
      ∃ l' m', (Loading.distinct [] m.dependencies).foldl (Loading.link p)
          ({ l with cache := (p.read l.cache r.path).2 }, m) = (l', m') ∧
        load p l r = { l' with modules := l'.modules ++ [m'] } := by
  unfold load Project.module?
  rcases p.read l.cache r.path with ⟨read, cache⟩
  cases read with
  | error e => exact .inl ⟨rfl, _, rfl⟩
  | ok text =>
      cases parsed : p.parse r.path text with
      | error e =>
          refine .inl ⟨by simp only [parsed, Except.toOption], e, ?_⟩
          simp only [parsed]
      | ok m =>
          refine .inr ⟨m, text, by simp only [parsed, Except.toOption], parsed, ?_⟩
          refine ⟨_, _, rfl, ?_⟩
          simp only [parsed]

/-- Linking completes the table of a module that was parsed. -/
theorem linked_of_parse {m : Module} {text : String} (parsed : p.parse r.path text = .ok m)
    (found : p.module? cache r.path = some m) :
    ((Loading.distinct [] m.dependencies).foldl (led p) m).path = r.path ∧
      ((Loading.distinct [] m.dependencies).foldl (led p) m).Linked p cache := by
  obtain ⟨path, id, resolved, registered⟩ := Project.parse_module parsed
  rw [foldl_led]
  refine ⟨path, ?_⟩
  exact {
    parsed := ⟨m, by rw [← found, ← path], rfl⟩
    id := by
      change m.id = p.moduleId m.path
      rw [id, path]
    registered := registered
    resolved := by
      intro d member target leads
      change (m.resolved ++ _).lookup d.specifier = _
      rw [resolved, List.nil_append]
      exact lookup_leads p m.path leads (distinct_specifier member) }

theorem Valid.load (valid : Valid p cache handled l) (next : l.queue = r :: queue) :
    Valid p cache (handled ++ [r.path]) (load p { l with queue } r) := by
  rcases load_cases p { l with queue } r with
    ⟨refused, e, outcome⟩ | ⟨m, text, found, parsed, l', m', linking, outcome⟩
  · rw [outcome]
    exact valid.fail next ((valid.module_next next).symm.trans refused) e
  · have found : p.module? cache r.path = some m := (valid.module_next next).symm.trans found
    obtain ⟨⟨new, links⟩, modules⟩ :=
      foldl_link p (Loading.distinct [] m.dependencies)
        { l with queue, cache := (p.read l.cache r.path).2 } m
    obtain ⟨place, linked⟩ := linked_of_parse parsed found
    rw [(Project.parse_module parsed).1] at links
    rw [linking] at links modules
    rw [← modules] at place linked
    rw [outcome]
    exact valid.link next found links place linked

end Step

/-- What holds of a load from start to end. -/
theorem valid_run {l final : Loading} (ended : run p l = some final) :
    ∀ handled, Valid p cache handled l →
      ∃ all, Valid p cache all final ∧ final.queue = [] := by
  refine run.partial_correctness p
    (fun l final => ∀ handled, Valid p cache handled l →
      ∃ all, Valid p cache all final ∧ final.queue = []) ?_ l final ended
  intro search correct l final ended handled valid
  split at ended
  case h_1 done =>
    cases ended
    exact ⟨handled, valid, done⟩
  case h_2 r queue next => exact correct _ final ended _ (valid.load next)

end Loading

namespace Project

variable {p : Project} {cache : Option Cache}

/-- When loading ends, it has handled the places that the entry reaches. -/
theorem reached_of_load {l : Loading} (ended : p.loadAll cache = some l) :
    ∃ places, p.Reached cache places ∧ (l.errors = [] ↔ ∀ q ∈ places, p.Sound cache q) ∧
      (l.errors = [] → l.modules.map (·.path) = places) ∧
      ∀ m ∈ l.modules, m.Linked p cache := by
  obtain ⟨places, valid, done⟩ := Loading.valid_run ended [] Loading.valid_start
  have asked : l.asked = places := by
    rw [valid.asked, done]
    exact List.append_nil _
  refine ⟨places, ?_, valid.errors, valid.places, valid.linked⟩
  exact {
    entry := asked ▸ valid.entry
    distinct := asked ▸ valid.distinct
    behind := by
      intro front q back split some
      obtain ⟨r, inFront, _, depends⟩ := valid.behind front q back (asked.trans split) some
      exact ⟨r, inFront, depends⟩
    closed := asked ▸ valid.closed }

/-- A bundle is what is written of a load without errors. -/
theorem load_of_bundle {result : Except BuildFailure Artifact}
    (ended : (p.bundle cache).1 = some result) :
    ∃ l, p.loadAll cache = some l ∧
      (l.errors = [] ∧ result = .ok (p.emit l.modules) ∨
        l.errors ≠ [] ∧ result = .error ⟨l.errors⟩) := by
  unfold bundle at ended
  cases loaded : p.loadAll cache with
  | none =>
      rw [loaded] at ended
      exact absurd ended (by simp)
  | some l =>
      rw [loaded] at ended
      refine ⟨l, rfl, ?_⟩
      cases noted : l.errors with
      | nil =>
          simp only [noted, List.isEmpty_nil, if_true, Option.some.injEq] at ended
          exact .inl ⟨rfl, ended.symm⟩
      | cons e es =>
          simp only [noted, List.isEmpty_cons, Bool.false_eq_true, if_false,
            Option.some.injEq] at ended
          exact .inr ⟨by simp, ended.symm⟩

theorem emit_modules (p : Project) (modules : List Module) :
    (p.emit modules).modules = modules.map (·.id) := rfl

/-- Only a specifier that is left outside leads there, and it leads to itself. -/
theorem classify_of_resolve_outside {specifier outside : String} {q : Path}
    (resolved : p.resolve specifier q = some (.outside outside)) :
    outside = specifier ∧ classify specifier p.options.renderSpecifier p.hosts = .outside := by
  unfold resolve at resolved
  simp only at resolved
  split at resolved
  case h_1 => exact absurd resolved (by simp)
  case h_2 kind =>
    cases resolved
    exact ⟨rfl, kind⟩
  case h_3 =>
    obtain ⟨target, _, other⟩ := Option.map_eq_some_iff.mp resolved
    exact absurd other (by simp)
  case h_4 =>
    obtain ⟨target, _, other⟩ := Option.map_eq_some_iff.mp resolved
    exact absurd other (by simp)

/-- When bundling ends, it has gone through the places that the entry reaches, each one behind a place
that depends on it.  There is a bundle exactly when all of them are sound, and otherwise at least one
error.  The bundle lists the ids of just these places, the entry first, and every id that one of its
modules writes is that of a listed module or of a module that is provided outside. -/
theorem bundle_closed (p : Project) (cache : Option Cache)
    (result : Except BuildFailure Artifact) (ended : (p.bundle cache).1 = some result) :
    ∃ places, p.Reached cache places ∧
      ((∃ artifact, result = .ok artifact) ↔ ∀ q ∈ places, p.Sound cache q) ∧
      (∀ failure, result = .error failure → failure.errors ≠ []) ∧
      ∀ artifact, result = .ok artifact →
        artifact.modules = places.map p.moduleId ∧
        artifact.modules.head? = some (p.moduleId p.entry) ∧
        ∃ modules, artifact = p.emit modules ∧ modules.map (·.path) = places ∧
          ∀ m ∈ modules, ∀ specifier, m.WritesId specifier →
            ∃ id, m.resolved.lookup specifier = some id ∧
              (id ∈ artifact.modules ∨
                id = specifier ∧
                  classify specifier p.options.renderSpecifier p.hosts = .outside) := by
  obtain ⟨l, loaded, outcome⟩ := load_of_bundle ended
  obtain ⟨places, reached, sound, complete, linked⟩ := reached_of_load loaded
  refine ⟨places, reached, ?_, ?_, ?_⟩
  · rw [← sound]
    rcases outcome with ⟨none, rfl⟩ | ⟨some, rfl⟩
    · exact ⟨fun _ => none, fun _ => ⟨_, rfl⟩⟩
    · exact ⟨fun ⟨_, absent⟩ => absurd absent (by simp), fun none => absurd none some⟩
  · intro failure failed
    rcases outcome with ⟨_, rfl⟩ | ⟨some, rfl⟩
    · exact absurd failed (by simp)
    · cases failed
      exact some
  · intro artifact success
    rcases outcome with ⟨none, rfl⟩ | ⟨_, rfl⟩
    · cases success
      have ids : (p.emit l.modules).modules = places.map p.moduleId :=
        calc (p.emit l.modules).modules = l.modules.map (·.id) := p.emit_modules l.modules
          _ = l.modules.map (p.moduleId ·.path) :=
            List.map_congr_left fun m member => (linked m member).id
          _ = (l.modules.map (·.path)).map p.moduleId := by
            rw [List.map_map, Function.comp_def]
          _ = places.map p.moduleId := by rw [complete none]
      refine ⟨ids, ?_, l.modules, rfl, complete none, ?_⟩
      · rw [ids, List.head?_map, reached.entry]
        rfl
      · intro m member specifier writes
        have place : m.path ∈ places := by
          rw [← complete none]
          exact List.mem_map_of_mem member
        obtain ⟨d, here, rfl⟩ := (linked m member).depends writes
        obtain ⟨r, resolved⟩ := (linked m member).resolves (sound.mp none m.path place) here
        refine ⟨r.id p, (linked m member).resolved d here r resolved, ?_⟩
        cases r with
        | outside specifier =>
            obtain ⟨same, outside⟩ := classify_of_resolve_outside resolved
            exact .inr ⟨same, outside⟩
        | module target =>
            refine .inl ?_
            obtain ⟨m₀, found, same⟩ := (linked m member).dependencies
            obtain ⟨r, listed, isSame⟩ :=
              reached.closed m.path place target ⟨m₀, found, d, same ▸ here, resolved⟩
            rw [ids]
            exact List.mem_map.mpr ⟨r, listed, p.moduleId_congr isSame⟩
    · exact absurd success (by simp)

end Project

/-! ## A bundle of two modules -/

theorem Project.parse_of_steps {p : Project} {path : Path} {source text : String} {loader : Loader}
    {body : Body} (offered : Loader.ofPath path = .ok loader)
    (erased : p.parsedText path loader source = .ok text)
    (parsed : p.parseBody path loader source text = .ok body) :
    p.parse path source = .ok { path, id := p.moduleId path, source, text, body } := by
  unfold Project.parse
  rw [bind_of_ok (mapError_of_ok offered), bind_of_ok erased, bind_of_ok parsed]
  rfl

/-- Code without a backslash is scanned under the first allowance. -/
theorem Project.parseBody_of_scan {p : Project} {path : Path} {loader : Loader}
    {source text : String} {tokens : List Token} {a : Analysis} (code : loader ≠ .json)
    (absent : '\\' ∉ text.toList)
    (scanned : tokenizeWithin (allowance text.toList) ⟨loader.readsElements, false⟩ text =
      .ok tokens)
    (analyzed : analyze text.toList tokens (p.headerOptions path) = .ok a) :
    p.parseBody path loader source text = .ok (.code tokens a) := by
  rw [Project.parseBody, if_neg code, Project.parseCode, tokenize_of_not_mem absent,
    bind_of_ok (mapError_of_ok scanned), bind_of_ok (mapError_of_ok analyzed)]
  rfl

namespace Loading

variable {p : Project} {l : Loading}

theorem load_of_parse {r : Request} {text : String} {m : Module}
    (read : p.read l.cache r.path = (.ok text, l.cache)) (parsed : p.parse r.path text = .ok m) :
    load p l r =
      let linked := (Loading.distinct [] m.dependencies).foldl (Loading.link p) (l, m)
      { linked.1 with modules := linked.1.modules ++ [linked.2] } := by
  unfold load
  rw [read]
  simp only [parsed]

theorem run_next {r : Request} {queue : List Request} (next : l.queue = r :: queue) :
    run p l = run p (load p { l with queue } r) := by
  rw [run, next]

theorem run_done (done : l.queue = []) : run p l = some l := by
  rw [run, done]

end Loading

/-- A script that loads a value. -/
def pairProject : Project where
  entry := ⟨"/p/t/a.js"⟩
  files := { nodes := [(["p"], .directory), (["p", "t"], .directory),
    (["p", "t", "a.js"], .file ⟨1, 19⟩ (some "require('./b.json')")),
    (["p", "t", "b.json"], .file ⟨2, 1⟩ (some "1"))], clock := 2 }
  sources := .diskOnly ⟨"/p/t/a.js"⟩

theorem pairProject_script : ∃ tokens a,
    tokenizeWithin (allowance "require('./b.json')".toList) ⟨true, false⟩ "require('./b.json')" =
      .ok tokens ∧
    analyze "require('./b.json')".toList tokens (pairProject.headerOptions ⟨"/p/t/a.js"⟩) = .ok a ∧
    a.dependencies = [⟨"./b.json", 8, .requireCall⟩] := by
  have known :
      ((tokenizeWithin (allowance "require('./b.json')".toList) ⟨true, false⟩
        "require('./b.json')").toOption.bind fun tokens =>
          (analyze "require('./b.json')".toList tokens
            (pairProject.headerOptions ⟨"/p/t/a.js"⟩)).toOption.map (·.dependencies)) =
        some [⟨"./b.json", 8, .requireCall⟩] := by
    decide +kernel
  obtain ⟨tokens, scanned, known⟩ := Option.bind_eq_some_iff.mp known
  obtain ⟨a, analyzed, dependencies⟩ := Option.map_eq_some_iff.mp known
  exact ⟨tokens, a, ok_of_toOption scanned, ok_of_toOption analyzed, dependencies⟩

theorem pairProject_loads : ∃ l, pairProject.loadAll none = some l ∧ l.errors = [] := by
  obtain ⟨tokens, a, scanned, analyzed, dependencies⟩ := pairProject_script
  have readScript : pairProject.read none ⟨"/p/t/a.js"⟩ = (.ok "require('./b.json')", none) := rfl
  have readData : pairProject.read none ⟨"/p/t/b.json"⟩ = (.ok "1", none) := rfl
  have scriptBody : pairProject.parseBody ⟨"/p/t/a.js"⟩ .jsx "require('./b.json')"
      "require('./b.json')" = .ok (.code tokens a) :=
    Project.parseBody_of_scan (by decide) (by decide) scanned analyzed
  have script : pairProject.parse ⟨"/p/t/a.js"⟩ "require('./b.json')" = .ok _ :=
    Project.parse_of_steps (show Loader.ofPath ⟨"/p/t/a.js"⟩ = .ok .jsx from rfl) rfl scriptBody
  have dataBody : pairProject.parseBody ⟨"/p/t/b.json"⟩ .json "1" "1" = .ok .data := by
    have number : (Json.parse "1").toOption.isSome = true := by decide
    obtain ⟨v, parsed⟩ := Option.isSome_iff_exists.mp number
    rw [Project.parseBody, if_pos rfl, Project.parseData, ok_of_toOption parsed]
  have data : pairProject.parse ⟨"/p/t/b.json"⟩ "1" = .ok _ :=
    Project.parse_of_steps (show Loader.ofPath ⟨"/p/t/b.json"⟩ = .ok .json from rfl) rfl dataBody
  have target : pairProject.resolve "./b.json" ⟨"/p/t/a.js"⟩ =
      some (.module ⟨"/p/t/b.json"⟩) := by
    decide
  have new : pairProject.entry.isSame ⟨"/p/t/b.json"⟩ = false := by decide
  have first : Loading.load pairProject { queue := [], asked := [pairProject.entry] }
      ⟨⟨"/p/t/a.js"⟩, none⟩ = _ := Loading.load_of_parse readScript script
  simp only [Module.dependencies, dependencies, Loading.distinct, List.contains_nil,
    Bool.false_eq_true, if_false, List.foldl_cons, List.foldl_nil, Loading.link, target,
    Loading.ask, List.any_cons, new, List.any_nil, Bool.or_self] at first
  have second (l : Loading) (uncached : l.cache = none) (place : Location) :
      Loading.load pairProject l ⟨⟨"/p/t/b.json"⟩, some place⟩ = _ :=
    Loading.load_of_parse (uncached ▸ readData) data
  have started : pairProject.loadAll none = Loading.run pairProject (Loading.load pairProject
      { queue := [], asked := [pairProject.entry] } ⟨⟨"/p/t/a.js"⟩, none⟩) := Loading.run_next rfl
  rw [started, first, Loading.run_next rfl, second _ rfl, Loading.run_done rfl]
  exact ⟨_, rfl, rfl⟩

/-- The bundle of the script starts with its id. -/
theorem bundle_closed_pair : ∃ result, (pairProject.bundle none).1 = some result ∧
    ∃ artifact, result = .ok artifact ∧ artifact.modules.head? = some "./t/a.js" := by
  obtain ⟨l, loaded, none⟩ := pairProject_loads
  have bundled : (pairProject.bundle .none).1 = some (.ok (pairProject.emit l.modules)) := by
    rw [Project.bundle, loaded]
    simp [none]
  obtain ⟨places, _, _, _, listed⟩ := Project.bundle_closed pairProject .none _ bundled
  obtain ⟨_, first, _⟩ := listed _ rfl
  have id : pairProject.moduleId pairProject.entry = "./t/a.js" := by decide
  exact ⟨_, bundled, _, rfl, first.trans (congrArg some id)⟩

end JsxPreview.Bundle
