import Mathlib.Data.List.Pairwise
import JsxPreview.Proofs.Bundle.Closure
import JsxPreview.Proofs.Bundle.Simulation
import JsxPreview.Proofs.Files.Stamps

/-! # Bundles that share a cache

A session bundles projects one after the other with one cache, while files change in between.  As long
as stamps tell the texts of a file apart, every bundle is what it would be without a cache: loading
with a sound cache keeps step with loading without one.  Bundles with overrides leave the cache
alone. -/
set_option autoImplicit false
namespace JsxPreview.Bundle

open JsxPreview.Files JsxPreview.Source

/-! ## Reading through a cache -/

section Read

variable {p : Project} {trees : List Tree} {c : Cache}

theorem Project.read_overridden (overridden : p.sources.isOverridden = true) (cache : Option Cache)
    (q : Path) : p.read cache q = ((p.read none q).1, cache) := by
  unfold Project.read
  split
  · rfl
  · split
    · rw [overridden]
      cases cache <;> rfl
    · rfl

/-- Without overrides the sources are the files. -/
theorem Project.read_sound (tell : StampsTell trees) (here : p.files ∈ trees)
    (plain : p.sources.overrides = []) (sound : c.Sound trees) (q : Path) :
    ∃ c', p.read (some c) q = ((p.read none q).1, some c') ∧ c'.Sound trees := by
  have disk : p.sources.read p.files q = p.files.read q := by
    rw [Sources.read, Sources.overrideFor?, plain]
    rfl
  obtain ⟨text, after⟩ := sound.read tell here q
  unfold Project.read
  split
  · exact ⟨c, rfl, sound⟩
  · split
    · cases p.sources.isOverridden with
      | true => exact ⟨c, rfl, sound⟩
      | false => exact ⟨(c.read p.files q).2, by simp only [text, disk], after⟩
    · exact ⟨c, rfl, sound⟩

end Read

section Bundle

variable {p : Project} {trees : List Tree} {c : Cache}

/-- One read of a project whose edits apply as a whole or not at all. -/
theorem Project.read_cached (tell : StampsTell trees) (here : p.files ∈ trees)
    (plain : p.sources.isOverridden = false → p.sources.overrides = []) (sound : c.Sound trees)
    (q : Path) : ∃ c', p.read (some c) q = ((p.read none q).1, some c') ∧ c'.Sound trees ∧
      (p.sources.isOverridden = true → c' = c) := by
  cases overridden : p.sources.isOverridden with
  | true => exact ⟨c, p.read_overridden overridden (some c) q, sound, fun _ => rfl⟩
  | false =>
      obtain ⟨c', read, after⟩ := p.read_sound tell here (plain overridden) sound q
      exact ⟨c', read, after, fun absurd => nomatch absurd⟩

/-- A bundle with a sound cache is the bundle without one, and leaves the cache sound; one with
overrides leaves it as it was. -/
theorem Project.bundle_cached (tell : StampsTell trees) (here : p.files ∈ trees)
    (plain : p.sources.isOverridden = false → p.sources.overrides = []) (sound : c.Sound trees) :
    ∃ c', p.bundle (some c) = ((p.bundle none).1, some c') ∧ c'.Sound trees ∧
      (p.sources.isOverridden = true → c' = c) := by
  let R : Loading → Loading → Prop := fun l l' => l' = { l with cache := none } ∧
    ∃ c', l.cache = some c' ∧ c'.Sound trees ∧ (p.sources.isOverridden = true → c' = c)
  have step : ∀ {l l' r queue}, R l l' → l.queue = r :: queue →
      R (Loading.load p { l with queue } r) (Loading.load p { l' with queue } r) := by
    rintro l l' r queue ⟨rfl, c', holds, sound', kept⟩ _
    obtain ⟨c'', read, sound'', kept'⟩ := p.read_cached tell here plain sound' r.path
    obtain ⟨cache, apart⟩ := Loading.load_cache (l := { l with queue }) (by rw [holds]; exact read)
      (p.read_none r.path)
    exact ⟨apart, c'', cache, sound'', fun overridden => (kept' overridden).trans (kept overridden)⟩
  have started : R (Loading.start p (some c)) (Loading.start p none) :=
    ⟨rfl, c, rfl, sound, fun _ => rfl⟩
  have related : Option.Rel R (p.loadAll (some c)) (p.loadAll none) :=
    Loading.run_simulates (fun ⟨same, _⟩ => same ▸ rfl) step started
  unfold Project.bundle
  revert related
  generalize p.loadAll (some c) = first, p.loadAll none = second
  intro related
  cases related with
  | none => exact ⟨c, rfl, sound, fun _ => rfl⟩
  | some related =>
      obtain ⟨rfl, c', holds, sound', kept⟩ := related
      refine ⟨c', ?_, sound', kept⟩
      simp only
      split <;> rw [holds]

end Bundle

/-! ## Sessions -/

/-- One bundle of a session: what is bundled, and where its edits come from. -/
structure Job where
  entry : Path
  overrideSet : Option String := none
  service : Option OverrideService := none
  policy : OverridePolicy := .fallBackToDisk
  options : Options := {}
  hosts : List String := defaultHosts

namespace Job

/-- What a job gives: its overrides could not be fetched, or it bundles, if that comes to an end. -/
abbrev Result := Except (String × FetchError) (Option (Except BuildFailure Artifact))

def sources (j : Job) : Except (String × FetchError) Sources :=
  Sources.prepare j.entry j.overrideSet j.service j.policy

def run (j : Job) (files : Tree) (cache : Option Cache) : Result × Option Cache :=
  match j.sources with
  | .error e => (.error e, cache)
  | .ok sources =>
      let (result, cache) := Project.bundle ⟨j.entry, files, sources, j.options, j.hosts⟩ cache
      (.ok result, cache)

/-- Only sources to which edits apply hold any. -/
theorem sources_plain {j : Job} {sources : Sources} (prepared : j.sources = .ok sources)
    (plain : sources.isOverridden = false) : sources.overrides = [] := by
  unfold Job.sources Sources.prepare at prepared
  split at prepared
  · rw [← Except.ok.inj prepared]
    rfl
  · rw [← Except.ok.inj prepared]
    rfl
  · rw [← Except.ok.inj prepared] at plain
    exact absurd plain (by simp [Sources.withOverrides, Sources.isOverridden])
  · split at prepared
    · exact absurd prepared (by simp)
    · rw [← Except.ok.inj prepared]
      rfl

theorem run_cached {trees : List Tree} {files : Tree} {c : Cache} (tell : StampsTell trees)
    (here : files ∈ trees) (sound : c.Sound trees) (j : Job) :
    ∃ c', j.run files (some c) = ((j.run files none).1, some c') ∧ c'.Sound trees ∧
      ∀ sources, j.sources = .ok sources → sources.isOverridden = true → c' = c := by
  unfold run
  cases prepared : j.sources with
  | error e => exact ⟨c, rfl, sound, fun _ absurd => nomatch absurd⟩
  | ok sources =>
      obtain ⟨c', bundled, after, kept⟩ := Project.bundle_cached
        (p := ⟨j.entry, files, sources, j.options, j.hosts⟩) tell here (sources_plain prepared) sound
      refine ⟨c', ?_, after, ?_⟩
      · simp only [bundled]
      · intro sources' same overridden
        cases same
        exact kept overridden

end Job

inductive Event where
  /-- Files are created, replaced or deleted. -/
  | change (files : Tree)
  | forget (path : Path)
  | clear
  | bundle (j : Job)

structure Session where
  files : Tree
  cache : Cache := {}

namespace Session

def step (s : Session) : Event → Session
  | .change files => { s with files }
  | .forget path => { s with cache := s.cache.forget path }
  | .clear => { s with cache := s.cache.clear }
  | .bundle j => { s with cache := (j.run s.files (some s.cache)).2.getD s.cache }

/-- What the jobs of a session give, one after the other. -/
def results (s : Session) : List Event → List Job.Result
  | [] => []
  | .bundle j :: rest => (j.run s.files (some s.cache)).1 :: results (s.step (.bundle j)) rest
  | e :: rest => results (s.step e) rest

end Session

/-- What the jobs give without a cache. -/
def resultsApart (files : Tree) : List Event → List Job.Result
  | [] => []
  | .bundle j :: rest => (j.run files none).1 :: resultsApart files rest
  | .change files :: rest => resultsApart files rest
  | _ :: rest => resultsApart files rest

/-- The trees that there are in the course of events. -/
def trees (files : Tree) : List Event → List Tree
  | [] => [files]
  | .change files' :: rest => files :: trees files' rest
  | _ :: rest => trees files rest

theorem mem_trees (files : Tree) (events : List Event) : files ∈ trees files events := by
  induction events with
  | nil => exact List.mem_singleton_self files
  | cons e events ih =>
      cases e with
      | change files' => exact List.mem_cons_self ..
      | forget | clear | bundle => exact ih

namespace Session

variable {all : List Tree} {s : Session}

/-- The cache stays sound, whatever happens. -/
theorem step_sound (tell : StampsTell all) (here : s.files ∈ all) (sound : s.cache.Sound all)
    (e : Event) : (s.step e).cache.Sound all := by
  cases e with
  | change files => exact sound
  | forget path => exact sound.forget path
  | clear => exact .clear s.cache
  | bundle j =>
      obtain ⟨c', ran, after, _⟩ := j.run_cached tell here sound
      change ((j.run s.files (some s.cache)).2.getD s.cache).Sound all
      rw [ran]
      exact after

theorem step_trees (e : Event) (rest : List Event) :
    trees (s.step e).files rest ⊆ trees s.files (e :: rest) := by
  cases e with
  | change files => exact List.subset_cons_self ..
  | forget | clear | bundle => exact List.Subset.refl _

theorem results_eq (tell : StampsTell all) (events : List Event) : ∀ {s : Session},
    trees s.files events ⊆ all → s.cache.Sound all → results s events = resultsApart s.files events := by
  induction events with
  | nil => exact fun _ _ => rfl
  | cons e rest ih =>
      intro s known sound
      have here : s.files ∈ all := known (mem_trees s.files (e :: rest))
      have later := ih (List.Subset.trans (step_trees e rest) known) (step_sound tell here sound e)
      cases e with
      | change | forget | clear => exact later
      | bundle j =>
          obtain ⟨c', ran, _⟩ := j.run_cached tell here sound
          rw [results, later, ran]
          rfl

/-- After some of the events, the files are some that there were, and the cache is sound. -/
theorem foldl_sound (tell : StampsTell all) (front : List Event) : ∀ {s : Session} {back : List Event},
    trees s.files (front ++ back) ⊆ all → s.cache.Sound all →
      (front.foldl step s).files ∈ all ∧ (front.foldl step s).cache.Sound all := by
  induction front with
  | nil => exact fun known sound => ⟨known (mem_trees ..), sound⟩
  | cons e front ih =>
      intro s back known sound
      have here : s.files ∈ all := known (mem_trees s.files _)
      exact ih (List.Subset.trans (step_trees e _) known) (step_sound tell here sound e)

end Session

/-- Every change of the files is a write or a removal. -/
def Grows (files : Tree) : List Event → Prop
  | [] => True
  | .change files' :: rest =>
      ((∃ p content, files' = files.write p content) ∨ ∃ p, files' = files.remove p) ∧
        Grows files' rest
  | _ :: rest => Grows files rest

theorem Grows.agree (events : List Event) : ∀ {files : Tree}, files.Timed → Grows files events →
    (trees files events).Pairwise Tree.Agree ∧ ∀ t ∈ trees files events, files.Follows t := by
  induction events with
  | nil =>
      intro files _ _
      refine ⟨List.pairwise_singleton _ _, fun t member => ?_⟩
      rw [List.mem_singleton.mp member]
      exact .refl files
  | cons e rest ih =>
      intro files timed grows
      cases e with
      | forget | clear | bundle => exact ih timed grows
      | change files' =>
          obtain ⟨step, grows⟩ := grows
          have follows : files.Follows files' ∧ files'.Timed := by
            rcases step with ⟨p, content, same⟩ | ⟨p, same⟩
            · rw [same]
              exact ⟨files.follows_write p content, timed.write p content⟩
            · rw [same]
              exact ⟨files.follows_remove p, timed.remove p⟩
          obtain ⟨agree, later⟩ := ih follows.2 grows
          have after : ∀ t ∈ trees files' rest, files.Follows t :=
            fun t member => follows.1.trans (later t member)
          refine ⟨List.pairwise_cons.mpr ⟨fun t member => (after t member).agree timed, agree⟩, ?_⟩
          intro t member
          rcases List.mem_cons.mp member with rfl | member
          · exact .refl _
          · exact after t member

/-- Stamps tell texts apart in a session whose changes are writes and removals. -/
theorem Grows.tell {files : Tree} {events : List Event} (grows : Grows files events)
    (timed : files.Timed) : StampsTell (trees files events) := by
  have : Std.Symm Tree.Agree := ⟨fun _ _ agree => agree.symm⟩
  intro t here t' there
  exact (Grows.agree events timed grows).1.forall_of_forall (fun t _ => .refl t) here there

/-- As long as stamps tell texts apart, the jobs of a session give what they give without a cache.  At
every moment each entry holds what its file reads as whenever the file has the entry's stamp; a job to
which overrides apply leaves the cache as it is, and so does a read that fails with its entries. -/
theorem cache_invisible (files : Tree) (events : List Event)
    (tell : StampsTell (trees files events)) :
    Session.results { files } events = resultsApart files events ∧
    ∀ front, front <+: events →
      let s := front.foldl Session.step { files }
      (∀ e ∈ s.cache.entries,
        (∃ t ∈ trees files events, t.stamp e.path = .ok e.stamp ∧ t.read e.path = .ok e.text) ∧
        ∀ t ∈ trees files events, t.stamp e.path = .ok e.stamp → t.read e.path = .ok e.text) ∧
      (∀ (j : Job) sources, j.sources = .ok sources → sources.isOverridden = true →
        (j.run s.files (some s.cache)).2 = some s.cache) ∧
      ∀ path fault, (s.cache.read s.files path).1 = .error fault →
        (s.cache.read s.files path).2.entries = s.cache.entries := by
  refine ⟨Session.results_eq tell events (List.Subset.refl _) (.empty _), ?_⟩
  rintro front ⟨back, rfl⟩
  obtain ⟨here, sound⟩ := Session.foldl_sound tell front (s := { files }) (List.Subset.refl _) (.empty _)
  refine ⟨?_, ?_, fun path fault => Cache.entries_of_failed_read⟩
  · intro e member
    exact ⟨sound e member, fun t known stamp => sound.text tell known member rfl stamp⟩
  · intro j sources prepared overridden
    obtain ⟨c', ran, _, kept⟩ := j.run_cached tell here sound
    rw [ran, kept sources prepared overridden]

/-- A script and its data are bundled, the data is written anew, and the script is bundled again. -/
def pairEvents : List Event :=
  [.bundle { entry := ⟨"/p/t/a.js"⟩ },
    .change (pairProject.files.write ⟨"/p/t/b.json"⟩ (.text "22")),
    .bundle { entry := ⟨"/p/t/a.js"⟩ }]

theorem cache_invisible_pair : StampsTell (trees pairProject.files pairEvents) ∧
    Session.results { files := pairProject.files } pairEvents =
      resultsApart pairProject.files pairEvents ∧
    ∃ artifact, (Session.results { files := pairProject.files } pairEvents).head? =
      some (.ok (some (.ok artifact))) := by
  have timed : pairProject.files.Timed := Tree.timed_of_nodes (by decide)
  have grows : Grows pairProject.files pairEvents := ⟨.inl ⟨_, _, rfl⟩, trivial⟩
  have same := (cache_invisible pairProject.files pairEvents (grows.tell timed)).1
  obtain ⟨l, loaded, none⟩ := pairProject_loads
  have bundled : (pairProject.bundle .none).1 = some (.ok (pairProject.emit l.modules)) := by
    rw [Project.bundle, loaded]
    simp [none]
  refine ⟨grows.tell timed, same, pairProject.emit l.modules, ?_⟩
  rw [same, ← bundled]
  rfl

end JsxPreview.Bundle
