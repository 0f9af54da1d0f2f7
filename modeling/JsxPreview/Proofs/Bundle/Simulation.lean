import JsxPreview.Bundle.Graph

/-! # Two loads that keep step

Two loads whose queues stay the same and whose states stay related end together, in related states
(`run_simulates`).  Each load is a step after the other; so it is enough to relate one step.  What a
step does to the cache stands apart from all else that it does (`load_cache`). -/
set_option autoImplicit false
namespace JsxPreview.Bundle

open JsxPreview.Files JsxPreview.Source

theorem Project.read_none (p : Project) (q : Path) : p.read none q = ((p.read none q).1, none) := by
  unfold Project.read
  split
  · rfl
  · split <;> rfl

namespace Loading

section Simulation

variable {p p' : Project} {R : Loading → Loading → Prop}

/-- When one of two related loads ends, the other one does, in a related state. -/
theorem run_ends (queues : ∀ {l l'}, R l l' → l.queue = l'.queue)
    (step : ∀ {l l' r queue}, R l l' → l.queue = r :: queue →
      R (load p { l with queue } r) (load p' { l' with queue } r))
    {l final : Loading} (ended : run p l = some final) :
    ∀ {l'}, R l l' → ∃ final', run p' l' = some final' ∧ R final final' := by
  refine run.partial_correctness p
    (fun l final => ∀ {l'}, R l l' → ∃ final', run p' l' = some final' ∧ R final final') ?_
    l final ended
  intro search correct l final ended l' related
  split at ended
  case h_1 done =>
    cases ended
    refine ⟨l', ?_, related⟩
    rw [run, ← queues related, done]
  case h_2 r queue next =>
    obtain ⟨final', runs, after⟩ := correct _ final ended (step related next)
    refine ⟨final', ?_, after⟩
    rw [run, ← queues related, next]
    exact runs

theorem run_simulates (queues : ∀ {l l'}, R l l' → l.queue = l'.queue)
    (step : ∀ {l l' r queue}, R l l' → l.queue = r :: queue →
      R (load p { l with queue } r) (load p' { l' with queue } r))
    {l l' : Loading} (related : R l l') : Option.Rel R (run p l) (run p' l') := by
  cases first : run p l with
  | some final =>
      obtain ⟨final', second, related⟩ := run_ends queues step first related
      rw [second]
      exact .some related
  | none =>
      cases second : run p' l' with
      | none => exact .none
      | some final' =>
          -- the other load cannot end alone: the relation read backwards is kept as well
          have queues' : ∀ {a b}, R b a → a.queue = b.queue := fun related => (queues related).symm
          have step' : ∀ {a b r queue}, R b a → a.queue = r :: queue →
              R (load p { b with queue } r) (load p' { a with queue } r) :=
            fun related next => step related ((queues related).trans next)
          obtain ⟨final, ends, _⟩ := run_ends queues' step' second related
          rw [first] at ends
          exact absurd ends (by simp)

end Simulation

/-! ## The cache of a step -/

theorem link_cache (p : Project) (l : Loading) (cache : Option Cache) (m : Module)
    (d : Dependency) : link p ({ l with cache }, m) d =
      ({ (link p (l, m) d).1 with cache }, (link p (l, m) d).2) := by
  unfold link
  simp only
  split
  · rfl
  · unfold ask
    split <;> rfl
  · rfl

theorem foldl_link_cache (p : Project) (cache : Option Cache) (ds : List Dependency) :
    ∀ (l : Loading) (m : Module), ds.foldl (link p) ({ l with cache }, m) =
      ({ (ds.foldl (link p) (l, m)).1 with cache }, (ds.foldl (link p) (l, m)).2) := by
  induction ds with
  | nil => exact fun _ _ => rfl
  | cons d ds ih =>
      intro l m
      rw [List.foldl_cons, link_cache, ih, List.foldl_cons]

/-- Loading depends on the cache by the text that is read alone. -/
theorem load_cache {p : Project} {l : Loading} {r : Request} {cache c c' : Option Cache}
    {text : Except Fault String} (first : p.read l.cache r.path = (text, c))
    (second : p.read cache r.path = (text, c')) :
    (load p l r).cache = c ∧ load p { l with cache } r = { load p l r with cache := c' } := by
  unfold load
  simp only [first, second]
  cases text with
  | error e => exact ⟨rfl, rfl⟩
  | ok text =>
      simp only
      cases p.parse r.path text with
      | error e => exact ⟨rfl, rfl⟩
      | ok m =>
          have linked (cache : Option Cache) :=
            foldl_link_cache p cache (distinct [] m.dependencies) l m
          simp only
          rw [linked c, linked c']
          exact ⟨rfl, rfl⟩

end Loading

end JsxPreview.Bundle
