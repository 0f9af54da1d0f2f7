import JsxPreview.Proofs.Analysis.Origins
import JsxPreview.Proofs.Emission.Splice

/-! # Which rewrites are applied

Emission comes to a rewrite when a token starts where it starts, at any depth, and nothing that
another rewrite replaces covers that place (`mem_applied`).  With `Elementless.spliced` this is what
emission writes for a whole module (`emission_splices`). -/
set_option autoImplicit false
namespace JsxPreview.Source

open JsxPreview.Text

/-! ## Entries -/

namespace Rewrites

/-- Entries stand in the order of their places, each place once. -/
def Ascending (rs : Rewrites) : Prop := rs.entries.Pairwise fun e e' => e.1 < e'.1

theorem Ascending.insert {rs : Rewrites} (ascending : rs.Ascending) (start : Nat) (r : Rewrite) :
    (rs.insert start r).Ascending := by
  obtain ⟨entries⟩ := rs
  change (insertInto start r entries).Pairwise fun e e' => e.1 < e'.1
  change entries.Pairwise fun e e' => e.1 < e'.1 at ascending
  induction entries with
  | nil => exact List.pairwise_singleton ..
  | cons first rest ih =>
      have later := List.pairwise_cons.mp ascending
      simp only [insertInto]
      split
      case isTrue less =>
        refine List.pairwise_cons.mpr ⟨List.forall_mem_cons.mpr ⟨less, fun e member => ?_⟩, ascending⟩
        exact Nat.lt_trans less (later.1 e member)
      case isFalse atLeast =>
        split
        case isTrue same =>
          refine List.pairwise_cons.mpr ⟨fun e member => ?_, later.2⟩
          rw [same]
          exact later.1 e member
        case isFalse apart =>
          refine List.pairwise_cons.mpr ⟨fun e member => ?_, ih later.2⟩
          rcases @Rewrites.mem_insert ⟨rest⟩ _ _ _ member with rfl | member
          · change first.1 < start
            omega
          · exact later.1 e member

theorem mem_of_find? {rs : Rewrites} {start : Nat} {r : Rewrite} (found : rs.find? start = some r) :
    (start, r) ∈ rs.entries := by
  obtain ⟨front, back, split, _⟩ := List.lookup_eq_some_iff.mp found
  rw [split]
  exact List.mem_append_right _ (List.mem_cons_self ..)

theorem Ascending.find?_of_mem {rs : Rewrites} (ascending : rs.Ascending) {e : Nat × Rewrite}
    (entry : e ∈ rs.entries) : rs.find? e.1 = some e.2 := by
  obtain ⟨front, back, split⟩ := List.append_of_mem entry
  refine List.lookup_eq_some_iff.mpr ⟨front, back, split, fun e' member => ?_⟩
  unfold Ascending at ascending
  rw [split] at ascending
  have less := (List.pairwise_append.mp ascending).2.2 e' member e (List.mem_cons_self ..)
  exact bne_iff_ne.mpr (Nat.ne_of_gt less)

end Rewrites

/-- The entries of an analysis are in the order of their places. -/
theorem analyze_ascending {source : List Char} {ts : List Token} {o : HeaderOptions} {a : Analysis}
    (success : analyze source ts o = .ok a) : a.rewrites.Ascending := by
  unfold analyze at success
  obtain ⟨declared, declares, success⟩ := ok_of_bind success
  cases ok_of_pure success
  have read := (Analysis.declarations_edits declares).keep
    (P := fun a => a.rewrites.Ascending) (fun edit ascending => by
      cases edit with
      | load => exact ascending.insert ..
      | replace => exact ascending.insert ..
      | insert => exact ascending.insert ..
      | note _ rewrites _ =>
          rw [rewrites]
          exact ascending) List.Pairwise.nil
  rw [Analysis.rewrites_withHeader]
  refine Analysis.addUsages_keep (P := fun a => a.rewrites.Ascending) (fun u _ _ ascending => ?_)
    read
  cases u with
  | element => exact ascending
  | _ => exact ascending.insert ..

/-! ## Rewrites end with tokens -/

/-- A rewrite that starts in a list of tokens replaces tokens of it, or of one of its containers. -/
def Rewrites.Local (source : List Char) (ts us : List Token) (runs : List (Nat × Nat))
    (rs : Rewrites) (low high : Nat) : Prop :=
  ∀ e ∈ rs.entries, low ≤ e.1 → e.1 < high →
    e.2.stop = e.1 ∨ AtLevel (Origin source ts runs e) us

/-- What is replaced from a token on ends with a token of the same list. -/
theorem Rewrites.fit_of_local {source : List Char} {ts : List Token} {runs : List (Nat × Nat)}
    {rs : Rewrites} {low high : Nat} {us : List Token} (spanned : Spanned low high us)
    (stays : rs.Local source ts us runs low high) : rs.Fit us := by
  induction spanned with
  | @intro low high us follow grows raws bodies inside ih =>
      have spanned : Spanned low high us := .intro follow grows raws bodies inside
      refine .intro (fun t member r found => ?_) fun t member b container =>
        ih t member b container fun e entry begins ends => ?_
      · obtain ⟨begins, _, ends⟩ := follow.of_mem member
        have grows := grows t member
        simp only [Token.span] at begins ends
        rcases stays _ (mem_of_find? found) begins (by omega) with inserts | level
        · exact .inl inserts
        cases level with
        | here here =>
            obtain ⟨first, last, run, _⟩ := here
            obtain ⟨u, among, stops⟩ := run.last_mem
            exact .inr ⟨run.start_lt spanned, u, among, stops⟩
        | @inside _ t' b member' container within =>
            have runs := ofRuns_origin source ts runs (t.start, r)
            obtain ⟨inFront, behind, _, _⟩ := within.within_token runs spanned member' container
            have grew := (within.within runs (spanned.container member' container)).2.1
            rcases follow.apart member member' with rfl | first | first
            · omega
            · simp only [Token.span] at first
              omega
            · simp only [Token.span] at first
              omega
      · obtain ⟨after, _, before⟩ := (bodies t member).of_mem container
        obtain ⟨low_le, _, le_high⟩ := follow.of_mem member
        simp only [Body.span, Token.span] at after before low_le le_high
        rcases stays e entry (by omega) (by omega) with inserts | level
        · exact .inl inserts
        refine .inr ?_
        cases level with
        | here here =>
            obtain ⟨first, last, run, _⟩ := here
            obtain ⟨v, among, starts⟩ := run.first_mem
            have grows := grows v among
            rcases follow.apart member among with rfl | first | first
            · omega
            · simp only [Token.span] at first
              omega
            · simp only [Token.span] at first
              omega
        | @inside _ t' b' member' container' within =>
            have runs := ofRuns_origin source ts runs e
            obtain ⟨inFront, behind, starts, stops⟩ :=
              within.within_token runs spanned member' container'
            have grew := (within.within runs (spanned.container member' container')).2.1
            rcases follow.apart member member' with rfl | first | first
            · rcases (bodies t member).apart container container' with rfl | first | first
              · exact within
              · simp only [Body.span] at first
                omega
              · simp only [Body.span] at first
                omega
            · simp only [Token.span] at first
              omega
            · simp only [Token.span] at first
              omega

theorem Rewrites.Origins.fit {source : List Char} {ts : List Token} {runs : List (Nat × Nat)}
    {rs : Rewrites} {low high : Nat} (origins : rs.Origins source ts runs)
    (spanned : Spanned low high ts) : rs.Fit ts :=
  fit_of_local spanned fun e entry _ _ => origins.entries e entry

/-! ## What emission comes to -/

namespace Rewrites

theorem appliedInside_eq (rs : Rewrites) {t : Token} (plain : t.shape.isElement = false) :
    rs.appliedInside t = t.shape.bodies.flatMap fun b => rs.applied 0 b.tokens := by
  obtain ⟨shape, start, stop, text⟩ := t
  cases shape with
  | template parts =>
      rw [appliedInside]
      exact appliedParts_eq rs parts
  | jsx element => exact absurd plain (by simp [Shape.isElement])
  | _ => rfl

theorem applied_cases {rs : Rewrites} {skipped : Nat} {t : Token} {rest : List Token}
    {e : Nat × Rewrite} (member : e ∈ rs.applied skipped (t :: rest)) :
    (e.1 = t.start ∧ rs.find? e.1 = some e.2) ∨ e ∈ rs.appliedInside t ∨
      ∃ skipped, e ∈ rs.applied skipped rest := by
  rw [applied] at member
  split at member
  case isTrue => exact .inr (.inr ⟨_, member⟩)
  case isFalse =>
    split at member
    case h_1 r found =>
      split at member
      · rcases List.mem_cons.mp member with rfl | member
        · exact .inl ⟨rfl, found⟩
        · exact .inr (.inr ⟨_, member⟩)
      · rcases List.mem_append.mp member with member | member
        · rcases List.mem_cons.mp member with rfl | member
          · exact .inl ⟨rfl, found⟩
          · exact .inr (.inl member)
        · exact .inr (.inr ⟨_, member⟩)
    case h_2 =>
      rcases List.mem_append.mp member with member | member
      · exact .inr (.inl member)
      · exact .inr (.inr ⟨_, member⟩)

end Rewrites

/-- Emission comes to rewrites that start with a token. -/
theorem Elementless.starts_of_applied {rs : Rewrites} {ts : List Token}
    (elementless : Elementless ts) : ∀ {skipped : Nat} {e : Nat × Rewrite},
      e ∈ rs.applied skipped ts →
        (∃ t : Token, t.Within ts ∧ t.start = e.1) ∧ rs.find? e.1 = some e.2 := by
  induction elementless with
  | @intro ts leaf deeper ih =>
      intro skipped e member
      induction ts generalizing skipped with
      | nil => exact absurd member List.not_mem_nil
      | cons t rest later =>
          rcases Rewrites.applied_cases member with ⟨starts, found⟩ | member | ⟨_, member⟩
          · exact ⟨⟨t, .here (List.mem_cons_self ..), starts.symm⟩, found⟩
          · rw [rs.appliedInside_eq (leaf t (List.mem_cons_self ..))] at member
            obtain ⟨b, container, member⟩ := List.mem_flatMap.mp member
            obtain ⟨⟨u, within, starts⟩, found⟩ := ih t (List.mem_cons_self ..) b container member
            exact ⟨⟨u, .inside (List.mem_cons_self ..) container within, starts⟩, found⟩
          · obtain ⟨⟨u, within, starts⟩, found⟩ := later (List.forall_mem_cons.mp leaf).2
              (List.forall_mem_cons.mp deeper).2 (List.forall_mem_cons.mp ih).2 member
            exact ⟨⟨u, within.of_subset (List.subset_cons_self ..), starts⟩, found⟩

/-- Emission comes to rewrites in the order of their places, to each once. -/
theorem Elementless.applied_ascending {rs : Rewrites} {ts : List Token}
    (elementless : Elementless ts) : ∀ {low high : Nat}, Spanned low high ts → ∀ skipped,
      (rs.applied skipped ts).Pairwise fun e e' => e.1 < e'.1 := by
  induction elementless with
  | @intro ts leaf deeper ih =>
      intro low high spanned skipped
      have within {us : List Token} {low high skipped : Nat} (elementless : Elementless us)
          (spanned : Spanned low high us) {e : Nat × Rewrite} (member : e ∈ rs.applied skipped us) :
          low ≤ e.1 ∧ e.1 < high := by
        obtain ⟨⟨t, within, starts⟩, _⟩ := elementless.starts_of_applied member
        have := spanned.span_within within
        omega
      induction ts generalizing low skipped with
      | nil => exact .nil
      | cons t rest later =>
          obtain ⟨plain, plainRest⟩ := List.forall_mem_cons.mp leaf
          obtain ⟨inside, insideRest⟩ := List.forall_mem_cons.mp deeper
          obtain ⟨sorted, sortedRest⟩ := List.forall_mem_cons.mp ih
          have others : Elementless rest := .intro plainRest insideRest
          have behind := spanned.tail
          have later (skipped : Nat) := later plainRest insideRest sortedRest behind skipped
          have bodies : Follow Body.span (t.start + 1) t.stop t.shape.bodies := by
            obtain ⟨_, _, _, bodies, _⟩ := spanned
            exact bodies t (List.mem_cons_self ..)
          have own (b : Body) (container : b ∈ t.shape.bodies) : Spanned b.start b.stop b.tokens :=
            spanned.container (List.mem_cons_self ..) container
          have grows : t.start < t.stop := by
            obtain ⟨_, grows, _, _, _⟩ := spanned
            exact grows t (List.mem_cons_self ..)
          -- what is applied in the containers, and where
          have first : (rs.appliedInside t).Pairwise fun e e' => e.1 < e'.1 := by
            rw [rs.appliedInside_eq plain]
            refine List.pairwise_flatMap.mpr ⟨fun b container =>
              sorted b container (own b container) 0, bodies.pairwise.imp_of_mem ?_⟩
            intro b b' container container' apart e member e' member'
            have := within (inside b container) (own b container) member
            have := within (inside b' container') (own b' container') member'
            simp only [Body.span] at apart
            omega
          have place {e : Nat × Rewrite} (member : e ∈ rs.appliedInside t) :
              t.start < e.1 ∧ e.1 < t.stop := by
            rw [rs.appliedInside_eq plain] at member
            obtain ⟨b, container, member⟩ := List.mem_flatMap.mp member
            have := within (inside b container) (own b container) member
            have := bodies.of_mem container
            simp only [Body.span] at this
            omega
          have after {skipped : Nat} {e : Nat × Rewrite} (member : e ∈ rs.applied skipped rest) :
              t.stop ≤ e.1 := (within others behind member).1
          have both (skipped : Nat) : (rs.appliedInside t ++ rs.applied skipped rest).Pairwise
              fun e e' => e.1 < e'.1 := by
            refine List.pairwise_append.mpr ⟨first, later skipped, fun e member e' member' => ?_⟩
            exact Nat.lt_of_lt_of_le (place member).2 (after member')
          rw [Rewrites.applied]
          split
          · exact later skipped
          · split
            · split
              · refine List.pairwise_cons.mpr ⟨fun e member => ?_, later _⟩
                exact Nat.lt_of_lt_of_le grows (after member)
              · refine List.pairwise_cons.mpr ⟨fun e member => ?_, both skipped⟩
                rcases List.mem_append.mp member with member | member
                · exact (place member).1
                · exact Nat.lt_of_lt_of_le grows (after member)
            · exact both skipped

/-! ## What is covered -/

/-- Nothing that a rewrite replaces covers a place behind where the rewrite starts. -/
def Rewrites.Free (rs : Rewrites) (n : Nat) : Prop :=
  ¬ ∃ e ∈ rs.entries, e.1 < n ∧ n < e.2.stop

/-- Emission reaches a token that is not covered: the rewrite that starts with it is applied, and
those inside it are when it is not replaced. -/
theorem Spanned.reaches {rs : Rewrites} {low high skipped : Nat} {ts : List Token} {t : Token}
    (spanned : Spanned low high ts) (member : t ∈ ts) (free : rs.Free t.start)
    (ahead : skipped ≤ t.start) :
    (∀ r, rs.find? t.start = some r → (t.start, r) ∈ rs.applied skipped ts) ∧
      ((∀ r, rs.find? t.start = some r → ¬ t.start < r.stop) →
        rs.appliedInside t ⊆ rs.applied skipped ts) := by
  induction ts generalizing low skipped with
  | nil => exact absurd member List.not_mem_nil
  | cons u rest ih =>
      rw [Rewrites.applied]
      rcases List.mem_cons.mp member with rfl | later
      · rw [if_neg (Nat.not_lt.mpr ahead)]
        refine ⟨fun r found => ?_, fun stays => ?_⟩
        · simp only [found]
          split
          · exact List.mem_cons_self ..
          · exact List.mem_cons_self ..
        · split
          case h_1 r found =>
            rw [if_neg (stays r found)]
            exact List.subset_cons_of_subset _ (List.subset_append_left ..)
          case h_2 => exact List.subset_append_left ..
      · have behind {skipped : Nat} (ahead : skipped ≤ t.start) := ih spanned.tail later ahead
        split
        · exact behind ahead
        split
        case h_1 r found =>
          split
          · -- the rewrite that is applied here does not reach the token
            have apart : r.stop ≤ t.start := by
              have grows := (spanned.span_within (.here (List.mem_cons_self ..))).2.1
              have starts := (spanned.tail.span_within (.here later)).1
              refine Nat.le_of_not_lt fun covers => free ⟨_, Rewrites.mem_of_find? found, ?_, covers⟩
              exact Nat.lt_of_lt_of_le grows starts
            obtain ⟨own, inside⟩ := behind apart
            exact ⟨fun r found => List.mem_cons_of_mem _ (own r found),
              fun stays => List.subset_cons_of_subset _ (inside stays)⟩
          · obtain ⟨own, inside⟩ := behind ahead
            exact ⟨fun r found => List.mem_append_right _ (own r found),
              fun stays => List.subset_append_of_subset_right _ (inside stays)⟩
        case h_2 =>
          obtain ⟨own, inside⟩ := behind ahead
          exact ⟨fun r found => List.mem_append_right _ (own r found),
            fun stays => List.subset_append_of_subset_right _ (inside stays)⟩

/-- A rewrite that starts with a token that is not covered is applied, at every depth. -/
theorem Elementless.applied_of_free {rs : Rewrites} {ts : List Token} {t : Token}
    (within : t.Within ts) (free : rs.Free t.start) {r : Rewrite}
    (found : rs.find? t.start = some r) : ∀ {low high : Nat}, Elementless ts →
      Spanned low high ts → rs.Whole ts → (t.start, r) ∈ rs.applied 0 ts := by
  induction within with
  | here member =>
      intro low high _ spanned _
      exact (spanned.reaches member free (Nat.zero_le _)).1 r found
  | @inside ts u b member container within ih =>
      rintro low high ⟨leaf, deeper⟩ spanned whole
      obtain ⟨begins, ends⟩ := spanned.within_token member container within
      have grows := (spanned.span_within (.inside member container within)).2.1
      -- what covers the token around it, or replaces that, covers this one
      have around {e : Nat × Rewrite} (entry : e ∈ rs.entries) (first : e.1 ≤ u.start) :
          ¬ u.start < e.2.stop := by
        intro before
        have := whole e entry u (.here member) first before
        exact free ⟨e, entry, by omega, by omega⟩
      have freeAround : rs.Free u.start := fun ⟨_, entry, first, before⟩ =>
        around entry (Nat.le_of_lt first) before
      refine (spanned.reaches member freeAround (Nat.zero_le _)).2 (fun r found =>
        around (Rewrites.mem_of_find? found) (Nat.le_refl _)) ?_
      rw [rs.appliedInside_eq (leaf u member)]
      exact List.mem_flatMap.mpr ⟨b, container, ih (deeper u member b container)
        (spanned.container member container) (whole.inside member container)⟩

/-- When places are covered, a rewrite covers them that starts at a place that is not. -/
theorem Rewrites.Origins.cover {source : List Char} {ts : List Token} {runs : List (Nat × Nat)}
    {rs : Rewrites} {low high n : Nat} (origins : rs.Origins source ts runs)
    (spanned : Spanned low high ts) (covered : ∃ e ∈ rs.entries, e.1 < n ∧ n < e.2.stop) :
    ∃ e ∈ rs.entries, rs.Free e.1 ∧ e.1 < n ∧ n < e.2.stop := by
  suffices climb : ∀ start, ∀ e ∈ rs.entries, e.1 = start → e.1 < n → n < e.2.stop →
      ∃ e ∈ rs.entries, rs.Free e.1 ∧ e.1 < n ∧ n < e.2.stop by
    obtain ⟨e, entry, first, before⟩ := covered
    exact climb e.1 e entry rfl first before
  intro start
  induction start using Nat.strongRecOn with
  | _ start ih =>
      rintro e entry rfl first before
      by_cases free : rs.Free e.1
      · exact ⟨e, entry, free, first, before⟩
      · obtain ⟨e', entry', first', before'⟩ := Classical.not_not.mp free
        have ends := origins.nested spanned entry' entry first' before'
        exact ih e'.1 first' e' entry' rfl (by omega) (by omega)

/-! ## What is written for a module -/

section Module

variable {d : Dialect} {source : String} {ts : List Token} {o : HeaderOptions} {a : Analysis}

/-- Emission comes to the rewrites that start with a token, where no other one covers it. -/
theorem mem_applied (plain : d.jsx = false) (scanned : tokenize d source = .ok ts)
    (analyzed : analyze source.toList ts o = .ok a) {resolved : List (String × String)}
    {out : List Char}
    (spliced : Spliced resolved 0 (a.rewrites.applied 0 ts) source.toList out)
    (e : Nat × Rewrite) :
    e ∈ a.rewrites.applied 0 ts ↔ e ∈ a.rewrites.entries ∧
      (∃ t : Token, t.Within ts ∧ t.start = e.1) ∧ a.rewrites.Free e.1 := by
  have elementless := tokenize_elementless plain scanned
  have spanned := tokenize_spanned scanned
  have whole := analyze_whole analyzed spanned
  have ascending := analyze_ascending analyzed
  obtain ⟨runs, origins⟩ := analyze_origins analyzed spanned (tokenize_quotes scanned)
  have free {e : Nat × Rewrite} (entry : e ∈ a.rewrites.entries)
      (starts : ∃ t : Token, t.Within ts ∧ t.start = e.1) (free : a.rewrites.Free e.1) :
      e ∈ a.rewrites.applied 0 ts := by
    obtain ⟨t, within, same⟩ := starts
    have found := ascending.find?_of_mem entry
    rw [← same] at found free
    have here := elementless.applied_of_free within free found spanned whole
    rw [same] at here
    exact here
  constructor
  · intro member
    obtain ⟨starts, found⟩ := elementless.starts_of_applied member
    refine ⟨Rewrites.mem_of_find? found, starts, ?_⟩
    -- otherwise what covers the place would be applied as well, and stretches are apart
    intro covered
    obtain ⟨e', entry', free', first, before⟩ := origins.cover spanned covered
    have starts' : ∃ t : Token, t.Within ts ∧ t.start = e'.1 := by
      rcases origins.starts entry' with inserts | starts'
      · omega
      · exact starts'
    obtain ⟨grows, apart⟩ := spliced.apart
    have := (grows e member).2
    rcases apart_of_pairwise apart member (free entry' starts' free') with rfl | behind | behind
    · omega
    · omega
    · omega
  · rintro ⟨entry, starts, isFree⟩
    exact free entry starts isFree

/-- What is written for a module without elements is its source with rewrites spliced in: those that
start with a token, at any depth, where no other one covers it. -/
theorem emission_splices (plain : d.jsx = false) (scanned : tokenize d source = .ok ts)
    (analyzed : analyze source.toList ts o = .ok a) (index : Nat)
    (resolved : List (String × String)) (w : CodeWriter) :
    ∃ es out, es.Pairwise (fun e e' => e.1 < e'.1) ∧
      (∀ e, e ∈ es ↔ e ∈ a.rewrites.entries ∧ (∃ t : Token, t.Within ts ∧ t.start = e.1) ∧
        a.rewrites.Free e.1) ∧
      Spliced resolved 0 es source.toList out ∧
      (writeTokens source.toList index a.rewrites resolved ts w).code.toList =
        w.code.toList ++ out := by
  have elementless := tokenize_elementless plain scanned
  have spanned := tokenize_spanned scanned
  obtain ⟨runs, origins⟩ := analyze_origins analyzed spanned (tokenize_quotes scanned)
  have whole : Stretch source.toList 0 (byteLength source.toList) source.toList :=
    ⟨[], [], (List.append_nil _).symm, rfl, Nat.zero_add _⟩
  let e : Emitter := ⟨source.toList, a.rewrites⟩
  have spliced : Spliced resolved 0 (a.rewrites.applied 0 ts) source.toList
      (codeOf resolved (e.tokens (byteLength source.toList) 0 0 ts)) :=
    elementless.spliced (e := e) (tokenize_tiles scanned) (origins.fit spanned) source.toList whole
  refine ⟨a.rewrites.applied 0 ts, _, elementless.applied_ascending spanned 0,
    mem_applied plain scanned analyzed spliced, spliced, ?_⟩
  exact code_writeAll source.toList index resolved _ w

end Module

/-- A use in a template and one behind it. -/
def usesText : String := "\x60$\x7brequire('x')\x7d\x60; /* é */ import.meta\n"

theorem emission_splices_uses : ∃ ts a es out,
    tokenize ⟨false, false⟩ usesText = .ok ts ∧ analyze usesText.toList ts ⟨"", none, ""⟩ = .ok a ∧
    (∀ e, e ∈ es ↔ e ∈ a.rewrites.entries ∧ (∃ t : Token, t.Within ts ∧ t.start = e.1) ∧
      a.rewrites.Free e.1) ∧
    Spliced [("x", "./x.js")] 0 es usesText.toList out ∧
    out = "\x60$\x7brequire(\"./x.js\")\x7d\x60; /* é */ __preview_import_meta\n".toList := by
  have body : ((tokenizeWithin (allowance usesText.toList) ⟨false, false⟩
      usesText).toOption.bind fun ts => (analyze usesText.toList ts ⟨"", none, ""⟩).toOption.map
        fun a => (writeTokens usesText.toList 0 a.rewrites [("x", "./x.js")] ts {}).code) =
      some "\x60$\x7brequire(\"./x.js\")\x7d\x60; /* é */ __preview_import_meta\n" := by decide +kernel
  obtain ⟨ts, scanned, body⟩ := Option.bind_eq_some_iff.mp body
  obtain ⟨a, analyzed, body⟩ := Option.map_eq_some_iff.mp body
  have scanned : tokenize ⟨false, false⟩ usesText = .ok ts := by
    rw [tokenize_of_not_mem (by decide), ok_of_toOption scanned]
  obtain ⟨es, out, _, applied, spliced, written⟩ :=
    emission_splices rfl scanned (ok_of_toOption analyzed) 0 [("x", "./x.js")] {}
  rw [body] at written
  exact ⟨ts, a, es, out, scanned, ok_of_toOption analyzed, applied, spliced, written.symm⟩

end JsxPreview.Source
