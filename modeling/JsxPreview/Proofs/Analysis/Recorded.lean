import JsxPreview.Proofs.Analysis.Uses

/-! # What is recorded of uses

Every use adds what it names to the dependencies, and a rewrite in its place; as no two uses name one
place, no rewrite of a use replaces that of another one (`analyze_uses`). -/
set_option autoImplicit false
namespace JsxPreview.Source

variable {source : List Char} {ts : List Token} {o : HeaderOptions} {a : Analysis}

/-! ## Rewrites that are inserted -/

namespace Rewrites

theorem find?_insert (rs : Rewrites) (start : Nat) (r : Rewrite) (k : Nat) :
    (rs.insert start r).find? k = if k = start then some r else rs.find? k := by
  obtain ⟨entries⟩ := rs
  change (insertInto start r entries).lookup k = if k = start then some r else entries.lookup k
  have first {entry : Nat × Rewrite} {rest : List (Nat × Rewrite)} :
      (entry :: rest).lookup k = if k = entry.1 then some entry.2 else rest.lookup k := by
    rw [List.lookup_cons]
    by_cases same : k = entry.1
    · simp [same]
    · rw [if_neg same, beq_eq_false_iff_ne.mpr same]
  induction entries with
  | nil => exact first
  | cons entry rest ih =>
      simp only [insertInto]
      split
      · exact first
      · split
        case isTrue same =>
          rw [first, first, same]
          split <;> rfl
        case isFalse apart =>
          rw [first, first, ih]
          split
          case isTrue here => rw [if_neg (by omega)]
          case isFalse => rfl

/-- Inserts entries one after the other. -/
def insertAll (rs : Rewrites) (entries : List (Nat × Rewrite)) : Rewrites :=
  entries.foldl (fun rs e => rs.insert e.1 e.2) rs

theorem find?_insertAll_of_not_mem {entries : List (Nat × Rewrite)} {k : Nat}
    (absent : ∀ e ∈ entries, e.1 ≠ k) : ∀ rs : Rewrites, (rs.insertAll entries).find? k = rs.find? k := by
  induction entries with
  | nil => exact fun _ => rfl
  | cons e entries ih =>
      intro rs
      obtain ⟨other, others⟩ := List.forall_mem_cons.mp absent
      exact (ih others (rs.insert e.1 e.2)).trans ((find?_insert ..).trans (if_neg (Ne.symm other)))

theorem find?_insertAll_of_mem {entries : List (Nat × Rewrite)}
    (apart : entries.Pairwise fun e e' => e.1 ≠ e'.1) {e : Nat × Rewrite} (member : e ∈ entries) :
    ∀ rs : Rewrites, (rs.insertAll entries).find? e.1 = some e.2 := by
  induction entries with
  | nil => exact absurd member List.not_mem_nil
  | cons first entries ih =>
      intro rs
      obtain ⟨others, apart⟩ := List.pairwise_cons.mp apart
      rcases List.mem_cons.mp member with rfl | member
      · exact (find?_insertAll_of_not_mem (fun e' among => (others e' among).symm) _).trans
          ((find?_insert ..).trans (if_pos rfl))
      · exact ih apart member _

end Rewrites

/-! ## The scan -/

namespace Analysis

theorem dependencies_addUsages (us : List Usage) : ∀ a : Analysis,
    (us.foldl addUsage a).dependencies = a.dependencies ++ us.filterMap Usage.dependency? := by
  induction us with
  | nil => exact fun a => (List.append_nil _).symm
  | cons u us ih =>
      intro a
      rw [List.foldl_cons, ih]
      cases u <;> simp [addUsage, depend, rewrite, List.filterMap_cons, Usage.dependency?]

theorem rewrites_addUsages (us : List Usage) : ∀ a : Analysis,
    (us.foldl addUsage a).rewrites = a.rewrites.insertAll (us.filterMap Usage.entry?) := by
  induction us with
  | nil => exact fun a => rfl
  | cons u us ih =>
      intro a
      rw [List.foldl_cons, ih]
      cases u <;> rfl

theorem hasJsx_addUsages (us : List Usage) : ∀ a : Analysis,
    (us.foldl addUsage a).hasJsx = true ↔ a.hasJsx = true ∨ Usage.element ∈ us := by
  induction us with
  | nil => simp
  | cons u us ih =>
      intro a
      rw [List.foldl_cons, ih]
      cases u <;> simp [addUsage, depend, rewrite]

theorem usesImportMeta_addUsages (us : List Usage) : ∀ a : Analysis,
    (us.foldl addUsage a).usesImportMeta = true ↔
      a.usesImportMeta = true ∨ ∃ u ∈ us, u.dependency? = none ∧ u.entry?.isSome = true := by
  induction us with
  | nil => simp
  | cons u us ih =>
      intro a
      rw [List.foldl_cons, ih]
      cases u <;> simp [addUsage, depend, rewrite, Usage.dependency?, Usage.entry?]

/-- The header adds dependencies of its own kind only, and leaves signs of uses as they are. -/
structure Heads (a a' : Analysis) : Prop where
  dependencies : ∃ ds : List Dependency, a'.dependencies = a.dependencies ++ ds ∧
    ∀ d ∈ ds, d.kind = .runtime
  hasJsx : a'.hasJsx = a.hasJsx
  usesImportMeta : a'.usesImportMeta = a.usesImportMeta

theorem Heads.refl (a : Analysis) : a.Heads a :=
  ⟨⟨[], (List.append_nil _).symm, fun _ member => absurd member List.not_mem_nil⟩, rfl, rfl⟩

theorem Heads.trans {a a' a'' : Analysis} (first : a.Heads a') (second : a'.Heads a'') :
    a.Heads a'' := by
  obtain ⟨ds, dependencies, kinds⟩ := first.dependencies
  obtain ⟨ds', dependencies', kinds'⟩ := second.dependencies
  refine ⟨⟨ds ++ ds', by rw [dependencies', dependencies, List.append_assoc], ?_⟩,
    second.hasJsx.trans first.hasJsx, second.usesImportMeta.trans first.usesImportMeta⟩
  exact List.forall_mem_append.mpr ⟨kinds, kinds'⟩

theorem heads_runtime (a : Analysis) (specifier : String) (offset : Nat) {a' : Analysis}
    (dependencies : a'.dependencies = a.dependencies ++ [⟨specifier, offset, .runtime⟩])
    (hasJsx : a'.hasJsx = a.hasJsx) (usesImportMeta : a'.usesImportMeta = a.usesImportMeta) :
    a.Heads a' :=
  ⟨⟨_, dependencies, List.forall_mem_singleton.mpr rfl⟩, hasJsx, usesImportMeta⟩

theorem heads_withHeader (a : Analysis) (o : HeaderOptions) : a.Heads (a.withHeader o) := by
  have noted (a : Analysis) : a.Heads (a.withMeta o) := by
    unfold withMeta
    split
    · exact ⟨(Heads.refl a).dependencies, rfl, rfl⟩
    · exact .refl a
  have made (a : Analysis) : a.Heads (a.withFactory o) := by
    unfold withFactory
    split
    · exact heads_runtime a o.jsxRuntime 0 rfl rfl rfl
    · exact .refl a
  have rendered (a : Analysis) : a.Heads (a.withRenderer o) := by
    unfold withRenderer
    split
    · exact .refl a
    · split
      · exact heads_runtime a _ 0 rfl rfl rfl
      · exact .refl a
  have offered (a : Analysis) : a.Heads a.withGetters := by
    unfold withGetters
    split
    · exact ⟨(Heads.refl a).dependencies, rfl, rfl⟩
    · exact .refl a
  exact (((noted a).trans (made _)).trans (rendered _)).trans (offered _)

/-- What declarations alone leave: dependencies of their own kinds, and no sign of a use. -/
structure Declares (a : Analysis) : Prop where
  kinds : ∀ d ∈ a.dependencies, d.kind.IsDeclared
  hasJsx : a.hasJsx = false
  usesImportMeta : a.usesImportMeta = false

theorem Declares.edit {row : TokenRow} {a a' : Analysis} (declares : a.Declares) (edit : Edit row a a') :
    a'.Declares := by
  cases edit with
  | load _ _ declared =>
      refine ⟨fun d member => ?_, declares.hasJsx, declares.usesImportMeta⟩
      rcases List.mem_append.mp member with member | member
      · exact declares.kinds d member
      · rw [List.mem_singleton.mp member]
        exact declared
  | replace => exact ⟨declares.kinds, declares.hasJsx, declares.usesImportMeta⟩
  | insert => exact ⟨declares.kinds, declares.hasJsx, declares.usesImportMeta⟩
  | note dependencies _ _ hasJsx usesImportMeta =>
      exact ⟨dependencies ▸ declares.kinds, hasJsx.trans declares.hasJsx,
        usesImportMeta.trans declares.usesImportMeta⟩

end Analysis

/-! ## Uses of a module -/

/-- Whether a dependency of this kind comes from a use. -/
def DependencyKind.isUse : DependencyKind → Bool
  | .requireCall | .dynamicImport => true
  | .importDeclaration | .reExport | .runtime => false

theorem Usage.isUse_of_dependency? {u : Usage} {d : Dependency} (asks : u.dependency? = some d) :
    d.kind.isUse = true := by
  cases u <;> cases asks <;> rfl

theorem not_element_usage (word : Token) (behind : List Token) : .element ∉ word.usage behind := by
  unfold Token.usage
  repeat' split
  all_goals simp

theorem Usage.offset_mem_places {u : Usage} {d : Dependency} (asks : u.dependency? = some d) :
    d.offset ∈ u.places := by
  cases u <;> cases asks <;> simp [Usage.places]

theorem Usage.start_mem_places {u : Usage} {e : Nat × Rewrite} (rewrites : u.entry? = some e) :
    e.1 ∈ u.places := by
  cases u <;> cases rewrites <;> simp [Usage.places]

theorem useOf_nested_iff {d : Option Dependency} {e : Nat × Rewrite} :
    (∃ us word, Nested us ts ∧ UseOf word us d e) ↔
      ∃ u ∈ Token.usagesAll false ts, u.dependency? = d ∧ u.entry? = some e := by
  constructor
  · rintro ⟨us, word, nested, use⟩
    obtain ⟨behind, leads, u, member, asks, rewrites⟩ := useOf_iff.mp use
    exact ⟨u, mem_usagesAll.mpr ⟨us, nested, .inl ⟨word, behind, leads, member⟩⟩, asks, rewrites⟩
  · rintro ⟨u, member, asks, rewrites⟩
    obtain ⟨us, nested, ⟨word, behind, leads, member⟩ | ⟨rfl, -⟩⟩ := mem_usagesAll.mp member
    · exact ⟨us, word, nested, useOf_iff.mpr ⟨behind, leads, u, member, asks, rewrites⟩⟩
    · exact nomatch rewrites

/-- The places that a use names are marked by its word. -/
theorem UseOf.marks {word : Token} {us : List Token} {d : Option Dependency} {e : Nat × Rewrite}
    (use : UseOf word us d e) : word.Marks us e.1 ∧ ∀ asked ∈ d, word.Marks us asked.offset := by
  obtain ⟨behind, ⟨before, split, isWord, -⟩, u, member, rfl, rewrites⟩ := useOf_iff.mp use
  exact ⟨Token.marks_of_usage split isWord member (Usage.start_mem_places rewrites),
    fun asked asks => Token.marks_of_usage split isWord member (Usage.offset_mem_places asks)⟩

theorem Usage.entry?_of_dependency? {u : Usage} {d : Dependency} (asks : u.dependency? = some d) :
    ∃ e, u.entry? = some e := by
  cases u <;> first | exact ⟨_, rfl⟩ | exact nomatch asks

/-- What uses ask for, wherever they stand. -/
theorem mem_dependencies_iff {d : Dependency} :
    d ∈ (Token.usagesAll false ts).filterMap Usage.dependency? ↔
      ∃ us word e, Nested us ts ∧ UseOf word us (some d) e := by
  rw [List.mem_filterMap]
  constructor
  · rintro ⟨u, member, asks⟩
    obtain ⟨e, rewrites⟩ := Usage.entry?_of_dependency? asks
    obtain ⟨us, word, nested, use⟩ := useOf_nested_iff.mpr ⟨u, member, asks, rewrites⟩
    exact ⟨us, word, e, nested, use⟩
  · rintro ⟨us, word, e, nested, use⟩
    obtain ⟨u, member, asks, -⟩ := useOf_nested_iff.mp ⟨us, word, nested, use⟩
    exact ⟨u, member, asks⟩

/-- Of the dependencies of declarations, uses and the header only those of uses are kept. -/
theorem Analysis.Declares.filter_isUse (declares : a.Declares) (us : List Usage)
    {ds : List Dependency} (heads : ∀ d ∈ ds, d.kind = .runtime) :
    (a.dependencies ++ (us.filterMap Usage.dependency? ++ ds)).filter (·.kind.isUse) =
      us.filterMap Usage.dependency? := by
  have declared : a.dependencies.filter (·.kind.isUse) = [] := by
    refine List.filter_eq_nil_iff.mpr fun d member => ?_
    rcases declares.kinds d member with kind | kind <;> simp [kind, DependencyKind.isUse]
  have used : (us.filterMap Usage.dependency?).filter (·.kind.isUse) =
      us.filterMap Usage.dependency? := by
    refine List.filter_eq_self.mpr fun d member => ?_
    obtain ⟨u, -, asks⟩ := List.mem_filterMap.mp member
    exact Usage.isUse_of_dependency? asks
  have headed : ds.filter (·.kind.isUse) = [] :=
    List.filter_eq_nil_iff.mpr fun d member => by simp [heads d member, DependencyKind.isUse]
  rw [List.filter_append, List.filter_append, declared, used, headed, List.nil_append, List.append_nil]

/-- A call in a spread of an element that is given to an attribute. -/
def spreadText : String := "x = <A b=\x7b<B \x7b...require /* c */ ('p')\x7d/>\x7d/>;\n"

end JsxPreview.Source
