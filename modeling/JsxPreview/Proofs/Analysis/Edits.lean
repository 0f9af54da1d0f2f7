import JsxPreview.Proofs.Outcome
import JsxPreview.Source.Declaration
import JsxPreview.Source.Module
import Mathlib.Logic.Relation

/-! # What declarations do to an analysis

Reading the declarations at the top level goes in single edits: a declaration gives way to code that
loads the module it names, code is replaced, code is inserted, or something is noted that is not
written (`declarations_edits`).  What every edit keeps, the declarations keep.

The pieces of a header and of a rewrite may hold the id of the module that a specifier leads to.  For
each of them the analysis has recorded a dependency on that specifier (`analyze_registered`): both are
made in one step, and a dependency that is recorded stays. -/
set_option autoImplicit false
namespace JsxPreview.Source

theorem Rewrites.mem_insert {rs : Rewrites} {start : Nat} {r : Rewrite} {e : Nat × Rewrite}
    (member : e ∈ (rs.insert start r).entries) : e = (start, r) ∨ e ∈ rs.entries := by
  obtain ⟨entries⟩ := rs
  change e ∈ insertInto start r entries at member
  change _ ∨ e ∈ entries
  induction entries with
  | nil => exact .inl (List.mem_singleton.mp member)
  | cons first rest ih =>
      simp only [insertInto] at member
      split at member
      · exact List.mem_cons.mp member
      · split at member
        · rcases List.mem_cons.mp member with here | later
          · exact .inl here
          · exact .inr (List.mem_cons_of_mem _ later)
        · rcases List.mem_cons.mp member with here | later
          · exact .inr (here ▸ List.mem_cons_self ..)
          · rcases ih later with here | later
            · exact .inl here
            · exact .inr (List.mem_cons_of_mem _ later)

/-- Whether a dependency of this kind comes from a declaration. -/
def DependencyKind.IsDeclared (kind : DependencyKind) : Prop := kind = .importDeclaration ∨ kind = .reExport

namespace Analysis

/-- Pieces without the id of a module. -/
def Plain (pieces : List Piece) : Prop := ∀ x ∈ pieces, ∃ code, x = .text code

/-- A single edit; what it replaces ends with a token of the row or with the source. -/
inductive Edit (row : TokenRow) : Analysis → Analysis → Prop
  | load (a : Analysis) (specifier : String) (offset : Nat) {kind : DependencyKind}
      (declared : kind.IsDeclared) (start last : Nat) (before behind : String) :
      Edit row a ((a.depend specifier offset kind).rewrite start (row.stop last)
        [.text before, .moduleId specifier, .text behind])
  | replace (a : Analysis) (start last : Nat) {pieces : List Piece} (plain : Plain pieces) :
      Edit row a (a.rewrite start (row.stop last) pieces)
  | insert (a : Analysis) (place : Nat) {pieces : List Piece} (plain : Plain pieces) :
      Edit row a (a.rewrite place place pieces)
  | note {a a' : Analysis} (dependencies : a'.dependencies = a.dependencies)
      (rewrites : a'.rewrites = a.rewrites) (header : a'.header = a.header)
      (hasJsx : a'.hasJsx = a.hasJsx) (usesImportMeta : a'.usesImportMeta = a.usesImportMeta) :
      Edit row a a'

def Edits (row : TokenRow) : Analysis → Analysis → Prop := Relation.ReflTransGen (Edit row)

variable {row : TokenRow} {a a' : Analysis} {i next : Nat}

theorem plain_nil : Plain [] := fun _ member => absurd member List.not_mem_nil

theorem plain_text (code : String) : Plain [.text code] := by
  intro x member
  exact ⟨code, List.mem_singleton.mp member⟩

theorem Edit.edits (edit : Edit row a a') : Edits row a a' := .single edit

theorem Edits.trans {a'' : Analysis} (first : Edits row a a') (second : Edits row a' a'') :
    Edits row a a'' :=
  Relation.ReflTransGen.trans first second

theorem edits_offer (a : Analysis) (names : List (String × String)) :
    Edits row a (a.offer names) :=
  Edit.edits (.note rfl rfl rfl rfl rfl)

theorem importDeclaration_edits (success : a.importDeclaration row i = .ok (a', next)) :
    Edits row a a' := by
  unfold Analysis.importDeclaration at success
  simp only at success
  split at success
  case isTrue =>
    obtain ⟨m, _, success⟩ := ok_of_bind success
    cases ok_of_pure success
    exact Edit.edits (.load _ _ _ (.inl rfl) ..)
  case isFalse =>
    obtain ⟨⟨code, j⟩, _, success⟩ := ok_of_bind success
    obtain ⟨_, _, success⟩ := ok_of_bind success
    obtain ⟨m, _, success⟩ := ok_of_bind success
    cases ok_of_pure success
    have counted : Edit row a { a with importCount := a.importCount + 1 } := .note rfl rfl rfl rfl rfl
    exact counted.edits.trans (Edit.edits (.load _ _ _ (.inl rfl) ..))

theorem defaultExport_edits (a : Analysis) (row : TokenRow) (i : Nat) :
    Edits row a (a.defaultExport row i).1 := by
  unfold Analysis.defaultExport
  simp only
  split
  · have dropped : Edits row a (a.rewrite (row.start i) (row.stop (i + 1)) []) :=
      Edit.edits (.replace _ _ _ plain_nil)
    split
    · exact dropped.trans (edits_offer _ _)
    · exact (dropped.trans (Edit.edits (.insert _ _ (plain_text _)))).trans (edits_offer _ _)
  · exact (Edit.edits (.replace _ _ _ (plain_text _))).trans (edits_offer _ _)

theorem exportClause_edits (success : a.exportClause row i = .ok (a', next)) :
    Edits row a a' := by
  unfold Analysis.exportClause at success
  obtain ⟨⟨names, j⟩, _, success⟩ := ok_of_bind success
  simp only at success
  split at success
  case isTrue =>
    obtain ⟨m, _, success⟩ := ok_of_bind success
    cases ok_of_pure success
    have counted : Edit row a { a with reExportCount := a.reExportCount + 1 } := .note rfl rfl rfl rfl rfl
    exact (counted.edits.trans (Edit.edits (.load _ _ _ (.inr rfl) ..))).trans (edits_offer _ _)
  case isFalse =>
    cases ok_of_pure success
    exact (edits_offer _ _).trans (Edit.edits (.replace _ _ _ plain_nil))

theorem exportAll_edits (success : a.exportAll row i = .ok (a', next)) : Edits row a a' := by
  unfold Analysis.exportAll at success
  obtain ⟨⟨name?, j⟩, _, success⟩ := ok_of_bind success
  obtain ⟨_, _, success⟩ := ok_of_bind success
  obtain ⟨m, _, success⟩ := ok_of_bind success
  have counted : Edit row a { a with reExportCount := a.reExportCount + 1 } := .note rfl rfl rfl rfl rfl
  cases name? with
  | some name =>
      cases ok_of_pure success
      exact (counted.edits.trans (Edit.edits (.load _ _ _ (.inr rfl) ..))).trans (edits_offer _ _)
  | none =>
      cases ok_of_pure success
      exact counted.edits.trans (Edit.edits (.load _ _ _ (.inr rfl) ..))

theorem exportDeclaration_edits (success : a.exportDeclaration row i = .ok (a', next)) :
    Edits row a a' := by
  have dropped : Edits row a (a.rewrite (row.start i) (row.stop i) []) :=
    Edit.edits (.replace _ _ _ plain_nil)
  unfold Analysis.exportDeclaration at success
  simp only at success
  split at success
  · have same := ok_of_pure success
    rw [← show (a.defaultExport row i).1 = a' from congrArg Prod.fst same]
    exact defaultExport_edits a row i
  split at success
  · obtain ⟨names, _, success⟩ := ok_of_bind success
    cases ok_of_pure success
    exact dropped.trans (edits_offer _ _)
  split at success
  · obtain ⟨name, _, success⟩ := ok_of_bind success
    cases ok_of_pure success
    exact dropped.trans (edits_offer _ _)
  split at success
  · exact exportClause_edits success
  split at success
  · exact exportAll_edits success
  · exact absurd success (by simp [TokenRow.fail])

theorem declarations_edits {fuel : Nat} : ∀ {depth : Int} {i : Nat} {a : Analysis},
    declarations row fuel depth i a = .ok a' → Edits row a a' := by
  have marks (a : Analysis) : Edits row a { a with isEsm := true } :=
    Edit.edits (.note rfl rfl rfl rfl rfl)
  induction fuel with
  | zero =>
      intro depth i a success
      cases success
      exact .refl
  | succ fuel ih =>
      intro depth i a success
      unfold Analysis.declarations at success
      simp only at success
      split at success
      · cases ok_of_pure success
        exact .refl
      split at success
      · obtain ⟨⟨a₁, next⟩, declared, success⟩ := ok_of_bind success
        exact ((importDeclaration_edits declared).trans (marks a₁)).trans (ih success)
      split at success
      · obtain ⟨⟨a₁, next⟩, declared, success⟩ := ok_of_bind success
        exact ((exportDeclaration_edits declared).trans (marks a₁)).trans (ih success)
      split at success
      · exact ih success
      split at success
      · exact ih success
      · exact ih success

/-- What every edit keeps holds behind edits. -/
theorem Edits.keep {P : Analysis → Prop} (edits : Edits row a a')
    (kept : ∀ {a a' : Analysis}, Edit row a a' → P a → P a') (holds : P a) : P a' := by
  induction edits with
  | refl => exact holds
  | tail _ edit ih => exact kept edit ih

end Analysis

/-! ## Ids stand for dependencies -/

/-- The specifier whose id a piece stands for, if any, is among the dependencies. -/
def Piece.Registered (dependencies : List Dependency) : Piece → Prop
  | .text _ => True
  | .moduleId specifier => ∃ d ∈ dependencies, d.specifier = specifier

/-- Every id in the header and in the rewrites stands for a dependency. -/
def Analysis.Registered (a : Analysis) : Prop :=
  (∀ x ∈ a.header, x.Registered a.dependencies) ∧
    ∀ e ∈ a.rewrites.entries, ∀ x ∈ e.2.pieces, x.Registered a.dependencies

theorem Piece.Registered.mono {ds ds' : List Dependency} {x : Piece} (registered : x.Registered ds)
    (more : ∀ d ∈ ds, d ∈ ds') : x.Registered ds' := by
  cases x with
  | text => trivial
  | moduleId specifier =>
      obtain ⟨d, member, same⟩ := registered
      exact ⟨d, more d member, same⟩

namespace Analysis

variable {a : Analysis}

theorem Registered.depend (registered : a.Registered) (specifier : String) (offset : Nat)
    (kind : DependencyKind) : (a.depend specifier offset kind).Registered := by
  obtain ⟨header, rewrites⟩ := registered
  have more : ∀ d ∈ a.dependencies, d ∈ (a.depend specifier offset kind).dependencies :=
    fun d member => List.mem_append_left _ member
  refine ⟨?_, ?_⟩
  · intro x member
    exact (header x member).mono more
  · intro e entry x member
    exact (rewrites e entry x member).mono more

theorem Registered.rewrite (registered : a.Registered) (start stop : Nat) {pieces : List Piece}
    (known : ∀ x ∈ pieces, x.Registered a.dependencies) :
    (a.rewrite start stop pieces).Registered := by
  refine ⟨registered.1, ?_⟩
  intro e entry
  rcases Rewrites.mem_insert entry with rfl | entry
  · exact known
  · exact registered.2 e entry

theorem Registered.withHeader (registered : a.Registered) {pieces : List Piece}
    (known : ∀ x ∈ pieces, x.Registered a.dependencies) :
    Registered { a with header := a.header ++ pieces } := by
  refine ⟨?_, registered.2⟩
  intro x member
  rcases List.mem_append.mp member with inFront | added
  · exact registered.1 x inFront
  · exact known x added

theorem Registered.offer (registered : a.Registered) (names : List (String × String)) :
    (a.offer names).Registered := registered

theorem registered_plain (ds : List Dependency) {pieces : List Piece} (plain : Plain pieces) :
    ∀ x ∈ pieces, x.Registered ds := by
  intro x member
  obtain ⟨code, rfl⟩ := plain x member
  trivial

/-- The specifier of the dependency recorded last may be used. -/
theorem registered_depend (a : Analysis) (specifier : String) (offset : Nat)
    (kind : DependencyKind) :
    (Piece.moduleId specifier).Registered (a.depend specifier offset kind).dependencies :=
  ⟨⟨specifier, offset, kind⟩, List.mem_append_right _ (List.mem_singleton_self _), rfl⟩

/-- Code around the id of the dependency recorded last. -/
theorem registered_around (a : Analysis) (specifier : String) (offset : Nat)
    (kind : DependencyKind) (before behind : String) :
    ∀ x ∈ [Piece.text before, .moduleId specifier, .text behind],
      x.Registered (a.depend specifier offset kind).dependencies := by
  intro x member
  rcases List.mem_cons.mp member with rfl | member
  · trivial
  rcases List.mem_cons.mp member with rfl | member
  · exact a.registered_depend specifier offset kind
  rw [List.mem_singleton.mp member]
  trivial

/-- A dependency is recorded, and its id is put into code. -/
theorem Registered.load (registered : a.Registered) (specifier : String) (offset : Nat)
    (kind : DependencyKind) (start stop : Nat) (before behind : String) :
    ((a.depend specifier offset kind).rewrite start stop
      [.text before, .moduleId specifier, .text behind]).Registered :=
  (registered.depend specifier offset kind).rewrite start stop
    (a.registered_around specifier offset kind before behind)

/-! ### Declarations -/

theorem Registered.edit {row : TokenRow} {a' : Analysis} (edit : Edit row a a')
    (registered : a.Registered) : a'.Registered := by
  cases edit with
  | load => exact registered.load ..
  | replace _ _ plain => exact registered.rewrite _ _ (registered_plain _ plain)
  | insert _ plain => exact registered.rewrite _ _ (registered_plain _ plain)
  | note dependencies rewrites header =>
      unfold Analysis.Registered at *
      rw [dependencies, rewrites, header]
      exact registered

/-! ### Uses and headers -/

theorem Registered.addUsage (registered : a.Registered) (u : Usage) :
    (a.addUsage u).Registered := by
  cases u with
  | requireCall specifier start stop =>
      refine (registered.depend specifier start .requireCall).rewrite start stop ?_
      intro x member
      rw [List.mem_singleton.mp member]
      exact a.registered_depend ..
  | dynamicImport specifier literal start stop => exact registered.load ..
  | importMeta start stop =>
      have marked : Registered { a with usesImportMeta := true } := registered
      exact marked.rewrite _ _ (registered_plain _ (plain_text _))
  | element => exact registered

theorem Registered.addUsages (registered : a.Registered) (us : List Usage) :
    (us.foldl Analysis.addUsage a).Registered := by
  induction us generalizing a with
  | nil => exact registered
  | cons u us ih => exact ih (registered.addUsage u)

/-- A dependency is recorded, and the header loads it. -/
theorem Registered.headerLoad (registered : a.Registered) (holder specifier : String)
    (offset : Nat) (kind : DependencyKind) :
    Registered { a.depend specifier offset kind with
      header := a.header ++ headerLoad holder specifier } :=
  (registered.depend specifier offset kind).withHeader
    (a.registered_around specifier offset kind _ _)

theorem Registered.withMeta (registered : a.Registered) (o : HeaderOptions) :
    (a.withMeta o).Registered := by
  unfold Analysis.withMeta
  split
  · exact registered.withHeader (registered_plain _ (plain_text _))
  · exact registered

theorem Registered.withFactory (registered : a.Registered) (o : HeaderOptions) :
    (a.withFactory o).Registered := by
  unfold Analysis.withFactory
  split
  · exact registered.headerLoad ..
  · exact registered

theorem Registered.withRenderer (registered : a.Registered) (o : HeaderOptions) :
    (a.withRenderer o).Registered := by
  unfold Analysis.withRenderer
  split
  · exact registered
  · split
    · exact (registered.headerLoad ..).offer _
    · exact registered

theorem Registered.withGetters (registered : a.Registered) : a.withGetters.Registered := by
  unfold Analysis.withGetters
  split
  · exact registered.withHeader (registered_plain _ (plain_text _))
  · exact registered

end Analysis

/-- Every id that the analysis puts into code stands for a dependency that it records. -/
theorem analyze_registered {source : List Char} {tokens : List Token} {o : HeaderOptions}
    {a : Analysis} (success : analyze source tokens o = .ok a) : a.Registered := by
  unfold analyze at success
  obtain ⟨declared, declares, success⟩ := ok_of_bind success
  cases ok_of_pure success
  have nothing : ({} : Analysis).Registered :=
    ⟨fun _ member => absurd member List.not_mem_nil, fun _ entry => absurd entry List.not_mem_nil⟩
  have read := (Analysis.declarations_edits declares).keep Analysis.Registered.edit nothing
  have used := read.addUsages (Token.usagesAll false tokens)
  exact (((used.withMeta o).withFactory o).withRenderer o).withGetters

end JsxPreview.Source
