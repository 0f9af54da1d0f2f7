import JsxPreview.Proofs.Erasure.Cuts
import JsxPreview.Proofs.Erasure.Moves
import JsxPreview.Proofs.TypeErasure

/-! # Which imports stay

When the walk is done, a recorded import goes as a whole when it brings names and none of them is in use,
and otherwise the specifiers in braces of names that are not in use go.  So no specifier of a name in use
goes, and no statement that has one (`elision_spares_used`). -/
set_option autoImplicit false
namespace JsxPreview.Source

open JsxPreview.Text

/-- One span ends before the other one starts. -/
def Span.Apart (s t : Span) : Prop := s.stop ≤ t.start ∨ t.stop ≤ s.start

theorem Span.Apart.not_contains {s t : Span} {n : Nat} (apart : s.Apart t) (held : s.contains n = true) :
    ¬ t.contains n = true := by
  rw [Span.contains_iff] at *
  rcases apart with before | behind
  · omega
  · omega

/-! ## Statements in a row -/

namespace TokenRow

variable {source : List Char} {us : List Token} {low high i j : Nat} {bs : List ImportBinding}
  {b : ImportBinding}

theorem stop_mono (spanned : Spanned low high us) (bounded : high ≤ byteLength source) (le : i ≤ j) :
    (ofTokens source us).stop i ≤ (ofTokens source us).stop j := by
  rcases Nat.eq_or_lt_of_le le with rfl | less
  · exact Nat.le_refl _
  · cases found : (ofTokens source us).get? j with
    | some t =>
        have inRow := lt_of_get? found
        exact Nat.le_trans (stop_le_start spanned less inRow) (Nat.le_of_lt (grows spanned inRow))
    | none =>
        rw [stop_of_none found]
        cases found' : (ofTokens source us).get? i with
        | none => exact Nat.le_of_eq (stop_of_none found')
        | some t =>
            rw [stop_of_get? found']
            exact Nat.le_trans (spanned.span_within (.here (mem_of_get? found'))).2.2 bounded

theorem SpecifiesAll.mem {row : TokenRow} (binds : row.SpecifiesAll j i bs) (member : b ∈ bs) :
    ∃ first last, i ≤ first ∧ first ≤ last ∧ last < j ∧ row.Specifies b first last := by
  induction binds with
  | nil => exact absurd member List.not_mem_nil
  | cons begins grows binds others ih =>
      rcases List.mem_cons.mp member with rfl | member
      · exact ⟨_, _, begins, grows, others.le, binds⟩
      · obtain ⟨first, last, behind, rest⟩ := ih member
        exact ⟨first, last, by omega, rest⟩

/-- Specifiers stand one behind the other. -/
theorem SpecifiesAll.apart (spanned : Spanned low high us) (inRow : j < (ofTokens source us).size)
    (binds : (ofTokens source us).SpecifiesAll j i bs) :
    bs.Pairwise fun b c => b.span.stop ≤ c.span.start := by
  induction binds with
  | nil => exact .nil
  | cons _ _ binds others ih =>
      refine .cons (fun c member => ?_) ih
      obtain ⟨first, last, behind, grows, before, binds'⟩ := others.mem member
      rw [binds.span, binds'.span]
      exact stop_le_start spanned behind (by omega)

/-- The specifiers of a statement lie in it, behind its first word. -/
theorem ImportsAt.inside (spanned : Spanned low high us) (bounded : high ≤ byteLength source)
    {s : ImportStatement} {first from_ last : Nat}
    (reads : (ofTokens source us).ImportsAt s first from_ last) (member : b ∈ s.bindings) :
    s.span.start < b.span.start ∧ b.span.stop ≤ s.span.stop := by
  obtain ⟨f, l, behind, grows_, before, binds⟩ := reads.binds.mem member
  have inRow := lt_of_isWord reads.clause
  have after := reads.behind
  rw [binds.span, reads.span]
  refine ⟨?_, stop_mono spanned bounded (by omega)⟩
  exact Nat.lt_of_lt_of_le (grows spanned (lt_of_isWord reads.opens))
    (stop_le_start spanned behind (by omega))

end TokenRow

/-! ## What goes of a statement -/

namespace ImportStatement

variable {i : ImportStatement} {used : List String} {s : Span}

/-- What goes of an import: all of it, when it brings names and none is in use, or else the specifiers in
braces of the names that are not. -/
theorem mem_unused : s ∈ i.unused used ↔
    if (i.hasSpecifiers = true ∨ i.bindings ≠ []) ∧ ∀ b ∈ i.bindings, b.name ∉ used then s = i.span
    else ∃ b ∈ i.bindings, b.inBraces = true ∧ b.name ∉ used ∧ b.span = s := by
  have nothingLeft : ((if i.bindings.isEmpty then i.hasSpecifiers
      else (i.bindings.filter fun b => !used.contains b.name).length == i.bindings.length) = true) ↔
      (i.hasSpecifiers = true ∨ i.bindings ≠ []) ∧ ∀ b ∈ i.bindings, b.name ∉ used := by
    cases none : i.bindings.isEmpty with
    | true => simp [List.isEmpty_iff.mp none]
    | false =>
        have some : i.bindings ≠ [] := by simpa using none
        simp [some, List.length_filter_eq_length_iff]
  unfold unused
  simp only [nothingLeft]
  split
  · exact List.mem_singleton
  · simp [and_assoc]

theorem unused_of_bare (noSpecifiers : i.hasSpecifiers = false) (noBindings : i.bindings = []) :
    i.unused used = [] := by
  simp [unused, noSpecifiers, noBindings]

/-- Of the imports of a text in order, where one with names stands no other stands of which anything
goes. -/
theorem alone_of_inOrder {imports : List ImportStatement}
    (inOrder : imports.Pairwise fun i j => i.span.stop ≤ j.span.start ∨ j.Bare) {j : ImportStatement}
    {n : Nat} (member : i ∈ imports) (member' : j ∈ imports) (names : i.bindings ≠ [])
    (goes : j.unused used ≠ []) (held : i.span.contains n = true) (held' : j.span.contains n = true) :
    j = i := by
  rw [Span.contains_iff] at held held'
  rcases apart_of_pairwise inOrder member' member with same | (before | bare) | before | bare
  · exact same
  · omega
  · exact absurd bare.2 names
  · omega
  · exact absurd (unused_of_bare bare.1 bare.2) goes

end ImportStatement

namespace TokenRow.ImportsAt

variable {source : List Char} {us : List Token} {low high first from_ last : Nat} {i : ImportStatement}
  {used : List String} {s : Span}

theorem unused_inside (spanned : Spanned low high us) (bounded : high ≤ byteLength source)
    (reads : (ofTokens source us).ImportsAt i first from_ last) (goes : s ∈ i.unused used) :
    i.span.start ≤ s.start ∧ s.stop ≤ i.span.stop := by
  rw [ImportStatement.mem_unused] at goes
  split at goes
  · rw [goes]
    exact ⟨Nat.le_refl _, Nat.le_refl _⟩
  · obtain ⟨b, member, _, _, rfl⟩ := goes
    have inside := reads.inside spanned bounded member
    exact ⟨Nat.le_of_lt inside.1, inside.2⟩

/-- The statement goes as a whole just when it brings names of which none is in use. -/
theorem span_mem_unused (spanned : Spanned low high us) (bounded : high ≤ byteLength source)
    (reads : (ofTokens source us).ImportsAt i first from_ last) : i.span ∈ i.unused used ↔
      (i.hasSpecifiers = true ∨ i.bindings ≠ []) ∧ ∀ b ∈ i.bindings, b.name ∉ used := by
  rw [ImportStatement.mem_unused]
  split
  case isTrue idle => exact iff_of_true rfl idle
  case isFalse busy =>
    refine iff_of_false ?_ busy
    rintro ⟨b, member, _, _, same⟩
    have inside := reads.inside spanned bounded member
    rw [same] at inside
    exact absurd inside.1 (Nat.lt_irrefl _)

/-- Nothing goes of the specifier of a name in use. -/
theorem unused_apart (spanned : Spanned low high us) (bounded : high ≤ byteLength source)
    (reads : (ofTokens source us).ImportsAt i first from_ last) {b : ImportBinding}
    (member : b ∈ i.bindings) (inUse : b.name ∈ used) (goes : s ∈ i.unused used) :
    s ≠ i.span ∧ s.Apart b.span := by
  constructor
  · rintro rfl
    exact ((reads.span_mem_unused spanned bounded).mp goes).2 b member inUse
  · rw [ImportStatement.mem_unused] at goes
    split at goes
    case isTrue idle => exact absurd inUse (idle.2 b member)
    case isFalse =>
      obtain ⟨c, among, _, unused, rfl⟩ := goes
      have apart := reads.binds.apart spanned (lt_of_isWord reads.clause)
      rcases apart_of_pairwise apart among member with rfl | before | behind
      · exact absurd inUse unused
      · exact .inl before
      · exact .inr behind

end TokenRow.ImportsAt

namespace Erasure

variable {e : Erasure} {spans : List Span} {n : Nat}

theorem isBlank_blank (s : Span) :
    (e.blank s.start s.stop).isBlank n = true ↔ e.isBlank n = true ∨ s.contains n = true := by
  unfold blank
  split
  case isTrue => rw [isBlank, List.any_cons, Bool.or_eq_true, or_comm, isBlank]
  case isFalse empty =>
    refine (or_iff_left fun held => empty ?_).symm
    obtain ⟨behind, before⟩ := Span.contains_iff.mp held
    exact Nat.lt_of_le_of_lt behind before

theorem isBlank_blankAll : (e.blankAll spans).isBlank n = true ↔
    e.isBlank n = true ∨ ∃ s ∈ spans, s.contains n = true := by
  induction spans generalizing e with
  | nil => simp [blankAll]
  | cons s spans ih =>
      have step : e.blankAll (s :: spans) = (e.blank s.start s.stop).blankAll spans := rfl
      rw [step, ih, isBlank_blank]
      simp [or_assoc]

/-- What elision blanks of an import, when all else is erased. -/
def elided (e : Erasure) (tokens : List Token) (i : ImportStatement) : List Span :=
  i.unused (Token.namesAll e tokens)

section Imports

variable {tokens : List Token} {i : ImportStatement}
  (inside : ∀ i ∈ e.imports, ∀ s ∈ e.elided tokens i, i.span.start ≤ s.start ∧ s.stop ≤ i.span.stop)
include inside

/-- Elision blanks what goes of the imports, inside of them. -/
theorem isBlank_dropUnusedImports : (e.dropUnusedImports tokens).isBlank n = true ↔
    e.isBlank n = true ∨ ∃ i ∈ e.imports, i.span.contains n = true ∧
      ∃ s ∈ e.elided tokens i, s.contains n = true := by
  rw [dropUnusedImports, isBlank_blankAll]
  refine or_congr_right ⟨?_, ?_⟩
  · rintro ⟨s, goes, held⟩
    obtain ⟨i, member, goes⟩ := List.mem_flatMap.mp goes
    have within := inside i member s goes
    rw [Span.contains_iff] at held
    exact ⟨i, member, Span.contains_iff.mpr (by omega), s, goes, Span.contains_iff.mpr held⟩
  · rintro ⟨i, member, _, s, goes, held⟩
    exact ⟨s, List.mem_flatMap.mpr ⟨i, member, goes⟩, held⟩

/-- In an import with names elision blanks what goes of it, as no other of which anything goes lies over
it. -/
theorem isBlank_dropUnusedImports_within
    (inOrder : e.imports.Pairwise fun i j => i.span.stop ≤ j.span.start ∨ j.Bare)
    (member : i ∈ e.imports) (names : i.bindings ≠ []) (held : i.span.contains n = true) :
    (e.dropUnusedImports tokens).isBlank n = true ↔
      e.isBlank n = true ∨ ∃ s ∈ e.elided tokens i, s.contains n = true := by
  refine (isBlank_dropUnusedImports inside).trans
    (or_congr_right ⟨?_, fun goes => ⟨i, member, held, goes⟩⟩)
  rintro ⟨i', member', held', s, goes, blanked⟩
  cases ImportStatement.alone_of_inOrder inOrder member member' names (List.ne_nil_of_mem goes) held held'
  exact ⟨s, goes, blanked⟩

end Imports

end Erasure

/-! ## Whole texts -/

/-- Of a text whose types are erased: when all that the walk finds is blanked, and all exports of types,
elision blanks what goes of the recorded imports, and nothing else.  Each of them is a statement
`import … from` a module that is not of types.  Of a statement with a name in use nothing goes but
specifiers of other names, whatever goes of other statements; the specifier of the name is left as it was.
A statement goes as a whole exactly when it brings names, be they of types, and none of its bindings is in
use; and nothing goes of one that brings no names. -/
theorem elision_spares_used {jsx : Bool} {source out : String} (erased : eraseTypes jsx source = .ok out) :
    ∃ tokens found, tokenize ⟨jsx, true⟩ source = .ok tokens ∧
      (Erase.scan (.ofTokens source.toList tokens) (TokenRow.ofTokens source.toList tokens).size
        (erasureAllowance source.toList) 0 none 0).run {} = .ok ((), found) ∧
      let left := found.dropTypeExports
      let final := left.dropUnusedImports tokens
      out.toList = Erasure.imageOf final.blanks 0 source.toList ∧
      (∀ n, final.isBlank n = true ↔ left.isBlank n = true ∨
        ∃ i ∈ found.imports, i.span.contains n = true ∧
          ∃ s ∈ left.elided tokens i, s.contains n = true) ∧
      ∀ i ∈ found.imports,
        (∃ us, Nested us tokens ∧ (TokenRow.ofTokens source.toList us).Imports i) ∧
        (∀ b ∈ i.bindings, left.Uses tokens b.name →
          (∀ s ∈ left.elided tokens i, s ≠ i.span ∧ s.Apart b.span) ∧
          (∀ n, i.span.contains n = true → (final.isBlank n = true ↔
            left.isBlank n = true ∨ ∃ s ∈ left.elided tokens i, s.contains n = true)) ∧
          ∀ n, b.span.contains n = true → final.isBlank n = left.isBlank n) ∧
        (i.span ∈ left.elided tokens i ↔ (i.hasSpecifiers = true ∨ i.bindings ≠ []) ∧
          ∀ b ∈ i.bindings, ¬ left.Uses tokens b.name) ∧
        (i.hasSpecifiers = false → i.bindings = [] → left.elided tokens i = []) := by
  obtain ⟨tokens, e, scanned, walked, image⟩ := eraseTypes_cases erased
  obtain ⟨⟨_, found⟩, ran, walked⟩ := ok_of_bind walked
  cases walked
  have spanned := tokenize_spanned scanned
  have sound : found.Sound source.toList tokens :=
    Erasure.sound_of_scan (tokenize_tiles scanned) spanned ran
  have inOrder := Erasure.inOrder_of_scan (tokenize_tiles scanned) spanned ran
  have uses {n : String} : n ∈ Token.namesAll found.dropTypeExports tokens ↔
      found.dropTypeExports.Uses tokens n :=
    namesAll_iff (Erasure.covers spanned sound.dropTypeExports)
  have imports : found.dropTypeExports.imports = found.imports := Erasure.imports_blankAll ..
  -- every recorded import stands in a row that ends in the text
  have stands (i : ImportStatement) (member : i ∈ found.imports) : ∃ us low high first from_ last,
      Nested us tokens ∧ Spanned low high us ∧ high ≤ byteLength source.toList ∧
        (TokenRow.ofTokens source.toList us).ImportsAt i first from_ last := by
    obtain ⟨us, nested, first, from_, last, reads⟩ := sound.imports i member
    obtain ⟨low, high, inner, _, bounded, _⟩ := spanned.nested nested
    exact ⟨us, low, high, first, from_, last, nested, inner, bounded, reads⟩
  have within (i : ImportStatement) (member : i ∈ found.dropTypeExports.imports) (s : Span)
      (goes : s ∈ found.dropTypeExports.elided tokens i) :
      i.span.start ≤ s.start ∧ s.stop ≤ i.span.stop := by
    obtain ⟨_, low, high, _, _, _, _, inner, bounded, reads⟩ := stands i (imports ▸ member)
    exact reads.unused_inside inner bounded goes
  refine ⟨tokens, found, scanned, ran, image,
    fun n => imports ▸ Erasure.isBlank_dropUnusedImports within, fun i member => ?_⟩
  obtain ⟨us, low, high, first, from_, last, nested, inner, bounded, reads⟩ := stands i member
  refine ⟨⟨us, nested, first, from_, last, reads⟩, fun b among inUse => ?_, ?_,
    ImportStatement.unused_of_bare⟩
  · have apart {s : Span} (goes : s ∈ found.dropTypeExports.elided tokens i) :
        s ≠ i.span ∧ s.Apart b.span :=
      reads.unused_apart inner bounded among (uses.mpr inUse) goes
    have own (n : Nat) (held : i.span.contains n = true) :=
      Erasure.isBlank_dropUnusedImports_within within (imports.symm ▸ inOrder) (imports.symm ▸ member)
        (List.ne_nil_of_mem among) held
    refine ⟨fun s => apart, own, fun n held => Bool.eq_iff_iff.mpr ((own n ?_).trans (or_iff_left ?_))⟩
    · have inside := reads.inside inner bounded among
      rw [Span.contains_iff] at held ⊢
      omega
    · rintro ⟨s, goes, inside⟩
      exact (apart goes).2.not_contains inside held
  · rw [Erasure.elided, reads.span_mem_unused inner bounded]
    simp only [uses]

/-- Imports of which one loses a specifier, one goes, and one brings nothing. -/
def mixedImports : String :=
  "import A, \x7b b, c as d, type T \x7d from 'm';\nimport * as N from 'n';\n" ++
    "import \x7b\x7d from 'k';\nx = <A.B y=\x7b\x60$\x7bb\x7d\x60\x7d/>;\n"

theorem elision_spares_used_mixed : ∃ out tokens, ∃ found : Erasure,
    eraseTypes true mixedImports = .ok out ∧ tokenize ⟨true, true⟩ mixedImports = .ok tokens ∧
    found.imports.map (found.dropTypeExports.elided tokens) =
      [[⟨15, 22⟩], [⟨42, 65⟩], []] ∧
    (∃ i ∈ found.imports, i.span = ⟨0, 41⟩ ∧
      ∃ b ∈ i.bindings, found.dropTypeExports.Uses tokens b.name) ∧
    ∃ i ∈ found.imports, i.span = ⟨42, 65⟩ ∧
      ∀ b ∈ i.bindings, ¬ found.dropTypeExports.Uses tokens b.name := by
  have read : ((tokenizeWithin (allowance mixedImports.toList) ⟨true, true⟩ mixedImports).toOption.bind
      fun ts => ((Erase.scan (.ofTokens mixedImports.toList ts)
        (TokenRow.ofTokens mixedImports.toList ts).size (erasureAllowance mixedImports.toList) 0 none
        0).run {}).toOption.map fun r => r.2.imports.map fun i => (i.span, i.bindings.isEmpty,
          r.2.dropTypeExports.elided ts i)) =
      some [(⟨0, 41⟩, false, [⟨15, 22⟩]), (⟨42, 65⟩, false, [⟨42, 65⟩]), (⟨66, 85⟩, true, [])] := by
    decide +kernel
  obtain ⟨ts, scanned, read⟩ := Option.bind_eq_some_iff.mp read
  obtain ⟨⟨_, found⟩, ran, read⟩ := Option.map_eq_some_iff.mp read
  have scanned : tokenize ⟨true, true⟩ mixedImports = .ok ts := by
    rw [tokenize_of_not_mem (by decide), ok_of_toOption scanned]
  have walked : erasureOf mixedImports.toList ts =
      .ok (found.dropTypeExports.dropUnusedImports ts) :=
    bind_of_ok (ok_of_toOption ran)
  obtain ⟨out, erased⟩ : ∃ out, eraseTypes true mixedImports = .ok out := by
    rw [eraseTypes_eq, bind_of_ok scanned, bind_of_ok walked]
    exact ⟨_, rfl⟩
  obtain ⟨_, _, scanned', ran', _, _, elided⟩ := elision_spares_used erased
  cases scanned.symm.trans scanned'
  cases (ok_of_toOption ran).symm.trans ran'
  -- an import, as it was read
  have import_ {s : Span} {none : Bool} {gone : List Span}
      (member : (s, none, gone) ∈ [((⟨0, 41⟩, false, [⟨15, 22⟩]) : Span × Bool × List Span),
        (⟨42, 65⟩, false, [⟨42, 65⟩]), (⟨66, 85⟩, true, [])]) :
      ∃ i ∈ found.imports, i.span = s ∧ i.bindings.isEmpty = none ∧
        found.dropTypeExports.elided ts i = gone := by
    rw [← read] at member
    obtain ⟨i, among, same⟩ := List.mem_map.mp member
    cases same
    exact ⟨i, among, rfl, rfl, rfl⟩
  refine ⟨out, ts, found, erased, scanned, ?_, ?_, ?_⟩
  · have gone := congrArg (List.map fun r => r.2.2) read
    rwa [List.map_map] at gone
  · obtain ⟨i, among, span, some, gone⟩ := import_ (List.mem_cons_self ..)
    obtain ⟨_, _, whole, _⟩ := elided i among
    refine ⟨i, among, span, Classical.byContradiction fun unused => ?_⟩
    have goes := whole.mpr ⟨.inr (by simpa using some), fun b member uses => unused ⟨b, member, uses⟩⟩
    rw [gone, span] at goes
    exact absurd goes (by decide)
  · obtain ⟨i, among, span, _, gone⟩ := import_ (List.mem_cons_of_mem _ (List.mem_cons_self ..))
    obtain ⟨_, _, whole, _⟩ := elided i among
    refine ⟨i, among, span, (whole.mp ?_).2⟩
    rw [gone, span]
    decide

end JsxPreview.Source
