import JsxPreview.Proofs.Erasure.Erasable
import JsxPreview.Proofs.Outcome
import JsxPreview.Proofs.Scanner.Nesting
import JsxPreview.Source.Erasure.Walk

/-! # What the walk keeps

The walk adds to what it found in four ways only: it blanks what can be erased of a row, notes the name
of a type, and records imports and exports.  A property that these keep (`Stays`) is kept by every step
of the walk (`Keeps`), and by the whole of it (`scan_keeps`).  So what is blanked stays blanked
(`blanked_stays`).  The walk refuses a text only at a token of one of the rows that it comes to. -/
set_option autoImplicit false
namespace JsxPreview.Source

namespace Erasure

theorem blank_subset (e : Erasure) (start stop : Nat) : e.blanks ⊆ (e.blank start stop).blanks := by
  unfold blank
  split
  · exact List.subset_cons_self ..
  · exact List.Subset.refl _

theorem mem_blank (e : Erasure) {start stop : Nat} (grows : start < stop) :
    ⟨start, stop⟩ ∈ (e.blank start stop).blanks := by
  rw [blank, if_pos grows]
  exact List.mem_cons_self ..

theorem imports_blank (e : Erasure) (start stop : Nat) : (e.blank start stop).imports = e.imports := by
  unfold blank
  split
  · rfl
  · rfl

theorem blankAll_subset (spans : List Span) (e : Erasure) : e.blanks ⊆ (e.blankAll spans).blanks := by
  induction spans generalizing e with
  | nil => exact List.Subset.refl _
  | cons s spans ih => exact List.Subset.trans (e.blank_subset s.start s.stop) (ih _)

theorem imports_blankAll (spans : List Span) (e : Erasure) : (e.blankAll spans).imports = e.imports := by
  induction spans generalizing e with
  | nil => rfl
  | cons s spans ih => exact (ih _).trans (imports_blank e s.start s.stop)

theorem dropped_subset (e : Erasure) (tokens : List Token) :
    e.blanks ⊆ (e.dropTypeExports.dropUnusedImports tokens).blanks :=
  List.Subset.trans (blankAll_subset _ e) (blankAll_subset _ e.dropTypeExports)

end Erasure

namespace Erase

variable {R : TokenRow → Prop} {P : Erasure → Prop}

/-- A property that stays whatever is found in rows of a kind, but for imports. -/
structure Steady (R : TokenRow → Prop) (P : Erasure → Prop) : Prop where
  blank {row : TokenRow} {e : Erasure} {s : Span} : R row → row.Erasable s → P e →
    P (e.blank s.start s.stop)
  typeNames {e : Erasure} (names : List String) : P e → P { e with typeNames := names }
  exported {row : TokenRow} {e : Erasure} {xs : List ExportSpecifier} : R row →
    (∀ x ∈ xs, row.Erasable x.span) → P e → P { e with exported := e.exported ++ xs }

/-- A property that stays whatever is found in rows of a kind.  With a row the containers of its tokens
are of that kind. -/
structure Stays (R : TokenRow → Prop) (P : Erasure → Prop) : Prop extends Steady R P where
  inside {row : TokenRow} {i : Nat} {t : Token} {b : Body} : R row → row.get? i = some t →
    b ∈ t.shape.bodies → R (row.nested b.tokens)
  imported {row : TokenRow} {e : Erasure} {s : ImportStatement} : R row → row.Imports s → P e →
    P { e with imports := e.imports ++ [s] }

theorem Steady.blankAll (steady : Steady R P) {row : TokenRow} (held : R row) {spans : List Span}
    (erasable : ∀ s ∈ spans, row.Erasable s) {e : Erasure} (holds : P e) : P (e.blankAll spans) := by
  induction spans generalizing e with
  | nil => exact holds
  | cons s spans ih =>
      obtain ⟨here, others⟩ := List.forall_mem_cons.mp erasable
      exact ih others (steady.blank held here holds)

/-- A step that keeps a property of what was found, and that refuses only at tokens of rows of a
kind. -/
structure Keeps {α : Type} (R : TokenRow → Prop) (P : Erasure → Prop) (m : Erase α) : Prop where
  kept (e e' : Erasure) (a : α) : m.run e = .ok (a, e') → P e → P e'
  refused (e : Erasure) (error : SyntaxError) : m.run e = .error error →
    ∃ row i, R row ∧ error.offset = row.start i

namespace Keeps

variable {α β : Type} {m m' : Erase α}

theorem pure (a : α) : Keeps R P (Pure.pure a : Erase α) := by
  refine ⟨?_, ?_⟩
  · rintro e e' b ⟨⟩ holds
    exact holds
  · rintro e error ⟨⟩

theorem bind {k : α → Erase β} (first : Keeps R P m) (rest : ∀ a, Keeps R P (k a)) :
    Keeps R P (m >>= k) := by
  refine ⟨fun e e' b success holds => ?_, fun e error refused => ?_⟩
  · obtain ⟨⟨a, middle⟩, ran, success⟩ := ok_of_bind success
    exact (rest a).kept middle e' b success (first.kept e middle a ran holds)
  · rcases error_of_bind refused with refused | ⟨⟨a, middle⟩, _, refused⟩
    · exact first.refused e error refused
    · exact (rest a).refused middle error refused

theorem state : Keeps R P (get : Erase Erasure) := by
  refine ⟨?_, ?_⟩
  · rintro e e' b ⟨⟩ holds
    exact holds
  · rintro e error ⟨⟩

theorem update {f : Erasure → Erasure} (keeps : ∀ e, P e → P (f e)) :
    Keeps R P (modify f : Erase Unit) := by
  refine ⟨?_, ?_⟩
  · rintro e e' b ⟨⟩ holds
    exact keeps e holds
  · rintro e error ⟨⟩

theorem fail {row : TokenRow} (held : R row) (i : Nat) (cause : SyntaxError.Cause) :
    Keeps R P (Erase.fail row i cause : Erase α) := by
  refine ⟨?_, ?_⟩
  · rintro e e' b ⟨⟩
  · rintro e error ⟨⟩
    exact ⟨row, i, held, rfl⟩

theorem branch {c : Prop} [Decidable c] (yes : c → Keeps R P m) (no : ¬ c → Keeps R P m') :
    Keeps R P (if c then m else m') := by
  split
  case isTrue holds => exact yes holds
  case isFalse fails => exact no fails

theorem ite {c : Prop} [Decidable c] (yes : Keeps R P m) (no : Keeps R P m') :
    Keeps R P (if c then m else m') :=
  .branch (fun _ => yes) fun _ => no

theorem given {a : α} {k : α → Erase β} (rest : Keeps R P (k a)) :
    Keeps R P (Pure.pure a >>= k) := by
  rw [pure_bind]
  exact rest

/-- Behind the search for a bracket the bracket is there. -/
theorem bracket {row : TokenRow} (held : R row) {i stop : Nat} {what : String} {k : Nat → Erase β}
    (rest : ∀ close, row.matching i stop = some close → Keeps R P (k close)) :
    Keeps R P (matching row i stop what >>= k) := by
  cases found : row.matching i stop with
  | none =>
      rw [matching, found]
      refine ⟨?_, ?_⟩
      · rintro e e' b ⟨⟩
      · rintro e error ⟨⟩
        exact ⟨row, i, held, rfl⟩
  | some close =>
      rw [matching, found]
      exact .given (rest close found)

end Keeps

section Steps

variable (steady : Steady R P) {row : TokenRow} (held : R row) (i j stop : Nat)

include steady held

theorem blank_keeps {start place : Nat} (begins : ∃ i, start = row.start i) (ends : row.ErasedTo place) :
    Keeps R P (blank start place) :=
  .update fun _ => steady.blank (s := ⟨start, place⟩) held ⟨begins, ends⟩

theorem blankTokens_keeps : Keeps R P (blankTokens row i j) :=
  blank_keeps steady held ⟨i, rfl⟩ (.stop j)

/-! ## Declarations -/

theorem annotation_keeps : Keeps R P ( annotation row i stop) :=
  .ite (.bind (blank_keeps steady held ⟨i, rfl⟩ (row.skipType_ends i stop false)) fun _ => .pure _)
    (.pure _)

theorem typeParameters_keeps : Keeps R P (typeParameters row i stop) := by
  unfold typeParameters
  split
  case h_1 found =>
    exact .bind (blank_keeps steady held ⟨i, rfl⟩ (TokenRow.angleClose_ends found)) fun _ => .pure _
  case h_2 => exact .fail held ..

theorem maybeTypeParameters_keeps : Keeps R P (typeParameters? row i stop) :=
  .ite (typeParameters_keeps steady held ..) (.pure _)

theorem typeAlias_keeps : Keeps R P (typeAlias row i stop) := by
  unfold typeAlias
  extract_lets rest
  have restKeeps (j : Nat) : Keeps R P (rest j) :=
    .ite (.fail held ..) (.ite
      (.bind (blank_keeps steady held (row.declarationStart_eq i) (.stop _)) fun _ => .pure _)
      (.bind (blank_keeps steady held (row.declarationStart_eq i) (row.skipType_ends j stop false))
        fun _ => .pure _))
  refine .bind (.update fun _ => steady.typeNames _) fun _ => .ite ?_ (.bind (.pure _) restKeeps)
  split
  · exact .bind (.pure _) restKeeps
  · exact .bind (.fail held ..) restKeeps

theorem interface_keeps : Keeps R P (interface row i stop) := by
  unfold interface
  extract_lets j
  refine .bind (.update fun _ => steady.typeNames _) fun _ => ?_
  split
  · exact .bind (blank_keeps steady held (row.declarationStart_eq i) (.stop _)) fun _ => .pure _
  · exact .fail held ..

theorem ambient_keeps : Keeps R P (ambient row i stop) := by
  unfold ambient
  extract_lets hasBody rest brace
  have restKeeps (j : Nat) : Keeps R P (rest j) :=
    .bind (blank_keeps steady held (row.declarationStart_eq i) (.stop _)) fun _ => .pure _
  refine .ite ?_ (.bind (.pure _) restKeeps)
  split
  · exact .bind (.pure _) restKeeps
  · exact .bind (.fail held ..) restKeeps

omit steady in
theorem importStatement_keeps (stays : Stays R P) (word : row.isWord i "import" = true) :
    Keeps R P (importStatement row i stop) := by
  unfold importStatement
  refine .ite (.pure _) ?_
  extract_lets typeOnly
  have bound := defaultBinding_binds row (if typeOnly then i + 2 else i + 1)
  split
  case h_1 default j first =>
    have bound' := namespaceBinding_binds row j
    split
    case h_1 space k second =>
      rw [first] at bound
      rw [second] at bound'
      extract_lets rest
      have restKeeps (named : List ImportBinding) (hasSpecifiers : Bool) (j : Nat)
          (reads : row.isWord j "from" = true → row.SpecifiesAll j k named) :
          Keeps R P (rest (named, hasSpecifiers, j)) := by
        refine .branch (fun _ => .pure _) fun complete => ?_
        simp only [Bool.or_eq_true, Bool.not_eq_true', not_or, Bool.not_eq_false] at complete
        refine .branch (fun _ => .bind (blankTokens_keeps stays.toSteady held ..) fun _ => .pure _)
          fun ofValues => .bind (.update fun _ => stays.imported held ?_) fun _ => .pure _
        rw [if_neg ofValues] at bound
        have ends := le_importEnd row j stop
        exact ⟨i, j, importEnd row j stop - 1, word, Bool.eq_false_iff.mpr ofValues,
          (bound.append bound').append (reads complete.1), complete.1, complete.2, by omega, rfl⟩
      refine .ite (.bracket held fun close matched => ?_)
        (.given (restKeeps _ _ _ fun _ => .nil (Nat.le_refl k)))
      obtain ⟨begins, -, -, closes⟩ := TokenRow.matching_spec matched
      refine .bind (.update fun e => stays.blankAll held (importSpecifiers_erasable _)) fun _ =>
        .given (restKeeps _ _ _ fun from_ => ?_)
      exact (importSpecifiers_binds closes from_ _ (Nat.succ_le_succ begins)).earlier (Nat.le_succ k)

omit steady in
theorem exportEnd_keeps : Keeps R P (exportEnd row j stop) := by
  unfold exportEnd
  extract_lets rest
  have restKeeps (k : Nat) : Keeps R P (rest k) := .pure _
  exact .ite (.bracket held fun _ _ => restKeeps _)
    (.ite (.bind (.pure _) restKeeps) (.bind (.pure _) restKeeps))

theorem exportStatement_keeps : Keeps R P (exportStatement row i stop) := by
  unfold exportStatement
  refine .ite ?_ (.ite ?_ (.ite ?_ (.ite (.fail held ..) (.pure _))))
  · exact .bind (exportEnd_keeps held ..) fun _ =>
      .bind (blankTokens_keeps steady held ..) fun _ => .pure _
  · refine .bracket held fun close _ => .bind (.update fun e holds => ?_) fun _ =>
      .bind (exportEnd_keeps held ..) fun _ => .pure _
    obtain ⟨values, types⟩ := @exportSpecifiers_erasable row close (close - (i + 1)) (i + 1 + 1)
    have blanked := steady.blankAll held types holds
    split
    · exact steady.exported held values blanked
    · exact blanked
  · exact .bind (exportEnd_keeps held ..) fun _ => .pure _

/-! ## Expressions and classes -/

theorem typeArguments_keeps : Keeps R P (typeArguments row i stop) := by
  unfold typeArguments
  split
  case h_1 => exact .pure _
  case h_2 found =>
    refine .ite (.pure _) (.bind .state fun _ => .ite ?_ (.pure _))
    exact .bind (blank_keeps steady held ⟨i, rfl⟩ (TokenRow.angleClose_ends found)) fun _ => .pure _

theorem nonNullAssertion_keeps : Keeps R P (nonNullAssertion row i) :=
  .bind .state fun _ => .ite (.bind (blankTokens_keeps steady held ..) fun _ => .pure _) (.pure _)

theorem assertion_keeps : Keeps R P (assertion row i stop) :=
  .bind .state fun _ => .ite
    (.bind (blank_keeps steady held ⟨i, rfl⟩ (row.skipType_ends i stop false)) fun _ => .pure _)
    (.pure _)

theorem heritage_keeps (n : Nat) : Keeps R P (heritage row stop n j) := by
  induction n generalizing j with
  | zero => exact .pure _
  | succ n ih =>
      exact .ite (.pure _) (.ite (.bind (typeParameters_keeps steady held ..) fun _ => ih _)
        (.ite (.bracket held fun _ _ => ih _) (ih _)))

theorem classHead_keeps : Keeps R P (classHead row i stop) := by
  unfold classHead
  extract_lets isNamed rest
  have restKeeps (j : Nat) : Keeps R P (rest j) :=
    .ite (.bind (blankTokens_keeps steady held ..) fun _ => .pure _) (.pure _)
  exact .bind (maybeTypeParameters_keeps steady held ..) fun _ =>
    .ite (.bind (heritage_keeps steady held ..) restKeeps) (.bind (.pure _) restKeeps)

theorem modifiers_keeps (n : Nat) (dropped : Bool) : Keeps R P (modifiers row n j dropped) := by
  induction n generalizing j dropped with
  | zero => exact .pure _
  | succ n ih =>
      exact .ite (.ite (.bind (blankTokens_keeps steady held ..) fun _ => ih _ _) (ih _ _)) (.pure _)

theorem indexSignature_keeps (member close : Nat) : Keeps R P (indexSignature row member j close) := by
  refine .bracket held fun bracket _ => ?_
  have ends : row.ErasedTo (if row.isPunct (bracket + 1) ":" then row.skipType (bracket + 2) close false
      else (bracket + 1, row.stop bracket)).2 := by
    split
    · exact row.skipType_ends (bracket + 1) close false
    · exact .stop _
  exact .ite (.bind (blankTokens_keeps steady held ..) fun _ => .pure _)
    (.bind (blank_keeps steady held ⟨member, rfl⟩ ends) fun _ => .pure _)

theorem memberMark_keeps (close : Nat) : Keeps R P (memberMark row j close) :=
  .ite (.bind (blankTokens_keeps steady held ..) fun _ => .pure _) (.pure _)

end Steps

/-! ## The walk -/

mutual

theorem scan_keeps (stays : Stays R P) {row : TokenRow} (held : R row) (stop : Nat) :
    (fuel depth : Nat) → (declaring : Option Nat) → (i : Nat) →
    Keeps R P (scan row stop fuel depth declaring i)
  | 0, _, _, _ => .fail held ..
  | fuel + 1, depth, declaring, i => by
      unfold scan
      refine .ite (.pure _) (.ite (.ite (.fail held ..) ?_) (.ite ?_ ?_))
      · exact .bind (binding_keeps stays held ..) fun _ => scan_keeps stays held ..
      · exact .bind (binding_keeps stays held ..) fun _ => scan_keeps stays held ..
      · exact .bind (step_keeps stays held ..) fun _ => .ite (scan_keeps stays held ..)
          (.ite (scan_keeps stays held ..) (.ite (scan_keeps stays held ..) (scan_keeps stays held ..)))
termination_by structural fuel => fuel

theorem step_keeps (stays : Stays R P) {row : TokenRow} (held : R row) (stop : Nat) : (fuel i : Nat) →
    Keeps R P (step row stop fuel i)
  | 0, _ => .fail held ..
  | fuel + 1, i => by
      unfold step
      split
      case h_1 parts shape =>
        obtain ⟨t, found, same⟩ := Option.map_eq_some_iff.mp shape
        refine .bind (templateParts_keeps stays held fuel parts fun b part => ?_) fun _ => .pure _
        exact stays.inside held found (Shape.mem_bodies_iff.mpr (.inl ⟨parts, same, part⟩))
      case h_2 element shape =>
        obtain ⟨t, found, same⟩ := Option.map_eq_some_iff.mp shape
        refine .bind (bodies_keeps stays held fuel element.bodies fun b container => ?_) fun _ => .pure _
        refine stays.inside held found ?_
        rw [same]
        exact container
      case h_3 shape =>
        obtain ⟨t, found, same⟩ := Option.map_eq_some_iff.mp shape
        exact word_keeps stays held stop fuel i
          (by simp [TokenRow.isAnyWord, found, Token.isWord, same])
      case h_4 =>
        exact .ite (parenthesis_keeps stays held ..) (.ite (typeArguments_keeps stays.toSteady held ..)
          (.ite (nonNullAssertion_keeps stays.toSteady held ..) (.pure _)))
      case h_5 => exact .pure _
termination_by structural fuel => fuel

theorem templateParts_keeps (stays : Stays R P) {row : TokenRow} (held : R row) : (fuel : Nat) →
    (parts : List TemplatePart) → (∀ b, .subst b ∈ parts → R (row.nested b.tokens)) →
    Keeps R P (templateParts row fuel parts)
  | 0, _, _ => .fail held ..
  | _ + 1, [], _ => .pure _
  | fuel + 1, .raw _ _ :: rest, inside =>
      templateParts_keeps stays held fuel rest fun b part => inside b (List.mem_cons_of_mem _ part)
  | fuel + 1, .subst b :: rest, inside =>
      .bind (scan_keeps stays (inside b (List.mem_cons_self ..)) _ fuel _ _ _) fun _ =>
        templateParts_keeps stays held fuel rest fun b part => inside b (List.mem_cons_of_mem _ part)
termination_by structural fuel => fuel

theorem bodies_keeps (stays : Stays R P) {row : TokenRow} (held : R row) : (fuel : Nat) → (bs : List Body) →
    (∀ b ∈ bs, R (row.nested b.tokens)) → Keeps R P (bodies row fuel bs)
  | 0, _, _ => .fail held ..
  | _ + 1, [], _ => .pure _
  | fuel + 1, _ :: rest, inside =>
      .bind (scan_keeps stays (List.forall_mem_cons.mp inside).1 _ fuel _ _ _) fun _ =>
        bodies_keeps stays held fuel rest (List.forall_mem_cons.mp inside).2
termination_by structural fuel => fuel

theorem word_keeps (stays : Stays R P) {row : TokenRow} (held : R row) (stop : Nat) : (fuel i : Nat) →
    row.isAnyWord i = true → Keeps R P (word row stop fuel i)
  | 0, _, _ => .fail held ..
  | fuel + 1, i, isWord => by
      unfold word
      refine .bind .state fun e => .ite (typeAlias_keeps stays.toSteady held ..) (.ite
        (interface_keeps stays.toSteady held ..) (.ite (ambient_keeps stays.toSteady held ..) (.ite
        (.bind (blankTokens_keeps stays.toSteady held ..) fun _ => .pure _) (.ite (.fail held ..) (.ite (.fail held ..)
        (.branch (fun opens => importStatement_keeps held i stop stays ?_) fun _ => .ite
        (exportStatement_keeps stays.toSteady held ..) (.ite (functionHead_keeps stays held ..) (.ite ?_ (.ite
        (assertion_keeps stays.toSteady held ..) (.pure _))))))))))
      · obtain ⟨t, found, known⟩ := TokenRow.get?_of_any isWord
        simp only [Bool.and_eq_true, beq_iff_eq] at opens
        exact TokenRow.isWord_iff.mpr ⟨t, found, known,
          (TokenRow.text_of_get? found).symm.trans opens.1.1.1⟩
      · exact .bind (classHead_keeps stays.toSteady held ..) fun _ => .ite (.pure _) (.bracket held fun _ _ =>
          .bind (members_keeps stays held ..) fun _ => .pure _)
termination_by structural fuel => fuel

theorem binding_keeps (stays : Stays R P) {row : TokenRow} (held : R row) (stop : Nat) :
    (fuel j : Nat) → Keeps R P (binding row stop fuel j)
  | 0, _ => .fail held ..
  | fuel + 1, j => by
      unfold binding
      extract_lets rest
      have restKeeps (target : Option Nat) : Keeps R P (rest target) := by
        cases target with
        | none => exact .pure _
        | some k =>
            exact .ite (.bind (blankTokens_keeps stays.toSteady held ..) fun _ => annotation_keeps stays.toSteady held ..)
              (annotation_keeps stays.toSteady held ..)
      refine .ite (.bind (.pure _) restKeeps) (.ite ?_ (.bind (.pure _) restKeeps))
      split
      · exact .bind (.pure _) restKeeps
      · exact .bind (scan_keeps stays held ..) fun _ => .bind (.pure _) restKeeps
termination_by structural fuel => fuel

theorem functionHead_keeps (stays : Stays R P) {row : TokenRow} (held : R row) (stop : Nat) :
    (fuel i : Nat) → Keeps R P (functionHead row stop fuel i)
  | 0, _ => .fail held ..
  | fuel + 1, i => by
      unfold functionHead
      refine .bind (maybeTypeParameters_keeps stays.toSteady held ..) fun _ => .ite (.pure _) ?_
      refine .bind (parameters_keeps stays held ..) fun _ =>
        .bind (annotation_keeps stays.toSteady held ..) fun _ => ?_
      exact .ite (.pure _)
        (.bind (blank_keeps stays.toSteady held (row.declarationStart_eq i) (.stop _)) fun _ => .pure _)
termination_by structural fuel => fuel

theorem parameters_keeps (stays : Stays R P) {row : TokenRow} (held : R row) (stop : Nat) :
    (fuel i : Nat) → Keeps R P (parameters row stop fuel i)
  | 0, _ => .fail held ..
  | fuel + 1, i => by
      unfold parameters
      refine .bracket held fun close _ => ?_
      extract_lets rest
      have restKeeps (u : Unit) : Keeps R P (rest u) := .pure _
      refine .ite (.ite ?_ ?_) (.bind (parametersFrom_keeps stays held ..) restKeeps)
      · exact .bind (blankTokens_keeps stays.toSteady held ..) fun _ =>
          .bind (parametersFrom_keeps stays held ..) restKeeps
      · exact .bind (blank_keeps stays.toSteady held ⟨_, rfl⟩ (row.skipType_ends (i + 2) close false)) fun _ =>
          .bind (parametersFrom_keeps stays held ..) restKeeps
termination_by structural fuel => fuel

theorem parametersFrom_keeps (stays : Stays R P) {row : TokenRow} (held : R row) (close : Nat) :
    (fuel j : Nat) → Keeps R P (parametersFrom row close fuel j)
  | 0, _ => .fail held ..
  | fuel + 1, j => by
      unfold parametersFrom
      extract_lets first named
      -- what is read behind the name or the pattern of a parameter
      have behind (k : Nat) : Keeps R P (do
          let k ← annotation row k close
          let comma := row.commaFrom false (close - k) 0 k
          if k < comma then scan row comma fuel 0 none k
          parametersFrom row close fuel (comma + 1)) :=
        .bind (annotation_keeps stays.toSteady held ..) fun _ =>
          .ite (.bind (scan_keeps stays held ..) fun _ => parametersFrom_keeps stays held ..)
            (parametersFrom_keeps stays held ..)
      have namedKeeps (target : Option Nat) : Keeps R P (named target) := by
        cases target with
        | none => exact .pure _
        | some k => exact .ite (.bind (blankTokens_keeps stays.toSteady held ..) fun _ => behind _) (behind _)
      refine .ite (.pure _) (.ite (.fail held ..) (.ite (.bind (.pure _) namedKeeps) (.ite ?_
        (.bind (.pure _) namedKeeps))))
      split
      · exact .bind (.pure _) namedKeeps
      · exact .bind (scan_keeps stays held ..) fun _ => .bind (.pure _) namedKeeps
termination_by structural fuel => fuel

theorem parenthesis_keeps (stays : Stays R P) {row : TokenRow} (held : R row) (stop : Nat) :
    (fuel i : Nat) → Keeps R P (parenthesis row stop fuel i)
  | 0, _ => .fail held ..
  | fuel + 1, i => by
      unfold parenthesis
      split
      case h_1 => exact .pure _
      case h_2 close _ =>
        have returns (stopAtArrow : Bool) : Keeps R P (blank (row.start (close + 1))
            (row.skipType (close + 1 + 1) stop stopAtArrow).2) :=
          blank_keeps stays.toSteady held ⟨_, rfl⟩ (row.skipType_ends ..)
        refine .ite (.bind (parameters_keeps stays held ..) fun _ => .pure _) (.ite ?_
          (.bind .state fun _ => ?_))
        · exact .bind (parameters_keeps stays held ..) fun _ => .bind (returns true) fun _ => .pure _
        · refine .ite (.bind (parameters_keeps stays held ..) fun _ => .pure _)
            (.ite (.bind (parameters_keeps stays held ..) fun _ => .pure _)
              (.ite (.ite ?_ (.pure _)) (.pure _)))
          exact .bind (parameters_keeps stays held ..) fun _ => .bind (returns false) fun _ => .pure _
termination_by structural fuel => fuel

theorem members_keeps (stays : Stays R P) {row : TokenRow} (held : R row) (close : Nat) :
    (fuel j : Nat) → Keeps R P (members row close fuel j)
  | 0, _ => .fail held ..
  | fuel + 1, member => by
      unfold members
      extract_lets next
      have nextKeeps (j : Nat) : Keeps R P (next j) := members_keeps stays held ..
      refine .ite (.pure _) (.ite (members_keeps stays held ..) (.ite ?_ ?_))
      · exact .bracket held fun _ _ => .bind (scan_keeps stays held ..) fun _ => members_keeps stays held ..
      · refine .bind (modifiers_keeps stays.toSteady held ..) fun (j, dropped) => .ite ?_ ?_
        · exact .bind (indexSignature_keeps stays.toSteady held ..) fun _ => members_keeps stays held ..
        · extract_lets _ _ named
          have namedKeeps (name : Option Nat) : Keeps R P (named name) := by
            cases name with
            | none => exact .pure _
            | some j =>
                exact .bind (memberMark_keeps stays.toSteady held ..) fun _ =>
                  .bind (maybeTypeParameters_keeps stays.toSteady held ..) fun _ =>
                    .ite (.bind (method_keeps stays held ..) nextKeeps)
                      (.bind (field_keeps stays held ..) nextKeeps)
          refine .ite ?_ (.ite (.bind (.pure _) namedKeeps) (.bind (.pure _) namedKeeps))
          split
          · exact .bind (.pure _) namedKeeps
          · exact .bind (scan_keeps stays held ..) fun _ => .bind (.pure _) namedKeeps
termination_by structural fuel => fuel

theorem method_keeps (stays : Stays R P) {row : TokenRow} (held : R row) (close : Nat) :
    (fuel member : Nat) → (dropped : Bool) → (j : Nat) → Keeps R P (method row close fuel member dropped j)
  | 0, _, _, _ => .fail held ..
  | fuel + 1, member, dropped, j => by
      unfold method
      refine .bind (parameters_keeps stays held ..) fun _ =>
        .bind (annotation_keeps stays.toSteady held ..) fun _ => .ite ?_ ?_
      · exact .bracket held fun _ _ => .ite (.bind (blankTokens_keeps stays.toSteady held ..) fun _ => .pure _)
          (.bind (scan_keeps stays held ..) fun _ => .pure _)
      · exact .bind (blankTokens_keeps stays.toSteady held ..) fun _ => .pure _
termination_by structural fuel => fuel

theorem field_keeps (stays : Stays R P) {row : TokenRow} (held : R row) (close : Nat) :
    (fuel member : Nat) → (dropped : Bool) → (j : Nat) → Keeps R P (field row close fuel member dropped j)
  | 0, _, _, _ => .fail held ..
  | fuel + 1, member, dropped, j => by
      unfold field
      refine .bind (annotation_keeps stays.toSteady held ..) fun _ => ?_
      extract_lets rest
      have restKeeps (j : Nat) : Keeps R P (rest j) :=
        .ite (.bind (blankTokens_keeps stays.toSteady held ..) fun _ => .pure _) (.pure _)
      exact .ite (.bind (scan_keeps stays held ..) fun _ => .bind (.pure _) restKeeps)
        (.bind (.pure _) restKeeps)
termination_by structural fuel => fuel

end

/-- What is blanked stays blanked. -/
theorem blanked_stays (s : Span) : Stays (fun _ => True) (s ∈ ·.blanks) where
  inside _ _ _ := trivial
  blank _ _ member := Erasure.blank_subset _ _ _ member
  typeNames _ member := member
  imported _ _ member := member
  exported _ _ member := member

end Erase

end JsxPreview.Source
