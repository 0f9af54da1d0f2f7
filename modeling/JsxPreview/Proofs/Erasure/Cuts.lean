import JsxPreview.Proofs.Erasure.Growth
import JsxPreview.Proofs.Erasure.Names
import JsxPreview.Proofs.Guarded.Room

/-! # Erased stretches hold whole containers

A type may end between two `>` of one token, but no erased stretch ends inside of a template or of an
element that starts in it (`Uncut`).  This holds of all that can be erased of a row
(`TokenRow.Erasable.uncut`), and so of all that the walk finds (`Erasure.sound_of_scan`).  So what is inside of a
blanked token is blanked (`Erasure.covers`). -/
set_option autoImplicit false
namespace JsxPreview.Source

open JsxPreview.Text

variable {source : List Char} {ts us : List Token}

theorem Span.contains_iff {s : Span} {n : Nat} : s.contains n = true ↔ s.start ≤ n ∧ n < s.stop := by
  rw [Span.contains, Bool.and_eq_true, decide_eq_true_iff, decide_eq_true_iff]

/-- A token with containers that starts in the span ends there too. -/
def Uncut (ts : List Token) (s : Span) : Prop :=
  ∀ t : Token, t.Within ts → t.shape.bodies ≠ [] → s.contains t.start = true → t.stop ≤ s.stop

/-! ## Rows -/

/-- A `>` is one byte. -/
theorem closers_le_byteLength (text : List Char) : (text.takeWhile (· == '>')).length ≤ byteLength text := by
  induction text with
  | nil => exact Nat.le_refl 0
  | cons c text ih =>
      have size := c.utf8Size_pos
      rw [byteLength_cons, List.takeWhile_cons]
      split
      · rw [List.length_cons]
        omega
      · exact Nat.zero_le _

theorem TokenRow.closers_le (row : TokenRow) (i : Nat) :
    row.closers i ≤ byteLength (row.text i).toList :=
  closers_le_byteLength _

theorem Token.bodies_of_isPunct {t : Token} (punct : t.isPunct = true) : t.shape.bodies = [] := by
  obtain ⟨shape, _, _, _⟩ := t
  cases shape <;> first | rfl | exact absurd punct Bool.false_ne_true

/-- What ends inside of a punctuator cuts no token with containers. -/
theorem Spanned.uncut_of_punct {low high place start : Nat} (spanned : Spanned low high us) {v : Token}
    (member : v ∈ us) (punct : v.isPunct = true) (behind : v.start ≤ place) (before : place ≤ v.stop) :
    Uncut us ⟨start, place⟩ := by
  intro t within containers held
  obtain ⟨_, inside⟩ : start ≤ t.start ∧ t.start < place := Span.contains_iff.mp held
  obtain ⟨u, among, begins, ends, deeper⟩ := spanned.within_cases within
  obtain ⟨follow, _, _, _, _⟩ := spanned
  change t.stop ≤ place
  rcases follow.apart among member with rfl | first | first
  · rcases deeper with rfl | ⟨b, container, _⟩
    · exact absurd (Token.bodies_of_isPunct punct) containers
    · rw [Token.bodies_of_isPunct punct] at container
      exact absurd container List.not_mem_nil
  · simp only [Token.span] at first
    omega
  · simp only [Token.span] at first
    omega

namespace TokenRow

variable {i : Nat}

theorem start_of_none {row : TokenRow} (absent : row.get? i = none) : row.start i = row.length := by
  rw [start, absent]
  rfl

theorem stop_of_none {row : TokenRow} (absent : row.get? i = none) : row.stop i = row.length := by
  rw [stop, absent]
  rfl

/-- What can be erased of nested tokens cuts no token with containers. -/
theorem Erasable.uncut (tiles : Tiles source 0 (byteLength source) ts)
    (spanned : Spanned 0 (byteLength source) ts) (nested : Nested us ts) {s : Span}
    (erasable : (ofTokens source us).Erasable s) : Uncut ts s := by
  intro t within containers held
  obtain ⟨_, grows, last⟩ := spanned.span_within within
  obtain ⟨low, high, inner, _, _, back⟩ := spanned.nested nested
  obtain ⟨start, stop⟩ := s
  obtain ⟨⟨i, begins⟩, ends⟩ := erasable
  obtain ⟨behind, before⟩ := Span.contains_iff.mp held
  simp only at begins ends behind before
  -- the span starts with a token, as something starts behind it
  obtain ⟨v, found⟩ : ∃ v, (ofTokens source us).get? i = some v := by
    refine Option.ne_none_iff_exists'.mp fun absent => ?_
    rw [begins, start_of_none absent] at behind
    exact absurd (Nat.lt_of_lt_of_le grows last) (Nat.not_lt.mpr behind)
  have lowest : low ≤ t.start := by
    have first := (inner.span_within (.here (mem_of_get? found))).1
    rw [begins, start_of_get? found] at behind
    exact Nat.le_trans first behind
  cases ends with
  | stop k =>
      cases found' : (ofTokens source us).get? k with
      | none =>
          rw [stop_of_none found']
          exact last
      | some w =>
          rw [stop_of_get? found'] at before ⊢
          have highest := (inner.span_within (.here (mem_of_get? found'))).2.2
          have inside := back t within lowest (Nat.lt_of_lt_of_le before highest)
          exact inner.whole_of_mem (mem_of_get? found') t.start t inside (Nat.le_refl _) before
  | @closers k depth punct closed =>
      obtain ⟨w, found', punct⟩ := get?_of_any punct
      have member := mem_of_get? found'
      obtain ⟨_, _, _, _, width⟩ := tiles.stretch_within (nested.within member)
      have room := (ofTokens source us).closers_le k
      rw [text_of_get? found'] at room
      rw [start_of_get? found'] at before held ⊢
      have highest := (inner.span_within (.here member)).2.2
      have inside := back t within lowest (by omega)
      exact inner.uncut_of_punct member punct (Nat.le_add_right _ _) (by omega) t inside containers held

end TokenRow

/-! ## What the walk finds -/

namespace Erasure

/-- All that is blanked, or may be blanked as an export of a type, cuts no token with containers; imports
are recorded where they stand. -/
structure Sound (source : List Char) (ts : List Token) (e : Erasure) : Prop where
  blanks : ∀ s ∈ e.blanks, Uncut ts s
  exported : ∀ x ∈ e.exported, Uncut ts x.span
  imports : ∀ i ∈ e.imports, ∃ us, Nested us ts ∧ (TokenRow.ofTokens source us).Imports i

theorem mem_blank_cases {e : Erasure} {s t : Span} (member : t ∈ (e.blank s.start s.stop).blanks) :
    t = s ∨ t ∈ e.blanks := by
  unfold blank at member
  split at member
  · exact List.mem_cons.mp member
  · exact .inr member

theorem exported_blank (e : Erasure) (start stop : Nat) : (e.blank start stop).exported = e.exported := by
  unfold blank
  split
  · rfl
  · rfl

theorem mem_blankAll_cases {spans : List Span} {e : Erasure} {t : Span}
    (member : t ∈ (e.blankAll spans).blanks) : t ∈ spans ∨ t ∈ e.blanks := by
  induction spans generalizing e with
  | nil => exact .inr member
  | cons s spans ih =>
      rcases ih member with later | earlier
      · exact .inl (List.mem_cons_of_mem _ later)
      · rcases mem_blank_cases earlier with rfl | earlier
        · exact .inl (List.mem_cons_self ..)
        · exact .inr earlier

theorem Sound.dropTypeExports {e : Erasure} (sound : e.Sound source ts) :
    ∀ s ∈ e.dropTypeExports.blanks, Uncut ts s := by
  intro s member
  rcases mem_blankAll_cases member with ofTypes | earlier
  · obtain ⟨x, among, rfl⟩ := List.mem_map.mp ofTypes
    exact sound.exported x (List.mem_filter.mp among).1
  · exact sound.blanks s earlier

/-- What is inside of a blanked token is blanked. -/
theorem covers {e : Erasure} {low high : Nat} (spanned : Spanned low high ts)
    (uncut : ∀ s ∈ e.blanks, Uncut ts s) : e.Covers ts := by
  intro t within blanked b container u inside
  obtain ⟨s, member, held⟩ := List.any_eq_true.mp blanked
  have ends := uncut s member t within (List.ne_nil_of_mem container) held
  obtain ⟨starts, stops⟩ := spanned.within_inside within container inside
  have grows := (spanned.span_within (within.deeper container inside)).2.1
  rw [Span.contains_iff] at held
  exact List.any_eq_true.mpr ⟨s, member, Span.contains_iff.mpr (by omega)⟩

/-- All that is blanked, or may be blanked as an export of a type, can be erased of tokens of the text; imports
are recorded where they stand. -/
structure Rooted (source : List Char) (ts : List Token) (e : Erasure) : Prop where
  blanks : ∀ s ∈ e.blanks, ∃ us, Nested us ts ∧ (TokenRow.ofTokens source us).Erasable s
  exported : ∀ x ∈ e.exported, ∃ us, Nested us ts ∧ (TokenRow.ofTokens source us).Erasable x.span
  imports : ∀ i ∈ e.imports, ∃ us, Nested us ts ∧ (TokenRow.ofTokens source us).Imports i

/-- What the walk finds stays rooted. -/
theorem rooted_stays :
    Erase.Stays (fun row => ∃ us, Nested us ts ∧ row = TokenRow.ofTokens source us) (Rooted source ts) where
  inside := by
    rintro _ i t b ⟨us, nested, rfl⟩ found container
    exact ⟨b.tokens, nested.deeper (TokenRow.mem_of_get? found) container, rfl⟩
  blank := by
    rintro _ e s ⟨us, nested, rfl⟩ erasable ⟨blanks, exported, imports⟩
    refine ⟨fun t member => ?_, ?_, ?_⟩
    · rcases mem_blank_cases member with rfl | earlier
      · exact ⟨us, nested, erasable⟩
      · exact blanks t earlier
    · rwa [exported_blank]
    · rwa [imports_blank]
  typeNames _ rooted := ⟨rooted.blanks, rooted.exported, rooted.imports⟩
  imported := by
    rintro _ e s ⟨us, nested, rfl⟩ reads ⟨blanks, exported, imports⟩
    refine ⟨blanks, exported, List.forall_mem_append.mpr ⟨imports, ?_⟩⟩
    exact List.forall_mem_singleton.mpr ⟨us, nested, reads⟩
  exported := by
    rintro _ e xs ⟨us, nested, rfl⟩ erasable ⟨blanks, exported, imports⟩
    refine ⟨blanks, List.forall_mem_append.mpr ⟨exported, fun x member => ?_⟩, imports⟩
    exact ⟨us, nested, erasable x member⟩

theorem rooted_of_scan {stop fuel depth i : Nat} {declaring : Option Nat} {e : Erasure} {u : Unit}
    (ran : (Erase.scan (.ofTokens source ts) stop fuel depth declaring i).run {} = .ok (u, e)) :
    e.Rooted source ts := by
  have nothing : Rooted source ts {} := ⟨nofun, nofun, nofun⟩
  exact (Erase.scan_keeps rooted_stays ⟨ts, .here, rfl⟩ ..).kept _ _ _ ran nothing

theorem sound_of_scan (tiles : Tiles source 0 (byteLength source) ts)
    (spanned : Spanned 0 (byteLength source) ts) {stop fuel depth i : Nat} {declaring : Option Nat}
    {e : Erasure} {u : Unit}
    (ran : (Erase.scan (.ofTokens source ts) stop fuel depth declaring i).run {} = .ok (u, e)) :
    e.Sound source ts := by
  obtain ⟨blanks, exported, imports⟩ := rooted_of_scan ran
  refine ⟨fun s member => ?_, fun x member => ?_, imports⟩
  · obtain ⟨us, nested, erasable⟩ := blanks s member
    exact erasable.uncut tiles spanned nested
  · obtain ⟨us, nested, erasable⟩ := exported x member
    exact erasable.uncut tiles spanned nested

end Erasure

end JsxPreview.Source
