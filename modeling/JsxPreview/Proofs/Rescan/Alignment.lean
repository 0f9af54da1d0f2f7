import JsxPreview.Proofs.Erasure.Elision

/-! # Erased stretches follow the tokens

What can be erased lies in one of few ways to each token of the text, at every depth (`Token.Aligned`): it
holds the token as a whole or nothing of it, lies in one of its containers, or holds the first `>` of it
alone.  A stretch that starts in a container leaves it only up to the end of the source.  So lies all that
is blanked when a text is erased (`Erasure.aligned`). -/
set_option autoImplicit false
namespace JsxPreview.Source

open JsxPreview.Text

variable {source : List Char} {ts us : List Token} {low high : Nat} {s : Span}

/-- The `>` that a token starts with. -/
def Token.closers (t : Token) : Nat := (t.text.toList.takeWhile (· == '>')).length

/-- How a stretch that can be erased of a source of `length` bytes lies to a token. -/
inductive Token.Aligned (length : Nat) (s : Span) (t : Token) : Prop
  | before (ends : s.stop ≤ t.start)
  | behind (begins : t.stop ≤ s.start)
  | whole (begins : s.start ≤ t.start) (ends : t.stop ≤ s.stop)
  | front {depth : Nat} (punct : t.isPunct = true) (begins : s.start ≤ t.start)
      (ends : s.stop = t.start + depth) (closers : depth ≤ t.closers)
  | inside {b : Body} (container : b ∈ t.shape.bodies) (begins : b.start ≤ s.start)
      (before : s.start < b.stop) (ends : s.stop ≤ b.stop ∨ s.stop = length)

/-! ## In a row -/

/-- A stretch of tokens ends with one of them, behind the first `>` of one, or with the source. -/
theorem TokenRow.ErasedTo.among {n : Nat} (ends : (TokenRow.ofTokens source us).ErasedTo n) :
    n = byteLength source ∨ ∃ w ∈ us, n = w.stop ∨
      w.isPunct = true ∧ ∃ depth, depth ≤ w.closers ∧ n = w.start + depth := by
  cases ends with
  | stop k =>
      cases found : (TokenRow.ofTokens source us).get? k with
      | none => exact .inl (TokenRow.stop_of_none found)
      | some w => exact .inr ⟨w, TokenRow.mem_of_get? found, .inl (TokenRow.stop_of_get? found)⟩
  | @closers k depth punct within =>
      obtain ⟨w, found, punct⟩ := TokenRow.get?_of_any punct
      rw [TokenRow.closers, TokenRow.text_of_get? found] at within
      rw [TokenRow.start_of_get? found]
      exact .inr ⟨w, TokenRow.mem_of_get? found, .inr ⟨punct, depth, within, rfl⟩⟩

/-- What can be erased of tokens starts with one of them that is no comment, or holds nothing. -/
theorem TokenRow.Erasable.begins (erasable : (TokenRow.ofTokens source us).Erasable s) :
    (∃ v ∈ us, v.isComment = false ∧ s.start = v.start) ∨ s.start = byteLength source := by
  obtain ⟨⟨i, begins⟩, -⟩ := erasable
  cases found : (TokenRow.ofTokens source us).get? i with
  | none => exact .inr (begins.trans (TokenRow.start_of_none found))
  | some v =>
      have among := found
      rw [TokenRow.get?_ofTokens] at among
      obtain ⟨member, ink⟩ := List.mem_filter.mp (List.mem_of_getElem? among)
      exact .inl ⟨v, member, by simpa using ink, begins.trans (TokenRow.start_of_get? found)⟩

/-- What can be erased of tokens holds each of them, with what is inside of it, as a whole or not at all, but
for the first `>` of a punctuator. -/
theorem TokenRow.Erasable.aligned_row (spanned : Spanned low high us) (most : high ≤ byteLength source)
    (width : ∀ w ∈ us, w.start + w.closers ≤ w.stop) (erasable : (TokenRow.ofTokens source us).Erasable s)
    {t : Token} (within : t.Within us) : t.Aligned (byteLength source) s := by
  obtain ⟨u, among, starts, stops, deeper⟩ := spanned.within_cases within
  have last := (spanned.span_within within).2.2
  rcases erasable.begins with ⟨v, member, -, begins⟩ | nothing
  · obtain ⟨follow, grows, _, _, _⟩ := spanned
    have apart (w : Token) (member : w ∈ us) : w = u ∨ w.stop ≤ u.start ∨ u.stop ≤ w.start :=
      follow.apart member among
    have order : s.start ≤ u.start ∨ u.stop ≤ s.start := by
      have := grows v member
      rcases apart v member with rfl | first | first <;> omega
    rcases order with earlier | later
    case inr => exact .behind (by omega)
    rcases erasable.2.among with whole | ⟨w, member, whole | ⟨punct, depth, closers, cut⟩⟩
    · exact .whole (by omega) (by omega)
    · rcases apart w member with rfl | first | first
      · exact .whole (by omega) (by omega)
      · exact .before (by omega)
      · have := grows w member
        exact .whole (by omega) (by omega)
    · have := width w member
      rcases apart w member with rfl | first | first
      · rcases deeper with rfl | ⟨b, container, _⟩
        · exact .front punct (by omega) cut closers
        · rw [Token.bodies_of_isPunct punct] at container
          exact absurd container List.not_mem_nil
      · exact .before (by omega)
      · exact .whole (by omega) (by omega)
  · exact .behind (by omega)

/-- A stretch that starts in a container, and leaves it up to the end of the source alone, holds what stands
behind the container as a whole or not at all, and nothing in front of it. -/
theorem Body.aligned_outside {length : Nat} {b : Body} {t : Token} (begins : b.start ≤ s.start)
    (before : s.start < b.stop) (ends : s.stop ≤ b.stop ∨ s.stop = length) (last : t.stop ≤ length)
    (apart : t.stop ≤ b.start ∨ b.stop ≤ t.start) : t.Aligned length s := by
  rcases apart with first | first
  · exact .behind (by omega)
  · rcases ends with short | long
    · exact .before (by omega)
    · exact .whole (by omega) (by omega)

/-- What can be erased of nested tokens, and where it lies. -/
theorem TokenRow.Erasable.aligned_nested (nested : Nested us ts) (spanned : Spanned low high ts)
    (most : high ≤ byteLength source) (width : ∀ w : Token, w.Within ts → w.start + w.closers ≤ w.stop)
    (erasable : (TokenRow.ofTokens source us).Erasable s) :
    (∀ t : Token, t.Within ts → t.Aligned (byteLength source) s) ∧
      (s.start = byteLength source ∨ low ≤ s.start ∧ s.start < high ∧
        (s.stop ≤ high ∨ s.stop = byteLength source)) := by
  induction ts using nested_induction generalizing low high with
  | step ts ih =>
      rcases nested_iff.mp nested with rfl | ⟨u, member, b, container, nested⟩
      · have width (w : Token) (member : w ∈ us) := width w (.here member)
        refine ⟨fun t within => erasable.aligned_row spanned most width within, ?_⟩
        rcases erasable.begins with ⟨v, member, -, begins⟩ | nothing
        · have place := spanned.span_within (.here member)
          refine .inr ⟨by omega, by omega, ?_⟩
          rcases erasable.2.among with whole | ⟨w, member, whole | ⟨_, depth, closers, cut⟩⟩
          · exact .inr whole
          · have := (spanned.span_within (.here member)).2.2
            exact .inl (by omega)
          · have := (spanned.span_within (.here member)).2.2
            have := width w member
            exact .inl (by omega)
        · exact .inl nothing
      · have ends (t : Token) (within : t.Within ts) : t.stop ≤ byteLength source :=
          Nat.le_trans (spanned.span_within within).2.2 most
        have cases (t : Token) (within : t.Within ts) := spanned.within_cases within
        obtain ⟨follow, grows, _, bodies, inside⟩ := spanned
        obtain ⟨after, _, before⟩ := (bodies u member).of_mem container
        obtain ⟨first, _, last⟩ := follow.of_mem member
        simp only [Body.span, Token.span] at after before first last
        obtain ⟨aligned, place⟩ := ih u member b container nested (inside u member b container) (by omega)
          fun w within => width w (.inside member container within)
        rcases place with nothing | ⟨begins, starts, place⟩
        · exact ⟨fun t within => .behind (nothing ▸ ends t within), .inl nothing⟩
        · refine ⟨fun t within => ?_, .inr ⟨by omega, by omega, by omega⟩⟩
          have outside := Body.aligned_outside begins starts place (ends t within)
          obtain ⟨v, among, startsIn, stopsIn, deeper⟩ := cases t within
          rcases follow.apart among member with rfl | earlier | later
          · rcases deeper with rfl | ⟨b', container', within, startsIn, stopsIn⟩
            · exact .inside container begins starts place
            · rcases (bodies v member).apart container' container with rfl | earlier | later
              · exact aligned t within
              · simp only [Body.span] at earlier
                exact outside (.inl (by omega))
              · simp only [Body.span] at later
                exact outside (.inr (by omega))
          · simp only [Token.span] at earlier
            exact outside (.inl (by omega))
          · simp only [Token.span] at later
            exact outside (.inr (by omega))

/-! ## All that is blanked -/

/-- All that is blanked in the end can be erased of tokens of the text. -/
theorem Erasure.Rooted.dropped {e : Erasure} (rooted : e.Rooted source ts) (tokens : List Token) :
    ∀ s ∈ (e.dropTypeExports.dropUnusedImports tokens).blanks,
      ∃ us, Nested us ts ∧ (TokenRow.ofTokens source us).Erasable s := by
  intro s member
  rcases mem_blankAll_cases member with unused | member
  · obtain ⟨i, among, goes⟩ := List.mem_flatMap.mp unused
    rw [dropTypeExports, imports_blankAll] at among
    obtain ⟨us, nested, first, from_, last, reads⟩ := rooted.imports i among
    refine ⟨us, nested, ?_⟩
    rw [ImportStatement.mem_unused] at goes
    split at goes
    · rw [goes, reads.span]
      exact ⟨⟨first, rfl⟩, .stop last⟩
    · obtain ⟨b, among, _, _, rfl⟩ := goes
      obtain ⟨first, last, _, _, _, binds⟩ := reads.binds.mem among
      rw [binds.span]
      exact ⟨⟨first, rfl⟩, .stop last⟩
  · rcases mem_blankAll_cases member with ofTypes | earlier
    · obtain ⟨x, among, rfl⟩ := List.mem_map.mp ofTypes
      exact rooted.exported x (List.mem_filter.mp among).1
    · exact rooted.blanks s earlier

/-- All that is blanked when a text is erased can be erased of tokens of the text. -/
theorem Erasure.erasable {source : List Char} {ts : List Token} {e : Erasure}
    (walked : erasureOf source ts = .ok e) :
    ∀ s ∈ e.blanks, ∃ us, Nested us ts ∧ (TokenRow.ofTokens source us).Erasable s := by
  obtain ⟨⟨_, found⟩, ran, walked⟩ := ok_of_bind walked
  cases walked
  exact (rooted_of_scan ran).dropped ts

/-- All that is blanked starts with a token that is no comment, or holds nothing. -/
theorem Erasure.begins {source : List Char} {ts : List Token} {e : Erasure}
    (walked : erasureOf source ts = .ok e) : ∀ s ∈ e.blanks,
      (∃ v : Token, v.Within ts ∧ v.isComment = false ∧ s.start = v.start) ∨ s.start = byteLength source := by
  intro s member
  obtain ⟨us, nested, erasable⟩ := erasable walked s member
  refine erasable.begins.imp_left ?_
  rintro ⟨v, member, ink, begins⟩
  exact ⟨v, nested.within member, ink, begins⟩

/-- All that is blanked when a text is erased is aligned with all of its tokens. -/
theorem Erasure.aligned {d : Dialect} {source : String} {ts : List Token} {e : Erasure}
    (scanned : tokenize d source = .ok ts) (walked : erasureOf source.toList ts = .ok e) :
    ∀ s ∈ e.blanks, ∀ t : Token, t.Within ts → t.Aligned (byteLength source.toList) s := by
  have spanned := tokenize_spanned scanned
  have tiles := tokenize_tiles scanned
  have width (w : Token) (within : w.Within ts) : w.start + w.closers ≤ w.stop := by
    obtain ⟨_, _, _, _, ends⟩ := tiles.stretch_within within
    have short := closers_le_byteLength w.text.toList
    rw [Token.closers]
    omega
  intro s member t within
  obtain ⟨us, nested, erasable⟩ := erasable walked s member
  exact (erasable.aligned_nested nested spanned (Nat.le_refl _) width).1 t within

end JsxPreview.Source
