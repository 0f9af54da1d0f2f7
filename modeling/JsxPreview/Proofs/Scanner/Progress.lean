import JsxPreview.Proofs.Scanner.Reading

/-! # The scanner reads on

What the scanner finds at a cursor lies behind it, and behind it by a character or more except where
a name of an attribute starts with a backslash: `isWordStart` takes it for the start of a name,
`isAttributeNamePart` does not take it for a part of one. -/
set_option autoImplicit false
namespace JsxPreview.Source

open JsxPreview.Text

/-! ## What comes next -/

theorem isWordRest_of_isWordStart {x : Char} (starts : isWordStart x = true) :
    isWordRest x = true := by
  simp only [isWordStart, isWordRest, isWordPart, Bool.or_eq_true] at starts ⊢
  rcases starts with ((letter | underscore) | dollar) | escape <;> simp [*]

theorem isAttributeNamePart_of_isWordStart {x : Char} (starts : isWordStart x = true)
    (noEscape : x ≠ '\\') : isAttributeNamePart x = true := by
  simp only [isWordStart, isAttributeNamePart, isWordPart, Bool.or_eq_true, beq_iff_eq] at starts ⊢
  rcases starts with ((letter | underscore) | dollar) | escape
  · simp [letter]
  · simp [underscore]
  · simp [dollar]
  · exact absurd escape noEscape

theorem isAttributeNamePart_backslash : isAttributeNamePart '\\' = false := by decide

theorem number_ne_nil {x : Char} {s : List Char}
    (starts : (x.isDigit || (x == '.' && s.head?.any Char.isDigit)) = true) :
    number (x :: s) ≠ [] := by
  have accepted : (x.isAlphanum || x == '_' || x == '.') = true := by
    simp only [Bool.or_eq_true, Bool.and_eq_true, Char.isAlphanum] at starts ⊢
    rcases starts with digit | ⟨point, _⟩
    · simp [digit]
    · simp [point]
  unfold number
  cases s with
  | nil => simp [numberRun, accepted]
  | cons y s =>
      rw [numberRun, if_pos accepted]
      split <;> exact List.cons_ne_nil _ _

theorem punctuators_nonempty : ∀ p ∈ punctuators, 0 < p.length := by decide

theorem lexLeaf_passes {operand : Bool} {c after : Cursor} {shape : Shape}
    (here : lexLeaf operand c = .ok (shape, after)) : c.Passes after := by
  unfold lexLeaf at here
  split at here
  case h_1 => exact absurd here Cursor.fail_ne_ok
  case h_2 s ahead =>
    cases here
    exact Cursor.passes_skipWhile ahead (by decide)
  case h_3 s ahead =>
    split at here
    · cases here
      exact Cursor.passes_past (List.cons_ne_nil _ _) (by simp [ahead])
    · exact absurd here Cursor.fail_ne_ok
  case h_4 x s _ _ ahead =>
    have some : c.rest ≠ [] := by simp [ahead]
    split at here
    · split at here
      · cases here
        exact (Cursor.passes_past (List.cons_ne_nil _ _) some).trans_leads
          (Cursor.leads_skipWhile _ _)
      · exact absurd here Cursor.fail_ne_ok
    · split at here
      · split at here
        · cases here
          exact Cursor.passes_past (List.cons_ne_nil _ _) some
        · exact absurd here Cursor.fail_ne_ok
      · split at here
        case isTrue digits =>
          cases here
          rw [ahead]
          exact Cursor.passes_past (number_ne_nil digits) some
        case isFalse =>
          split at here
          case isTrue starts =>
            cases here
            exact Cursor.passes_skipWhile ahead (isWordRest_of_isWordStart starts)
          case isFalse =>
            split at here
            case h_1 p found =>
              cases here
              exact Cursor.passes_skip (punctuators_nonempty p (List.mem_of_find?_eq_some found)) some
            case h_2 => exact absurd here Cursor.fail_ne_ok

theorem Cursor.Leads.passes_of_ne {c d : Cursor} (leads : c.Leads d) (moved : d.pos ≠ c.pos) :
    c.Passes d := by
  refine ⟨leads, ?_⟩
  obtain ⟨taken, rest, pos⟩ := leads
  have some : taken ≠ [] := by
    rintro rfl
    exact moved pos
  have := List.length_pos_iff.mpr some
  rw [rest, List.length_append]
  omega

theorem ne_nil_of_head? {c : Cursor} {x : Char} (ahead : (c.rest.head? == some x) = true) :
    c.rest ≠ [] := by
  intro nothing
  rw [nothing] at ahead
  exact absurd ahead (by simp)

theorem tagStart_passes {c : Cursor} {start : TagStart} (here : tagStart c = .ok start) :
    match start with
    | .fragment inner => c.Passes inner
    | .named _ after => c.Passes after := by
  have inside : c.Leads (c.skip 1).skipBlank := (c.leads_skip 1).trans (Cursor.leads_skipBlank _)
  unfold tagStart at here
  simp only at here
  split at here
  case isTrue bracket =>
    cases here
    exact inside.trans_passes (Cursor.passes_skip Nat.one_pos (ne_nil_of_head? bracket))
  case isFalse =>
    split at here
    case isTrue => exact absurd here Cursor.fail_ne_ok
    case isFalse moved =>
      cases here
      exact inside.trans_passes
        ((Cursor.leads_skipWhile _ _).passes_of_ne (by simpa using moved))

theorem tagPart_passes {before : Cursor} {part : TagPart} (here : tagPart before = .ok part) :
    match part with
    | .stop _ after => before.Passes after
    | .spread inner => before.Passes inner
    | .name c after => c = before.skipBlank ∧ after = c.skipWhile isAttributeNamePart ∧
        ∃ x s, c.rest = x :: s ∧ isWordStart x = true := by
  have blanks : before.Leads before.skipBlank := before.leads_skipBlank
  unfold tagPart at here
  simp only at here
  split at here
  case h_1 => exact absurd here Cursor.fail_ne_ok
  case h_2 x s ahead =>
    have some : before.skipBlank.rest ≠ [] := by simp [ahead]
    split at here
    · split at here
      · cases here
        exact blanks.trans_passes (Cursor.passes_skip Nat.two_pos some)
      · exact absurd here Cursor.fail_ne_ok
    · split at here
      · cases here
        exact blanks.trans_passes (Cursor.passes_skip Nat.one_pos some)
      · split at here
        · split at here
          · cases here
            exact (blanks.trans_passes (Cursor.passes_skip Nat.one_pos some)).trans_leads
              ((Cursor.leads_skipBlank _).trans (Cursor.leads_skip _ _))
          · exact absurd here Cursor.fail_ne_ok
        · split at here
          case isTrue starts =>
            cases here
            exact ⟨rfl, rfl, x, s, ahead, starts⟩
          case isFalse => exact absurd here Cursor.fail_ne_ok

theorem valueStart_passes {before : Cursor} {start : ValueStart}
    (here : valueStart before = .ok start) :
    match start with
    | .bare after => after = before
    | .str _ _ after => before.Passes after
    | .expr inner => before.Passes inner
    | .element c => before.Passes c := by
  unfold valueStart at here
  split at here
  case isTrue =>
    cases here
    rfl
  case isFalse equals =>
    have some : before.rest ≠ [] := ne_nil_of_head? (x := '=') (by simpa using equals)
    have inside : before.Passes (before.skip 1).skipBlank :=
      (Cursor.passes_skip Nat.one_pos some).trans_leads (Cursor.leads_skipBlank _)
    simp only at here
    split at here
    case h_1 => exact absurd here Cursor.fail_ne_ok
    case h_2 x s ahead =>
      split at here
      · split at here
        · cases here
          exact inside.trans_leads (Cursor.leads_skip _ _)
        · exact absurd here Cursor.fail_ne_ok
      · split at here
        · cases here
          exact inside.trans_leads (Cursor.leads_skip _ _)
        · split at here
          · cases here
            exact inside
          · exact absurd here Cursor.fail_ne_ok

theorem childStart_passes {parent : Option String} {c : Cursor} {start : ChildStart}
    (here : childStart parent c = .ok start) :
    match start with
    | .expr inner => c.Passes inner
    | .element inner => inner = c
    | .stop after => c.Passes after := by
  unfold childStart at here
  split at here
  case h_1 => exact absurd here Cursor.fail_ne_ok
  case h_2 x s ahead =>
    have some : c.rest ≠ [] := by simp [ahead]
    split at here
    · cases here
      exact Cursor.passes_skip Nat.one_pos some
    · split at here
      · simp only at here
        split at here
        · split at here
          · exact absurd here Cursor.fail_ne_ok
          · split at here
            · exact absurd here Cursor.fail_ne_ok
            · have behind (n : Nat) : c.Passes
                  (((c.skip (n + 2)).skipBlank.skipWhile isTagNamePart).skipBlank.skip 1) :=
                (Cursor.passes_skip (Nat.succ_pos _) some).trans_leads
                  ((Cursor.leads_skipBlank _).trans ((Cursor.leads_skipWhile _ _).trans
                    ((Cursor.leads_skipBlank _).trans (Cursor.leads_skip _ _))))
              -- the name of a closing tag is itself found by cases
              split at here <;> split at here
              case isTrue.isTrue | isFalse.isTrue => exact absurd here Cursor.fail_ne_ok
              case isTrue.isFalse | isFalse.isFalse =>
                cases here
                exact behind _
        · cases here
          rfl
      · exact absurd here Cursor.fail_ne_ok

theorem rawTail_ne_nil {s raw : List Char} {more : Bool} (here : rawTail s = some (raw, more)) :
    raw ≠ [] := by
  unfold rawTail at here
  split at here
  case h_1 => exact absurd here (by simp)
  case h_4 | h_5 =>
    cases here
    exact List.cons_ne_nil _ _
  all_goals
    obtain ⟨r, _, same⟩ := Option.map_eq_some_iff.mp here
    cases same
    exact List.cons_ne_nil _ _

theorem rawTail_passes {c : Cursor} {raw : List Char} {more : Bool}
    (here : rawTail c.rest = some (raw, more)) : c.Passes (c.past raw) := by
  refine Cursor.passes_past (rawTail_ne_nil here) ?_
  intro nothing
  rw [nothing] at here
  exact absurd here (by simp [rawTail])

theorem tokensEnd_ne_nil {inBraces : Bool} {depth : Nat} {c : Cursor}
    (here : tokensEnd inBraces depth c = .ok false) : c.rest ≠ [] := by
  intro nothing
  unfold tokensEnd at here
  rw [nothing] at here
  cases inBraces with
  | false => cases here
  | true =>
      have failed : c.fail .unexpectedEnd = .ok false := here
      exact Cursor.fail_ne_ok failed

/-! ## Whole calls -/

/-- A call leaves the text where it starts or behind. -/
theorem Reads.leads {d : Dialect} {call : Call} {r : call.Result} (reads : Reads d call r) :
    call.cursor.Leads (call.after r) := by
  induction reads with
  | tokensEnd _ => exact Cursor.leads_skipBlank _
  | tokensMore _ _ _ first others => exact (Cursor.leads_skipBlank _).trans (first.trans others)
  | tokenTemplate _ _ inside => exact (Cursor.leads_skip _ _).trans inside
  | tokenElement _ _ inside => exact inside
  | tokenLeaf _ _ here => exact (lexLeaf_passes here).leads
  | templateEnd _ => exact Cursor.leads_past _ _
  | templateMore _ _ _ inside others =>
      exact (Cursor.leads_past _ _).trans (inside.trans ((Cursor.leads_skip _ _).trans others))
  | body _ inside => exact inside.trans (Cursor.leads_skip _ _)
  | elementFragment here _ inside => exact (tagStart_passes here).leads.trans inside
  | elementClosed here _ tag => exact (tagStart_passes here).leads.trans tag
  | elementOpen here _ _ tag inside => exact (tagStart_passes here).leads.trans (tag.trans inside)
  | attributesStop here => exact (tagPart_passes here).leads
  | attributesSpread here _ _ inside others =>
      exact (tagPart_passes here).leads.trans (inside.trans others)
  | attributesName here _ _ inside others =>
      obtain ⟨rfl, rfl, _⟩ := tagPart_passes here
      exact (Cursor.leads_skipBlank _).trans ((Cursor.leads_skipWhile _ _).trans
        ((Cursor.leads_skipBlank _).trans (inside.trans others)))
  | valueBare here =>
      rw [valueStart_passes here]
      exact .refl _
  | valueStr here => exact (valueStart_passes here).leads
  | valueExpr here _ inside => exact (valueStart_passes here).leads.trans inside
  | valueElement here _ inside => exact (valueStart_passes here).leads.trans inside
  | childrenStop here => exact (Cursor.leads_textEnd _).trans (childStart_passes here).leads
  | childrenExpr here _ _ inside others =>
      exact (Cursor.leads_textEnd _).trans ((childStart_passes here).leads.trans
        (inside.trans others))
  | childrenElement here _ _ inside others =>
      have same := childStart_passes here
      rw [Call.cursor, same] at inside
      exact (Cursor.leads_textEnd _).trans (inside.trans others)

theorem Reads.element_passes {d : Dialect} {c after : Cursor} {element : Element}
    (reads : Reads d (.element c) (element, after)) : c.Passes after := by
  cases reads with
  | elementFragment here inside => exact (tagStart_passes here).trans_leads inside.leads
  | elementClosed here tag => exact (tagStart_passes here).trans_leads tag.leads
  | elementOpen here tag inside =>
      exact (tagStart_passes here).trans_leads (tag.leads.trans inside.leads)

theorem Reads.token_passes {d : Dialect} {operand : Bool} {c after : Cursor} {shape : Shape}
    (reads : Reads d (.token operand c) (shape, after)) : c.Passes after := by
  cases reads with
  | tokenTemplate here inside =>
      exact (Cursor.passes_skip Nat.one_pos (ne_nil_of_head? (by simpa using here))).trans_leads
        inside.leads
  | tokenElement _ inside => exact inside.element_passes
  | tokenLeaf _ _ here => exact lexLeaf_passes here

end JsxPreview.Source
