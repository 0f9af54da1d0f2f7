import JsxPreview.Proofs.Scanner.Leaves
import JsxPreview.Proofs.Scanner.Nesting
import JsxPreview.Proofs.Scanner.Segments

/-! # Rows of tokens

What a container holds is read like a text, from its opening brace to its closing one (`Reads.inside`).
So every token, at any depth, is read where it stands, behind the tokens in front of it in its row
(`tokenize_token`), and what holds of each token as it is read holds of all tokens of a text.  Templates
and elements end with the mark that closes them (`Reads.ends`). -/
set_option autoImplicit false
namespace JsxPreview.Source

open JsxPreview.Text

variable {d : Dialect}

/-! ## Containers are read -/

/-- The containers of what a call reads. -/
def Call.bodies : (call : Call) → call.Result → List Body
  | .tokens .., r => r.1.flatMap (·.shape.bodies)
  | .token .., r => r.1.bodies
  | .template .., r => (Shape.template r.1).bodies
  | .body _, r => [r.1]
  | .element _, r => r.1.bodies
  | .attributes _, r => Attribute.bodiesAll r.1
  | .value _, r => r.1.bodies
  | .children .., r => Child.bodiesAll r.1

/-- A container whose tokens are read behind a cursor. -/
def Body.ReadFrom (d : Dialect) (c : Cursor) (b : Body) : Prop :=
  ∃ inner close : Cursor, c.Leads inner ∧ inner.pos = b.start ∧ close.pos = b.stop ∧
    Reads d (.tokens true 0 true inner) (b.tokens, close)

theorem Body.ReadFrom.behind {c c' : Cursor} {b : Body} (read : b.ReadFrom d c) (leads : c'.Leads c) :
    b.ReadFrom d c' := by
  obtain ⟨inner, close, within, rest⟩ := read
  exact ⟨inner, close, leads.trans within, rest⟩

/-- The tokens of a container are read like those of a text. -/
theorem Reads.inside {call : Call} {r : call.Result} (reads : Reads d call r) :
    ∀ b ∈ call.bodies r, b.ReadFrom d call.cursor := by
  induction reads with
  | tokensEnd => exact fun _ member => absurd member List.not_mem_nil
  | @tokensMore _ _ _ before _ _ _ _ _ first _ ih ihs =>
      intro b member
      rw [Call.bodies, List.flatMap_cons] at member
      rcases List.mem_append.mp member with member | member
      · exact (ih b member).behind before.leads_skipBlank
      · exact (ihs b member).behind (before.leads_skipBlank.trans first.leads)
  | tokenTemplate _ _ ih => exact fun b member => (ih b member).behind (Cursor.leads_skip _ _)
  | tokenElement _ _ ih => exact ih
  | tokenLeaf _ _ here =>
      rw [Call.bodies, (containers_leaf (lexLeaf_isLeaf here)).1]
      exact fun _ member => absurd member List.not_mem_nil
  | templateEnd => exact fun _ member => absurd member List.not_mem_nil
  | @templateMore _ _ c raw _ close _ _ _ inner _ _ ihs =>
      have opens := c.leads_past raw
      refine List.forall_mem_cons.mpr ⟨⟨_, close, opens, rfl, rfl, inner⟩, fun b member => ?_⟩
      exact (ihs b member).behind ((opens.trans inner.leads).trans (close.leads_skip 1))
  | @body c _ close inner =>
      exact List.forall_mem_singleton.mpr ⟨c, close, .refl c, rfl, rfl, inner⟩
  | elementFragment here _ ih =>
      exact fun b member => (ih b member).behind (tagStart_passes here).leads
  | elementClosed here _ ih =>
      intro b member
      refine (ih b ?_).behind (tagStart_passes here).leads
      simpa [Call.bodies, Element.bodies, Child.bodiesAll] using member
  | elementOpen here tag _ ih ihs =>
      intro b member
      rw [Call.bodies, Element.bodies] at member
      have named := (tagStart_passes here).leads
      rcases List.mem_append.mp member with member | member
      · exact (ih b member).behind named
      · exact (ihs b member).behind (named.trans tag.leads)
  | attributesStop => exact fun _ member => absurd member List.not_mem_nil
  | attributesSpread here inner _ ih ihs =>
      intro b member
      rw [Call.bodies, Attribute.bodiesAll, Attribute.bodies] at member
      have opens := (tagPart_passes here).leads
      rcases List.mem_append.mp member with member | member
      · exact (ih b member).behind opens
      · exact (ihs b member).behind (opens.trans inner.leads)
  | @attributesName before _ _ _ _ _ _ _ here inner _ ih ihs =>
      intro b member
      obtain ⟨rfl, rfl, _⟩ := tagPart_passes here
      rw [Call.bodies, Attribute.bodiesAll, Attribute.bodies] at member
      have named := (before.leads_skipBlank.trans
        (Cursor.leads_skipWhile _ isAttributeNamePart)).trans (Cursor.leads_skipBlank _)
      rcases List.mem_append.mp member with member | member
      · exact (ih b member).behind named
      · exact (ihs b member).behind (named.trans inner.leads)
  | valueBare | valueStr => exact fun _ member => absurd member List.not_mem_nil
  | valueExpr here _ ih => exact fun b member => (ih b member).behind (valueStart_passes here).leads
  | valueElement here _ ih => exact fun b member => (ih b member).behind (valueStart_passes here).leads
  | childrenStop =>
      rw [Call.bodies, bodiesAll_textChild]
      exact fun _ member => absurd member List.not_mem_nil
  | childrenExpr here inner _ ih ihs =>
      intro b member
      have opens := (Cursor.leads_textEnd _).trans (childStart_passes here).leads
      rw [Call.bodies, bodiesAll_append, bodiesAll_append, bodiesAll_textChild, List.nil_append] at member
      rcases List.mem_append.mp member with member | member
      · exact (ih b (List.mem_singleton.mpr (mem_bodiesAll_bodyChild member))).behind opens
      · exact (ihs b member).behind (opens.trans inner.leads)
  | @childrenElement _ start child _ _ _ _ here inner _ ih ihs =>
      intro b member
      have same : child = textEnd start := childStart_passes here
      have opens : start.Leads child := same ▸ Cursor.leads_textEnd start
      rw [Call.bodies, bodiesAll_append, bodiesAll_textChild, List.nil_append, Child.bodiesAll] at member
      rcases List.mem_append.mp member with member | member
      · exact (ih b member).behind opens
      · exact (ihs b member).behind (opens.trans inner.leads)

/-! ## Rows are read -/

variable {inBraces operand : Bool} {depth : Nat} {c final : Cursor} {pre ts us post : List Token} {t : Token}

theorem Reads.nested (reads : Reads d (.tokens inBraces depth operand c) (ts, final)) (nested : Nested us ts) :
    us = ts ∨ ∃ inner close : Cursor, c.Leads inner ∧ Reads d (.tokens true 0 true inner) (us, close) := by
  induction ts using nested_induction generalizing inBraces depth operand c final with
  | step ts ih =>
      rcases nested_iff.mp nested with rfl | ⟨u, member, b, container, nested⟩
      · exact .inl rfl
      · obtain ⟨inner, close, leads, _, _, inside⟩ :=
          reads.inside b (List.mem_flatMap.mpr ⟨u, member, container⟩)
        rcases ih u member b container inside nested with rfl | ⟨inner', close', leads', within⟩
        · exact .inr ⟨inner, close, leads, inside⟩
        · exact .inr ⟨inner', close', leads.trans leads', within⟩

/-- A token of a row is read behind those in front of it. -/
theorem Reads.token (reads : Reads d (.tokens inBraces depth operand c) (pre ++ t :: post, final)) :
    ∃ here after : Cursor, c.Leads here ∧ t = tokenBetween t.shape here after ∧
      Reads d (.token (operandBehind operand pre) here) (t.shape, after) := by
  induction pre generalizing depth operand c with
  | nil =>
      cases reads with
      | tokensMore _ first => exact ⟨_, _, Cursor.leads_skipBlank _, rfl, first⟩
  | cons u pre ih =>
      cases reads with
      | tokensMore _ first others =>
          obtain ⟨here, after, leads, same, read⟩ := ih others
          exact ⟨here, after, ((Cursor.leads_skipBlank _).trans first.leads).trans leads, same, read⟩

/-- Every token of a text that is no comment is read where it stands, at any depth. -/
theorem tokenize_token {source : String} (success : tokenize d source = .ok ts)
    (nested : Nested (pre ++ t :: post) ts) (significant : t.isComment = false) :
    ∃ here after : Cursor, here.In source.toList ∧ t = tokenBetween t.shape here after ∧
      Reads d (.token (operandBehind true pre) here) (t.shape, after) := by
  obtain ⟨tokens, final, rfl, reads⟩ := tokenize_cases success
  have start : (firstLine source).2.In source.toList := leads_firstLine source
  have within (nested : Nested (pre ++ t :: post) tokens) : ∃ here after : Cursor, here.In source.toList ∧
      t = tokenBetween t.shape here after ∧ Reads d (.token (operandBehind true pre) here) (t.shape, after) := by
    rcases Reads.nested reads nested with rfl | ⟨inner, close, leads, inside⟩
    · obtain ⟨here, after, leads, read⟩ := Reads.token reads
      exact ⟨here, after, start.leads leads, read⟩
    · obtain ⟨here, after, leads', read⟩ := inside.token
      exact ⟨here, after, (start.leads leads).leads leads', read⟩
  unfold firstLine at nested
  simp only at nested
  split at nested
  case isFalse => exact within nested
  case isTrue =>
    -- the comment of the first line holds nothing, and an operand is expected behind it as in front
    rcases nested_iff.mp nested with same | ⟨u, member, b, container, nested⟩
    · cases pre with
      | nil =>
          cases same
          cases significant
      | cons u pre =>
          obtain ⟨rfl, rfl⟩ := List.cons.inj same
          obtain ⟨here, after, leads, read⟩ := Reads.token reads
          exact ⟨here, after, start.leads leads, read⟩
    · rcases List.mem_cons.mp member with rfl | member
      · exact absurd container List.not_mem_nil
      · exact within (.of_inside member container nested)

/-- Every token of a text, at any depth, has its place in a row. -/
theorem Token.Within.exists_row (within : t.Within ts) : ∃ pre post, Nested (pre ++ t :: post) ts := by
  induction within with
  | here member =>
      obtain ⟨pre, post, rfl⟩ := List.append_of_mem member
      exact ⟨pre, post, .here⟩
  | inside member container _ ih =>
      obtain ⟨pre, post, nested⟩ := ih
      exact ⟨pre, post, .of_inside member container nested⟩

/-! ## Closing marks -/

/-- Reading on from one cursor to another ends with the mark of a template or a tag. -/
def Cursor.ClosesAt (c d : Cursor) : Prop :=
  ∃ (s : List Char) (x : Char), (x = '\x60' ∨ x = '>') ∧ c.rest = s ++ x :: d.rest ∧ d.pos = c.pos + byteLength s + 1

theorem Cursor.Leads.closesAt {c d e : Cursor} (leads : c.Leads d) (closes : d.ClosesAt e) : c.ClosesAt e := by
  obtain ⟨t, split, pos⟩ := leads
  obtain ⟨s, x, mark, split', pos'⟩ := closes
  refine ⟨t ++ s, x, mark, by rw [split, split', List.append_assoc], ?_⟩
  rw [pos', pos, byteLength_append]
  omega

theorem Cursor.closesAt_skip {c : Cursor} (head : c.rest.head? = some '>') : c.ClosesAt (c.skip 1) := by
  obtain ⟨s, ahead⟩ := List.head?_eq_some_iff.mp head
  refine ⟨[], '>', .inr rfl, ?_, ?_⟩ <;> rw [Cursor.skip, ahead] <;> rfl

theorem tagPart_closes {before after : Cursor} {closed : Bool}
    (here : tagPart before = .ok (.stop closed after)) : before.ClosesAt after := by
  refine before.leads_skipBlank.closesAt ?_
  unfold tagPart at here
  simp only at here
  split at here
  case h_1 => exact absurd here Cursor.fail_ne_ok
  case h_2 x s ahead =>
    split at here
    case isTrue slash =>
      split at here
      case isFalse => exact absurd here Cursor.fail_ne_ok
      case isTrue bracket =>
        cases here
        obtain ⟨t, rfl⟩ := List.head?_eq_some_iff.mp (eq_of_beq bracket)
        cases eq_of_beq slash
        refine ⟨['/'], '>', .inr rfl, ?_, ?_⟩ <;> rw [Cursor.skip, ahead] <;> rfl
    case isFalse =>
      split at here
      case isTrue bracket =>
        cases here
        exact Cursor.closesAt_skip (by rw [ahead, eq_of_beq bracket]; rfl)
      case isFalse =>
        split at here
        · split at here
          · cases here
          · exact absurd here Cursor.fail_ne_ok
        · split at here
          · cases here
          · exact absurd here Cursor.fail_ne_ok

theorem childStart_closes {parent : Option String} {c after : Cursor}
    (here : childStart parent c = .ok (.stop after)) : c.ClosesAt after := by
  cases ahead : c.rest with
  | nil =>
      rw [childStart, ahead] at here
      exact absurd here Cursor.fail_ne_ok
  | cons x s =>
      by_cases bracket : x = '<'
      · subst bracket
        obtain ⟨gap, y, t, rfl, inside, stop⟩ := exists_gap ahead here fun _ same => by cases same
        rw [childStart_of_gap ahead inside stop] at here
        split at here
        case isFalse => cases here
        case isTrue =>
          obtain ⟨same, head, -⟩ := (closeStart_iff rfl rfl rfl).mp here
          cases same
          refine Cursor.Leads.closesAt ?_ (Cursor.closesAt_skip head)
          exact (((c.leads_skip _).trans (Cursor.leads_skipBlank _)).trans
            (Cursor.leads_skipWhile _ _)).trans (Cursor.leads_skipBlank _)
      · rw [childStart, ahead] at here
        simp only at here
        split at here
        case isTrue => cases here
        case isFalse =>
          rw [if_neg (by simpa using bracket)] at here
          exact absurd here Cursor.fail_ne_ok

theorem rawTail_closes {s raw : List Char} (found : rawTail s = some (raw, false)) :
    ∃ t, raw = t ++ ['\x60'] := by
  -- what is read in front of the rest, and the rest
  have behind (front : List Char) {t : List Char} (inner : ∃ u, t = u ++ ['\x60']) : ∃ u, front ++ t = u ++ ['\x60'] := by
    obtain ⟨u, rfl⟩ := inner
    exact ⟨front ++ u, (List.append_assoc ..).symm⟩
  fun_induction rawTail s generalizing raw with
  | case1 => cases found
  | case2 s ih =>
      obtain ⟨⟨t, _⟩, inner, same⟩ := Option.map_eq_some_iff.mp found
      cases same
      exact behind ['\\', '\r', '\n'] (ih inner)
  | case3 c s _ ih =>
      obtain ⟨⟨t, _⟩, inner, same⟩ := Option.map_eq_some_iff.mp found
      cases same
      exact behind ['\\', c] (ih inner)
  | case4 s =>
      cases found
      exact ⟨[], rfl⟩
  | case5 s => cases found
  | case6 c s _ _ _ _ ih =>
      obtain ⟨⟨t, _⟩, inner, same⟩ := Option.map_eq_some_iff.mp found
      cases same
      exact behind [c] (ih inner)

/-- A call that ends with a closing mark. -/
def Call.Closes : (call : Call) → call.Result → Prop
  | .token _ c, r => r.1.isLeaf = false → c.ClosesAt r.2
  | .template _ _ c, r => c.ClosesAt r.2
  | .element c, r => c.ClosesAt r.2
  | .attributes c, r => c.ClosesAt r.2.2
  | .children _ c, r => c.ClosesAt r.2
  | .tokens .., _ | .body _, _ | .value _, _ => True

/-- Templates, elements, tags and children end with a closing mark. -/
theorem Reads.closesAt {call : Call} {r : call.Result} (reads : Reads d call r) : call.Closes r := by
  induction reads with
  | tokensEnd | tokensMore | body | valueBare | valueStr | valueExpr | valueElement => trivial
  | tokenTemplate _ _ ih => exact fun _ => (Cursor.leads_skip _ 1).closesAt ih
  | tokenElement _ _ ih => exact fun _ => ih
  | tokenLeaf _ _ here => exact fun nest => absurd (lexLeaf_isLeaf here) (by simp [nest])
  | @templateEnd _ _ c _ here =>
      obtain ⟨rest, split, _⟩ := rawTail_append here
      obtain ⟨t, rfl⟩ := rawTail_closes here
      have after := Cursor.past_of_append split.symm
      refine ⟨t, '\x60', .inl rfl, ?_, ?_⟩
      · rw [after, split, List.append_assoc]
        rfl
      · rw [after, byteLength_append, ← Nat.add_assoc]
        rfl
  | templateMore _ inner _ _ ih =>
      exact ((Cursor.leads_past _ _).trans (inner.leads.trans (Cursor.leads_skip _ 1))).closesAt ih
  | elementFragment here _ ih => exact (tagStart_passes here).leads.closesAt ih
  | elementClosed here _ ih => exact (tagStart_passes here).leads.closesAt ih
  | elementOpen here tag _ _ ih => exact ((tagStart_passes here).leads.trans tag.leads).closesAt ih
  | attributesStop here => exact tagPart_closes here
  | attributesSpread here inner _ _ ih => exact ((tagPart_passes here).leads.trans inner.leads).closesAt ih
  | @attributesName before _ _ _ _ _ _ _ here inner _ _ ih =>
      obtain ⟨rfl, rfl, _⟩ := tagPart_passes here
      exact (((before.leads_skipBlank.trans (Cursor.leads_skipWhile _ _)).trans
        (Cursor.leads_skipBlank _)).trans inner.leads).closesAt ih
  | childrenStop here => exact (Cursor.leads_textEnd _).closesAt (childStart_closes here)
  | childrenExpr here inner _ _ ih =>
      exact (((Cursor.leads_textEnd _).trans (childStart_passes here).leads).trans inner.leads).closesAt ih
  | @childrenElement _ start child _ _ _ _ here inner _ _ ih =>
      have same : child = textEnd start := childStart_passes here
      have opens : start.Leads child := same ▸ Cursor.leads_textEnd start
      exact (opens.trans inner.leads).closesAt ih

end JsxPreview.Source
