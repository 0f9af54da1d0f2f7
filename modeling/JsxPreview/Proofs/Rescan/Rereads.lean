import JsxPreview.Proofs.Rescan.Rescanned

/-! # The second scan

As the first scan goes along a source, so the second one goes along the erased text (`Reads.rereads`). -/
set_option autoImplicit false
namespace JsxPreview.Source

open JsxPreview.Text

/-! ## The nest -/

/-- Raw template text of which nothing is blanked is read again. -/
theorem rawTail_erased {spans : List Span} {c : Cursor} {raw : List Char} {more : Bool}
    (here : rawTail c.rest = some (raw, more)) (clear : Clear spans c.pos (c.past raw).pos) :
    rawTail (c.erased spans).rest = some (raw, more) ∧ (c.erased spans).past raw = (c.past raw).erased spans := by
  obtain ⟨behind, split, goesOn⟩ := rawTail_append here
  obtain ⟨moved, rest, whole⟩ := Cursor.past_erased ⟨behind, split.symm⟩ clear
  exact ⟨whole ▸ goesOn rest, moved⟩

/-- The tag goes on at a byte that is left. -/
theorem Reads.attributes_kept {spans : List Span} {d : Dialect} {before : Cursor}
    {r : List Attribute × Bool × Cursor} (reads : Reads d (.attributes before) r)
    (clear : ClearBut spans before.pos r.2.2.pos (Attribute.bodiesAll r.1)) :
    Erasure.holds spans before.skipBlank.pos = false := by
  obtain ⟨passes, behind⟩ := reads.attributes_skipBlank.attributes_behind _ rfl
  exact clear _ before.leads_skipBlank.pos_le passes.pos_lt fun b member => .inl (behind b member)

/-- Containers whose tokens are found again, in balanced braces. -/
def Ready (spans : List Span) (jsx : Bool) (out : List Char) (bs : List Body) : Prop :=
  ∀ b ∈ bs, Rescanned spans jsx out true b.tokens ∧ Balanced (Token.leftAll spans b.tokens)

/-- The text of a child of which nothing is blanked. -/
theorem textEnd_erased {spans : List Span} {start : Cursor} {high : Nat} (clear : Clear spans start.pos high)
    (inside : (textEnd start).pos < high) : textEnd (start.erased spans) = (textEnd start).erased spans ∧
      textChild (start.erased spans) ((textEnd start).erased spans) = textChild start (textEnd start) := by
  have leads := start.leads_textEnd
  have text := clear.mono (Nat.le_refl _) (Nat.le_of_lt inside)
  refine ⟨Cursor.skipWhile_erased text fun x head => ?_, ?_⟩
  · obtain ⟨_, _, _, _, stop⟩ := start.skipWhile_split fun x => !(x == '<' || x == '\x7b' || x == '\x7d' || x == '>')
    refine stop x (?_ : (textEnd start).rest.head? = some x)
    rw [← Cursor.head?_erased (clear _ leads.pos_le inside)]
    exact head
  · rw [textChild, textChild, Cursor.upTo_erased_of_clear leads text]
    rfl

/-- A container that is no child holds only comments, of which nothing is blanked. -/
theorem ready_of_bodyChild {spans : List Span} {jsx : Bool} {out : List Char} {d : Dialect} {inner after : Cursor}
    {body : Body} (reads : Reads d (.body inner) (body, after))
    (clear : ClearBut spans inner.pos after.pos (Child.bodiesAll (bodyChild body)))
    (ready : Ready spans jsx out (Child.bodiesAll (bodyChild body))) : Ready spans jsx out [body] := by
  by_cases significant : body.tokens.any (!·.isComment) = true
  · rw [bodyChild, if_pos significant] at ready
    exact ready
  · rw [bodyChild, if_neg significant] at clear
    have comments : ∀ t ∈ body.tokens, t.isComment = true := by simpa using significant
    obtain ⟨begins, ends⟩ := reads.bodies_between body (List.mem_singleton_self _)
    refine List.forall_mem_singleton.mpr ⟨.of_comments (reads.spans.2 body (List.mem_singleton_self _)) comments
      (clear.clear.mono begins (Nat.le_of_lt ends)), braceDepth_comments (fun t' member => ?_) 0⟩
    obtain ⟨t, among, left⟩ := Token.mem_leftAll.mp member
    rw [Token.isComment_of_mem_left left, comments t among]

/-- What is left of what a call has read is read of the erased text. -/
def Call.Rereads (spans : List Span) (jsx : Bool) (out : List Char) (call : Call) (r : call.Result) : Prop :=
  match call, r with
  | .tokens inBraces _ _ c, r => ∀ operand depth, Rescanned spans jsx out operand r.1 →
      (inBraces = true → braceDepth depth (Token.leftAll spans r.1) = some 0 ∧
        Erasure.holds spans r.2.pos = false) →
      Reads ⟨jsx, false⟩ (.tokens inBraces depth operand (c.erased spans))
        (Token.leftAll spans r.1, r.2.erased spans)
  | .token _ c, r => ClearBut spans c.pos r.2.pos r.1.bodies → Ready spans jsx out r.1.bodies →
      ∀ operand, (tokenBetween (r.1.left spans) (c.erased spans) (r.2.erased spans)).Fits jsx operand
          (c.erased spans).rest →
        Reads ⟨jsx, false⟩ (.token operand (c.erased spans)) (r.1.left spans, r.2.erased spans)
  | .template _ partStart c, r => ClearBut spans c.pos r.2.pos (Shape.template r.1).bodies →
      Ready spans jsx out (Shape.template r.1).bodies → ∀ opening,
        Reads ⟨jsx, false⟩ (.template opening partStart (c.erased spans))
          (TemplatePart.leftAll spans r.1, r.2.erased spans)
  | .body c, r => ClearBut spans c.pos r.2.pos [r.1] → Ready spans jsx out [r.1] →
      Reads ⟨jsx, false⟩ (.body (c.erased spans)) (r.1.left spans, r.2.erased spans)
  | .element c, r => ClearBut spans c.pos r.2.pos r.1.bodies → Ready spans jsx out r.1.bodies →
      Reads ⟨jsx, false⟩ (.element (c.erased spans)) (r.1.left spans, r.2.erased spans)
  | .attributes c, r => ClearBut spans c.pos r.2.2.pos (Attribute.bodiesAll r.1) →
      Ready spans jsx out (Attribute.bodiesAll r.1) →
      Reads ⟨jsx, false⟩ (.attributes (c.erased spans))
        (Attribute.leftAll spans r.1, r.2.1, r.2.2.erased spans)
  | .value c, r => ClearBut spans c.pos r.2.pos r.1.bodies → Ready spans jsx out r.1.bodies →
      Reads ⟨jsx, false⟩ (.value (c.erased spans)) (r.1.left spans, r.2.erased spans)
  | .children parent c, r => ClearBut spans c.pos r.2.pos (Child.bodiesAll r.1) →
      Ready spans jsx out (Child.bodiesAll r.1) →
      Reads ⟨jsx, false⟩ (.children parent (c.erased spans)) (Child.leftAll spans r.1, r.2.erased spans)

/-- As the first scan goes along the source, so the second one goes along the erased text. -/
theorem Reads.rereads {spans : List Span} {jsx : Bool} {source : List Char} {call : Call} {r : call.Result}
    (reads : Reads ⟨jsx, true⟩ call r) :
    call.cursor.In source → call.Rereads spans jsx (Erasure.imageOf spans 0 source) r := by
  induction reads with
  | @tokensEnd inBraces depth operand before here =>
      intro _ operand' depth' _ braces
      have read : Reads ⟨jsx, true⟩ (.tokens inBraces depth operand before) ([], before.skipBlank) :=
        .tokensEnd here
      have ended : (before.erased spans).skipBlank = before.skipBlank.erased spans ∧
          Source.tokensEnd inBraces depth' (before.skipBlank.erased spans) = .ok true := by
        cases inBraces with
        | false =>
            have nothing : before.skipBlank.rest = [] := read.text_end _ _ _ rfl
            refine ⟨Cursor.skipBlank_erased_of_end nothing, ?_⟩
            rw [Source.tokensEnd, Cursor.erased, nothing]
            rfl
        | true =>
            obtain ⟨closed, kept⟩ := braces rfl
            have head : before.skipBlank.rest.head? = some '\x7d' := read.close _ _ _ rfl
            obtain ⟨s, ahead⟩ := List.head?_eq_some_iff.mp head
            cases closed
            refine ⟨Cursor.skipBlank_erased_of_kept kept, ?_⟩
            rw [Source.tokensEnd, Cursor.head_erased ahead kept]
            rfl
      have again : Reads ⟨jsx, false⟩ (.tokens inBraces depth' operand' (before.erased spans)) ([], _) :=
        .tokensEnd (by rw [ended.1]; exact ended.2)
      rw [ended.1] at again
      exact again
  | @tokensMore inBraces depth operand before shape after tail final here first others ih ihs =>
      intro start operand' depth' ready braces
      have start : before.skipBlank.In source := start.leads before.leads_skipBlank
      have passes := first.token_passes
      have ihs := ihs (start.leads passes.leads)
      refine Reads.of_skipBlank ?_ (Cursor.skipBlank_erased before)
      change Reads _ (.tokens _ _ _ (before.skipBlank.erased spans)) (Token.leftAll spans (_ :: _), _)
      change inBraces = true → braceDepth _ (Token.leftAll spans (_ :: _)) = _ ∧ _ at braces
      rw [Token.leftAll] at braces ⊢
      cases ready with
      | gone gone ready =>
          rw [gone] at braces ⊢
          exact (ihs operand' depth' ready braces).of_skipBlank (skipBlank_erased_of_gone passes.leads gone)
      | kept kept clear inside balanced fits ready =>
          have kept : Erasure.holds spans before.skipBlank.pos = false := kept
          have left : (tokenBetween shape before.skipBlank after).left spans = _ := left_tokenBetween passes kept
          rw [left] at braces fits ready ⊢
          have fits := fits _ (List.mem_singleton_self _)
          change Token.Fits _ _ (dropBytes before.skipBlank.pos _) _ at fits
          rw [start.dropBytes_erased] at fits
          have again := ih start clear (fun b member => ⟨inside b member, balanced b member⟩) operand' fits
          have same := Cursor.skipBlank_erased_of_kept (c := before.skipBlank)
            (by rwa [Cursor.skipBlank_skipBlank])
          rw [Cursor.skipBlank_skipBlank] at same
          exact Reads.more same again (fun within => (braces within).1)
            (ihs _ _ ready fun within => (braces within).imp_left braceDepth_tail)
      | cut punct left clear rest found ready =>
          have isPunct : shape = .punct := by
            cases shape <;> first | rfl | cases punct
          subst isPunct
          obtain ⟨here', blank, rfl, again⟩ := Reads.cut start passes.leads left clear rest found operand'
          have left := Token.left_of_mem left
          rw [left] at braces ready ⊢
          exact Reads.more blank again (fun within => (braces within).1)
            (ihs _ _ ready fun within => (braces within).imp_left braceDepth_tail)
  | @tokenTemplate operand c parts after here inside ih =>
      intro start clear ready operand' _
      have some : c.rest ≠ [] := ne_nil_of_head? (beq_iff_eq.mpr here)
      have opens := (Cursor.passes_skip Nat.one_pos some).pos_lt
      have front : Clear spans c.pos (c.skip 1).pos :=
        clear.front (fun b member => (inside.bodies_between b member).1) inside.leads.pos_le
      have again := ih (start.leads (c.leads_skip 1)) (clear.back (Nat.le_of_lt opens)) ready (c.erased spans)
      refine .tokenTemplate ?_ ?_
      · rw [Cursor.head?_erased (front _ (Nat.le_refl _) opens), here]
      · rw [Cursor.skip_one_erased some front]
        exact again
  | @tokenElement operand c element after here inside ih =>
      intro start clear ready operand' fits
      have expected : operand' = true := fits
      subst expected
      refine .tokenElement ?_ (ih start clear ready)
      -- the character behind the bracket is left
      obtain ⟨reach, behind⟩ := inside.element_behind
      have front : Clear spans c.pos ((c.skip 1).skipBlank.pos + 1) := clear.front behind reach
      have grows := (c.skip 1).leads_skipBlank.pos_le
      obtain ⟨s, ahead⟩ := List.head?_eq_some_iff.mp (head?_of_startsElement here)
      have opens : (c.skip 1) = ⟨c.pos + 1, s⟩ := by rw [Cursor.skip, ahead]; rfl
      rw [opens] at front grows
      change c.pos + 1 ≤ _ at grows
      have head : (Erasure.imageOf spans (c.pos + 1) s).head? = s.head? :=
        Cursor.head?_erased (c := ⟨c.pos + 1, s⟩) (front (c.pos + 1) (by omega) (by omega))
      have bracket : (c.erased spans).rest = '<' :: Erasure.imageOf spans (c.pos + 1) s :=
        Cursor.head_erased ahead (front _ (Nat.le_refl _) (by omega))
      rw [ahead, startsElement, elementFollows] at here
      rw [bracket, startsElement, elementFollows, head]
      simp only [Bool.and_eq_true] at here
      simp [here]
  | @tokenLeaf operand c shape after _ _ here =>
      intro start clear ready operand' fits
      have leaf := lexLeaf_isLeaf here
      change ClearBut spans c.pos after.pos shape.bodies at clear
      change Token.Fits _ _ _ (tokenBetween (shape.left spans) _ _) at fits
      rw [(containers_leaf leaf).1] at clear
      rw [Shape.left_leaf leaf] at fits
      have again := Reads.leaf_erased here clear.clear fits
      change Reads _ (.token operand' _) (shape.left spans, _)
      rw [Shape.left_leaf leaf]
      exact again
  | @templateEnd opening partStart c raw here =>
      intro start clear ready opening'
      obtain ⟨goesOn, ends⟩ := rawTail_erased here clear.clear
      have read : Reads ⟨jsx, false⟩ (.template opening' partStart (c.erased spans)) (_, _) := .templateEnd goesOn
      rw [ends] at read
      exact read
  | @templateMore opening partStart c raw tokens close parts after here inside others ih ihs =>
      intro start clear ready opening'
      have head : close.rest.head? = some '\x7d' := inside.close _ _ _ rfl
      have closes : (close.skip 1).pos = close.pos + 1 := Cursor.pos_skip_brace head
      have opens := c.leads_past raw
      have goesOn : close.pos + 1 ≤ after.pos := closes ▸ others.leads.pos_le
      have clear : ClearBut spans c.pos after.pos
          ([⟨(c.past raw).pos, close.pos, tokens⟩] ++ (Shape.template parts).bodies) := clear
      obtain ⟨⟨rescanned, balanced⟩, ready⟩ := List.forall_mem_cons.mp ready
      have others' (b : Body) (member : b ∈ (Shape.template parts).bodies) : close.pos + 1 ≤ b.start :=
        closes ▸ (others.bodies_between b member).1
      have behind : ClearBut spans close.pos after.pos (Shape.template parts).bodies :=
        clear.right (List.forall_mem_singleton.mpr (Nat.le_refl _)) (opens.trans inside.leads).pos_le
      have brace : Clear spans close.pos (close.pos + 1) := behind.front others' goesOn
      have kept : Erasure.holds spans close.pos = false := brace _ (Nat.le_refl _) (Nat.lt_succ_self _)
      have inner : c.pos ≤ (c.past raw).pos := opens.pos_le
      have ends : (c.past raw).pos ≤ close.pos := inside.leads.pos_le
      obtain ⟨raw', toInner⟩ := rawTail_erased here (clear.front (List.forall_mem_cons.mpr ⟨Nat.le_refl _,
        fun b member => Nat.le_trans (Nat.le_succ_of_le ends) (others' b member)⟩) (by omega))
      have body := ih (start.leads opens) true 0 rescanned fun _ => ⟨balanced, kept⟩
      have rest := ihs ((start.leads opens).leads (inside.leads.trans (close.leads_skip 1)))
        (behind.back (by omega)) ready opening'
      change Reads _ (.template opening' close.pos ((close.skip 1).erased spans)) _ at rest
      rw [← Cursor.skip_one_erased (ne_nil_of_head? (beq_iff_eq.mpr head)) (closes ▸ brace)] at rest
      rw [← toInner] at body
      have read : Reads ⟨jsx, false⟩ (.template opening' partStart (c.erased spans)) (_, _) :=
        .templateMore raw' body rest
      rw [toInner] at read
      exact read
  | @body c tokens close inside ih =>
      intro start clear ready
      have head : close.rest.head? = some '\x7d' := inside.close _ _ _ rfl
      have closes : (close.skip 1).pos = close.pos + 1 := Cursor.pos_skip_brace head
      obtain ⟨rescanned, balanced⟩ := ready _ (List.mem_singleton_self _)
      have brace : Clear spans close.pos (close.skip 1).pos :=
        (ClearBut.right (show ClearBut spans c.pos _ ([⟨c.pos, close.pos, tokens⟩] ++ []) from clear)
          (List.forall_mem_singleton.mpr (Nat.le_refl _)) inside.leads.pos_le).clear
      have kept : Erasure.holds spans close.pos = false := brace _ (Nat.le_refl _) (by omega)
      have read := Reads.body (ih start true 0 rescanned fun _ => ⟨balanced, kept⟩)
      rw [Cursor.skip_one_erased (ne_nil_of_head? (beq_iff_eq.mpr head)) brace] at read
      exact read
  | @elementFragment c inner children after here inside ih =>
      intro start clear ready
      have behind (b : Body) (member : b ∈ Child.bodiesAll children) : inner.pos ≤ b.start :=
        (inside.bodies_between b member).1
      have opens : c.Passes inner := tagStart_passes here
      have front : Clear spans c.pos inner.pos := clear.front behind inside.leads.pos_le
      exact .elementFragment (tagStart_erased here front)
        (ih (start.leads opens.leads) (clear.back opens.leads.pos_le) ready)
  | @elementClosed c name named attributes after here tag ih =>
      intro start clear ready
      change ClearBut spans c.pos after.pos (Attribute.bodiesAll attributes ++ []) at clear
      change Ready spans jsx _ (Attribute.bodiesAll attributes ++ []) at ready
      rw [List.append_nil] at clear ready
      have opens : c.Passes named := tagStart_passes here
      have front : Clear spans c.pos named.pos :=
        clear.front (fun b member => (tag.bodies_between b member).1) tag.leads.pos_le
      exact .elementClosed (tagStart_erased here front)
        (ih (start.leads opens.leads) (clear.back opens.leads.pos_le) ready)
  | @elementOpen c name named attributes inner children after here tag inside ih ihs =>
      intro start clear ready
      change ClearBut spans c.pos after.pos (Attribute.bodiesAll attributes ++ Child.bodiesAll children) at clear
      obtain ⟨readyTag, readyInside⟩ := List.forall_mem_append.mp ready
      have opens : c.Passes named := tagStart_passes here
      have inTag (b : Body) (member : b ∈ Attribute.bodiesAll attributes) : named.pos ≤ b.start ∧ b.stop < inner.pos :=
        tag.bodies_between b member
      have inChildren (b : Body) (member : b ∈ Child.bodiesAll children) : inner.pos ≤ b.start :=
        (inside.bodies_between b member).1
      have tagged : named.pos ≤ inner.pos := tag.leads.pos_le
      have ends : inner.pos ≤ after.pos := inside.leads.pos_le
      have front : Clear spans c.pos named.pos := clear.front (List.forall_mem_append.mpr
        ⟨fun b member => (inTag b member).1, fun b member => Nat.le_trans tagged (inChildren b member)⟩) (by omega)
      refine .elementOpen (tagStart_erased here front)
        (ih (start.leads opens.leads) ((clear.left inChildren ends).back opens.leads.pos_le) readyTag)
        (ihs (start.leads (opens.leads.trans tag.leads)) (clear.right (fun b member => Nat.le_of_lt (inTag b member).2)
          (opens.leads.trans tag.leads).pos_le) readyInside)
  | @attributesStop before closed after here =>
      intro start clear _
      have read : Reads ⟨jsx, true⟩ (.attributes before) ([], closed, after) := .attributesStop here
      exact .attributesStop (tagPart_erased here clear.clear (read.attributes_kept clear))
  | @attributesSpread before inner body after tail closed final here inside others ih ihs =>
      intro start clear ready
      have read : Reads ⟨jsx, true⟩ (.attributes before) (.spread body :: tail, closed, final) :=
        .attributesSpread here inside others
      have kept := read.attributes_kept clear
      change ClearBut spans before.pos final.pos ([body] ++ Attribute.bodiesAll tail) at clear
      obtain ⟨readyBody, readyTail⟩ := List.forall_mem_append.mp (show ∀ b ∈ [body] ++ _, _ from ready)
      have opens : before.Passes inner := tagPart_passes here
      obtain ⟨begins, ends⟩ : inner.pos ≤ body.start ∧ body.stop < after.pos :=
        inside.bodies_between body (List.mem_singleton_self _)
      have inTail (b : Body) (member : b ∈ Attribute.bodiesAll tail) : after.pos ≤ b.start :=
        (others.bodies_between b member).1
      have first : inner.pos ≤ after.pos := inside.leads.pos_le
      have last : after.pos ≤ final.pos := others.leads.pos_le
      have front : Clear spans before.pos inner.pos := clear.front
        (List.forall_mem_cons.mpr ⟨begins, fun b member => Nat.le_trans first (inTail b member)⟩) (by omega)
      exact .attributesSpread (tagPart_erased here front kept)
        (ih (start.leads opens.leads) ((clear.left inTail last).back opens.leads.pos_le) readyBody)
        (ihs (start.leads (opens.leads.trans inside.leads)) (clear.right
          (List.forall_mem_singleton.mpr (Nat.le_of_lt ends)) (opens.leads.trans inside.leads).pos_le) readyTail)
  | @attributesName before c named value after tail closed final here inside others ih ihs =>
      intro start clear ready
      have read : Reads ⟨jsx, true⟩ (.attributes before) (.named (c.upTo named) c.pos value :: tail, closed, final) :=
        .attributesName here inside others
      have kept := read.attributes_kept clear
      change ClearBut spans before.pos final.pos (value.bodies ++ Attribute.bodiesAll tail) at clear
      obtain ⟨readyValue, readyTail⟩ := List.forall_mem_append.mp (show ∀ b ∈ value.bodies ++ _, _ from ready)
      obtain ⟨rfl, rfl, _⟩ := tagPart_passes here
      have inTail : after.Passes final ∧ ∀ b ∈ Attribute.bodiesAll tail, after.pos < b.start :=
        others.attributes_behind _ rfl
      have inValue := inside.value_behind
      have blank := before.leads_skipBlank
      have name := before.skipBlank.leads_skipWhile isAttributeNamePart
      have gap := (before.skipBlank.skipWhile isAttributeNamePart).leads_skipBlank
      have toValue := (blank.trans name).trans gap
      have ends := inside.leads.pos_le
      have last := inTail.1.pos_lt
      -- the value starts behind the name, at a byte that is left
      have front : Clear spans before.pos
          ((before.skipBlank.skipWhile isAttributeNamePart).skipBlank.pos + 1) := by
        refine clear.front (List.forall_mem_append.mpr ⟨inValue, fun b member => ?_⟩) (Nat.lt_of_le_of_lt ends last)
        exact Nat.lt_of_le_of_lt ends (inTail.2 b member)
      have value' := ih (start.leads toValue)
        ((clear.left (fun b member => Nat.le_of_lt (inTail.2 b member)) (Nat.le_of_lt last)).back toValue.pos_le)
        readyValue
      have tail' := ihs (start.leads (toValue.trans inside.leads)) (clear.right
        (fun b member => Nat.le_of_lt (inside.bodies_between b member).2) (toValue.trans inside.leads).pos_le) readyTail
      have inName := front.mono blank.pos_le (Nat.le_succ_of_le gap.pos_le)
      have part := tagPart_erased here (front.mono (Nat.le_refl _) (Nat.le_succ_of_le gap.pos_le)) kept
      rw [← Cursor.skipBlank_erased_of_kept (front _ toValue.pos_le (Nat.lt_succ_self _))] at value'
      have again := Reads.attributesName part value' tail'
      rw [Cursor.upTo_erased_of_clear name inName] at again
      exact again
  | @valueBare before after here =>
      exact fun _ clear _ => .valueBare (valueStart_erased here clear.clear)
  | @valueStr before value start after here =>
      exact fun _ clear _ => .valueStr (valueStart_erased here clear.clear)
  | @valueExpr before inner body after here inside ih =>
      intro start clear ready
      have opens : before.Passes inner := valueStart_passes here
      have front : Clear spans before.pos inner.pos :=
        clear.front (fun b member => (inside.bodies_between b member).1) inside.leads.pos_le
      exact .valueExpr (valueStart_erased here front)
        (ih (start.leads opens.leads) (clear.back opens.leads.pos_le) ready)
  | @valueElement before c element after here inside ih =>
      intro start clear ready
      have opens : before.Passes c := valueStart_passes here
      obtain ⟨reach, behind⟩ := inside.element_behind
      have grows := ((c.leads_skip 1).trans (Cursor.leads_skipBlank _)).pos_le
      have front : Clear spans before.pos (c.pos + 1) :=
        clear.front (fun b member => Nat.lt_of_le_of_lt grows (behind b member)) (Nat.lt_of_le_of_lt grows reach)
      exact .valueElement (valueStart_erased here front)
        (ih (start.leads opens.leads) (clear.back opens.leads.pos_le) ready)
  | @childrenStop parent start after here =>
      intro _ clear _
      change ClearBut spans start.pos after.pos (Child.bodiesAll (textChild start (textEnd start))) at clear
      rw [bodiesAll_textChild] at clear
      have clear := clear.clear
      have text := start.leads_textEnd.pos_le
      have closes : (textEnd start).Passes after := childStart_passes here
      obtain ⟨ends, same⟩ := textEnd_erased clear closes.pos_lt
      have child := childStart_erased here (fun _ same => by cases same) (clear.mono text (Nat.le_refl _))
      rw [← ends] at child
      have read := Reads.childrenStop (d := ⟨jsx, false⟩) child
      rw [ends, same] at read
      change Reads _ (.children parent (start.erased spans)) (Child.leftAll spans (textChild _ _), _)
      rw [textChild_left]
      exact read
  | @childrenExpr parent start inner body after tail final here inside others ih ihs =>
      intro begins clear ready
      change ClearBut spans start.pos final.pos
        (Child.bodiesAll (textChild start (textEnd start) ++ bodyChild body ++ tail)) at clear
      change Ready spans jsx _ (Child.bodiesAll (textChild start (textEnd start) ++ bodyChild body ++ tail)) at ready
      rw [bodiesAll_append, bodiesAll_append, bodiesAll_textChild, List.nil_append] at clear ready
      obtain ⟨readyBody, readyTail⟩ := List.forall_mem_append.mp (show ∀ b ∈ Child.bodiesAll _ ++ _, _ from ready)
      have text := start.leads_textEnd
      have opens : (textEnd start).Passes inner := childStart_passes here
      obtain ⟨first, second⟩ : inner.pos ≤ body.start ∧ body.stop < after.pos :=
        inside.bodies_between body (List.mem_singleton_self _)
      have inBody (b : Body) (member : b ∈ Child.bodiesAll (bodyChild body)) : inner.pos ≤ b.start ∧ b.stop ≤ after.pos := by
        rw [mem_bodiesAll_bodyChild member]
        exact ⟨first, Nat.le_of_lt second⟩
      have inTail (b : Body) (member : b ∈ Child.bodiesAll tail) : after.pos ≤ b.start :=
        (others.bodies_between b member).1
      have ends : inner.pos ≤ after.pos := inside.leads.pos_le
      have last : after.pos ≤ final.pos := others.leads.pos_le
      have front : Clear spans start.pos inner.pos := clear.front (List.forall_mem_append.mpr
        ⟨fun b member => (inBody b member).1, fun b member => Nat.le_trans ends (inTail b member)⟩) (by omega)
      have toInner := text.trans opens.leads
      have around : ClearBut spans inner.pos after.pos (Child.bodiesAll (bodyChild body)) :=
        (clear.left inTail last).back toInner.pos_le
      have body' := ih (begins.leads toInner) (around.subset fun b member =>
        List.mem_singleton.mpr (mem_bodiesAll_bodyChild member)) (ready_of_bodyChild inside around readyBody)
      have tail' := ihs (begins.leads (toInner.trans inside.leads)) (clear.right
        (fun b member => (inBody b member).2) (toInner.trans inside.leads).pos_le) readyTail
      obtain ⟨ended, same⟩ := textEnd_erased front opens.pos_lt
      have child := childStart_erased here (fun _ same => by cases same) (front.mono text.pos_le (Nat.le_refl _))
      rw [← ended] at child
      have read := Reads.childrenExpr (d := ⟨jsx, false⟩) child body' tail'
      rw [ended, same, bodyChild_left] at read
      change Reads _ (.children parent (start.erased spans)) (Child.leftAll spans (_ ++ _ ++ _), _)
      rw [Child.leftAll_append, Child.leftAll_append, textChild_left]
      exact read
  | @childrenElement parent start inner element after tail final here inside others ih ihs =>
      intro begins clear ready
      change ClearBut spans start.pos final.pos
        (Child.bodiesAll (textChild start (textEnd start) ++ .element element :: tail)) at clear
      change Ready spans jsx _ (Child.bodiesAll (textChild start (textEnd start) ++ .element element :: tail)) at ready
      rw [bodiesAll_append, bodiesAll_textChild, List.nil_append, Child.bodiesAll, Child.bodies] at clear ready
      obtain ⟨readyElement, readyTail⟩ := List.forall_mem_append.mp (show ∀ b ∈ element.bodies ++ _, _ from ready)
      have atEnd : inner = textEnd start := childStart_passes here
      subst atEnd
      have text := start.leads_textEnd
      obtain ⟨reach, behind⟩ := inside.element_behind
      have grows := (((textEnd start).leads_skip 1).trans (Cursor.leads_skipBlank _)).pos_le
      have inElement (b : Body) (member : b ∈ element.bodies) : b.stop < after.pos :=
        (inside.bodies_between b member).2
      have inTail (b : Body) (member : b ∈ Child.bodiesAll tail) : after.pos ≤ b.start :=
        (others.bodies_between b member).1
      have last : after.pos ≤ final.pos := others.leads.pos_le
      have front : Clear spans start.pos (((textEnd start).skip 1).skipBlank.pos + 1) :=
        clear.front (List.forall_mem_append.mpr ⟨behind, fun b member => Nat.le_trans reach (inTail b member)⟩)
          (Nat.le_trans reach last)
      have element' := ih (begins.leads text) ((clear.left inTail last).back text.pos_le) readyElement
      have tail' := ihs (begins.leads (text.trans inside.leads)) (clear.right
        (fun b member => Nat.le_of_lt (inElement b member)) (text.trans inside.leads).pos_le) readyTail
      obtain ⟨ended, same⟩ := textEnd_erased front (Nat.lt_succ_of_le grows)
      have ink : ((textEnd start).skip 1).skipBlank.rest ≠ [] := inside.element_ink
      have child := childStart_erased here (fun _ same => by cases same; exact ink)
        (front.mono text.pos_le (Nat.le_refl _))
      rw [← ended] at child
      have read := Reads.childrenElement (d := ⟨jsx, false⟩) child element' tail'
      rw [ended, same] at read
      change Reads _ (.children parent (start.erased spans)) (Child.leftAll spans (_ ++ _ :: _), _)
      rw [Child.leftAll_append, textChild_left]
      exact read

end JsxPreview.Source
