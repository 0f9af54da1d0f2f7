import JsxPreview.Proofs.Rescan.Left

/-! # Scanning erased texts

What the second scan, without types, reads of an erased text: a token of which all is blanked is white space
to it, one that is left it reads at its place, and of one whose front is blanked it reads what is left
(`Rescanned`).  As the first scan goes along the source, so the second one goes along the erased text
(`Reads.rescanned`). -/
set_option autoImplicit false
namespace JsxPreview.Source

open JsxPreview.Text

variable {spans : List Span} {low high middle : Nat} {bs xs ys : List Body}

/-! ## What is left around containers -/

/-- Nothing is blanked between two bytes outside of containers. -/
def ClearBut (spans : List Span) (low high : Nat) (bs : List Body) : Prop :=
  ∀ n, low ≤ n → n < high → (∀ b ∈ bs, n < b.start ∨ b.stop ≤ n) → Erasure.holds spans n = false

namespace ClearBut

theorem clear (clear : ClearBut spans low high []) : Clear spans low high :=
  fun n behind before => clear n behind before fun _ member => absurd member List.not_mem_nil

theorem subset (clear : ClearBut spans low high xs) (among : xs ⊆ ys) : ClearBut spans low high ys :=
  fun n behind before outside => clear n behind before fun b member => outside b (among member)

/-- In front of containers. -/
theorem left (clear : ClearBut spans low high (xs ++ ys)) (behind : ∀ b ∈ ys, middle ≤ b.start)
    (before : middle ≤ high) : ClearBut spans low middle xs := by
  intro n begins ends outside
  refine clear n begins (Nat.lt_of_lt_of_le ends before) (List.forall_mem_append.mpr ⟨outside, fun b member => ?_⟩)
  exact .inl (Nat.lt_of_lt_of_le ends (behind b member))

/-- Behind containers. -/
theorem right (clear : ClearBut spans low high (xs ++ ys)) (before : ∀ b ∈ xs, b.stop ≤ middle)
    (behind : low ≤ middle) : ClearBut spans middle high ys := by
  intro n begins ends outside
  refine clear n (Nat.le_trans behind begins) ends (List.forall_mem_append.mpr ⟨fun b member => ?_, outside⟩)
  exact .inr (Nat.le_trans (before b member) begins)

theorem front (clear : ClearBut spans low high bs) (behind : ∀ b ∈ bs, middle ≤ b.start)
    (before : middle ≤ high) : Clear spans low middle :=
  (left (show ClearBut spans low high ([] ++ bs) from clear) behind before).clear

theorem back (clear : ClearBut spans low high bs) (behind : low ≤ middle) : ClearBut spans middle high bs :=
  right (show ClearBut spans low high ([] ++ bs) from clear) (fun _ member => absurd member List.not_mem_nil) behind

end ClearBut

/-! ## Where containers start -/

section

variable {d : Dialect} {call : Call} {r : call.Result} {c after : Cursor} {b : Body}

theorem Reads.bodies_between (reads : Reads d call r) :
    ∀ b ∈ call.bodies r, call.cursor.pos ≤ b.start ∧ b.stop < (call.after r).pos := by
  have between {low high : Nat} {bs : List Body} (containers : Containers low high bs) :
      ∀ b ∈ bs, low ≤ b.start ∧ b.stop < high := by
    intro b member
    obtain ⟨begins, _, ends⟩ := containers.1.of_mem member
    exact ⟨begins, ends⟩
  have spans := reads.spans
  cases call with
  | tokens =>
      intro b member
      obtain ⟨t, among, container⟩ := List.mem_flatMap.mp member
      obtain ⟨follow, _, _, bodies, _⟩ := spans
      obtain ⟨begins, _, ends⟩ := follow.of_mem among
      obtain ⟨begins', _, ends'⟩ := (bodies t among).of_mem container
      simp only [Token.span, Body.span] at begins ends begins' ends'
      rw [Call.cursor, Call.after]
      omega
  | token => exact fun b member => (between spans.1 b member).imp_left Nat.le_of_succ_le
  | template => exact between spans.1
  | element => exact fun b member => (between spans b member).imp_left Nat.le_of_succ_le
  | body | attributes | value | children => exact between spans

theorem tagStart_reach {start : TagStart} (here : tagStart c = .ok start) :
    (c.skip 1).skipBlank.pos < start.reach := by
  unfold tagStart at here
  simp only at here
  split at here
  case isTrue bracket =>
    cases here
    exact (Cursor.passes_skip Nat.one_pos (ne_nil_of_head? bracket)).pos_lt
  case isFalse =>
    split at here
    case isTrue => exact absurd here Cursor.fail_ne_ok
    case isFalse moved =>
      cases here
      exact ((Cursor.leads_skipWhile _ _).passes_of_ne (by simpa using moved)).pos_lt

/-- The tag of an element goes on behind its bracket, and its containers start there. -/
theorem Reads.element_behind {element : Element} (reads : Reads d (.element c) (element, after)) :
    (c.skip 1).skipBlank.pos < after.pos ∧ ∀ b ∈ element.bodies, (c.skip 1).skipBlank.pos < b.start := by
  cases reads with
  | elementFragment here inside =>
      have reach := tagStart_reach here
      exact ⟨Nat.lt_of_lt_of_le reach inside.leads.pos_le,
        fun b member => Nat.lt_of_lt_of_le reach (inside.bodies_between b member).1⟩
  | elementClosed here tag =>
      have reach := tagStart_reach here
      rw [Element.bodies, Child.bodiesAll, List.append_nil]
      exact ⟨Nat.lt_of_lt_of_le reach tag.leads.pos_le,
        fun b member => Nat.lt_of_lt_of_le reach (tag.bodies_between b member).1⟩
  | elementOpen here tag inside =>
      have reach := tagStart_reach here
      rw [Element.bodies]
      refine ⟨Nat.lt_of_lt_of_le reach (tag.leads.trans inside.leads).pos_le,
        List.forall_mem_append.mpr ⟨fun b member => ?_, fun b member => ?_⟩⟩
      · exact Nat.lt_of_lt_of_le reach (tag.bodies_between b member).1
      · exact Nat.lt_of_lt_of_le reach (Nat.le_trans tag.leads.pos_le (inside.bodies_between b member).1)

theorem Reads.value_behind {value : AttributeValue} (reads : Reads d (.value c) (value, after)) :
    ∀ b ∈ value.bodies, c.pos < b.start := by
  intro b member
  cases reads with
  | valueBare | valueStr => exact absurd member List.not_mem_nil
  | valueExpr here inside =>
      exact Nat.lt_of_lt_of_le (valueStart_passes here).pos_lt (inside.bodies_between b member).1
  | valueElement here inside =>
      exact Nat.lt_of_lt_of_le (valueStart_passes here).pos_lt (inside.bodies_between b member).1

/-- Something of the tag is read, and its containers start behind its first character. -/
theorem Reads.attributes_behind (reads : Reads d call r) : ∀ c, call = .attributes c →
    c.Passes (call.after r) ∧ ∀ b ∈ call.bodies r, c.pos < b.start := by
  induction reads with
  | attributesStop here =>
      rintro c ⟨⟩
      exact ⟨tagPart_passes here, fun _ member => absurd member List.not_mem_nil⟩
  | attributesSpread here inside others =>
      rintro c ⟨⟩
      have opens := tagPart_passes here
      refine ⟨opens.trans_leads (inside.leads.trans others.leads), List.forall_mem_cons.mpr ⟨?_, fun b member => ?_⟩⟩
      · exact Nat.lt_of_lt_of_le opens.pos_lt (inside.bodies_between _ (List.mem_singleton_self _)).1
      · exact Nat.lt_of_lt_of_le opens.pos_lt
          (Nat.le_trans inside.leads.pos_le (others.bodies_between b member).1)
  | @attributesName before _ _ _ _ _ _ _ here inside others _ ih =>
      rintro c ⟨⟩
      obtain ⟨rfl, rfl, _⟩ := tagPart_passes here
      obtain ⟨passes, behind⟩ := ih _ rfl
      have named := (before.leads_skipBlank.trans (Cursor.leads_skipWhile _ isAttributeNamePart)).trans
        (Cursor.leads_skipBlank _)
      refine ⟨(named.trans inside.leads).trans_passes passes, List.forall_mem_append.mpr ⟨fun b member => ?_, fun b member => ?_⟩⟩
      · exact Nat.lt_of_le_of_lt named.pos_le (inside.value_behind b member)
      · exact Nat.lt_of_le_of_lt (named.trans inside.leads).pos_le (behind b member)
  | _ =>
      intro c same
      cases same

end

/-! ## Rows that are scanned again -/

/-- Whether a token can be read in front of a text that it starts, where an operand is expected or not: a
regular expression and an element only where one is, a sign of division only where none is, and no
punctuator where an element starts. -/
def Token.Fits (jsx operand : Bool) (text : List Char) (t : Token) : Prop :=
  match t.shape with
  | .regex | .jsx _ => operand = true
  | .punct => (t.text.toList.head? = some '/' → operand = false) ∧ startsElement ⟨jsx, false⟩ operand text = false
  | _ => True

/-- How the tokens of a row are found again in the erased text `out`. -/
inductive Rescanned (spans : List Span) (jsx : Bool) (out : List Char) : Bool → List Token → Prop
  | done {operand : Bool} : Rescanned spans jsx out operand []
  | gone {operand : Bool} {t : Token} {ts : List Token} (gone : t.left spans = [])
      (others : Rescanned spans jsx out operand ts) : Rescanned spans jsx out operand (t :: ts)
  | kept {operand : Bool} {t : Token} {ts : List Token} (kept : Erasure.holds spans t.start = false)
      (clear : ClearBut spans t.start t.stop t.shape.bodies)
      (inside : ∀ b ∈ t.shape.bodies, Rescanned spans jsx out true b.tokens)
      (balanced : ∀ b ∈ t.shape.bodies, Balanced (Token.leftAll spans b.tokens))
      (fits : ∀ t' ∈ t.left spans, t'.Fits jsx operand (dropBytes t'.start out))
      (others : Rescanned spans jsx out (operandBehind operand (t.left spans)) ts) :
      Rescanned spans jsx out operand (t :: ts)
  /-- A punctuator whose first `>` are blanked. -/
  | cut {operand : Bool} {t t' : Token} {ts : List Token} (punct : t.isPunct = true)
      (left : t' ∈ t.left spans) (clear : Clear spans t'.start t'.stop)
      (tail : ∀ c ∈ t'.text.toList, c = '>' ∨ c = '=')
      (found : punctAt (dropBytes t'.start out) = some t'.text)
      (others : Rescanned spans jsx out (operandBehind operand (t.left spans)) ts) :
      Rescanned spans jsx out operand (t :: ts)

/-! ## One token -/

section

variable {d : Dialect} {inBraces operand : Bool} {depth : Nat} {before c after final : Cursor} {shape : Shape}
  {ts : List Token}

/-- White space in front of tokens does not count. -/
theorem Reads.of_skipBlank {r : List Token × Cursor} (reads : Reads d (.tokens inBraces depth operand c) r)
    (same : before.skipBlank = c.skipBlank) : Reads d (.tokens inBraces depth operand before) r := by
  cases reads with
  | tokensEnd here =>
      rw [← same] at here ⊢
      exact .tokensEnd here
  | tokensMore here first others =>
      rw [← same] at here first others ⊢
      exact .tokensMore here first others

/-- What starts with a brace is the brace. -/
theorem Reads.brace (reads : Reads d (.token operand c) (shape, after)) (head : c.rest.head? = some '\x7d') :
    (tokenBetween shape c after).isPunct = true ∧ (tokenBetween shape c after).text = "\x7d" := by
  cases reads with
  | tokenTemplate here =>
      cases here.symm.trans head
  | tokenElement here =>
      cases (head?_of_startsElement here).symm.trans head
  | tokenLeaf _ _ here =>
      obtain ⟨s, split, pos, leaf⟩ := leaf_of_read here
      have text : c.upTo after = String.ofList s := Cursor.upTo_of_append split pos
      obtain ⟨x, t, rfl, _⟩ := leaf.head
      rw [split] at head
      cases head
      change (tokenBetween shape c after).isPunct = true ∧ c.upTo after = "\x7d"
      rw [text]
      cases leaf.isPunct_of_head (by decide)
      refine ⟨rfl, ?_⟩
      have only : ∀ p ∈ punctuators, p.toList.head? = some '\x7d' → p = "\x7d" := by decide
      generalize whole : '\x7d' :: t = s at leaf
      cases leaf with
      | @punct _ p _ found =>
          rw [String.ofList_toList]
          exact only p (punctAt_append_iff.mp found).1 (by rw [← whole]; rfl)

/-- Another token comes first, where the braces of a container are balanced. -/
theorem tokensEnd_of_balanced (first : Reads d (.token operand c) (shape, after))
    (braces : inBraces = true → braceDepth depth (tokenBetween shape c after :: ts) = some 0) :
    tokensEnd inBraces depth c = .ok false := by
  obtain ⟨x, s, ahead⟩ : ∃ x s, c.rest = x :: s :=
    List.exists_cons_of_ne_nil (List.length_pos_iff.mp (Nat.zero_lt_of_lt first.token_passes.2))
  rw [tokensEnd, ahead]
  simp only [Except.ok.injEq]
  rw [← Bool.not_eq_true]
  intro ends
  simp only [Bool.and_eq_true, beq_iff_eq] at ends
  obtain ⟨⟨rfl, rfl⟩, rfl⟩ := ends
  obtain ⟨punct, text⟩ := first.brace (by rw [ahead]; rfl)
  have none := braces rfl
  rw [braceDepth, punct, text] at none
  cases none

theorem Reads.more (same : before.skipBlank = c) (first : Reads d (.token operand c) (shape, after))
    (braces : inBraces = true → braceDepth depth (tokenBetween shape c after :: ts) = some 0)
    (others : Reads d (.tokens inBraces ((tokenBetween shape c after).depthAfter depth)
      ((tokenBetween shape c after).operandAfter operand) after) (ts, final)) :
    Reads d (.tokens inBraces depth operand before) (tokenBetween shape c after :: ts, final) := by
  have here := tokensEnd_of_balanced first braces
  subst same
  exact .tokensMore here first others

theorem Cursor.In.dropBytes_erased {source : List Char} (spans : List Span) (here : c.In source) :
    dropBytes c.pos (Erasure.imageOf spans 0 source) = (c.erased spans).rest := by
  obtain ⟨front, whole, pos⟩ := here.split
  have same := Erasure.byteLength_imageOf spans 0 front
  rw [whole, Erasure.imageOf_append, pos, ← same, dropBytes_byteLength, same, Nat.zero_add, ← pos]
  rfl

/-- The place behind the front of a text that is blanked. -/
theorem Cursor.exists_left (spans : List Span) (leads : c.Leads after) : ∃ here : Cursor,
    c.Leads here ∧ here.Leads after ∧ (c.erased spans).skipBlank = (here.erased spans).skipBlank ∧
    after.pos = here.pos + byteLength (Erasure.leftFrom spans c.pos (c.upTo after).toList) ∧
    (here.upTo after).toList = Erasure.leftFrom spans c.pos (c.upTo after).toList ∧
    (Erasure.leftFrom spans c.pos (c.upTo after).toList ≠ [] → Erasure.holds spans here.pos = false) := by
  obtain ⟨s, split, pos⟩ := leads
  obtain ⟨front, whole, gap, kept⟩ := Erasure.leftFrom_split spans s c.pos
  have text : (c.upTo after).toList = s := Cursor.toList_upTo split pos
  rw [text]
  generalize Erasure.leftFrom spans c.pos s = rest at whole kept ⊢
  subst whole
  rw [byteLength_append, ← Nat.add_assoc] at pos
  rw [List.append_assoc] at split
  refine ⟨⟨c.pos + byteLength front, rest ++ after.rest⟩, ⟨front, split, rfl⟩, ⟨rest, rfl, pos⟩, ?_, pos, ?_, kept⟩
  · have image : (c.erased spans).rest = Erasure.imageOf spans c.pos front ++
        Erasure.imageOf spans (c.pos + byteLength front) (rest ++ after.rest) := by
      rw [erased, split, Erasure.imageOf_append]
    rw [Cursor.skipBlank_of_gap gap image, Erasure.byteLength_imageOf]
    rfl
  · exact Cursor.toList_upTo rfl pos

/-- A token of which nothing is left is white space. -/
theorem skipBlank_erased_of_gone (leads : c.Leads after) (gone : (tokenBetween shape c after).left spans = []) :
    (c.erased spans).skipBlank = (after.erased spans).skipBlank := by
  obtain ⟨here, _, ⟨s, split, pos'⟩, blank, pos, text, _⟩ := Cursor.exists_left spans leads
  have nothing : Erasure.leftFrom spans c.pos (c.upTo after).toList = [] := Token.left_eq_nil_iff.mp gone
  rw [nothing] at pos text
  rw [Cursor.toList_upTo split pos'] at text
  subst text
  have same : here = after := by
    obtain ⟨_, _⟩ := here
    obtain ⟨_, _⟩ := after
    exact congrArg₂ Cursor.mk pos.symm split
  rw [blank, same]

/-- Where what is left of a token stands in the erased text. -/
theorem exists_left_tokenBetween {t' : Token} (leads : c.Leads after)
    (left : t' ∈ (tokenBetween shape c after).left spans) : ∃ here : Cursor, c.Leads here ∧ here.Passes after ∧
      (c.erased spans).skipBlank = (here.erased spans).skipBlank ∧
      t' = tokenBetween (shape.left spans) (here.erased spans) (after.erased spans) := by
  obtain ⟨here, toHere, behind, blank, pos, text, _⟩ := Cursor.exists_left spans leads
  obtain ⟨rest, some, same, rfl⟩ := Token.mem_left.mp left
  change Erasure.leftFrom spans c.pos (c.upTo after).toList = rest at same
  rw [same] at pos text
  have moved : after.pos ≠ here.pos := by
    have positive := Cursor.byteLength_pos some
    omega
  have begins : after.pos - byteLength rest = here.pos := by rw [pos, Nat.add_sub_cancel]
  refine ⟨here, toHere, behind.passes_of_ne moved, blank, ?_⟩
  change Token.mk _ (after.pos - byteLength rest) after.pos
    (String.ofList (Erasure.imageOf spans (after.pos - byteLength rest) rest)) = tokenBetween _ _ _
  have upTo : (here.erased spans).upTo (after.erased spans) =
      String.ofList (Erasure.imageOf spans here.pos rest) := by
    rw [Cursor.upTo_erased behind, text]
  rw [begins, ← upTo]
  rfl

/-- Of a punctuator whose front is blanked what is left is read. -/
theorem Reads.cut {source : List Char} {jsx : Bool} {t' : Token} (start : c.In source) (leads : c.Leads after)
    (left : t' ∈ (tokenBetween .punct c after).left spans) (clear : Clear spans t'.start t'.stop)
    (tail : ∀ x ∈ t'.text.toList, x = '>' ∨ x = '=')
    (found : punctAt (dropBytes t'.start (Erasure.imageOf spans 0 source)) = some t'.text) (operand : Bool) :
    ∃ here : Cursor, (c.erased spans).skipBlank = here ∧ t' = tokenBetween .punct here (after.erased spans) ∧
      Reads ⟨jsx, false⟩ (.token operand here) (.punct, after.erased spans) := by
  obtain ⟨here, toHere, passes, blank, rfl⟩ := exists_left_tokenBetween leads left
  change Clear spans here.pos after.pos at clear
  change ∀ x ∈ ((here.erased spans).upTo (after.erased spans)).toList, _ at tail
  change punctAt (dropBytes here.pos _) = some ((here.erased spans).upTo (after.erased spans)) at found
  rw [(start.leads toHere).dropBytes_erased] at found
  obtain ⟨s, split, pos, image⟩ := Cursor.erased_of_clear passes.leads clear
  have text : (here.erased spans).upTo (after.erased spans) = String.ofList s := by
    rw [Cursor.upTo_erased_of_clear passes.leads clear, Cursor.upTo_of_append split pos]
  rw [text] at found tail
  rw [image] at found
  rw [String.toList_ofList] at tail
  have leaf : Leaf operand .punct (String.ofList s).toList (after.erased spans).rest := by
    have other {x : Char} (head : (String.ofList s).toList.head? = some x) : x = '>' ∨ x = '=' := by
      rw [String.toList_ofList] at head
      exact tail x (List.mem_of_head? head)
    refine .punct (by rwa [String.toList_ofList]) (fun slash => ?_) (fun slash => ?_) (fun point => ?_)
    · exact absurd (other slash) (by decide)
    · exact absurd (other (congrArg (·.toList.head?) slash)) (by decide)
    · exact absurd (other (congrArg (·.toList.head?) point)) (by decide)
  rw [String.toList_ofList] at leaf
  obtain ⟨x, t, rfl, ink, noTemplate⟩ := leaf.head
  have ahead : (here.erased spans).rest = x :: (t ++ (after.erased spans).rest) := by rw [image]; rfl
  refine ⟨here.erased spans, blank.trans (Cursor.skipWhile_of_stop ahead ink), rfl, .tokenLeaf ?_ ?_ ?_⟩
  · rw [ahead]
    simpa using noTemplate
  · rw [← Bool.not_eq_true]
    intro starts
    have bracket := head?_of_startsElement starts
    rw [ahead] at bracket
    cases bracket
    exact absurd (tail '<' (List.mem_cons_self ..)) (by decide)
  · have read := leaf.read here.pos
    rw [← pos] at read
    rw [image]
    exact read

/-- A leaf of which nothing is blanked is read again. -/
theorem Reads.leaf_erased {operand' jsx : Bool} (here : lexLeaf operand c = .ok (shape, after))
    (clear : Clear spans c.pos after.pos)
    (fits : (tokenBetween shape (c.erased spans) (after.erased spans)).Fits jsx operand' (c.erased spans).rest) :
    Reads ⟨jsx, false⟩ (.token operand' (c.erased spans)) (shape, after.erased spans) := by
  have leads := (lexLeaf_passes here).leads
  obtain ⟨s, split, pos, leaf⟩ := leaf_of_read here
  obtain ⟨s', split', _, image⟩ := Cursor.erased_of_clear leads clear
  cases List.append_cancel_right (split.symm.trans split')
  have text : ((c.erased spans).upTo (after.erased spans)).toList = s := by
    rw [Cursor.upTo_erased_of_clear leads clear, Cursor.toList_upTo split pos]
  have again : Leaf operand' shape s (after.erased spans).rest := by
    refine (leaf.alike (Erasure.alike_imageOf spans after.pos after.rest)
      fun _ ends => Erasure.endsLine_imageOf ends _).expecting ?_ ?_
    · rintro rfl
      exact fits
    · rintro rfl slash
      refine fits.1 ?_
      change ((c.erased spans).upTo (after.erased spans)).toList.head? = some '/'
      rwa [text]
  obtain ⟨x, t, rfl, ink, noTemplate⟩ := again.head
  have ahead : (c.erased spans).rest = x :: (t ++ (after.erased spans).rest) := by rw [image]; rfl
  refine .tokenLeaf ?_ ?_ ?_
  · rw [ahead]
    simpa using noTemplate
  · rw [← Bool.not_eq_true]
    intro starts
    have bracket := head?_of_startsElement starts
    rw [ahead] at bracket
    cases bracket
    cases again.isPunct_of_head (by decide)
    rw [fits.2] at starts
    cases starts
  · have read := again.read c.pos
    rw [← pos] at read
    rw [image]
    exact read

end

/-! ## Braces and comments -/

theorem braceDepth_tail {t : Token} {ts : List Token} {depth n : Nat} (braces : braceDepth depth (t :: ts) = some n) :
    braceDepth (t.depthAfter depth) ts = some n := by
  rw [braceDepth] at braces
  split at braces
  · cases braces
  · exact braces

theorem braceDepth_comments {ts : List Token} (comments : ∀ t ∈ ts, t.isComment = true) (depth : Nat) :
    braceDepth depth ts = some depth := by
  induction ts with
  | nil => rfl
  | cons t ts ih =>
      obtain ⟨comment, others⟩ := List.forall_mem_cons.mp comments
      have noPunct : t.isPunct = false := by
        rw [Token.isComment] at comment
        rw [Token.isPunct]
        split at comment
        case h_1 same => rw [same]
        case h_2 => cases comment
      rw [braceDepth, noPunct, if_neg (by simp), Token.depthAfter, noPunct, if_neg (by simp), ih others]

theorem operandBehind_comments {ts : List Token} (comments : ∀ t ∈ ts, t.isComment = true) (operand : Bool) :
    operandBehind operand ts = operand := by
  induction ts with
  | nil => rfl
  | cons t ts ih =>
      obtain ⟨comment, others⟩ := List.forall_mem_cons.mp comments
      change operandBehind (t.operandAfter operand) ts = operand
      rw [Token.operandAfter, if_pos comment, ih others]

/-- Comments of which nothing is blanked are read again. -/
theorem Rescanned.of_comments {spans : List Span} {jsx operand : Bool} {out : List Char} {low high : Nat}
    {ts : List Token} (spanned : Spanned low high ts) (comments : ∀ t ∈ ts, t.isComment = true)
    (clear : Clear spans low high) : Rescanned spans jsx out operand ts := by
  induction ts generalizing low with
  | nil => exact .done
  | cons t ts ih =>
      obtain ⟨comment, others⟩ := List.forall_mem_cons.mp comments
      obtain ⟨begins, grows, ends⟩ := spanned.span_within (.here (List.mem_cons_self ..))
      have shape : t.shape = .comment := by
        rw [Token.isComment] at comment
        split at comment
        case h_1 same => exact same
        case h_2 => cases comment
      have noBodies : t.shape.bodies = [] := by rw [shape]; rfl
      have left (t' : Token) (left : t' ∈ t.left spans) : t'.shape = .comment := by
        rw [Token.shape_of_mem_left left, shape]
        rfl
      have goesOn : operandBehind operand (t.left spans) = operand :=
        operandBehind_comments (fun t' left => by rw [Token.isComment_of_mem_left left, comment]) operand
      refine .kept (clear _ begins (by omega)) ?_ ?_ ?_ ?_ ?_
      · rw [noBodies]
        exact fun n behind before _ => clear n (by omega) (by omega)
      · rw [noBodies]
        exact fun _ member => absurd member List.not_mem_nil
      · rw [noBodies]
        exact fun _ member => absurd member List.not_mem_nil
      · intro t' member
        rw [Token.Fits, left t' member]
        trivial
      · rw [goesOn]
        exact ih spanned.tail others (clear.mono (by omega) (Nat.le_refl _))

end JsxPreview.Source
