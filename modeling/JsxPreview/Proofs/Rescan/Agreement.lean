import JsxPreview.Proofs.Rescan.Alignment
import JsxPreview.Proofs.Rescan.Rereads

/-! # The two scans agree

When the second scan of an erased text finds exactly what is left of the tokens of the first one
(`Rescannable`): what is blanked in a container ends there and leaves its braces balanced, each `/` and `<`
stands where an operand is expected, or is not, as before, and what is left of a token cut in two is the
longest punctuator there.  This suffices (`Rescannable.tokenize`), and it is necessary
(`rescannable_of_tokenize`). -/
set_option autoImplicit false
namespace JsxPreview.Source

open JsxPreview.Text

variable {spans : List Span} {length : Nat} {t t' : Token} {pre post ts us : List Token}

/-! ## Tokens and what is blanked of them -/

/-- How a token lies in a source of `length` bytes of which some stretches are blanked. -/
structure Token.Lies (spans : List Span) (length : Nat) (t : Token) : Prop where
  aligned : ∀ s ∈ spans, t.Aligned length s
  grows : t.start < t.stop
  last : t.stop ≤ length
  width : t.start + byteLength t.text.toList = t.stop
  bodies : ∀ b ∈ t.shape.bodies, t.start < b.start ∧ b.stop < t.stop
  known : t.isPunct = true → t.text ∈ punctuators

theorem Token.isComment_of_isPunct (punct : t.isPunct = true) : t.isComment = false := by
  obtain ⟨shape, _, _, _⟩ := t
  cases shape <;> first | rfl | cases punct

theorem Token.shape_of_isPunct (punct : t.isPunct = true) : t.shape = .punct := by
  obtain ⟨shape, _, _, _⟩ := t
  cases shape <;> first | rfl | cases punct

/-- A punctuator is the longest one at its place. -/
theorem Reads.punctAt {d : Dialect} {operand : Bool} {here after : Cursor} {shape : Shape}
    (reads : Reads d (.token operand here) (shape, after)) (punct : (tokenBetween shape here after).isPunct = true) :
    Source.punctAt here.rest = some (tokenBetween shape here after).text := by
  cases Token.shape_of_isPunct punct
  cases reads with
  | tokenLeaf _ _ read =>
      obtain ⟨s, split, pos, leaf⟩ := leaf_of_read read
      change _ = some (here.upTo after)
      rw [Cursor.upTo_of_append split pos, split]
      cases leaf with
      | punct found => rw [found, String.ofList_toList]

theorem tokenize_known {d : Dialect} {source : String} (success : tokenize d source = .ok ts) (within : t.Within ts)
    (punct : t.isPunct = true) : t.text ∈ punctuators := by
  obtain ⟨pre, post, nested⟩ := within.exists_row
  obtain ⟨here, after, _, same, reads⟩ := tokenize_token success nested (Token.isComment_of_isPunct punct)
  rw [same] at punct ⊢
  exact List.mem_of_find?_eq_some (reads.punctAt punct)

/-- The tokens among which a token stands tile a part of the source. -/
theorem Tiles.among {source : List Char} {low high : Nat} (tiles : Tiles source low high ts) (within : t.Within ts) :
    ∃ low' high' us, t ∈ us ∧ Tiles source low' high' us := by
  induction within generalizing low high with
  | here member => exact ⟨low, high, _, member, tiles⟩
  | inside member container _ ih =>
      obtain ⟨_, _, _, _, _, inside⟩ := tiles
      exact ih (inside _ member _ container)

/-- All tokens of a text that is erased lie so. -/
theorem Erasure.lies {d : Dialect} {source : String} {e : Erasure} (scanned : tokenize d source = .ok ts)
    (walked : erasureOf source.toList ts = .ok e) (within : t.Within ts) :
    t.Lies e.blanks (byteLength source.toList) := by
  obtain ⟨_, grows, last⟩ := (tokenize_spanned scanned).span_within within
  have tiles := tokenize_tiles scanned
  obtain ⟨_, _, _, _, width⟩ := tiles.stretch_within within
  obtain ⟨_, _, us, member, _, _, bodies, _, _, _⟩ := tiles.among within
  exact ⟨fun s among => aligned scanned walked s among t within, grows, last, width, bodies t member,
    tokenize_known scanned within⟩

namespace Token.Lies

variable (lies : t.Lies spans length)

include lies

/-- A token of which front and end are left is left but for its containers. -/
theorem clear (kept : Erasure.holds spans t.start = false) (ends : Erasure.holds spans (t.stop - 1) = false) :
    ClearBut spans t.start t.stop t.shape.bodies := by
  intro n begins before outside
  rw [← Bool.not_eq_true, Erasure.holds_iff] at kept ends ⊢
  rintro ⟨s, member, first, last⟩
  have grows := lies.grows
  have whole := lies.last
  cases lies.aligned s member with
  | before => omega
  | behind => omega
  | whole => exact kept ⟨s, member, by omega, by omega⟩
  | front => exact kept ⟨s, member, by omega, by omega⟩
  | @inside b container =>
      have := lies.bodies b container
      have := outside b container
      exact ends ⟨s, member, by omega, by omega⟩

/-- In a token without containers nothing is blanked behind a byte that is left. -/
theorem backwards (leaf : t.shape.bodies = []) {n m : Nat} (begins : t.start ≤ n) (before : n ≤ m)
    (ends : m < t.stop) (kept : Erasure.holds spans n = false) : Erasure.holds spans m = false := by
  rw [← Bool.not_eq_true, Erasure.holds_iff] at kept ⊢
  rintro ⟨s, member, first, last⟩
  refine kept ⟨s, member, ?_⟩
  cases lies.aligned s member with
  | before | behind | whole | front => omega
  | inside container =>
      rw [leaf] at container
      exact absurd container List.not_mem_nil

/-- A token whose front is blanked is blanked as a whole, or is a punctuator that starts with `>`. -/
theorem gone_or_punct (held : Erasure.holds spans t.start = true) :
    (∀ n, t.start ≤ n → n < t.stop → Erasure.holds spans n = true) ∨ t.isPunct = true ∧ 0 < t.closers := by
  obtain ⟨s, member, first, last⟩ := (Erasure.holds_iff ..).mp held
  have grows := lies.grows
  cases lies.aligned s member with
  | before | behind => omega
  | whole => exact .inl fun n begins before => (Erasure.holds_iff ..).mpr ⟨s, member, by omega, by omega⟩
  | front punct _ _ closers => exact .inr ⟨punct, by omega⟩
  | inside container =>
      have := lies.bodies _ container
      omega

/-- What is left of a token whose front is left starts where it does. -/
theorem start_left (kept : Erasure.holds spans t.start = false) : ∃ t' ∈ t.left spans, t'.start = t.start := by
  have grows := lies.grows
  have width := lies.width
  have some : t.text.toList ≠ [] := by
    intro nothing
    rw [nothing, byteLength_nil] at width
    omega
  exact ⟨_, Token.mem_left.mpr ⟨_, some, Erasure.leftFrom_of_kept kept, rfl⟩, by simp only; omega⟩

theorem held_of_start_ne (left : t' ∈ t.left spans) (cut : t'.start ≠ t.start) :
    Erasure.holds spans t.start = true := by
  rw [← Bool.not_eq_false]
  intro kept
  obtain ⟨u, left', same⟩ := lies.start_left kept
  rw [Token.left_of_mem left'] at left
  rw [List.mem_singleton.mp left] at cut
  exact cut same

/-- What is left of a token whose front is blanked is the end of a punctuator. -/
theorem cut (held : Erasure.holds spans t.start = true) (left : t' ∈ t.left spans) :
    t.isPunct = true ∧ Clear spans t'.start t'.stop ∧ ∀ c ∈ t'.text.toList, c = '>' ∨ c = '=' := by
  obtain ⟨rest, some, same, rfl⟩ := Token.mem_left.mp left
  have width := lies.width
  rcases lies.gone_or_punct held with gone | ⟨punct, closers⟩
  · rw [Erasure.leftFrom_of_gone fun n begins before => gone n begins (by omega)] at same
    exact absurd same.symm some
  · obtain ⟨front, split, _, kept⟩ := Erasure.leftFrom_split spans t.text.toList t.start
    rw [same] at split kept
    have kept := kept some
    rw [split, byteLength_append] at width
    have positive := Cursor.byteLength_pos some
    have clear : Clear spans (t.stop - byteLength rest) t.stop := fun n begins before =>
      lies.backwards (Token.bodies_of_isPunct punct) (by omega) (by omega) before kept
    refine ⟨punct, clear, fun c member => ?_⟩
    have table : punctuators.all (fun p => !decide (0 < (p.toList.takeWhile (· == '>')).length) ||
        p.toList.all (fun c => c == '>' || c == '=')) = true := by
      decide
    change c ∈ (String.ofList (Erasure.imageOf _ _ rest)).toList at member
    rw [String.toList_ofList, Erasure.imageOf_outside fun n begins before => clear n begins (by omega)] at member
    have some : 0 < (t.text.toList.takeWhile (· == '>')).length := closers
    have listed := List.all_eq_true.mp table t.text (lies.known punct)
    rw [decide_eq_true some, Bool.not_true, Bool.false_or, List.all_eq_true] at listed
    simpa using listed c (split ▸ List.mem_append_right _ member)

end Token.Lies

/-- What is inside of a token that is blanked as a whole is blanked. -/
theorem Token.goneInside_of_lies (spanned : Spanned 0 length ts) (lies : ∀ t : Token, t.Within ts → t.Lies spans length) :
    Token.GoneInside spans ts := by
  intro t within gone b container u inside
  have held : Erasure.holds spans t.start = true := by
    rw [← Bool.not_eq_false]
    intro kept
    obtain ⟨t', left, _⟩ := (lies t within).start_left kept
    rw [gone] at left
    exact absurd left List.not_mem_nil
  have whole := ((lies t within).gone_or_punct held).resolve_right fun ⟨punct, _⟩ => by
    rw [Token.bodies_of_isPunct punct] at container
    exact absurd container List.not_mem_nil
  obtain ⟨starts, stops⟩ := spanned.within_inside within container inside
  have width := (lies u (within.deeper container inside)).width
  exact Token.left_eq_nil_iff.mpr (Erasure.leftFrom_of_gone fun n begins before => whole n (by omega) (by omega))

/-! ## The conditions -/

/-- When the second scan of an erased text `out` finds what is left of the tokens of the first one. -/
structure Rescannable (spans : List Span) (jsx : Bool) (out : List Char) (ts : List Token) : Prop where
  /-- A token that is left from its front on is left to its end: nothing that is blanked inside of it reaches
  behind it. -/
  contained : ∀ t : Token, t.Within ts → Erasure.holds spans t.start = false →
    Erasure.holds spans (t.stop - 1) = false
  /-- The braces that are left in its containers are balanced. -/
  balanced : ∀ t : Token, t.Within ts → Erasure.holds spans t.start = false →
    ∀ b ∈ t.shape.bodies, Balanced (Token.leftAll spans b.tokens)
  /-- Behind what is left in front of it in its row, an operand is expected where what is left of a token
  needs it. -/
  expected : ∀ (pre : List Token) (t : Token) (post : List Token), Nested (pre ++ t :: post) ts →
    ∀ t' ∈ t.left spans, t'.Fits jsx (operandBehind true (Token.leftAll spans pre)) (dropBytes t'.start out)
  /-- What is left of a token that is cut is the longest punctuator there. -/
  apart : ∀ t : Token, t.Within ts → ∀ t' ∈ t.left spans, t'.start ≠ t.start →
    punctAt (dropBytes t'.start out) = some t'.text

/-- Rows of which all is found again. -/
theorem Rescannable.rescanned {jsx : Bool} {out : List Char} (rescannable : Rescannable spans jsx out ts)
    (lies : ∀ t : Token, t.Within ts → t.Lies spans length) (us : List Token) : Nested us ts →
    ∀ pre post, us = pre ++ post → Rescanned spans jsx out (operandBehind true (Token.leftAll spans pre)) post := by
  induction us using nested_induction with
  | step us ih =>
      intro nested pre post same
      induction post generalizing pre with
      | nil => exact .done
      | cons t post ihs =>
          subst same
          have member : t ∈ pre ++ t :: post := List.mem_append_right _ (List.mem_cons_self ..)
          have within : t.Within ts := nested.within member
          have others := ihs (pre ++ [t]) (List.append_cons pre t post)
          rw [Token.leftAll_append, operandBehind_append, Token.leftAll, Token.leftAll, List.append_nil] at others
          cases held : Erasure.holds spans t.start with
          | false =>
              refine .kept held ((lies t within).clear held (rescannable.contained t within held)) ?_
                (rescannable.balanced t within held) (rescannable.expected pre t post nested) others
              intro b container
              exact ih t member b container (nested.deeper member container) [] b.tokens rfl
          | true =>
              cases left : t.left spans with
              | nil =>
                  rw [left] at others
                  exact .gone left others
              | cons t' rest =>
                  have left' : t' ∈ t.left spans := left ▸ List.mem_cons_self ..
                  obtain ⟨punct, clear, tail⟩ := (lies t within).cut held left'
                  have moved : t'.start ≠ t.start := by
                    intro same
                    have grows : t'.start < t'.stop := by
                      rw [Token.stop_of_mem_left left', same]
                      exact (lies t within).grows
                    rw [← same] at held
                    exact Bool.false_ne_true ((clear _ (Nat.le_refl _) grows).symm.trans held)
                  exact .cut punct left' clear tail (rescannable.apart t within t' left' moved) others

/-! ## The conditions suffice -/

theorem isComment_of_mem_firstLine {source : String} (member : t ∈ (firstLine source).1) : t.isComment = true := by
  unfold firstLine at member
  simp only at member
  split at member
  · rw [List.mem_singleton.mp member]
    rfl
  · exact absurd member List.not_mem_nil

/-- Nothing is blanked of a first line that is a comment. -/
theorem Erasure.clear_firstLine {d : Dialect} {source : String} {e : Erasure}
    (scanned : tokenize d source = .ok ts) (walked : erasureOf source.toList ts = .ok e) :
    Clear e.blanks 0 (firstLine source).2.pos := by
  obtain ⟨tokens, final, rfl, reads⟩ := tokenize_cases scanned
  have behind (v : Token) (within : v.Within ((firstLine source).1 ++ tokens)) (ink : v.isComment = false) :
      (firstLine source).2.pos ≤ v.start := by
    refine (reads.spans.span_within (?_ : v.Within tokens)).1
    cases within with
    | here member =>
        refine .here ((List.mem_append.mp member).resolve_left fun first => ?_)
        exact Bool.false_ne_true (ink.symm.trans (isComment_of_mem_firstLine first))
    | inside member container within =>
        refine .inside ((List.mem_append.mp member).resolve_left fun first => ?_) container within
        rw [Token.bodies_of_isComment (isComment_of_mem_firstLine first)] at container
        exact absurd container List.not_mem_nil
  have last : (firstLine source).2.pos ≤ byteLength source.toList := Cursor.In.pos_le (leads_firstLine source)
  intro n _ before
  rw [← Bool.not_eq_true, holds_iff]
  rintro ⟨s, member, first, _⟩
  rcases begins walked s member with ⟨v, within, ink, begins⟩ | nothing
  · have := behind v within ink
    omega
  · omega

/-- The mark of an interpreter stands in front of an erased text when it does in front of its source. -/
theorem interpreter_erased {source : List Char}
    (clear : "#!".toList.isPrefixOf source = true → Clear spans 0 2) :
    "#!".toList.isPrefixOf (Erasure.imageOf spans 0 source) = "#!".toList.isPrefixOf source := by
  rw [Bool.eq_iff_iff]
  constructor
  · intro mark
    have plain : "#!".toList.all (fun c => !isParting c) = true := by decide
    exact List.isPrefixOf_iff_prefix.mpr ((Erasure.alike_imageOf spans 0 source).prefixed
      (List.isPrefixOf_iff_prefix.mp mark) fun c member => by
        simpa using List.all_eq_true.mp plain c member)
  · intro mark
    obtain ⟨rest, rfl⟩ := List.isPrefixOf_iff_prefix.mp mark
    rw [Erasure.imageOf_append, Erasure.imageOf_outside (s := "#!".toList) (clear mark)]
    exact List.isPrefixOf_iff_prefix.mpr (List.prefix_append _ _)

/-- The end of a line is the same in the erased text. -/
theorem Cursor.line_erased {c : Cursor} (clear : Clear spans c.pos (c.skipWhile (· != '\n')).pos) :
    (c.erased spans).skipWhile (· != '\n') = (c.skipWhile (· != '\n')).erased spans := by
  refine skipWhile_erased clear fun x head => ?_
  obtain ⟨_, _, _, _, stop⟩ := c.skipWhile_split (· != '\n')
  generalize c.skipWhile (· != '\n') = after at head stop
  cases ahead : after.rest with
  | nil =>
      rw [erased, ahead] at head
      cases head
  | cons y rest =>
      have feed : y = '\n' := by simpa using stop y (by rw [ahead]; rfl)
      subst feed
      rw [erased, ahead, Erasure.imageOf, Erasure.image, show Erasure.endsLine '\n' = true from rfl, Bool.not_true,
        Bool.and_false, if_neg Bool.false_ne_true] at head
      cases head
      rfl

/-- The first line of an erased text is what is left of that of its source. -/
theorem firstLine_erased {source : String} (clear : Clear spans 0 (firstLine source).2.pos) :
    firstLine (String.ofList (Erasure.imageOf spans 0 source.toList)) =
      (Token.leftAll spans (firstLine source).1, (firstLine source).2.erased spans) := by
  have start : (⟨0, Erasure.imageOf spans 0 source.toList⟩ : Cursor) = Cursor.erased spans ⟨0, source.toList⟩ := rfl
  unfold firstLine at clear ⊢
  simp only [String.toList_ofList, start] at clear ⊢
  split at clear
  case isFalse noMark =>
    rw [interpreter_erased fun mark => absurd mark noMark, if_neg noMark, if_neg noMark]
    rfl
  case isTrue mark =>
    have begins : 2 ≤ ((⟨0, source.toList⟩ : Cursor).skipWhile (· != '\n')).pos := by
      obtain ⟨rest, whole⟩ := List.isPrefixOf_iff_prefix.mp mark
      rw [← whole, Cursor.skipWhile, Cursor.past, Cursor.skip]
      change 2 ≤ 0 + byteLength (List.take (('#' :: '!' :: rest).takeWhile _).length ('#' :: '!' :: rest))
      rw [List.takeWhile_cons_of_pos (by decide), List.takeWhile_cons_of_pos (by decide)]
      change 2 ≤ 0 + (1 + (1 + byteLength _))
      omega
    rw [interpreter_erased fun _ => clear.mono (Nat.le_refl _) begins, if_pos mark, if_pos mark]
    have passes := (Cursor.leads_skipWhile ⟨0, source.toList⟩ (· != '\n')).passes_of_ne
      (Nat.ne_of_gt (Nat.lt_of_lt_of_le Nat.two_pos begins))
    have kept := clear 0 (Nat.le_refl 0) passes.pos_lt
    rw [Cursor.line_erased clear]
    generalize Cursor.skipWhile ⟨0, source.toList⟩ (· != '\n') = after at passes
    refine Prod.ext ?_ rfl
    have left : (tokenBetween .comment ⟨0, source.toList⟩ after).left spans = _ := left_tokenBetween passes kept
    rw [tokenBetween] at left
    rw [Token.leftAll, Token.leftAll, left]
    rfl

/-- Under the conditions the second scan finds what is left of the tokens of the first one. -/
theorem Rescannable.tokenize {jsx : Bool} {source : String} {e : Erasure}
    (scanned : Source.tokenize ⟨jsx, true⟩ source = .ok ts) (walked : erasureOf source.toList ts = .ok e)
    (rescannable : Rescannable e.blanks jsx (Erasure.imageOf e.blanks 0 source.toList) ts) :
    Source.tokenize ⟨jsx, false⟩ (String.ofList (Erasure.imageOf e.blanks 0 source.toList)) =
      .ok (Token.leftAll e.blanks ts) := by
  have rows := rescannable.rescanned (fun t within => Erasure.lies scanned walked within) ts .here
  have first := firstLine_erased (Erasure.clear_firstLine scanned walked)
  obtain ⟨tokens, final, rfl, reads⟩ := tokenize_cases scanned
  have rescanned := rows _ _ rfl
  have comments (t' : Token) (member : t' ∈ Token.leftAll e.blanks (firstLine source).1) : t'.isComment = true := by
    obtain ⟨t, among, left⟩ := Token.mem_leftAll.mp member
    rw [Token.isComment_of_mem_left left, isComment_of_mem_firstLine among]
  rw [operandBehind_comments comments] at rescanned
  have again : Reads ⟨jsx, false⟩ (.ofSource (String.ofList (Erasure.imageOf e.blanks 0 source.toList)))
      (Token.leftAll e.blanks tokens, final.erased e.blanks) := by
    change Reads _ (.tokens false 0 true (firstLine _).2) _
    rw [first]
    exact reads.rereads (leads_firstLine source) true 0 rescanned fun within => by cases within
  rw [tokenize_of_reads again, first, Token.leftAll_append]

/-! ## The conditions are necessary -/

/-- A token stands where an operand is expected if it needs one. -/
theorem Reads.fits {jsx operand : Bool} {here after : Cursor} {shape : Shape}
    (reads : Reads ⟨jsx, false⟩ (.token operand here) (shape, after)) :
    (tokenBetween shape here after).Fits jsx operand here.rest := by
  cases reads with
  | tokenTemplate => trivial
  | tokenElement starts =>
      change operand = true
      unfold startsElement at starts
      split at starts
      · simp only [Bool.and_eq_true] at starts
        exact starts.1.2
      · cases starts
  | tokenLeaf _ noElement read =>
      obtain ⟨s, split, pos, leaf⟩ := leaf_of_read read
      cases leaf with
      | lineComment | blockComment | str | number | word => trivial
      | regex => rfl
      | punct _ divides =>
          refine ⟨fun slash => divides ?_, by simpa using noElement⟩
          change (here.upTo after).toList.head? = _ at slash
          rwa [Cursor.toList_upTo split pos] at slash

section

variable {jsx : Bool} {source : String} {e : Erasure}

/-- What is left of a token that is no comment has its place in what is left of the text. -/
theorem nested_left (scanned : tokenize ⟨jsx, true⟩ source = .ok ts) (walked : erasureOf source.toList ts = .ok e)
    (nested : Nested (pre ++ t :: post) ts) (left : t' ∈ t.left e.blanks) (ink : t.isComment = false) :
    Nested (Token.leftAll e.blanks pre ++ t' :: Token.leftAll e.blanks post) (Token.leftAll e.blanks ts) := by
  have inside := Token.goneInside_of_lies (tokenize_spanned scanned) fun t within => Erasure.lies scanned walked within
  have row : Token.leftAll e.blanks (pre ++ t :: post) =
      Token.leftAll e.blanks pre ++ t' :: Token.leftAll e.blanks post := by
    rw [Token.leftAll_append, Token.leftAll, Token.left_of_mem left]
    rfl
  rw [← row]
  refine nested.left inside (List.any_eq_true.mpr ⟨t', ?_, ?_⟩)
  · rw [row]
    exact List.mem_append_right _ (List.mem_cons_self ..)
  · rw [Token.isComment_of_mem_left left, ink]
    rfl

/-- Where the second scan finds what is left of the tokens of the first one, it reads each of them that is no
comment. -/
theorem exists_read_left (scanned : tokenize ⟨jsx, true⟩ source = .ok ts) (walked : erasureOf source.toList ts = .ok e)
    (again : tokenize ⟨jsx, false⟩ (String.ofList (Erasure.imageOf e.blanks 0 source.toList)) =
      .ok (Token.leftAll e.blanks ts)) (nested : Nested (pre ++ t :: post) ts) (left : t' ∈ t.left e.blanks)
    (ink : t.isComment = false) : ∃ here after : Cursor,
      here.In (Erasure.imageOf e.blanks 0 source.toList) ∧ t' = tokenBetween t'.shape here after ∧
      Reads ⟨jsx, false⟩ (.token (operandBehind true (Token.leftAll e.blanks pre)) here) (t'.shape, after) := by
  obtain ⟨here, after, start, same, reads⟩ := tokenize_token again (nested_left scanned walked nested left ink)
    (by rw [Token.isComment_of_mem_left left, ink])
  rw [String.toList_ofList] at start
  exact ⟨here, after, start, same, reads⟩

/-- Where the second scan finds what is left of the tokens of the first one, the conditions hold. -/
theorem rescannable_of_tokenize (scanned : tokenize ⟨jsx, true⟩ source = .ok ts)
    (walked : erasureOf source.toList ts = .ok e)
    (again : tokenize ⟨jsx, false⟩ (String.ofList (Erasure.imageOf e.blanks 0 source.toList)) =
      .ok (Token.leftAll e.blanks ts)) :
    Rescannable e.blanks jsx (Erasure.imageOf e.blanks 0 source.toList) ts where
  contained t within kept := by
    have lies := Erasure.lies scanned walked within
    have grows := lies.grows
    by_cases empty : t.shape.bodies = []
    · exact lies.backwards empty (Nat.le_refl _) (by omega) (by omega) kept
    · -- a token with containers ends with a mark of its own, which is left
      have nest : t.shape.isLeaf = false := by
        rw [← Bool.not_eq_true]
        exact fun leaf => empty (containers_leaf leaf).1
      have ink : t.isComment = false := by
        rw [← Bool.not_eq_true]
        exact fun comment => empty (Token.bodies_of_isComment comment)
      obtain ⟨t', left, _⟩ := lies.start_left kept
      obtain ⟨pre, post, nested⟩ := within.exists_row
      obtain ⟨here, after, start, same, reads⟩ := exists_read_left scanned walked again nested left ink
      obtain ⟨front, whole, begins⟩ := start.split
      have closes : t'.shape.isLeaf = false → here.ClosesAt after := reads.closesAt
      rw [Token.shape_of_mem_left left, Shape.isLeaf_left] at closes
      obtain ⟨s, x, mark, split, ends⟩ := closes nest
      rw [split, ← List.append_assoc] at whole
      obtain ⟨_, _, _, _, kept⟩ := Erasure.imageOf_kept (by rcases mark with rfl | rfl <;> decide) whole
      have stop : t.stop = after.pos := by
        rw [← Token.stop_of_mem_left left, same]
        rfl
      rw [byteLength_append] at kept
      rw [stop, ends, begins, Nat.add_sub_cancel]
      exact kept
  balanced t within kept b container := by
    rcases Shape.container_left e.blanks container with container' | comments
    · have ink : t.isComment = false := by
        rw [← Bool.not_eq_true]
        intro comment
        rw [Token.bodies_of_isComment comment] at container
        exact absurd container List.not_mem_nil
      obtain ⟨t', left, _⟩ := (Erasure.lies scanned walked within).start_left kept
      obtain ⟨pre, post, nested⟩ := within.exists_row
      have within' := (nested_left scanned walked nested left ink).within
        (List.mem_append_right _ (List.mem_cons_self ..))
      obtain ⟨_, _, us, member, _, _, _, balanced, _, _⟩ := (tokenize_tiles again).among within'
      rw [← Token.shape_of_mem_left left] at container'
      have balanced := balanced t' member _ container'
      cases b
      exact balanced
    · exact braceDepth_comments (by simpa using comments) 0
  expected pre t post nested t' left := by
    cases ink : t.isComment with
    | true =>
        have comment : t'.shape = .comment := by
          rw [Token.shape_of_mem_left left]
          obtain ⟨shape, _, _, _⟩ := t
          cases shape <;> first | rfl | cases ink
        rw [Token.Fits, comment]
        trivial
    | false =>
        obtain ⟨here, after, start, same, reads⟩ := exists_read_left scanned walked again nested left ink
        have fits := reads.fits
        rw [← same] at fits
        have place : t'.start = here.pos := by rw [same]; rfl
        rwa [place, start.dropBytes_pos]
  apart t within t' left moved := by
    have lies := Erasure.lies scanned walked within
    have punct := (lies.cut (lies.held_of_start_ne left moved) left).1
    obtain ⟨pre, post, nested⟩ := within.exists_row
    obtain ⟨here, after, start, same, reads⟩ :=
      exists_read_left scanned walked again nested left (Token.isComment_of_isPunct punct)
    have found := reads.punctAt (by rw [← same, Token.isPunct_of_mem_left left, punct])
    rw [← same] at found
    have place : t'.start = here.pos := by rw [same]; rfl
    rw [place, start.dropBytes_pos, found]

end

/-! ## Agreement -/

/-- The two scans of a text with types agree exactly under these conditions: the tokens of the erased text are
what is left of those of the source, with the same kinds and places, at every depth. -/
theorem tokenize_eraseTypes_iff {jsx : Bool} {source out : String} (success : eraseTypes jsx source = .ok out) :
    ∃ tokens e, tokenize ⟨jsx, true⟩ source = .ok tokens ∧ erasureOf source.toList tokens = .ok e ∧
      (tokenize ⟨jsx, false⟩ out = .ok (Token.leftAll e.blanks tokens) ↔
        Rescannable e.blanks jsx out.toList tokens) := by
  rw [eraseTypes_eq] at success
  obtain ⟨tokens, scanned, success⟩ := ok_of_bind success
  obtain ⟨e, walked, success⟩ := ok_of_bind success
  cases success
  refine ⟨tokens, e, scanned, walked, ?_⟩
  rw [String.toList_ofList]
  exact ⟨rescannable_of_tokenize scanned walked, Rescannable.tokenize scanned walked⟩

/-- The `>` of a token closes a list of types, an assertion stands in a template, and a division behind it. -/
def cutText : String := "let x: A<B>= \x60$\x7by!\x7d\x60 / 2"

def cutErased : String := "let x      = \x60$\x7by \x7d\x60 / 2"

def cutTokens : List Token :=
  [⟨.word, 0, 3, "let"⟩, ⟨.word, 4, 5, "x"⟩, ⟨.punct, 5, 6, ":"⟩, ⟨.word, 7, 8, "A"⟩, ⟨.punct, 8, 9, "<"⟩,
    ⟨.word, 9, 10, "B"⟩, ⟨.punct, 10, 12, ">="⟩,
    ⟨.template [.raw 13 16, .subst ⟨16, 18, [⟨.word, 16, 17, "y"⟩, ⟨.punct, 17, 18, "!"⟩]⟩, .raw 18 20], 13, 20,
      "\x60$\x7by!\x7d\x60"⟩,
    ⟨.punct, 21, 22, "/"⟩, ⟨.number, 23, 24, "2"⟩]

theorem tokenize_eraseTypes_cut : ∃ e, eraseTypes false cutText = .ok cutErased ∧
    tokenize ⟨false, true⟩ cutText = .ok cutTokens ∧ erasureOf cutText.toList cutTokens = .ok e ∧
    tokenize ⟨false, false⟩ cutErased = .ok (Token.leftAll e.blanks cutTokens) ∧
    Rescannable e.blanks false cutErased.toList cutTokens := by
  have success : eraseTypes false cutText = .ok cutErased := by
    rw [eraseTypes_eq, tokenize_of_not_mem (by decide)]
    decide +kernel
  have first : tokenize ⟨false, true⟩ cutText = .ok cutTokens := tokenize_of_ok rfl
  obtain ⟨tokens, e, scanned, walked, agree⟩ := tokenize_eraseTypes_iff success
  cases first.symm.trans scanned
  have blanks : (erasureOf cutText.toList cutTokens).toOption.map (·.blanks) = some [⟨17, 18⟩, ⟨5, 11⟩] := by
    decide +kernel
  rw [walked] at blanks
  have blanks : e.blanks = [⟨17, 18⟩, ⟨5, 11⟩] := Option.some.inj blanks
  have again : tokenize ⟨false, false⟩ cutErased = .ok (Token.leftAll e.blanks cutTokens) := by
    rw [blanks]
    exact tokenize_of_ok rfl
  exact ⟨e, success, first, walked, again, agree.mp again⟩

/-- What is left of the first scan is not what the second scan reads: a regular expression of the one
is a product of divisions in the other. -/
theorem division_behind_assertion : ∃ ts e text ts',
    tokenize ⟨false, true⟩ "a! / b / c" = .ok ts ∧ erasureOf "a! / b / c".toList ts = .ok e ∧
    eraseTypes false "a! / b / c" = .ok text ∧ tokenize ⟨false, false⟩ text = .ok ts' ∧
    (ts.filter fun t => !e.isBlank t.start).map (·.text) = ["a", "/ b /", "c"] ∧
    ts'.map (·.text) = ["a", "/", "b", "/", "c"] := by
  have first : ((tokenizeWithin (allowance "a! / b / c".toList) ⟨false, true⟩
      "a! / b / c").toOption.bind fun ts => (erasureOf "a! / b / c".toList ts).toOption.map fun e =>
        (ts.filter fun t => !e.isBlank t.start).map (·.text)) =
      some ["a", "/ b /", "c"] := by decide +kernel
  have second : ((tokenizeWithin (allowance "a  / b / c".toList) ⟨false, false⟩
      "a  / b / c").toOption.map (·.map (·.text))) = some ["a", "/", "b", "/", "c"] := by decide +kernel
  have erased : eraseTypes false "a! / b / c" = .ok "a  / b / c" := by
    rw [eraseTypes_eq, tokenize_of_not_mem (by decide)]
    decide +kernel
  obtain ⟨ts, scanned, first⟩ := tokenize_of_read first
  obtain ⟨e, walked, left⟩ := Option.map_eq_some_iff.mp first
  obtain ⟨ts', rescanned, read⟩ := Option.map_eq_some_iff.mp second
  refine ⟨ts, e, _, ts', scanned, ok_of_toOption walked, erased, ?_, left, read⟩
  rw [tokenize_of_not_mem (by decide), ok_of_toOption rescanned]

end JsxPreview.Source
