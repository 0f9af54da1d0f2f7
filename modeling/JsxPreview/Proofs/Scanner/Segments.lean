import JsxPreview.Proofs.Scanner.Shift

/-! # Code made of segments

A segment of code is read as given tokens in front of what follows it.  Segments that follow each
other make a segment (`Segment.append`), and code that is a segment is tokenized as such
(`Segment.tokenize`).

Where a text ends in front of an operand, what stands on the lines behind it is read as a text of its
own: two texts with a line break between them have the tokens of the one and, further on, those of the
other (`tokenize_line_break`).  The one token of the first text that counts is its last that is no
comment (`operandBehind_eq`): after any other a slash divides, and `<` compares. -/
set_option autoImplicit false
namespace JsxPreview.Source

open JsxPreview.Text

/-! ## Significant tokens -/

/-- The tokens that are no comments, without their places. -/
def significant (ts : List Token) : List Token := (Token.unplacedAll ts).filter fun t => !t.isComment

theorem Token.unplacedAll_append (ts us : List Token) :
    Token.unplacedAll (ts ++ us) = Token.unplacedAll ts ++ Token.unplacedAll us := by
  induction ts with
  | nil => rfl
  | cons t ts ih => rw [List.cons_append, Token.unplacedAll, Token.unplacedAll, ih, List.cons_append]

theorem significant_append (ts us : List Token) :
    significant (ts ++ us) = significant ts ++ significant us := by
  rw [significant, Token.unplacedAll_append, List.filter_append]
  rfl

/-- A punctuator without a place. -/
def signToken (text : String) : Token := ⟨.punct, 0, 0, text⟩

/-- Whether an operand is expected behind tokens. -/
def operandBehind (operand : Bool) (ts : List Token) : Bool :=
  ts.foldl (fun operand t => t.operandAfter operand) operand

/-- Comments and places do not tell whether an operand is expected. -/
theorem operandBehind_significant (ts : List Token) : ∀ operand : Bool,
    operandBehind operand (significant ts) = operandBehind operand ts := by
  induction ts with
  | nil => exact fun _ => rfl
  | cons t ts ih =>
      intro operand
      have behind : operandBehind operand (t :: ts) = operandBehind (t.operandAfter operand) ts := rfl
      rw [behind, ← ih, significant, Token.unplacedAll, List.filter_cons, t.isComment_unplaced]
      by_cases comment : t.isComment = true
      · rw [if_neg (by simp [comment]), Token.operandAfter, if_pos comment]
        rfl
      · rw [if_pos (by simp [comment])]
        change operandBehind (t.unplaced.operandAfter operand) _ = _
        rw [t.operandAfter_unplaced]
        rfl

/-! ## Readings in a row -/

section

variable {d : Dialect} {operand : Bool} {ts us : List Token} {c middle final : Cursor}

theorem Scans.of_skipBlank (scans : Scans d operand ts middle final)
    (same : c.skipBlank = middle.skipBlank) : Scans d operand ts c final := by
  cases scans with
  | done here => exact .done (same.trans here)
  | more first others =>
      rw [← same] at first others ⊢
      exact .more first others

theorem Scans.append (first : Scans d operand ts c middle)
    (second : Scans d (operandBehind operand ts) us middle final) :
    Scans d operand (ts ++ us) c final := by
  induction first with
  | done same => exact second.of_skipBlank same
  | more read _ ih => exact .more read (ih second)

/-- What is read up to the end of a text are its tokens. -/
theorem Scans.reads (scans : Scans d operand ts c final) (ended : final.skipBlank.rest = []) :
    ∀ depth, Reads d (.tokens false depth operand c) (ts, final.skipBlank) := by
  induction scans with
  | @done operand c final same =>
      intro depth
      rw [← same] at ended ⊢
      refine .tokensEnd ?_
      rw [tokensEnd, ended]
      rfl
  | @more operand c after final shape ts first _ ih =>
      intro depth
      refine .tokensMore ?_ first (ih ended _)
      have some : c.skipBlank.rest ≠ [] := by
        intro nothing
        have := first.token_passes.2
        simp [nothing] at this
      obtain ⟨x, s, ahead⟩ := List.exists_cons_of_ne_nil some
      rw [tokensEnd, ahead]
      rfl

end

/-- The punctuators of calls, objects and arrays. -/
def signs : List String := ["(", ")", "[", "]", "\x7b", "\x7d", ",", ":", "...", "."]

/-- Only a point goes on to a longer punctuator. -/
theorem signs_spec : ∀ p ∈ signs, p ∈ punctuators ∧
    (∀ q ∈ punctuators, p.toList <+: q.toList → p = q ∨ p = "." ∧ q = "...") ∧
    p.toList.head?.any (fun c => decide ((isBlank c || c == '\ufeff') = false ∧ c ≠ '\x60' ∧
      c ≠ '/' ∧ c ≠ '\'' ∧ c ≠ '"' ∧ c.isDigit = false ∧ isWordStart c = false)) = true ∧
    (p ≠ "." → p.toList.head? = some '.' → p.toList.tail.head? = some '.') := by
  decide

/-- Code that is read as `us` in front of `rest`, wherever it stands. -/
def Segment (d : Dialect) (operand : Bool) (code : List Char) (us : List Token)
    (rest : List Char) : Prop :=
  ∀ pos, ∃ ts, Scans d operand ts ⟨pos, code ++ rest⟩ ⟨pos + byteLength code, rest⟩ ∧
    significant ts = us

namespace Segment

variable {d : Dialect} {operand : Bool} {code code' rest : List Char} {us us' : List Token}

theorem append (first : Segment d operand code us (code' ++ rest))
    (second : Segment d (operandBehind operand us) code' us' rest) :
    Segment d operand (code ++ code') (us ++ us') rest := by
  intro pos
  obtain ⟨ts, scans, view⟩ := first pos
  obtain ⟨ts', scans', view'⟩ := second (pos + byteLength code)
  rw [← view, operandBehind_significant] at scans'
  refine ⟨ts ++ ts', ?_, by rw [significant_append, view, view']⟩
  rw [List.append_assoc, byteLength_append, ← Nat.add_assoc]
  exact scans.append scans'

/-- White space is read as nothing. -/
theorem gap (blank : isGap code = true) : Segment d operand code [] rest :=
  fun pos => ⟨[], .done (Cursor.skipBlank_append pos blank rest), rfl⟩

/-- Code that is a segment up to its end is tokenized as such. -/
theorem tokenize (segment : Segment d true code us [])
    (noMark : ¬ "#!".toList.isPrefixOf code = true) :
    ∃ ts, Source.tokenize d (String.ofList code) = .ok ts ∧ significant ts = us := by
  obtain ⟨ts, scans, view⟩ := segment 0
  rw [List.append_nil] at scans
  have start := firstLine_plain noMark
  have whole : Reads d (.ofSource (String.ofList code))
      (ts, (⟨0 + byteLength code, []⟩ : Cursor).skipBlank) := by
    change Reads d (.tokens false 0 true (firstLine (String.ofList code)).2) (ts, _)
    rw [start]
    exact scans.reads rfl 0
  refine ⟨ts, ?_, view⟩
  rw [tokenize_of_reads whole, start, List.nil_append]

/-- A leaf that does not go on with what stands behind it. -/
theorem leaf (plain : d.jsx = false) {shape : Shape} {text : String}
    (ink : ∃ c s, text.toList = c :: s ∧ (isBlank c || c == '\ufeff') = false ∧ c ≠ '\x60')
    (read : ∀ pos, lexLeaf operand ⟨pos, text.toList ++ rest⟩ =
      .ok (shape, ⟨pos + byteLength text.toList, rest⟩))
    (placeless : shape.unplaced = shape)
    (noComment : (⟨shape, 0, 0, text⟩ : Token).isComment = false) :
    Segment d operand text.toList [⟨shape, 0, 0, text⟩] rest := by
  intro pos
  obtain ⟨c, s, split, notBlank, noTemplate⟩ := ink
  have ahead : text.toList ++ rest = c :: (s ++ rest) := by rw [split, List.cons_append]
  have here : (⟨pos, text.toList ++ rest⟩ : Cursor).skipBlank = ⟨pos, text.toList ++ rest⟩ := by
    refine skipBlank_gap (Eq.refl (isGap [])) pos (text.toList ++ rest) fun x head => ?_
    rw [ahead] at head
    cases head
    exact notBlank
  have token : Reads d (.token operand (⟨pos, text.toList ++ rest⟩ : Cursor).skipBlank)
      (shape, ⟨pos + byteLength text.toList, rest⟩) := by
    rw [here]
    refine .tokenLeaf ?_ (startsElement_plain plain operand _) (read pos)
    rw [ahead, List.head?_cons, ne_eq, Option.some.injEq]
    exact noTemplate
  refine ⟨_, .more token (.done rfl), ?_⟩
  have shown : (tokenBetween shape ⟨pos, text.toList ++ rest⟩
      ⟨pos + byteLength text.toList, rest⟩).unplaced = ⟨shape, 0, 0, text⟩ := by
    rw [tokenBetween, Token.unplaced, placeless, Cursor.upTo_append, String.ofList_toList]
  rw [here, significant, Token.unplacedAll, Token.unplacedAll, shown]
  simp [noComment]

/-- A lexeme that does not go on with what stands behind it. -/
theorem lexeme (plain : d.jsx = false) {l : Lexeme} (whole : l.isWhole = true)
    (stop : ∀ c, rest.head? = some c → l.goesOn c = false) :
    Segment d operand l.text.toList [⟨l.shape, 0, 0, l.text⟩] rest := by
  obtain ⟨c, s, split, notBlank, _, noTemplate⟩ := Lexeme.head_ink whole
  refine leaf plain ⟨c, s, split, notBlank, noTemplate⟩ (lexLeaf_lexeme whole stop) ?_ ?_
  · cases l <;> rfl
  · cases l <;> rfl

/-- A punctuator of calls and literals, of which a point stands in front of a name. -/
theorem sign (plain : d.jsx = false) {p : String} (known : p ∈ signs)
    (apart : p = "." → rest.head?.any isWordStart = true) :
    Segment d operand p.toList [signToken p] rest := by
  obtain ⟨listed, single, starts, point⟩ := signs_spec p known
  obtain ⟨c, front, start⟩ := (Option.any_eq_true ..).mp starts
  obtain ⟨s, split⟩ : ∃ s, p.toList = c :: s := ⟨_, (List.cons_head?_tail front).symm⟩
  obtain ⟨notBlank, noTemplate, slash, apostrophe, quote, digit, word⟩ := of_decide_eq_true start
  have ahead : p.toList ++ rest = c :: (s ++ rest) := by rw [split, List.cons_append]
  have only : punctAt (p.toList ++ rest) = some p := by
    refine punctAt_of_only listed fun q member front begins => ?_
    rcases single q member begins with same | ⟨rfl, rfl⟩
    · exact same
    · -- in front of a name a point is no ellipsis
      obtain ⟨x, head, starts⟩ := (Option.any_eq_true ..).mp (apart rfl)
      obtain ⟨t, split⟩ := front
      cases rest with
      | nil => cases head
      | cons y rest =>
          cases head
          cases split
          exact absurd starts (by decide)
  have noNumber : (c == '.' && (s ++ rest).head?.any Char.isDigit) = false := by
    rw [← Bool.not_eq_true, Bool.and_eq_true, not_and]
    intro isPoint number
    cases eq_of_beq isPoint
    by_cases short : p = "."
    · subst short
      cases split
      obtain ⟨x, head, starts⟩ := (Option.any_eq_true ..).mp (apart rfl)
      rw [List.nil_append, head, Option.any_some, isDigit_of_isWordStart starts] at number
      cases number
    · have next := point short front
      rw [split, List.tail_cons] at next
      obtain ⟨t, rfl⟩ : ∃ t, s = '.' :: t := ⟨_, (List.cons_head?_tail next).symm⟩
      exact Bool.false_ne_true number
  refine leaf plain ⟨c, s, split, notBlank, noTemplate⟩ (fun pos => ?_) rfl rfl
  have behind : (⟨pos, p.toList ++ rest⟩ : Cursor).skip p.length =
      ⟨pos + byteLength p.toList, rest⟩ := by
    rw [← String.length_toList]
    exact Cursor.past_append pos p.toList rest
  rw [lexLeaf_of_plain ahead (fun _ same => absurd same slash) (fun _ same => absurd same slash),
    if_neg (by simp [slash]), if_neg (by simp [apostrophe, quote]),
    if_neg (by rw [noNumber, digit]; decide), if_neg (by simp [word])]
  simp only [only, behind]

end Segment

/-! ## Texts of several lines -/

/-- The last token that is no comment. -/
def lastSignificant (ts : List Token) : Option Token := (ts.filter (!·.isComment)).getLast?

/-- Of the tokens before it, only the last that is no comment tells whether an operand is expected. -/
theorem operandBehind_eq (ts : List Token) : ∀ operand : Bool,
    operandBehind operand ts = (lastSignificant ts).elim operand Token.leavesOperand := by
  induction ts with
  | nil => exact fun _ => rfl
  | cons t ts ih =>
      intro operand
      have behind : operandBehind operand (t :: ts) = operandBehind (t.operandAfter operand) ts := rfl
      rw [behind, ih, Token.operandAfter, lastSignificant, lastSignificant, List.filter_cons]
      by_cases comment : t.isComment = true
      · rw [if_pos comment, if_neg (by simp [comment])]
      · rw [if_neg comment, if_pos (by simp [comment]), List.getLast?_cons]
        cases (ts.filter (!·.isComment)).getLast? <;> rfl

theorem operandBehind_append (operand : Bool) (ts us : List Token) :
    operandBehind operand (ts ++ us) = operandBehind (operandBehind operand ts) us :=
  List.foldl_append

/-- A first line that names an interpreter is a comment, and no operand. -/
theorem operandBehind_firstLine (source : String) :
    operandBehind true (firstLine source).1 = true := by
  unfold firstLine
  simp only
  split <;> rfl

/-! ### A line break behind a text -/

/-- A line break does not make the first line one that names an interpreter. -/
theorem interpreter_newline (text rest : List Char) :
    "#!".toList.isPrefixOf (text ++ '\n' :: rest) = "#!".toList.isPrefixOf text := by
  match text with
  | [] => rfl
  | [c] => simp [List.isPrefixOf]
  | c :: d :: text => rfl

/-- The scan starts in the same place when a line break and more text follow. -/
theorem firstLine_newline (source next : String) :
    firstLine (source ++ "\n" ++ next) =
      ((firstLine source).1, (firstLine source).2.within 0 ('\n' :: next.toList)) := by
  have whole : (source ++ "\n" ++ next).toList = source.toList ++ '\n' :: next.toList := by
    rw [String.toList_append, String.toList_append, List.append_assoc]
    rfl
  have start : (⟨0, source.toList ++ '\n' :: next.toList⟩ : Cursor) =
      (⟨0, source.toList⟩ : Cursor).within 0 ('\n' :: next.toList) := rfl
  unfold firstLine
  simp only [whole, interpreter_newline]
  split
  case isFalse => rfl
  case isTrue =>
    have stop : ∀ c, ('\n' :: next.toList).head? = some c → (c != '\n') = false := by
      intro c head
      cases head
      rfl
    rw [start, Cursor.skipWhile_within (.inr stop), Cursor.upTo_within (Cursor.leads_skipWhile _ _)]
    simp only [Cursor.within, Nat.zero_add]

/-! ### Two texts -/

/-- The scan of a text that has tokens comes to its end. -/
theorem Reads.final_eq {d : Dialect} {source : String} {ts : List Token} {final : Cursor}
    (reads : Reads d (.ofSource source) (ts, final)) : final = ⟨byteLength source.toList, []⟩ := by
  have nothing : final.rest = [] := reads.text_end _ _ _ rfl
  obtain ⟨front, whole, ends⟩ := Cursor.In.split ((leads_firstLine source).trans reads.leads)
  obtain ⟨pos, rest⟩ := final
  cases nothing
  change source.toList = front ++ [] at whole
  change pos = byteLength front at ends
  rw [ends, whole, List.append_nil]

/-- Two texts with a line break between them have the tokens of the first and, in their place, the
tokens of the second, where an operand is expected behind the first. -/
theorem tokenize_line_break {jsx : Bool} {source next : String} {ts us : List Token}
    (first : tokenize ⟨jsx, false⟩ source = .ok ts) (second : tokenize ⟨jsx, false⟩ next = .ok us)
    (noMark : ¬ "#!".toList.isPrefixOf next.toList = true)
    (operand : ∀ t, lastSignificant ts = some t → t.leavesOperand = true) :
    tokenize ⟨jsx, false⟩ (source ++ "\n" ++ next) =
      .ok (ts ++ Token.shiftAll (byteLength source.toList + 1) us) := by
  let k := byteLength source.toList + 1
  let behind := '\n' :: next.toList
  obtain ⟨front, final, rfl, read⟩ := tokenize_cases first
  obtain ⟨back, final', same, read'⟩ := tokenize_cases second
  have start : firstLine next = ([], ⟨0, next.toList⟩) := by
    have := firstLine_plain noMark
    rwa [String.ofList_toList] at this
  rw [start, List.nil_append] at same
  subst same
  have scan : Scans ⟨jsx, false⟩ true front ((firstLine source).2.within 0 behind)
      ⟨byteLength source.toList, behind⟩ := by
    have scan : Scans _ _ (Token.shiftAll 0 front) _ (final.within 0 behind) :=
      read.moves (.inr rfl) 0 (.cons (by decide) next.toList) fun _ _ _ _ =>
        .newline next.toList
    have place : final.within 0 behind = ⟨byteLength source.toList, behind⟩ := by
      rw [read.final_eq, Cursor.within, Nat.zero_add, List.nil_append]
    rwa [Token.shiftAll_zero, place] at scan
  have scan' : Scans ⟨jsx, false⟩ true (Token.shiftAll k us) ⟨k, next.toList⟩
      (final'.within k []) := by
    have scan : Scans _ _ _ ((firstLine next).2.within k []) _ :=
      read'.moves (.inr rfl) k .nil fun _ _ _ _ => .nil
    rw [start, Cursor.within, List.append_nil] at scan
    exact scan
  have expected : operandBehind true front = true := by
    have all := operandBehind_append true (firstLine source).1 front
    rw [operandBehind_firstLine, operandBehind_eq] at all
    rw [← all]
    cases last : lastSignificant ((firstLine source).1 ++ front) with
    | none => rfl
    | some t => exact operand t last
  -- the line break itself is white space in front of the second text
  have across : (⟨byteLength source.toList, behind⟩ : Cursor).skipBlank =
      (⟨k, next.toList⟩ : Cursor).skipBlank :=
    Cursor.skipBlank_append _ (show isGap ['\n'] = true by decide) next.toList
  have both := scan.append (expected ▸ scan'.of_skipBlank across)
  have ended : (final'.within k []).skipBlank.rest = [] := by
    rw [read'.final_eq]
    rfl
  have whole : Reads ⟨jsx, false⟩ (.ofSource (source ++ "\n" ++ next))
      (front ++ Token.shiftAll k us, (final'.within k []).skipBlank) := by
    change Reads _ (.tokens false 0 true (firstLine (source ++ "\n" ++ next)).2) _
    rw [firstLine_newline]
    exact both.reads ended 0
  rw [tokenize_of_reads whole, firstLine_newline, List.append_assoc]

/-- An operator with a comment behind it that looks like an operand. -/
def operatorText : String := "#!x\nconst a = \x60$\x7b[1]\x7d\x60 + // )"

/-- An element with a template and a regular expression in it. -/
def elementText : String := "<p t=\x7b\x60\x7d\x60\x7d>\x7b/x/\x7d</p>"

theorem tokenize_line_break_element : ∃ ts us,
    tokenize ⟨true, false⟩ operatorText = .ok ts ∧ tokenize ⟨true, false⟩ elementText = .ok us ∧
    us.map (fun t => (t.start, t.stop)) = [(0, 20)] ∧
    tokenize ⟨true, false⟩ (operatorText ++ "\n" ++ elementText) =
      .ok (ts ++ Token.shiftAll 30 us) := by
  have before : ((tokenizeWithin (allowance operatorText.toList) ⟨true, false⟩
      operatorText).toOption.map fun ts => (lastSignificant ts).all Token.leavesOperand) =
        some true := by decide +kernel
  have element : ((tokenizeWithin (allowance elementText.toList) ⟨true, false⟩
      elementText).toOption.map (·.map fun t => (t.start, t.stop))) = some [(0, 20)] := by decide +kernel
  obtain ⟨ts, scanned, before⟩ := Option.map_eq_some_iff.mp before
  obtain ⟨us, scanned', element⟩ := Option.map_eq_some_iff.mp element
  have first : tokenize ⟨true, false⟩ operatorText = .ok ts := by
    rw [tokenize_of_not_mem (by decide), ok_of_toOption scanned]
  have second : tokenize ⟨true, false⟩ elementText = .ok us := by
    rw [tokenize_of_not_mem (by decide), ok_of_toOption scanned']
  refine ⟨ts, us, first, second, element, tokenize_line_break first second (by decide) ?_⟩
  intro t last
  rwa [last, Option.all_some] at before

end JsxPreview.Source
