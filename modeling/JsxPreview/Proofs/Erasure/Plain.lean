import JsxPreview.Proofs.Erasure.Growth
import JsxPreview.Proofs.Erasure.Quiet
import JsxPreview.Proofs.TypeErasure

/-! # Plain expressions stay as they are

Where the walk finds nothing a text stays as it is, and where it takes a colon for the start of a return
type, the colon is blanked.  So an assignment of a plain expression stays as it is just when in none of
its conditionals a parenthesis and the head of an arrow function stand around the colon
(`eraseTypes_assignment`). -/
set_option autoImplicit false
namespace JsxPreview.Source

open JsxPreview.Text Erase

namespace Erase

variable {row : TokenRow} {i j close : Nat}

/-- A step that finds nothing takes one call of the walk. -/
theorem scan_step (step : QuietStep row i j) (fuel depth : Nat) (e : Erasure) :
    ∃ depth', (scan row row.size (fuel + 9) depth none i).run e =
      (scan row row.size (fuel + 8) depth' none j).run e := by
  obtain ⟨inside, _, noDeclaration, run⟩ := step
  have noList : (none == some depth) = false := rfl
  rw [scan, if_neg (by omega), noDeclaration, noList, Bool.false_and]
  simp only [Bool.and_false, Bool.false_eq_true, if_false, Option.filter_none]
  rw [StateT.run_bind, bind_of_ok (run fuel e)]
  split
  · exact ⟨_, rfl⟩
  · split
    · exact ⟨_, rfl⟩
    · exact ⟨_, rfl⟩

theorem scan_quiet (steps : Relation.ReflTransGen (QuietStep row) i j) :
    i ≤ j ∧ ∀ (fuel depth : Nat) (e : Erasure), ∃ spare depth',
      (scan row row.size (j - i + (fuel + 9)) depth none i).run e =
        (scan row row.size (spare + (fuel + 9)) depth' none j).run e := by
  induction steps using Relation.ReflTransGen.head_induction_on with
  | refl => exact ⟨Nat.le_refl j, fun fuel depth e => ⟨j - j, depth, rfl⟩⟩
  | @head i next step _ ih =>
      obtain ⟨later, others⟩ := ih
      have forward := step.forward
      refine ⟨by omega, fun fuel depth e => ?_⟩
      obtain ⟨depth', here⟩ := scan_step step (j - i + fuel) depth e
      obtain ⟨spare, depth'', behind⟩ := others (next - i - 1 + fuel) depth' e
      have enough : j - i + (fuel + 9) = j - i + fuel + 9 := by omega
      have left : j - next + (next - i - 1 + fuel + 9) = j - i + fuel + 8 := by omega
      have spent : spare + (next - i - 1 + fuel + 9) = spare + (next - i - 1) + (fuel + 9) := by omega
      rw [left] at behind
      exact ⟨spare + (next - i - 1), depth'', by rw [enough, here, behind, spent]⟩

theorem scan_end (stop fuel depth : Nat) (e : Erasure) :
    (scan row stop (fuel + 1) depth none stop).run e = .ok ((), e) := by
  rw [scan, if_pos (Nat.le_refl stop)]
  rfl

/-- The walk over a misread colon blanks it. -/
theorem step_misread (misread : row.MisreadAt i close) {fuel next : Nat} {e e' : Erasure}
    (ran : (step row row.size (fuel + 2) i).run e = .ok (next, e'))
    (grows : row.start (close + 1) < (row.skipType (close + 1 + 1) row.size true).2) :
    ⟨row.start (close + 1), (row.skipType (close + 1 + 1) row.size true).2⟩ ∈ e'.blanks := by
  obtain ⟨opens, matched, found, _⟩ := misread
  have noArrow : row.isPunct (close + 1) "=>" = false := row.isPunct_other found.colon (by decide)
  rw [step_sign opens, if_pos rfl, parenthesis, matched] at ran
  simp only [noArrow, Bool.false_and, Bool.false_eq_true, if_false] at ran
  rw [TokenRow.Misread] at found
  rw [if_pos found, StateT.run_bind] at ran
  obtain ⟨⟨_, middle⟩, _, ran⟩ := ok_of_bind ran
  rw [StateT.run_bind] at ran
  obtain ⟨⟨_, last⟩, blanked, ran⟩ := ok_of_bind ran
  cases blanked
  cases ran
  exact Erasure.mem_blank _ grows

theorem scan_misread (misread : row.MisreadAt i close) {fuel depth : Nat} {e e' : Erasure}
    (ran : (scan row row.size (fuel + 3) depth none i).run e = .ok ((), e'))
    (grows : row.start (close + 1) < (row.skipType (close + 1 + 1) row.size true).2) :
    ⟨row.start (close + 1), (row.skipType (close + 1 + 1) row.size true).2⟩ ∈ e'.blanks := by
  have inside := misread.opens.lt_size
  have noList : (none == some depth) = false := rfl
  rw [scan, if_neg (by omega), noDeclaration_sign misread.opens, noList, Bool.false_and] at ran
  simp only [Bool.false_eq_true, if_false] at ran
  obtain ⟨⟨next, middle⟩, stepped, ran⟩ := ok_of_bind ran
  have stays := blanked_stays ⟨row.start (close + 1), (row.skipType (close + 1 + 1) row.size true).2⟩
  have behind : Keeps (fun _ => True)
      (⟨row.start (close + 1), (row.skipType (close + 1 + 1) row.size true).2⟩ ∈ ·.blanks) (
      if next == i + 1 && row.opensBracket i then scan row row.size (fuel + 2) (depth + 1) none next
      else if next == i + 1 && row.closesBracket i then
        scan row row.size (fuel + 2) (depth - 1) (none.filter (· ≤ depth - 1)) next
      else if next == i + 1 && row.isPunct i ";" && none == some depth then
        scan row row.size (fuel + 2) depth none next
      else scan row row.size (fuel + 2) depth none next) :=
    .ite (scan_keeps stays trivial ..) (.ite (scan_keeps stays trivial ..)
      (.ite (scan_keeps stays trivial ..) (scan_keeps stays trivial ..)))
  exact behind.kept _ _ _ ran (step_misread misread stepped grows)

end Erase

/-! ## Rows of texts -/

theorem Token.Shows.noComment {t : Token} {l : Lexeme} (shows : t.Shows l) :
    t.isComment = false := by
  obtain ⟨shape, text⟩ := shows
  obtain ⟨_, start, stop, _⟩ := t
  cases shape
  cases l <;> rfl

namespace TokenRow

variable {row : TokenRow} {i j k : Nat} {ls : List Lexeme}

theorem get?_of_split {us ts : List Token} {t : Token}
    (split : row.tokens.toList = us ++ t :: ts) : row.get? us.length = some t := by
  rw [get?, ← Array.getElem?_toList, split, List.getElem?_append_right (Nat.le_refl _), Nat.sub_self,
    List.getElem?_cons_zero]

theorem holds_of_split {us ts vs : List Token} (split : row.tokens.toList = us ++ (ts ++ vs))
    (shows : List.Forall₂ Token.Shows ts ls) : row.Holds us.length ls := by
  induction shows generalizing us with
  | nil => trivial
  | @cons t l ts ls here _ ih =>
      have behind := @ih (us ++ [t]) (by rw [split, List.append_assoc]; rfl)
      rw [List.length_append, List.length_singleton] at behind
      exact ⟨⟨t, get?_of_split split, here⟩, behind⟩

theorem Holds.shows (holds : row.Holds i ls) (inside : k < ls.length) :
    row.Shows (i + k) ls[k] := by
  induction ls generalizing i k with
  | nil => cases inside
  | cons l ls ih =>
      cases k with
      | zero => exact holds.1
      | succ k =>
          have behind := ih holds.2 (Nat.lt_of_succ_lt_succ inside)
          rw [Nat.add_right_comm] at behind
          exact behind

/-- A row of the tokens of a text that spells lexemes. -/
structure Writes (row : TokenRow) (text : List Char) (ls : List Lexeme) : Prop where
  holds : row.Holds 0 ls
  size : row.size = ls.length
  tiles : Row text 0 (byteLength text) row.tokens.toList

/-- No reserved word is in the row. -/
theorem Writes.isWord {text : List Char} (writes : row.Writes text ls)
    (free : ls.all Lexeme.isFree = true) {w : String} (reserved : reservedWords.contains w = true)
    (k : Nat) : row.isWord k w = false := by
  by_cases inside : k < ls.length
  · have shows := writes.holds.shows inside
    rw [Nat.zero_add] at shows
    have here := List.all_eq_true.mp free _ (List.getElem_mem inside)
    rw [shows.isWord]
    cases same : ls[k] with
    | word text =>
        rw [same, Lexeme.isFree, Bool.not_eq_true'] at here
        have other : text ≠ w := by
          rintro rfl
          rw [here] at reserved
          cases reserved
        exact beq_false_of_ne other
    | _ => rfl
  · have nothing : row.get? k = none := Array.getElem?_eq_none (by
      rw [← writes.size] at inside
      exact Nat.le_of_not_lt inside)
    rw [TokenRow.isWord, nothing]
    rfl

theorem start_lt_stop {text : List Char} {high : Nat} (tiles : Row text 0 high row.tokens.toList)
    (before : i < j) (inside : j < row.size) : row.start i < row.stop j := by
  have earlier : i < row.size := before.trans inside
  have order := List.pairwise_iff_getElem.mp tiles.pairwise i j earlier inside before
  have grows := (tiles.of_mem (List.getElem_mem (l := row.tokens.toList) earlier)).2.1
  have growsLater := (tiles.of_mem (List.getElem_mem (l := row.tokens.toList) inside)).2.1
  rw [start, stop, get?, get?, ← Array.getElem?_toList, ← Array.getElem?_toList,
    List.getElem?_eq_getElem earlier, List.getElem?_eq_getElem inside]
  exact (grows.trans_le order).trans growsLater

/-- What a misread colon starts does not end with it. -/
theorem MisreadAt.grows {text : List Char} {high close : Nat} (misread : row.MisreadAt i close)
    (tiles : Row text 0 high row.tokens.toList) :
    row.start (close + 1) < (row.skipType (close + 1 + 1) row.size true).2 := by
  obtain ⟨_, _, found, place⟩ := misread
  simp only [Misread, Bool.and_eq_true, decide_eq_true_eq] at found
  obtain ⟨⟨_, moves⟩, arrow⟩ := found
  obtain ⟨t, here, _⟩ := (Option.any_eq_true ..).mp arrow
  have inside : (row.skipType (close + 1 + 1) row.size true).1 < row.size :=
    (Array.getElem?_eq_some_iff.mp here).1
  rw [place]
  exact row.start_lt_stop tiles (by omega) (by omega)

end TokenRow

/-- The tokens of a text that spells lexemes. -/
theorem tokenize_writes {d : Dialect} {ls : List Lexeme} {text : List Char}
    (spells : Spells ls text) (apart : Apart ls) (plain : d.jsx = false) : ∃ ts,
      tokenize d (String.ofList text) = .ok ts ∧ (TokenRow.ofTokens text ts).Writes text ls := by
  obtain ⟨ts, success, shows, tiles⟩ := tokenize_spelled spells apart plain
  have noComment : ∀ t ∈ ts, (!t.isComment) = true := by
    clear success tiles spells apart
    induction shows with
    | nil => exact List.forall_mem_nil _
    | cons here _ ih => exact List.forall_mem_cons.mpr ⟨by rw [here.noComment, Bool.not_false], ih⟩
  have same : (TokenRow.ofTokens text ts).tokens.toList = ts := List.filter_eq_self.mpr noComment
  refine ⟨ts, success, @TokenRow.holds_of_split _ _ [] ts [] ?_ shows, ?_, ?_⟩
  · rw [same, List.append_nil, List.nil_append]
  · rw [TokenRow.size, ← Array.length_toList, same, shows.length_eq]
  · rw [same]
    exact tiles

/-- A text in which a character is blanked is not as it was. -/
theorem Erasure.imageOf_ne {spans : List Span} {front back : List Char} {c : Char}
    (ink : Text.isBlank c = false) (held : holds spans (byteLength front) = true) :
    imageOf spans 0 (front ++ c :: back) ≠ front ++ c :: back := by
  intro same
  obtain ⟨_, _, _, _, kept⟩ := imageOf_kept ink same
  rw [held] at kept
  cases kept

/-! ## Texts that stay, and texts that do not -/

section Texts

variable {jsx : Bool} {text : List Char} {ts : List Token} {row : TokenRow} {j : Nat}

/-- The walk starts with calls enough for all its steps. -/
theorem scan_allowance (steps : Relation.ReflTransGen (QuietStep row) 0 j)
    (short : j ≤ text.length) : ∃ fuel depth,
      (scan row row.size (erasureAllowance text) 0 none 0).run {} =
        (scan row row.size (fuel + 9) depth none j).run {} := by
  obtain ⟨_, runs⟩ := scan_quiet steps
  obtain ⟨spare, depth, ran⟩ := runs (erasureAllowance text - j - 9) 0 {}
  have enough : j - 0 + (erasureAllowance text - j - 9 + 9) = erasureAllowance text := by
    rw [erasureAllowance]
    omega
  rw [enough, ← Nat.add_assoc] at ran
  exact ⟨_, depth, ran⟩

/-- A text in which the walk finds nothing stays as it is. -/
theorem eraseTypes_quiet (success : tokenize ⟨jsx, true⟩ (String.ofList text) = .ok ts)
    (steps : Relation.ReflTransGen (QuietStep (.ofTokens text ts)) 0 (TokenRow.ofTokens text ts).size)
    (short : (TokenRow.ofTokens text ts).size ≤ text.length) :
    eraseTypes jsx (String.ofList text) = .ok (String.ofList text) := by
  obtain ⟨fuel, depth, ran⟩ := scan_allowance steps short
  rw [scan_end] at ran
  have erased : erasureOf text ts = .ok {} := bind_of_ok ran
  rw [eraseTypes_eq, bind_of_ok success, String.toList_ofList, bind_of_ok erased,
    Erasure.imageOf_outside fun _ _ _ => rfl]
  rfl

/-- A text in which the walk comes to a misread colon does not stay as it is. -/
theorem eraseTypes_misread {k close : Nat}
    (success : tokenize ⟨jsx, true⟩ (String.ofList text) = .ok ts)
    (tiles : Row text 0 (byteLength text) (TokenRow.ofTokens text ts).tokens.toList)
    (steps : Relation.ReflTransGen (QuietStep (.ofTokens text ts)) 0 k)
    (short : (TokenRow.ofTokens text ts).size ≤ text.length)
    (misread : (TokenRow.ofTokens text ts).MisreadAt k close) :
    eraseTypes jsx (String.ofList text) ≠ .ok (String.ofList text) := by
  intro unchanged
  obtain ⟨tokens, e, success', walked, same⟩ := eraseTypes_cases unchanged
  cases success.symm.trans success'
  rw [String.toList_ofList] at walked same
  obtain ⟨⟨_, before⟩, ran, walked⟩ := ok_of_bind walked
  have later : k ≤ text.length := (Nat.le_of_lt misread.opens.lt_size).trans short
  obtain ⟨fuel, depth, walk⟩ := scan_allowance steps later
  rw [walk] at ran
  obtain ⟨t, colon, sign⟩ := (Option.any_eq_true ..).mp misread.misread.colon
  have member : t ∈ (TokenRow.ofTokens text ts).tokens.toList :=
    Array.mem_toList_iff.mpr (Array.mem_of_getElem? colon)
  obtain ⟨front, back, split, place, _⟩ := (tiles.of_mem member).2.2.2
  have starts : (TokenRow.ofTokens text ts).start (close + 1) = byteLength front := by
    rw [TokenRow.start, colon, place]
    rfl
  have grows := misread.grows tiles
  have held := before.dropped_subset ts (scan_misread misread ran grows)
  cases walked
  rw [eq_of_beq (Bool.and_eq_true_iff.mp sign).2, List.append_assoc] at split
  rw [split] at same
  refine Erasure.imageOf_ne (by decide) ?_ same.symm
  exact (Erasure.holds_iff ..).mpr ⟨_, held, starts.le, starts ▸ grows⟩

end Texts

/-! ## Assignments -/

/-- An assignment of an expression to a name. -/
def assignment (target : Name) (e : Expr) : List Lexeme :=
  target.lexeme :: .sign .equals :: (e.lexemes ++ [.sign .semicolon])

theorem assignment_apart (target : Name) (e : Expr) : Apart (assignment target e) :=
  ((Expr.operand (.atom (.name target))).joined .equals e.operand).before apart_last

theorem assignment_isFree (target : Name) (e : Expr) :
    (assignment target e).all Lexeme.isFree = true := by
  simp [assignment, target.isFree, e.isFree, Sign.isFree]

/-- The walk over an assignment finds something just when the expression is not clear. -/
theorem assignment_walks {row : TokenRow} {text : List Char} {target : Name} {e : Expr}
    (writes : row.Writes text (assignment target e)) : row.Walks 0 row.size (e.isClear = false) := by
  have noCatch := writes.isWord (assignment_isFree target e) (w := "catch") (by decide)
  obtain ⟨name, equals, rest⟩ := writes.holds
  obtain ⟨held, semicolon, -⟩ := TokenRow.holds_append.mp rest
  obtain ⟨behind, noMisread⟩ := TokenRow.behind_sign semicolon rfl (by decide)
  have size : row.size = 0 + 1 + 1 + e.lexemes.length + 1 := by
    rw [writes.size, assignment, List.length_cons, List.length_cons, List.length_append]
    rw [List.length_singleton]
    omega
  rw [size]
  refine ((((e.walks noCatch held behind).head (quietStep_sign equals (by decide))).head
    (quietStep_atom (a := .name target) name)).tail (quietStep_sign semicolon (by decide))).of_iff ?_
  rw [or_iff_left (fun found => noMisread found.2)]

/-- An assignment of a plain expression stays as it is just when in none of its conditionals a
parenthesis and the head of an arrow function stand around the colon. -/
theorem eraseTypes_assignment (target : Name) (e : Expr) (text : List Char)
    (spells : Spells (assignment target e) text) :
    eraseTypes false (String.ofList text) = .ok (String.ofList text) ↔ e.isClear = true := by
  have apart := assignment_apart target e
  obtain ⟨ts, tokenized, writes⟩ := tokenize_writes (d := ⟨false, true⟩) spells apart rfl
  have short : (TokenRow.ofTokens text ts).size ≤ text.length := by
    rw [writes.size]
    exact spells.length_le apart.1
  rcases assignment_walks writes with ⟨clear, steps⟩ | ⟨notClear, k, close, steps, misread⟩
  · rw [Bool.not_eq_false] at clear
    exact iff_of_true (eraseTypes_quiet tokenized steps short) clear
  · rw [← Bool.not_eq_true] at notClear
    exact iff_of_false (eraseTypes_misread tokenized writes.tiles steps short misread) notClear

/-- The conditional `a ? yes : c => d`. -/
def beforeArrow (yes : Expr) : Expr :=
  .conditional (.atom (.name ⟨"a", by decide, by decide⟩)) yes
    (.arrow ⟨"c", by decide, by decide⟩ (.atom (.name ⟨"d", by decide, by decide⟩)))

def nameX : Name := ⟨"x", by decide, by decide⟩

def nameB : Expr := .atom (.name ⟨"b", by decide, by decide⟩)

/-- Without the parentheses around `b` the assignment stays as it is. -/
theorem eraseTypes_assignment_bare :
    eraseTypes false "x = a ? b : c => d;" = .ok "x = a ? b : c => d;" := by
  have text : "x = a ? b : c => d;".toList = "x".toList ++ (' ' :: ("=".toList ++ (' ' ::
      ("a".toList ++ (' ' :: ("?".toList ++ (' ' :: ("b".toList ++ (' ' :: (":".toList ++ (' ' ::
        ("c".toList ++ (' ' :: ("=>".toList ++ (' ' :: ("d".toList ++ (";".toList ++ [])))))))))))))))))
      := by
    decide
  have spells : Spells (assignment nameX (beforeArrow nameB)) "x = a ? b : c => d;".toList := by
    rw [text]
    exact .tight nofun (.spaced nofun (.spaced nofun (.spaced nofun (.spaced nofun (.spaced nofun
      (.spaced nofun (.spaced nofun (.spaced nofun (.tight nofun (.last rfl))))))))))
  have stays := (eraseTypes_assignment nameX (beforeArrow nameB) _ spells).mpr rfl
  rwa [String.ofList_toList] at stays

/-- With them the walk takes `: c` for a return type. -/
theorem eraseTypes_assignment_parens :
    Spells (assignment nameX (beforeArrow (.parens nameB))) "x = a ? (b) : c => d;".toList ∧
      eraseTypes false "x = a ? (b) : c => d;" = .ok "x = a ? (b)     => d;" := by
  have text : "x = a ? (b) : c => d;".toList = "x".toList ++ (' ' :: ("=".toList ++ (' ' ::
      ("a".toList ++ (' ' :: ("?".toList ++ (' ' :: ("(".toList ++ ("b".toList ++ (")".toList ++
        (' ' :: (":".toList ++ (' ' :: ("c".toList ++ (' ' :: ("=>".toList ++ (' ' :: ("d".toList ++
          (";".toList ++ []))))))))))))))))))) := by
    decide
  constructor
  · rw [text]
    exact .tight nofun (.spaced nofun (.spaced nofun (.spaced nofun (.spaced nofun (.tight nofun
      (.tight nofun (.spaced nofun (.spaced nofun (.spaced nofun (.spaced nofun (.tight nofun
        (.last rfl))))))))))))
  · rw [eraseTypes_eq, tokenize_of_not_mem (by decide)]
    decide

end JsxPreview.Source
