import JsxPreview.Proofs.Scanner.Separation
import JsxPreview.Proofs.TypeErasure
import JsxPreview.Proofs.Types.Contexts

/-! # Types are erased whole

Where the tokens from one to another are blanked, the lexemes in front of the first and behind the last
keep apart (`separated_imageOf`), so that the scanner reads just these.

A constant, an alias and the result of a function have a type (`TypeSlot`).  Whatever type of the grammar
stands there, and however it is laid out, erasure leaves just the tokens around it
(`TypeSlot.eraseTypes_leaves`), of an alias nothing. -/
set_option autoImplicit false
namespace JsxPreview.Source

open JsxPreview.Text

/-! ## Rows -/

namespace Row

variable {source : List Char} {low high : Nat} {ts us : List Token} {u : Token}

theorem before (row : Row source low high (ts ++ u :: us)) : Row source low u.start ts := by
  induction ts generalizing low with
  | nil => exact row.1
  | cons t ts ih =>
      obtain ⟨gap, grows, stretch, others⟩ := row
      exact ⟨gap, grows, stretch, ih others⟩

theorem behind (row : Row source low high (ts ++ u :: us)) : Row source u.stop high us := by
  induction ts generalizing low with
  | nil => exact row.2.2.2
  | cons t ts ih => exact ih row.2.2.2

end Row

/-- The lexemes in front of the blanked tokens and behind them keep apart. -/
theorem separated_imageOf {source : List Char} {front us vs back : List Token} {u v : Token}
    {ls ms : List Lexeme} (row : Row source 0 (byteLength source) (front ++ u :: us))
    (same : front ++ u :: us = vs ++ v :: back) (grows : u.start < v.stop)
    (apart : WordsApart (front ++ u :: us)) (shows : List.Forall₂ Token.Shows front ls)
    (shows' : List.Forall₂ Token.Shows back ms) (distinct : Lexeme.Distinct ls)
    (distinct' : Lexeme.Distinct ms) :
    Separated (ls ++ ms) (Erasure.imageOf [⟨u.start, v.stop⟩] 0 source) := by
  have held (n : Nat) : Erasure.holds [⟨u.start, v.stop⟩] n = (u.start ≤ n && n < v.stop : Bool) := by
    rw [Erasure.holds, List.any_cons, List.any_nil, Bool.or_false]
    rfl
  obtain ⟨text, stretch, separated⟩ := row.before.separated shows apart.left_of_append distinct
  rw [same] at row apart
  obtain ⟨text', stretch', separated'⟩ :=
    row.behind.separated shows' apart.right_of_append.tail distinct'
  obtain ⟨rest, whole, begins⟩ := stretch.at_front
  obtain ⟨rest', whole', ends⟩ := stretch'.at_back
  -- the blanked stretch lies between the two
  obtain ⟨middle, rfl⟩ : ∃ middle, rest' = text ++ middle := by
    rcases List.append_eq_append_iff.mp (whole.symm.trans whole') with ⟨middle, split, _⟩ | ⟨more, split, _⟩
    · exact ⟨middle, split⟩
    · have length := congrArg byteLength split
      rw [byteLength_append] at length
      omega
  rw [byteLength_append, begins] at ends
  have kept : Erasure.imageOf [⟨u.start, v.stop⟩] 0 text = text :=
    Erasure.imageOf_outside fun m _ before => by
      rw [held, Bool.and_eq_false_iff, decide_eq_false_iff_not]
      exact .inl (by omega)
  have kept' : Erasure.imageOf [⟨u.start, v.stop⟩] v.stop text' = text' :=
    Erasure.imageOf_outside fun m behind _ => by
      rw [held, Bool.and_eq_false_iff, decide_eq_false_iff_not, decide_eq_false_iff_not]
      exact .inr (by omega)
  have blank : isGap (Erasure.imageOf [⟨u.start, v.stop⟩] u.start middle) = true :=
    Erasure.isGap_imageOf fun m behind before => by
      rw [held, Bool.and_eq_true, decide_eq_true_eq, decide_eq_true_eq]
      omega
  have some : Erasure.imageOf [⟨u.start, v.stop⟩] u.start middle ≠ [] := by
    intro nothing
    have length := Erasure.byteLength_imageOf [⟨u.start, v.stop⟩] u.start middle
    rw [nothing, byteLength_nil] at length
    omega
  rw [whole', List.append_assoc, Erasure.imageOf_append, Erasure.imageOf_append, kept, Nat.zero_add,
    begins, ends, kept']
  exact separated.append blank some separated'

/-- A text of which the tokens from one to another are blanked has the tokens that are left; without
any it is white space. -/
theorem eraseTypes_remains {jsx : Bool} {source : String} {front us vs back : List Token} {u v : Token}
    {ls ms : List Lexeme} {e : Erasure}
    (success : tokenize ⟨jsx, true⟩ source = .ok (front ++ u :: us))
    (same : front ++ u :: us = vs ++ v :: back)
    (walked : erasureOf source.toList (front ++ u :: us) = .ok e)
    (blanks : e.blanks = [⟨u.start, v.stop⟩]) (grows : u.start < v.stop)
    (shows : List.Forall₂ Token.Shows front ls) (shows' : List.Forall₂ Token.Shows back ms)
    (distinct : Lexeme.Distinct ls) (distinct' : Lexeme.Distinct ms) :
    ∃ out ts, eraseTypes jsx source = .ok out ∧ tokenize ⟨false, false⟩ out = .ok ts ∧
      List.Forall₂ Token.Shows ts (ls ++ ms) ∧ (ls ++ ms = [] → isGap out.toList = true) := by
  have erased : eraseTypes jsx source =
      .ok (String.ofList (Erasure.imageOf [⟨u.start, v.stop⟩] 0 source.toList)) := by
    rw [eraseTypes_eq, bind_of_ok success, bind_of_ok walked, blanks]
    rfl
  obtain ⟨row, _⟩ := tokenize_tiles success
  have separated := separated_imageOf row same grows (tokenize_words_apart success) shows shows'
    distinct distinct'
  obtain ⟨ts, read, left, _⟩ := tokenize_separated (d := ⟨false, false⟩) separated rfl
  refine ⟨_, ts, erased, read, left, fun nothing => ?_⟩
  rw [String.toList_ofList]
  rw [nothing] at separated
  cases separated with
  | last blank => exact blank

/-! ## Slots for a type -/

/-- A declaration with a place for a type. -/
inductive TypeSlot where
  | constant (x : Name) (value : Atom)
  | synonym (x : Name)
  | result (f : Name)

namespace TypeSlot

/-- What stands in front of the type. -/
def front : TypeSlot → List Lexeme
  | constant x _ => [.word "const", x.lexeme, .sign .colon]
  | synonym x => [.word "type", x.lexeme, .sign .equals]
  | result f => [.word "function", f.lexeme, .sign .opening, .sign .closing, .sign .colon]

/-- What stands behind it. -/
def back : TypeSlot → List Lexeme
  | constant _ value => [.sign .equals, value.lexeme, .sign .semicolon]
  | synonym _ => [.sign .semicolon]
  | result _ => [.sign .openingBrace, .sign .closingBrace]

/-- What is left. -/
def left : TypeSlot → List Lexeme
  | constant x value => [.word "const", x.lexeme, .sign .equals, value.lexeme, .sign .semicolon]
  | synonym _ => []
  | result f => [.word "function", f.lexeme, .sign .opening, .sign .closing, .sign .openingBrace,
      .sign .closingBrace]

end TypeSlot

/-! ## Tokens of a row -/

theorem TokenRow.start_lt_stop_of_spanned {source : List Char} {low high i j : Nat} {ts : List Token}
    (spanned : Spanned low high ts) (less : i < j) (inRow : j < (TokenRow.ofTokens source ts).size) :
    (TokenRow.ofTokens source ts).start i < (TokenRow.ofTokens source ts).stop j :=
  calc (TokenRow.ofTokens source ts).start i
      < (TokenRow.ofTokens source ts).stop i := grows spanned (Nat.lt_trans less inRow)
    _ ≤ (TokenRow.ofTokens source ts).start j := stop_le_start spanned less inRow
    _ < (TokenRow.ofTokens source ts).stop j := grows spanned inRow

theorem filter_of_shows {ts : List Token} {ls : List Lexeme} (shows : List.Forall₂ Token.Shows ts ls) :
    ts.filter (!·.isComment) = ts := by
  induction shows with
  | nil => rfl
  | cons here _ ih => rw [List.filter_cons, here.noComment, ih]; rfl

/-! ## Slots that are filled -/

/-- A row of a declaration with a type that reaches up to token `j`, for the reader too. -/
structure TypeSlot.Fills (slot : TypeSlot) (row : TokenRow) (j : Nat) : Prop where
  front : row.Holds 0 slot.front
  extent : row.skipType slot.front.length row.size false = (j, row.stop (j - 1))
  back : row.Holds j slot.back
  size : row.size = j + slot.back.length
  begins : slot.front.length < j

/-- What stands behind the type does not go on with it. -/
theorem TypeSlot.back_ends {slot : TypeSlot} {row : TokenRow} {j : Nat} (held : row.Holds j slot.back) :
    ∃ text, row.isPunct j text = true ∧ ["=", ";", "\x7b"].contains text = true := by
  cases slot with
  | constant x value => exact ⟨"=", by rw [held.1.isPunct]; decide, by decide⟩
  | synonym x => exact ⟨";", by rw [held.1.isPunct]; decide, by decide⟩
  | result f => exact ⟨"\x7b", by rw [held.1.isPunct]; decide, by decide⟩

theorem TypeSlot.fills {slot : TypeSlot} {row : TokenRow} {front inner back : List Token}
    {parts : List TypePart} (tokens : row.tokens.toList = front ++ (inner ++ back))
    (sized : ∀ k t, row.get? k = some t → t.stop = t.start + byteLength t.text.toList)
    (begins : List.Forall₂ Token.Shows front slot.front)
    (ends : List.Forall₂ Token.Shows back slot.back) (written : Written .type parts)
    (between : row.Between front.length 0 parts (front.length + inner.length) 0) :
    slot.Fills row (front.length + inner.length) := by
  have front' : row.Holds 0 slot.front := @TokenRow.holds_of_split row _ [] _ _ tokens begins
  have back' : row.Holds (front.length + inner.length) slot.back := by
    rw [← List.length_append]
    refine @TokenRow.holds_of_split row _ _ _ [] ?_ ends
    rw [tokens, List.append_nil, List.append_assoc]
  have moves : front.length < front.length + inner.length := by
    obtain ⟨p, rest, rfl, known⟩ := written.starts
    exact (between.head known).2.2.2.le
  obtain ⟨text, sign, known⟩ := TypeSlot.back_ends back'
  obtain ⟨i, length⟩ : ∃ i, front.length = i + 1 := by
    rw [begins.length_eq]
    cases slot <;> exact ⟨_, rfl⟩
  have extent := written.skipType_eq (Nat.le_refl _) sized (length ▸ between)
    (length ▸ TokenRow.lt_of_isPunct sign) (length ▸ sign) known
  rw [← length] at extent
  refine ⟨front', begins.length_eq ▸ extent, back', ?_, begins.length_eq ▸ moves⟩
  rw [TokenRow.size, ← Array.length_toList, tokens, List.length_append, List.length_append,
    ends.length_eq, Nat.add_assoc]

/-- When the walk over a text blanks what lies from one token to another, the tokens around it are
left. -/
theorem eraseTypes_of_scan {source : String} (front vs : List Token) {us back : List Token}
    {u v : Token} {a b : Nat} {ls ms : List Lexeme} {row : TokenRow}
    (whole : .ofTokens source.toList (front ++ u :: us) = row)
    (success : tokenize ⟨false, true⟩ source = .ok (front ++ u :: us))
    (same : front ++ u :: us = vs ++ v :: back) (first : row.get? a = some u)
    (last : row.get? b = some v) (less : a < b)
    (walked : row.start a < row.stop b → ∀ fuel, ∃ types,
      (Erase.scan row row.size (fuel + 16) 0 none 0).run {} =
        .ok ((), { blanks := [⟨row.start a, row.stop b⟩], typeNames := types }))
    (shows : List.Forall₂ Token.Shows front ls) (shows' : List.Forall₂ Token.Shows back ms)
    (distinct : Lexeme.Distinct ls) (distinct' : Lexeme.Distinct ms) :
    ∃ out ts, eraseTypes false source = .ok out ∧ tokenize ⟨false, false⟩ out = .ok ts ∧
      List.Forall₂ Token.Shows ts (ls ++ ms) ∧ (ls ++ ms = [] → isGap out.toList = true) := by
  subst whole
  have grows := TokenRow.start_lt_stop_of_spanned (tokenize_spanned success) less
    (TokenRow.lt_of_get? last)
  obtain ⟨types, walked⟩ := walked grows (16 * source.toList.length + 16)
  have erased : erasureOf source.toList (front ++ u :: us) = .ok
      { blanks := [⟨u.start, v.stop⟩], typeNames := types } := by
    have enough : 16 * source.toList.length + 16 + 16 = erasureAllowance source.toList := by
      rw [erasureAllowance]
      omega
    rw [enough, TokenRow.start_of_get? first, TokenRow.stop_of_get? last] at walked
    rw [erasureOf, bind_of_ok walked]
    rfl
  rw [TokenRow.start_of_get? first, TokenRow.stop_of_get? last] at grows
  exact eraseTypes_remains success same erased rfl grows shows shows' distinct distinct'

/-- The row of a declaration: in front of what stands behind the type is its last token. -/
theorem TypeSlot.row_fills {slot : TypeSlot} {source : String} {front types back : List Token}
    {parts : List TypePart} {row : TokenRow}
    (success : tokenize ⟨false, true⟩ source = .ok (front ++ (types ++ back)))
    (whole : .ofTokens source.toList (front ++ (types ++ back)) = row)
    (begins : List.Forall₂ Token.Shows front slot.front)
    (ends : List.Forall₂ Token.Shows back slot.back)
    (behind : types.getLast?.any Token.isComment = false) (written : Written .type parts)
    (between : row.Between front.length 0 parts
      (front.length + (types.filter (!·.isComment)).length) 0) :
    ∃ init inner v, types = init ++ [v] ∧ row.tokens.toList = front ++ (inner ++ v :: back) ∧
      slot.Fills row (front.length + inner.length + 1) := by
  have tokens : row.tokens.toList = front ++ (types.filter (!·.isComment) ++ back) := by
    rw [← whole, TokenRow.ofTokens, List.filter_append, List.filter_append, filter_of_shows begins,
      filter_of_shows ends]
  have sized (k : Nat) (t : Token) (found : row.get? k = some t) :
      t.stop = t.start + byteLength t.text.toList := by
    obtain ⟨tiles, _⟩ := tokenize_tiles success
    subst whole
    obtain ⟨_, _, _, _, _, _, _, stops⟩ := tiles.of_mem (TokenRow.mem_of_get? found)
    exact stops.symm
  have fills := slot.fills tokens sized begins ends written between
  rcases types.eq_nil_or_concat with rfl | ⟨init, v, rfl⟩
  · exact absurd fills.begins (by rw [begins.length_eq]; exact Nat.lt_irrefl _)
  · rw [List.concat_eq_append] at behind tokens fills ⊢
    have noComment : v.isComment = false := by
      rwa [List.getLast?_concat] at behind
    have filtered : (init ++ [v]).filter (!·.isComment) = init.filter (!·.isComment) ++ [v] := by
      rw [List.filter_append, List.filter_cons, noComment]
      rfl
    rw [filtered] at tokens fills
    rw [List.length_append] at fills
    exact ⟨init, _, v, rfl, by rw [tokens, List.append_assoc]; rfl, fills⟩

/-- Whatever type stands in a declaration, what is left are the tokens around it. -/
theorem TypeSlot.eraseTypes_leaves (slot : TypeSlot) (source : String) (front types back : List Token)
    (parts : List TypePart)
    (success : tokenize ⟨false, true⟩ source = .ok (front ++ (types ++ back)))
    (begins : List.Forall₂ Token.Shows front slot.front)
    (ends : List.Forall₂ Token.Shows back slot.back)
    (behind : types.getLast?.any Token.isComment = false) (written : Written .type parts)
    (between : (TokenRow.ofTokens source.toList (front ++ (types ++ back))).Between front.length 0 parts
      (front.length + (types.filter (!·.isComment)).length) 0) :
    ∃ out ts, eraseTypes false source = .ok out ∧ tokenize ⟨false, false⟩ out = .ok ts ∧
      List.Forall₂ Token.Shows ts slot.left ∧ (slot.left = [] → isGap out.toList = true) := by
  obtain ⟨init, inner, v, rfl, tokens, fills⟩ :=
    row_fills success rfl begins ends behind written between
  have last : (TokenRow.ofTokens source.toList (front ++ (init ++ [v] ++ back))).get?
      (front.length + inner.length) = some v := by
    rw [← List.length_append]
    exact TokenRow.get?_of_split (by rw [tokens, List.append_assoc])
  have next {t : Token} {others : List Token} (split : back = t :: others) :
      (TokenRow.ofTokens source.toList (front ++ (init ++ [v] ++ back))).get?
        (front.length + inner.length + 1) = some t := by
    have length : front.length + inner.length + 1 = (front ++ (inner ++ [v])).length := by
      rw [List.length_append, List.length_append, Nat.add_assoc]
      rfl
    rw [length]
    exact TokenRow.get?_of_split (by rw [tokens, split, List.append_assoc, List.append_assoc]; rfl)
  cases slot with
  | constant x value =>
      obtain ⟨c, _, const, names, rfl⟩ := List.forall₂_cons_right_iff.mp begins
      obtain ⟨n, _, name, colons, rfl⟩ := List.forall₂_cons_right_iff.mp names
      obtain ⟨colon, _, _, nothing, rfl⟩ := List.forall₂_cons_right_iff.mp colons
      obtain rfl := List.forall₂_nil_right_iff.mp nothing
      exact eraseTypes_of_scan [c, n] ([c, n, colon] ++ init) rfl success (by simp)
        (@TokenRow.get?_of_split _ [c, n] _ colon tokens) last (Nat.lt_of_succ_lt_succ fills.begins)
        (fun grows fuel => ⟨[], Erase.scan_constant fills.front fills.extent grows fills.back
          fills.size fuel⟩) (.cons const (.cons name .nil)) ends
        (.cons (by decide) (by decide) (.inr ⟨rfl, rfl⟩) (.single x.whole fun same => nomatch same))
        (.cons (by decide) (by decide) (.inl value.startsOperand.1) (.cons value.isWhole
          (by cases value <;> exact fun same => nomatch same) (.inl (by cases value <;> rfl))
          (.single (by decide) (by decide))))
  | synonym x =>
      obtain ⟨c, others, _, _, rfl⟩ := List.forall₂_cons_right_iff.mp begins
      obtain ⟨semicolon, _, _, nothing, rfl⟩ := List.forall₂_cons_right_iff.mp ends
      obtain rfl := List.forall₂_nil_right_iff.mp nothing
      exact eraseTypes_of_scan [] (c :: (others ++ (init ++ [v]))) rfl success (by simp)
        (@TokenRow.get?_of_split _ [] _ c tokens) (next rfl) (Nat.succ_pos _)
        (fun grows fuel => ⟨[x.text], Erase.scan_alias fills.front fills.extent grows fills.back
          fills.size (fuel + 13)⟩) .nil .nil .nil .nil
  | result f =>
      obtain ⟨c, _, function, names, rfl⟩ := List.forall₂_cons_right_iff.mp begins
      obtain ⟨n, _, name, signs, rfl⟩ := List.forall₂_cons_right_iff.mp names
      obtain ⟨opening, _, opens, signs', rfl⟩ := List.forall₂_cons_right_iff.mp signs
      obtain ⟨closing, _, closes, colons, rfl⟩ := List.forall₂_cons_right_iff.mp signs'
      obtain ⟨colon, _, _, nothing, rfl⟩ := List.forall₂_cons_right_iff.mp colons
      obtain rfl := List.forall₂_nil_right_iff.mp nothing
      exact eraseTypes_of_scan [c, n, opening, closing]
        ([c, n, opening, closing, colon] ++ init) rfl success (by simp)
        (@TokenRow.get?_of_split _ [c, n, opening, closing] _ colon tokens) last
        (Nat.lt_of_succ_lt_succ fills.begins)
        (fun grows fuel => ⟨[], Erase.scan_function fills.front fills.extent grows fills.back
          fills.size fuel⟩) (.cons function (.cons name (.cons opens (.cons closes .nil)))) ends
        (.cons (by decide) (by decide) (.inr ⟨rfl, rfl⟩) (.cons f.whole (fun same => nomatch same)
          (.inl rfl) (.cons (by decide) (by decide) (.inl rfl) (.single (by decide) (by decide)))))
        (.cons (by decide) (by decide) (.inl rfl) (.single (by decide) (by decide)))

/-! ## A type with nested angles -/

/-- The kinds of tokens without parts. -/
inductive LeafKind where
  | word
  | punct
  | number
deriving DecidableEq

namespace LeafKind

def shape : LeafKind → Shape
  | word => .word
  | punct => .punct
  | number => .number

def ofShape : Shape → Option LeafKind
  | .word => some word
  | .punct => some punct
  | .number => some number
  | _ => none

theorem shape_of_ofShape {shape : Shape} {kind : LeafKind} (same : ofShape shape = some kind) :
    shape = kind.shape := by
  cases shape <;> cases same <;> rfl

end LeafKind

theorem eq_map_of_kinds {ts : List Token} {leaves : List (LeafKind × Nat × Nat × String)}
    (same : ts.mapM (fun t => (LeafKind.ofShape t.shape).map fun kind =>
      (kind, t.start, t.stop, t.text)) = some leaves) :
    ts = leaves.map fun l => ⟨l.1.shape, l.2.1, l.2.2.1, l.2.2.2⟩ := by
  induction ts generalizing leaves with
  | nil =>
      cases same
      rfl
  | cons t ts ih =>
      rw [List.mapM_cons] at same
      obtain ⟨leaf, here, same⟩ := Option.bind_eq_some_iff.mp same
      obtain ⟨others, behind, same⟩ := Option.bind_eq_some_iff.mp same
      obtain ⟨kind, known, rfl⟩ := Option.map_eq_some_iff.mp here
      cases same
      obtain ⟨shape, start, stop, text⟩ := t
      rw [List.map_cons, ← ih behind, ← LeafKind.shape_of_ofShape known]

theorem TokenRow.breakBefore_of_inline {row : TokenRow} (inline : row.lineFeeds = []) (i : Nat) :
    row.breakBefore i = false := by
  unfold TokenRow.breakBefore TokenRow.breakBetween
  rw [inline]
  split
  · rfl
  · split <;> rfl

theorem TokenRow.Between.unbroken {row : TokenRow} {i j l : Nat} {t : Token} {ps : List TypePart}
    (inline : row.breakBefore i = false) (found : row.get? i = some t) (noRun : t.isRun = false)
    (others : row.Between (i + 1) 0 ps j l) : row.Between i 0 (.token t false :: ps) j l :=
  inline ▸ .token found noRun others

/-- Two angles that close in one token. -/
def nestedAngles : String := "const m: M<S, L<-1[]>> = e;"

def nestedFront : List Token :=
  [⟨.word, 0, 5, "const"⟩, ⟨.word, 6, 7, "m"⟩, ⟨.punct, 7, 8, ":"⟩]

def nestedType : List Token :=
  [⟨.word, 9, 10, "M"⟩, ⟨.punct, 10, 11, "<"⟩, ⟨.word, 11, 12, "S"⟩, ⟨.punct, 12, 13, ","⟩,
    ⟨.word, 14, 15, "L"⟩, ⟨.punct, 15, 16, "<"⟩, ⟨.punct, 16, 17, "-"⟩, ⟨.number, 17, 18, "1"⟩,
    ⟨.punct, 18, 19, "["⟩, ⟨.punct, 19, 20, "]"⟩, ⟨.punct, 20, 22, ">>"⟩]

def nestedBack : List Token :=
  [⟨.punct, 23, 24, "="⟩, ⟨.word, 25, 26, "e"⟩, ⟨.punct, 26, 27, ";"⟩]

theorem TypeSlot.eraseTypes_leaves_nested : ∃ out ts, eraseTypes false nestedAngles = .ok out ∧
    tokenize ⟨false, false⟩ out = .ok ts ∧ List.Forall₂ Token.Shows ts
      [.word "const", .word "m", .sign .equals, .word "e", .sign .semicolon] := by
  have read : ((tokenizeWithin (allowance nestedAngles.toList) ⟨false, true⟩
      nestedAngles).toOption.bind fun ts => ts.mapM (fun t => (LeafKind.ofShape t.shape).map fun kind =>
        (kind, t.start, t.stop, t.text))) = some
      [(.word, 0, 5, "const"), (.word, 6, 7, "m"), (.punct, 7, 8, ":"), (.word, 9, 10, "M"),
        (.punct, 10, 11, "<"), (.word, 11, 12, "S"), (.punct, 12, 13, ","), (.word, 14, 15, "L"),
        (.punct, 15, 16, "<"), (.punct, 16, 17, "-"), (.number, 17, 18, "1"), (.punct, 18, 19, "["),
        (.punct, 19, 20, "]"), (.punct, 20, 22, ">>"), (.punct, 23, 24, "="), (.word, 25, 26, "e"),
        (.punct, 26, 27, ";")] := by
    decide +kernel
  obtain ⟨ts, success, known⟩ := tokenize_of_read read
  obtain rfl : ts = nestedFront ++ (nestedType ++ nestedBack) := eq_map_of_kinds known
  have inline := @TokenRow.breakBefore_of_inline
    (.ofTokens nestedAngles.toList (nestedFront ++ (nestedType ++ nestedBack))) (by decide)
  have between := TokenRow.Between.unbroken (inline 3) rfl rfl <| .unbroken (inline 4) rfl rfl <|
    .unbroken (inline 5) rfl rfl <| .unbroken (inline 6) rfl rfl <| .unbroken (inline 7) rfl rfl <|
    .unbroken (inline 8) rfl rfl <| .unbroken (inline 9) rfl rfl <| .unbroken (inline 10) rfl rfl <|
    .unbroken (inline 11) rfl rfl <| .unbroken (inline 12) rfl rfl <|
    .inside rfl rfl (by decide) <| .last rfl rfl rfl <| .refl 14 0
  obtain ⟨out, ts, erased, left, shows, _⟩ :=
    TypeSlot.eraseTypes_leaves (.constant ⟨"m", by decide, by decide⟩
      (.name ⟨"e", by decide, by decide⟩)) nestedAngles nestedFront nestedType nestedBack _
      success (.cons ⟨rfl, rfl⟩ (.cons ⟨rfl, rfl⟩ (.cons ⟨rfl, rfl⟩ .nil)))
      (.cons ⟨rfl, rfl⟩ (.cons ⟨rfl, rfl⟩ (.cons ⟨rfl, rfl⟩ .nil))) rfl
      (@Written.applied [_] [_, _, _, _, _, _, _, _, _] _ (.one rfl) rfl rfl
        (@Written.moreArguments [_] [_, _, _, _, _, _, _] _ (.name (.one rfl)) rfl (.lastArgument
          (@Written.applied [_] [_, _, _, _] _ (.one rfl) rfl rfl (.lastArgument
            (@Written.array [_, _] _ _ (.negative rfl rfl) rfl rfl rfl)))))) between
  exact ⟨out, ts, erased, left, shows⟩

end JsxPreview.Source
