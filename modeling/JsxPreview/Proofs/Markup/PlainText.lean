import JsxPreview.Proofs.Markup.Marks
import JsxPreview.Proofs.Markup.Paragraphs

/-! # Plain text of markup

Of markup whose tags have plain names, plain text shows the characters between the tags and a line feed
for every end of a block, in paragraphs (`plainText_pieces`).  None of the replacements that it makes one
after the other finds anything in a text or in what an earlier one put. -/
set_option autoImplicit false
namespace JsxPreview.Markup

open JsxPreview.Text

/-! ## What the finders find in plain markup -/

theorem afterWord?_other {c : Char} (other : c ≠ '<') (word s : List Char) :
    afterWord? ('<' :: word) (c :: s) = none := by
  rw [afterWord?, startsWithWord_other other]
  rfl

theorem afterTagEnd?_suffix {s rest : List Char} (found : afterTagEnd? s = some rest) : rest <:+ s := by
  unfold afterTagEnd? at found
  split at found
  case h_1 dropped =>
    cases found
    exact (List.suffix_cons _ rest).trans (dropped ▸ List.dropWhile_suffix _)
  case h_2 => cases found

theorem hiddenElement_findsTags : FindsTags hiddenElement := by
  intro c s other
  rw [hiddenElement, List.findSome?_eq_none_iff]
  intro tag _
  rw [afterWord?_other other]
  rfl

/-- Nothing is hidden: a tag may begin as one that hides, but none ends what is hidden. -/
theorem hiddenElement_nothing {inside : List Char} {fits : Inside inside} {ms : List Mark}
    (plain : ∀ m ∈ Mark.tag inside fits :: ms, m.piece.IsPlain) :
    hiddenElement ('<' :: (inside ++ '>' :: written ms)) = none := by
  rw [hiddenElement, List.findSome?_eq_none_iff]
  intro tag member
  have shape : ∀ tag ∈ hiddenTags, '>' ∉ tag ∧ isPlainTag (String.ofList tag) = false := by decide
  obtain ⟨noEnd, hidden⟩ := shape tag member
  have absent := absent_written noEnd hidden plain
  rw [written_cons, Mark.text, List.cons_append, List.append_assoc, List.singleton_append] at absent
  cases found : afterWord? ('<' :: tag) ('<' :: (inside ++ '>' :: written ms)) with
  | none => rfl
  | some rest =>
      cases ended : afterTagEnd? rest with
      | none => simp [ended]
      | some rest' =>
          have behind : rest' <:+ '<' :: (inside ++ '>' :: written ms) := by
            refine (afterTagEnd?_suffix ended).trans ?_
            rw [afterWord?] at found
            split at found
            · cases found
              exact List.drop_suffix _ _
            · cases found
          have nowhere : untilWord? (endTag tag) rest' = none :=
            untilWord?_absent (List.cons_ne_nil _ _) fun t more => absent t (more.trans behind)
          simp [ended, nowhere]

theorem lineBreak_findsTags : FindsTags lineBreak := by
  intro c s other
  rw [lineBreak, show "<br".toList = '<' :: ['b', 'r'] from rfl, afterWord?_other other]
  rfl

theorem link_findsTags : FindsTags link := by
  intro c s other
  rw [link, show "<a ".toList = '<' :: ['a', ' '] from rfl, afterWord?_other other]
  rfl

theorem lineBreak_eq_none {s rest behind : List Char} {c : Char}
    (begins : afterWord? "<br".toList s = some rest) (next : rest.dropWhile isSpace = c :: behind)
    (noSlash : c ≠ '/') (noEnd : c ≠ '>') : lineBreak s = none := by
  rw [lineBreak, begins]
  simp only [Option.bind_eq_bind, Option.bind_some, next]
  split
  case h_1 same => exact absurd (List.cons.inj same).1 noSlash
  case h_2 same => exact absurd (List.cons.inj same).1 noEnd
  case h_3 => rfl

/-- A tag of a plain name is no line break: a name that begins as its name goes on. -/
theorem lineBreak_nothing {inside : List Char} (named : PlainInside inside) (rest : List Char) :
    lineBreak ('<' :: (inside ++ '>' :: rest)) = none := by
  have word : "<br".toList = ['<', 'b', 'r'] := rfl
  by_cases starts : startsWithWord ['<', 'b', 'r'] ('<' :: (inside ++ '>' :: rest)) = true
  · obtain ⟨c, more, rfl, char⟩ := named.goes_on
      (by simp [IsNameChar]) (by decide) (List.cons_ne_nil _ _) starts
    have begins : afterWord? "<br".toList ('<' :: (['b', 'r'] ++ c :: more ++ '>' :: rest)) =
        some (c :: (more ++ '>' :: rest)) := by
      rw [word, afterWord?, if_pos starts]
      rfl
    refine lineBreak_eq_none begins
      (List.dropWhile_cons_of_neg (by rw [char.noSpace]; decide)) ?_ ?_
    · rintro rfl
      exact absurd char.range (by decide)
    · rintro rfl
      exact absurd char.range (by decide)
  · rw [lineBreak, word, afterWord?, if_neg starts]
    rfl

/-- It is no link either: the name of one stands in front of a space. -/
theorem link_nothing {inside : List Char} (named : PlainInside inside) (rest : List Char) :
    link ('<' :: (inside ++ '>' :: rest)) = none := by
  have word : "<a ".toList = ['<', 'a', ' '] := rfl
  have other : ¬ startsWithWord ['<', 'a', ' '] ('<' :: (inside ++ '>' :: rest)) = true := by
    intro starts
    have begins : startsWithWord ['<', 'a'] ('<' :: (inside ++ '>' :: rest)) = true :=
      startsWithWord_iff.mpr ((List.prefix_append ['<', 'a'] [' ']).trans (startsWithWord_iff.mp starts))
    obtain ⟨c, more, rfl, char⟩ := named.goes_on
      (by simp [IsNameChar]) (by decide) (List.cons_ne_nil _ _) begins
    have third := (startsWithWord_cons.mp (startsWithWord_cons.mp
      (startsWithWord_cons.mp starts).2).2).1
    rw [char.toLower_eq] at third
    rw [← third] at char
    exact absurd char.range (by decide)
  rw [link, word, afterWord?, if_neg other]
  rfl

/-! ## Ends of blocks, and all other tags -/

/-- Elements behind which a line of plain text ends. -/
def endsLine (name : String) : Bool :=
  ["p", "div", "h1", "h2", "h3", "h4", "h5", "h6", "tr", "li", "table", "section"].contains name

theorem mem_blockTags {name : List Char} : name ∈ blockTags ↔ endsLine (String.ofList name) = true := by
  rw [blockTags, List.mem_map, endsLine, List.contains_iff_mem]
  constructor
  · rintro ⟨s, member, rfl⟩
    rwa [String.ofList_toList]
  · exact fun member => ⟨_, member, String.toList_ofList⟩

/-- The end of a block becomes a line feed, and every other mark stays. -/
def Mark.endedLine : Mark → List Mark
  | .tag ('/' :: name) fits =>
      if endsLine (String.ofList name) then [.char '\n'] else [.tag ('/' :: name) fits]
  | m => [m]

/-- Tags go, and characters stay. -/
def Mark.untagged : Mark → List Mark
  | .char c => [.char c]
  | .tag .. => []

theorem blockEnd_findsTags : FindsTags blockEnd := by
  intro c s other
  rw [blockEnd, List.findSome?_eq_none_iff]
  intro tag _
  rw [show endTag tag = '<' :: '/' :: (tag ++ ['>']) from rfl, afterWord?_other other]
  rfl

/-- The first of some keys that has a value, where one alone can have one. -/
theorem findSome?_single {α β : Type} [DecidableEq α] {keys : List α} {f : α → Option β} (key : α)
    (value : β) (each : ∀ a ∈ keys, f a = if a = key then some value else none) :
    keys.findSome? f = if key ∈ keys then some value else none := by
  induction keys with
  | nil => rfl
  | cons a keys ih =>
      rw [List.forall_mem_cons] at each
      rw [List.findSome?_cons, each.1, ih each.2]
      by_cases here : a = key
      · simp [here]
      · simp [here, Ne.symm here]

theorem blockEnd_closing {name : List Char} (plain : isPlainTag (String.ofList name) = true)
    (rest : List Char) : blockEnd ('<' :: '/' :: (name ++ '>' :: rest)) =
      if endsLine (String.ofList name) then some (name.length + 2, ['\n']) else none := by
  obtain ⟨-, -, -, -, chars⟩ := cons_of_isPlainTag plain
  have noEnd : ∀ tag ∈ blockTags, '>' ∉ tag := by decide
  rw [blockEnd, findSome?_single name (name.length + 2, ['\n'])]
  · simp only [mem_blockTags]
  · intro tag member
    have starts := startsWithWord_endTag (noEnd tag member) chars rest
    rw [afterWord?]
    by_cases here : tag = name
    · rw [if_pos (starts.mpr here), if_pos here, here]
      have dropped : ('<' :: '/' :: (name ++ '>' :: rest)).drop (endTag name).length = rest := by
        rw [show '<' :: '/' :: (name ++ '>' :: rest) = endTag name ++ rest by simp [endTag],
          List.drop_left]
      rw [dropped]
      simp [found]
      omega
    · rw [if_neg (mt starts.mp here), if_neg here]
      rfl

theorem blockEnd_starting {c : Char} (small : c.isLower = true) (named : IsNameChar c)
    (s : List Char) : blockEnd ('<' :: c :: s) = none := by
  rw [blockEnd, List.findSome?_eq_none_iff]
  intro tag _
  rw [afterWord?, if_neg]
  · rfl
  · intro starts
    have second := (startsWithWord_cons.mp (startsWithWord_cons.mp starts).2).1
    rw [named.toLower_eq] at second
    rw [← second] at small
    cases small

theorem anyTag_findsTags : FindsTags anyTag := by
  intro c s other
  unfold anyTag
  split
  case h_1 same => exact absurd (List.cons.inj same).1 other
  case h_2 => rfl

theorem anyTag_tag {inside : List Char} (fits : Inside inside) (nonempty : inside ≠ [])
    (rest : List Char) :
    anyTag ('<' :: (inside ++ '>' :: rest)) = some (inside.length + 1, []) := by
  cases inside with
  | nil => exact absurd rfl nonempty
  | cons c inside =>
      have apart := fits.noEnd
      rw [List.mem_cons, not_or] at apart
      have ended : afterTagEnd? (inside ++ '>' :: rest) = some rest := by
        rw [afterTagEnd?, List.dropWhile_append_of_pos fun d member =>
          bne_iff_ne.mpr (ne_of_mem_of_not_mem member apart.2), List.dropWhile_cons_of_neg (by decide)]
      rw [List.cons_append, anyTag, if_neg (Ne.symm apart.1), ended]
      simp [found]
      omega

/-- What plain text shows of a piece: characters, and the end of a line for the end of a block. -/
def Piece.shown : Piece → List Char
  | .char c => [c]
  | .closing name => if endsLine (String.ofList name) then ['\n'] else []
  | .opening _ | .selfClosing _ => []

theorem blockEnd_written {ms : List Mark} (plain : ∀ m ∈ ms, m.piece.IsPlain) :
    replaceFound blockEnd (written ms) = written (ms.flatMap Mark.endedLine) := by
  refine replaceFound_written _ blockEnd_findsTags (fun c => rfl) (fun inside fits ms named _ => ?_) plain
  cases plainInside_of_isPlain named with
  | closing name plainName =>
      rw [List.cons_append, blockEnd_closing plainName, Mark.endedLine]
      by_cases ends : endsLine (String.ofList name) = true
      · rw [if_pos ends, if_pos ends]
        exact .inr rfl
      · rw [if_neg ends, if_neg ends]
        exact .inl ⟨rfl, rfl⟩
  | starting name behind plainName _ =>
      obtain ⟨c, rest, rfl, small, chars⟩ := cons_of_isPlainTag plainName
      refine .inl ⟨blockEnd_starting small (chars c (List.mem_cons_self ..)) _, ?_⟩
      rw [Mark.endedLine]
      intro name' fits' same
      have first : c = '/' := (List.cons.inj (Mark.tag.inj same)).1
      rw [first] at small
      cases small

theorem isPlain_endedLine {ms : List Mark} (plain : ∀ m ∈ ms, m.piece.IsPlain) :
    ∀ m ∈ ms.flatMap Mark.endedLine, m.piece.IsPlain := by
  intro m member
  obtain ⟨m', member', here⟩ := List.mem_flatMap.mp member
  have named := plain m' member'
  unfold Mark.endedLine at here
  split at here
  case h_1 =>
    split at here
    · rw [List.mem_singleton.mp here]
      trivial
    · rwa [List.mem_singleton.mp here]
  case h_2 => rwa [List.mem_singleton.mp here]

theorem plainInside_ne_nil {inside : List Char} (named : PlainInside inside) : inside ≠ [] := by
  cases named with
  | closing name _ => exact List.cons_ne_nil _ _
  | starting name behind plain _ =>
      obtain ⟨c, rest, rfl, -⟩ := cons_of_isPlainTag plain
      exact List.cons_ne_nil _ _

theorem anyTag_written {ms : List Mark} (plain : ∀ m ∈ ms, m.piece.IsPlain) :
    replaceFound anyTag (written ms) = written (ms.flatMap Mark.untagged) :=
  replaceFound_written Mark.untagged anyTag_findsTags (fun _ => rfl)
    (fun _ fits ms named _ =>
      .inr (anyTag_tag fits (plainInside_ne_nil (plainInside_of_isPlain named)) (written ms))) plain

/-- What stays of a mark is what its piece shows. -/
theorem written_endedLine (m : Mark) :
    written (m.endedLine.flatMap Mark.untagged) = m.piece.shown.flatMap escapeChar := by
  unfold Mark.endedLine
  split
  case h_1 name fits =>
    rw [Mark.piece, tagOf, Piece.shown]
    split <;> rfl
  case h_2 noClosing =>
    cases m with
    | char c => rfl
    | tag inside fits =>
        rw [Mark.piece]
        unfold tagOf
        split
        case h_1 name => exact absurd rfl (noClosing name fits)
        case h_2 =>
          dsimp only
          split <;> rfl

/-- Of plain markup without its tags stay the characters, still escaped, and ends of lines. -/
theorem withoutTags_written {ms : List Mark} (plain : ∀ m ∈ ms, m.piece.IsPlain) :
    withoutTags (written ms) = ((ms.map Mark.piece).flatMap Piece.shown).flatMap escapeChar := by
  have passes : withoutTags (written ms) = replaceFound anyTag (replaceFound blockEnd
      (replaceFound link (replaceFound lineBreak (replaceFound hiddenElement (written ms))))) := rfl
  rw [passes,
    replaceFound_nothing hiddenElement_findsTags (fun _ _ _ _ => hiddenElement_nothing) plain,
    replaceFound_nothing lineBreak_findsTags (fun _ _ _ named _ => lineBreak_nothing named _) plain,
    replaceFound_nothing link_findsTags (fun _ _ _ named _ => link_nothing named _) plain,
    blockEnd_written plain, anyTag_written (isPlain_endedLine plain)]
  clear plain passes
  induction ms with
  | nil => rfl
  | cons m ms ih =>
      rw [List.flatMap_cons, List.flatMap_append, written_append, written_endedLine, ih]
      simp

/-! ## References -/

theorem replaceAll_other {c d : Char} (other : c ≠ d) (part new rest : List Char) :
    replaceAll (d :: part) new (c :: rest) = c :: replaceAll (d :: part) new rest := by
  have apart : (d == c) = false := beq_eq_false_iff_ne.mpr other.symm
  rw [replaceAll, replaceFrom, List.isPrefixOf, apart, Bool.false_and, if_neg (by decide)]
  rfl

/-- Replacing that takes each character of a text from one spelling to another. -/
theorem replaceAll_spelled {part new : List Char} {before after : Char → List Char}
    (each : ∀ c rest, replaceAll part new (before c ++ rest) = after c ++ replaceAll part new rest)
    (s : List Char) : replaceAll part new (s.flatMap before) = s.flatMap after := by
  induction s with
  | nil => rfl
  | cons c s ih => rw [List.flatMap_cons, each, ih, List.flatMap_cons]

/-- A character with some references resolved. -/
def stillEscaped (resolved : List Char) (c : Char) : List Char :=
  if c ∈ resolved then [c] else escapeChar c

theorem stillEscaped_plain {c : Char} (noAmp : c ≠ '&') (noLess : c ≠ '<') (noGreater : c ≠ '>')
    (resolved : List Char) : stillEscaped resolved c = [c] := by
  rw [stillEscaped, escapeChar_plain noAmp noLess noGreater, ite_self]

/-- A reference that begins as those of escaped text do resolves what it stands for. -/
theorem replaceAll_stillEscaped {part new before : List Char} (after : List Char)
    (amp : ∀ rest, replaceAll ('&' :: part) new (stillEscaped before '&' ++ rest) =
      stillEscaped after '&' ++ replaceAll ('&' :: part) new rest)
    (less : ∀ rest, replaceAll ('&' :: part) new (stillEscaped before '<' ++ rest) =
      stillEscaped after '<' ++ replaceAll ('&' :: part) new rest)
    (greater : ∀ rest, replaceAll ('&' :: part) new (stillEscaped before '>' ++ rest) =
      stillEscaped after '>' ++ replaceAll ('&' :: part) new rest) (s : List Char) :
    replaceAll ('&' :: part) new (s.flatMap (stillEscaped before)) =
      s.flatMap (stillEscaped after) := by
  refine replaceAll_spelled (fun c rest => ?_) s
  by_cases isAmp : c = '&'
  · exact isAmp ▸ amp rest
  by_cases isLess : c = '<'
  · exact isLess ▸ less rest
  by_cases isGreater : c = '>'
  · exact isGreater ▸ greater rest
  · rw [stillEscaped_plain isAmp isLess isGreater, stillEscaped_plain isAmp isLess isGreater]
    exact replaceAll_other isAmp part new rest

/-- Escaped text is resolved to the text: the reference for the ampersand goes last, so no reference
appears that the text did not have. -/
theorem resolveReferences_escaped (s : List Char) : resolveReferences (s.flatMap escapeChar) = s := by
  have passes (s : List Char) : resolveReferences s =
      replaceAll ['&', 'a', 'm', 'p', ';'] ['&'] (replaceAll ['&', 'q', 'u', 'o', 't', ';'] ['"']
        (replaceAll ['&', 'g', 't', ';'] ['>'] (replaceAll ['&', 'l', 't', ';'] ['<']
          (replaceAll ['&', 'n', 'b', 's', 'p', ';'] [' '] s)))) := rfl
  have start : s.flatMap escapeChar = s.flatMap (stillEscaped []) :=
    congrArg (s.flatMap ·) (funext fun c => (if_neg List.not_mem_nil).symm)
  have done (c : Char) : stillEscaped ['&', '>', '<'] c = [c] := by
    by_cases escaped : c ∈ ['&', '>', '<']
    · exact if_pos escaped
    · obtain ⟨noAmp, noGreater, noLess⟩ : c ≠ '&' ∧ c ≠ '>' ∧ c ≠ '<' := by simpa using escaped
      exact stillEscaped_plain noAmp noLess noGreater _
  rw [start, passes,
    replaceAll_stillEscaped [] (fun _ => rfl) (fun _ => rfl) (fun _ => rfl),
    replaceAll_stillEscaped ['<'] (fun _ => rfl) (fun _ => rfl) (fun _ => rfl),
    replaceAll_stillEscaped ['>', '<'] (fun _ => rfl) (fun _ => rfl) (fun _ => rfl),
    replaceAll_stillEscaped ['>', '<'] (fun _ => rfl) (fun _ => rfl) (fun _ => rfl),
    replaceAll_stillEscaped ['&', '>', '<'] (fun _ => rfl) (fun _ => rfl) (fun _ => rfl),
    funext done, List.flatMap_singleton']

/-- Plain text of markup with plain tags: what its pieces show, in paragraphs. -/
theorem plainText_pieces {markup : String} {ps : List Piece} (read : pieces markup.toList = some ps)
    (plain : ∀ p ∈ ps, p.IsPlain) :
    plainText markup = String.ofList (cleaned (ps.flatMap Piece.shown)) := by
  obtain ⟨ms, whole, rfl⟩ := marks_of_pieces read
  have plain' : ∀ m ∈ ms, m.piece.IsPlain := fun m member =>
    plain _ (List.mem_map_of_mem member)
  rw [plainText, whole, withoutTags_written plain', resolveReferences_escaped, tidyLines_eq_cleaned]

end JsxPreview.Markup
