import JsxPreview.Markup.Layout
import JsxPreview.Proofs.Markup.Pieces

/-! # Markup as its marks

Markup that can be taken apart is written of marks, each a character or a tag (`marks_of_pieces`).  What
looks for tags by their text finds nothing between them, so replacing what it finds replaces marks by
marks (`replaceFound_written`).  The names of tags are plain here (`isPlainTag`). -/
set_option autoImplicit false
namespace JsxPreview.Markup

open JsxPreview.Text

inductive Mark where
  | char (c : Char)
  | tag (inside : List Char) (fits : Inside inside)

namespace Mark

def text : Mark → List Char
  | .char c => escapeChar c
  | .tag inside _ => '<' :: (inside ++ ['>'])

def piece : Mark → Piece
  | .char c => .char c
  | .tag inside _ => tagOf inside

end Mark

def written (ms : List Mark) : List Char := ms.flatMap Mark.text

theorem written_cons (m : Mark) (ms : List Mark) : written (m :: ms) = m.text ++ written ms :=
  List.flatMap_cons

theorem written_append (ms ns : List Mark) : written (ms ++ ns) = written ms ++ written ns :=
  List.flatMap_append

/-! ## Marks of markup -/

theorem escapeChar_plain {c : Char} (noAmp : c ≠ '&') (noLess : c ≠ '<') (noGreater : c ≠ '>') :
    escapeChar c = [c] := by
  unfold escapeChar
  split <;> first | contradiction | rfl

theorem noStart_escapeChar (c : Char) : '<' ∉ escapeChar c := by
  unfold escapeChar
  split
  case h_4 noAmp noLess noGreater =>
    exact fun member => noLess (List.mem_singleton.mp member).symm
  all_goals decide

/-- The marks of markup outside of tags; inside of a tag, its rest stands in front of them. -/
theorem marks_of_piecesFrom {inside : Option (List Char)} {s : List Char} {ps : List Piece}
    (read : piecesFrom inside s = some ps) :
    ∃ behind ms, Inside behind ∧ match inside with
      | none => s = written ms ∧ ps = ms.map Mark.piece
      | some before => s = behind ++ '>' :: written ms ∧
          ps = tagOf (before ++ behind) :: ms.map Mark.piece := by
  have nothing : Inside [] := ⟨List.not_mem_nil, List.not_mem_nil⟩
  fun_induction piecesFrom inside s generalizing ps with
  | case1 => cases read; exact ⟨[], [], nothing, rfl, rfl⟩
  | case2 s ih =>
      obtain ⟨behind, ms, fits, rfl, rfl⟩ := ih read
      refine ⟨[], .tag behind fits :: ms, nothing, ?_, rfl⟩
      rw [written_cons, Mark.text, List.cons_append, List.append_assoc, List.singleton_append]
  | case4 s ih =>
      obtain ⟨later, found, rfl⟩ := Option.map_eq_some_iff.mp read
      obtain ⟨-, ms, -, rfl, rfl⟩ := ih found
      exact ⟨[], .char '<' :: ms, nothing, rfl, rfl⟩
  | case5 s ih =>
      obtain ⟨later, found, rfl⟩ := Option.map_eq_some_iff.mp read
      obtain ⟨-, ms, -, rfl, rfl⟩ := ih found
      exact ⟨[], .char '>' :: ms, nothing, rfl, rfl⟩
  | case6 s ih =>
      obtain ⟨later, found, rfl⟩ := Option.map_eq_some_iff.mp read
      obtain ⟨-, ms, -, rfl, rfl⟩ := ih found
      exact ⟨[], .char '&' :: ms, nothing, rfl, rfl⟩
  | case8 c s noLess noGreater _ _ _ noAmp ih =>
      obtain ⟨later, found, rfl⟩ := Option.map_eq_some_iff.mp read
      obtain ⟨-, ms, -, rfl, rfl⟩ := ih found
      refine ⟨[], .char c :: ms, nothing, ?_, rfl⟩
      rw [written_cons, Mark.text, escapeChar_plain noAmp noLess noGreater, List.singleton_append]
  | case11 inside s ih =>
      obtain ⟨later, found, rfl⟩ := Option.map_eq_some_iff.mp read
      obtain ⟨-, ms, -, rfl, rfl⟩ := ih found
      exact ⟨[], ms, nothing, rfl, by rw [List.append_nil]⟩
  | case12 inside c s noLess noGreater ih =>
      obtain ⟨behind, ms, fits, rfl, rfl⟩ := ih read
      refine ⟨c :: behind, ms, ⟨?_, ?_⟩, rfl, by rw [List.append_assoc, List.singleton_append]⟩
      · exact fun member => (List.mem_cons.mp member).elim (fun here => noLess here.symm) fits.noStart
      · exact fun member => (List.mem_cons.mp member).elim (fun here => noGreater here.symm) fits.noEnd
  | case3 | case7 | case9 | case10 => cases read

theorem marks_of_pieces {s : List Char} {ps : List Piece} (read : pieces s = some ps) :
    ∃ ms, s = written ms ∧ ps = ms.map Mark.piece := by
  obtain ⟨-, ms, -, whole, parts⟩ := marks_of_piecesFrom read
  exact ⟨ms, whole, parts⟩

/-! ## Plain names of tags -/

/-- Whether a name is a small letter and then small letters, digits and hyphens. -/
def isTagName (name : List Char) : Bool :=
  match name with
  | [] => false
  | c :: rest => c.isLower && rest.all fun d => d.isLower || d.isDigit || d == '-'

/-- Whether a name is the name of a tag that plain text neither hides with what it holds nor writes in
another way. -/
def isPlainTag (name : String) : Bool :=
  isTagName name.toList && !(["style", "script", "head", "title", "br", "a"].contains name)

/-- A character of a tag's name. -/
def IsNameChar (c : Char) : Prop := c.isLower = true ∨ c.isDigit = true ∨ c = '-'

namespace IsNameChar

theorem range {c : Char} (named : IsNameChar c) :
    97 ≤ c.toNat ∧ c.toNat ≤ 122 ∨ 48 ≤ c.toNat ∧ c.toNat ≤ 57 ∨ c.toNat = 45 := by
  rcases named with small | digit | rfl
  · obtain ⟨low, high⟩ := Bool.and_eq_true_iff.mp small
    exact .inl ⟨UInt32.le_iff_toNat_le.mp (of_decide_eq_true low),
      UInt32.le_iff_toNat_le.mp (of_decide_eq_true high)⟩
  · obtain ⟨low, high⟩ := Bool.and_eq_true_iff.mp digit
    exact .inr (.inl ⟨UInt32.le_iff_toNat_le.mp (of_decide_eq_true low),
      UInt32.le_iff_toNat_le.mp (of_decide_eq_true high)⟩)
  · exact .inr (.inr rfl)

theorem toLower_eq {c : Char} (named : IsNameChar c) : c.toLower = c := by
  have range := named.range
  refine dif_neg ?_
  rintro ⟨above, below⟩
  have above : 65 ≤ c.toNat := UInt32.le_iff_toNat_le.mp above
  have below : c.toNat ≤ 90 := UInt32.le_iff_toNat_le.mp below
  omega

theorem noSpace {c : Char} (named : IsNameChar c) : isSpace c = false := by
  have range := named.range
  have other : c ≠ '\ufeff' := by
    rintro rfl
    revert range
    decide
  have blank : isBlank c = false := by
    simp only [isBlank, inRanges, blankRanges, List.any_cons, List.any_nil, Bool.or_false,
      Bool.or_eq_false_iff, Bool.and_eq_false_iff, decide_eq_false_iff_not]
    omega
  rw [isSpace, blank, Bool.false_and, Bool.false_or]
  exact beq_eq_false_iff_ne.mpr other

end IsNameChar

theorem isNameChar_of_isTagName {name : List Char} (fits : isTagName name) {c : Char}
    (member : c ∈ name) : IsNameChar c := by
  cases name with
  | nil => exact absurd member List.not_mem_nil
  | cons first rest =>
      rw [isTagName, Bool.and_eq_true, List.all_eq_true] at fits
      rcases List.mem_cons.mp member with rfl | member
      · exact .inl fits.1
      · simpa [IsNameChar, or_assoc] using fits.2 c member

/-- A character that is no small letter is the lower case of itself alone. -/
theorem eq_of_toLower_eq {c d : Char} (other : d.isLower = false) (lower : c.toLower = d) : c = d := by
  by_cases range : c.val ≥ 'A'.val ∧ c.val ≤ 'Z'.val
  · have above : 65 ≤ c.val.toNat := UInt32.le_iff_toNat_le.mp range.1
    have below : c.val.toNat ≤ 90 := UInt32.le_iff_toNat_le.mp range.2
    have raised : d.val = c.val + ('a'.val - 'A'.val) :=
      lower ▸ congrArg Char.val (dif_pos range)
    have shifted : d.val.toNat = c.val.toNat + 32 := by
      rw [raised, UInt32.toNat_add, show ('a'.val - 'A'.val).toNat = 32 from rfl]
      omega
    have first : 'a'.val.toNat ≤ d.val.toNat := show 97 ≤ _ by omega
    have last : d.val.toNat ≤ 'z'.val.toNat := show _ ≤ 122 by omega
    have small : d.isLower = true := Bool.and_eq_true_iff.mpr
      ⟨decide_eq_true (UInt32.le_iff_toNat_le.mpr first),
        decide_eq_true (UInt32.le_iff_toNat_le.mpr last)⟩
    exact absurd (small.symm.trans other) (by decide)
  · exact (dif_neg range : c.toLower = c).symm.trans lower

/-- A piece that is no tag, or a tag of a plain name. -/
def Piece.IsPlain : Piece → Prop
  | .char _ => True
  | .opening name | .closing name | .selfClosing name => isPlainTag (String.ofList name) = true

/-- What a tag of a plain name holds: the name behind a slash, or in front of a space, a slash or nothing. -/
inductive PlainInside : List Char → Prop where
  | closing (name : List Char) (plain : isPlainTag (String.ofList name) = true) :
      PlainInside ('/' :: name)
  | starting (name behind : List Char) (plain : isPlainTag (String.ofList name) = true)
      (parted : ∀ c ∈ behind.head?, c = ' ' ∨ c = '/') : PlainInside (name ++ behind)

theorem plainInside_of_isPlain {inside : List Char} (plain : (tagOf inside).IsPlain) :
    PlainInside inside := by
  unfold tagOf at plain
  split at plain
  case h_1 name => exact .closing name plain
  case h_2 =>
    have named : isPlainTag
        (String.ofList (inside.takeWhile fun c => c != ' ' && c != '/')) = true := by
      dsimp only at plain
      split at plain <;> exact plain
    rw [← List.takeWhile_append_dropWhile (p := fun c => c != ' ' && c != '/') (l := inside)]
    refine .starting _ _ named fun c first => ?_
    have stops := List.head?_dropWhile_not (fun c => c != ' ' && c != '/') inside
    rw [show (inside.dropWhile _).head? = some c from first] at stops
    simpa [Classical.or_iff_not_imp_left] using stops

/-- A plain name is a letter and then characters of names. -/
theorem cons_of_isPlainTag {name : List Char} (plain : isPlainTag (String.ofList name) = true) :
    ∃ c rest, name = c :: rest ∧ c.isLower = true ∧ ∀ d ∈ name, IsNameChar d := by
  rw [isPlainTag, String.toList_ofList, Bool.and_eq_true] at plain
  cases name with
  | nil => cases plain.1
  | cons c rest =>
      refine ⟨c, rest, rfl, ?_, fun d => isNameChar_of_isTagName plain.1⟩
      have first := plain.1
      rw [isTagName, Bool.and_eq_true] at first
      exact first.1

/-! ## Words in markup -/

theorem startsWithWord_iff {word s : List Char} :
    startsWithWord word s = true ↔ word <+: s.map Char.toLower := by
  rw [startsWithWord, List.isPrefixOf_iff_prefix, List.map_take, List.prefix_take_iff]
  exact and_iff_left le_rfl

theorem startsWithWord_cons {c d : Char} {word s : List Char} :
    startsWithWord (c :: word) (d :: s) = true ↔ c = d.toLower ∧ startsWithWord word s = true := by
  rw [startsWithWord_iff, startsWithWord_iff, List.map_cons, List.cons_prefix_cons]

/-- A word that begins with a start of a tag stands at such a start alone. -/
theorem startsWithWord_other {c : Char} (other : c ≠ '<') (word s : List Char) :
    startsWithWord ('<' :: word) (c :: s) = false :=
  Bool.eq_false_iff.mpr fun starts =>
    other (eq_of_toLower_eq rfl (startsWithWord_cons.mp starts).1.symm)

/-- A word in the characters of names ends where a name ends at the latest. -/
theorem prefix_of_startsWithWord {word name t : List Char} (letters : ∀ c ∈ word, IsNameChar c)
    (named : ∀ c ∈ name, IsNameChar c) (stops : ∀ c ∈ t.head?, ¬ IsNameChar c.toLower)
    (starts : startsWithWord word (name ++ t) = true) : word <+: name := by
  induction word generalizing name with
  | nil => exact List.nil_prefix
  | cons w word ih =>
      rw [List.forall_mem_cons] at letters
      cases name with
      | nil =>
          cases t with
          | nil => exact absurd (startsWithWord_iff.mp starts) (by simp)
          | cons c t => exact absurd ((startsWithWord_cons.mp starts).1 ▸ letters.1) (stops c rfl)
      | cons d name =>
          rw [List.forall_mem_cons] at named
          obtain ⟨same, later⟩ := startsWithWord_cons.mp starts
          rw [named.1.toLower_eq] at same
          exact List.cons_prefix_cons.mpr ⟨same, ih letters.2 named.2 later⟩

/-- A tag of a plain name that begins as a name that is not plain goes on with another character. -/
theorem PlainInside.goes_on {word inside rest : List Char} (letters : ∀ c ∈ word, IsNameChar c)
    (hidden : isPlainTag (String.ofList word) = false) (word_ne : word ≠ [])
    (named : PlainInside inside)
    (starts : startsWithWord ('<' :: word) ('<' :: (inside ++ '>' :: rest)) = true) :
    ∃ c more, inside = word ++ c :: more ∧ IsNameChar c := by
  have second := (startsWithWord_cons.mp starts).2
  cases named with
  | closing name _ =>
      cases word with
      | nil => exact absurd rfl word_ne
      | cons w word =>
          have slash : w = '/' := (startsWithWord_cons.mp second).1
          exact absurd (letters w (List.mem_cons_self ..)).range (by rw [slash]; decide)
  | starting name behind plain parted =>
      obtain ⟨-, -, -, -, chars⟩ := cons_of_isPlainTag plain
      -- behind the name stands a space, a slash or the end of the tag
      have stops : ∀ c ∈ (behind ++ '>' :: rest).head?, ¬ IsNameChar c.toLower := by
        cases behind with
        | nil =>
            rintro c ⟨⟩ char
            exact absurd char.range (by decide)
        | cons d behind =>
            rintro c ⟨⟩ char
            rcases parted d rfl with rfl | rfl <;> exact absurd char.range (by decide)
      rw [List.append_assoc] at second
      obtain ⟨more, rfl⟩ := prefix_of_startsWithWord letters chars stops second
      cases more with
      | nil =>
          rw [List.append_nil, hidden] at plain
          cases plain
      | cons c more =>
          exact ⟨c, more ++ behind, by rw [List.append_assoc, List.cons_append], chars c (by simp)⟩

/-- A word that begins nowhere in a text. -/
def Absent (word s : List Char) : Prop := ∀ t, t <:+ s → startsWithWord word t = false

theorem untilWord?_absent {word s : List Char} (word_ne : word ≠ []) (absent : Absent word s) :
    untilWord? word s = none := by
  induction s with
  | nil =>
      rw [untilWord?, List.isEmpty_eq_false_iff.mpr word_ne]
      rfl
  | cons c s ih =>
      rw [untilWord?, absent _ List.suffix_rfl,
        ih fun t behind => absent t (behind.trans (List.suffix_cons c s))]
      rfl

theorem Absent.append {word s rest : List Char} (plain : '<' ∉ s) (absent : Absent ('<' :: word) rest) :
    Absent ('<' :: word) (s ++ rest) := by
  induction s with
  | nil => exact absent
  | cons c s ih =>
      rw [List.mem_cons, not_or] at plain
      intro t behind
      rcases List.suffix_cons_iff.mp behind with rfl | behind
      · exact startsWithWord_other (Ne.symm plain.1) word _
      · exact ih plain.2 t behind

/-- The end of a tag is found where a tag of that name ends. -/
theorem startsWithWord_endTag {tag name : List Char} (noEnd : '>' ∉ tag)
    (named : ∀ c ∈ name, IsNameChar c) (rest : List Char) :
    startsWithWord (endTag tag) ('<' :: '/' :: (name ++ '>' :: rest)) = true ↔ tag = name := by
  have lower : name.map Char.toLower = name := by
    conv_rhs => rw [← List.map_id name]
    exact List.map_congr_left fun c member => (named c member).toLower_eq
  have noEnd' : '>' ∉ name := fun member => by
    have range := (named _ member).range
    revert range
    decide
  have upTo {a : List Char} (free : '>' ∉ a) (b : List Char) :
      (a ++ '>' :: b).takeWhile (· != '>') = a := by
    rw [List.takeWhile_append_of_pos fun c member => bne_iff_ne.mpr (ne_of_mem_of_not_mem member free),
      List.takeWhile_cons_of_neg (by decide), List.append_nil]
  rw [show endTag tag = '<' :: '/' :: (tag ++ ['>']) from rfl, startsWithWord_cons,
    startsWithWord_cons, startsWithWord_iff, List.map_append, List.map_cons, lower,
    show '>'.toLower = '>' from rfl]
  constructor
  · rintro ⟨-, -, behind, same⟩
    have parts := congrArg (List.takeWhile (· != '>')) same
    rwa [List.append_assoc, List.singleton_append, upTo noEnd, upTo noEnd'] at parts
  · rintro rfl
    exact ⟨rfl, rfl, rest.map Char.toLower, by rw [List.append_assoc]; rfl⟩

/-- No tag of plain markup ends what has a name that is not plain. -/
theorem absent_written {tag : List Char} (noEnd : '>' ∉ tag)
    (hidden : isPlainTag (String.ofList tag) = false) {ms : List Mark}
    (plain : ∀ m ∈ ms, m.piece.IsPlain) : Absent (endTag tag) (written ms) := by
  induction ms with
  | nil =>
      intro t behind
      rw [List.suffix_nil.mp behind]
      rfl
  | cons m ms ih =>
      rw [List.forall_mem_cons] at plain
      have later := ih plain.2
      rw [written_cons]
      cases m with
      | char c => exact later.append (noStart_escapeChar c)
      | tag inside fits =>
          intro t behind
          rw [Mark.text, List.cons_append, List.append_assoc, List.singleton_append] at behind
          rcases List.suffix_cons_iff.mp behind with rfl | behind
          · cases plainInside_of_isPlain plain.1 with
            | closing name named =>
                obtain ⟨-, -, -, -, chars⟩ := cons_of_isPlainTag named
                refine Bool.eq_false_iff.mpr fun found => ?_
                rw [List.cons_append, startsWithWord_endTag noEnd chars] at found
                rw [found, named] at hidden
                cases hidden
            | starting name attributes named _ =>
                obtain ⟨c, rest, rfl, small, chars⟩ := cons_of_isPlainTag named
                refine Bool.eq_false_iff.mpr fun found => ?_
                have second := (startsWithWord_cons.mp (startsWithWord_cons.mp found).2).1
                rw [(chars c (List.mem_cons_self ..)).toLower_eq] at second
                rw [← second] at small
                cases small
          · rw [show inside ++ '>' :: written ms = (inside ++ ['>']) ++ written ms by simp] at behind
            refine later.append (fun member => ?_) t behind
            exact (List.mem_append.mp member).elim fits.noStart (by decide)

/-! ## Replacing in markup -/

/-- A finder of parts that begin as tags do. -/
def FindsTags (find : Finder) : Prop := ∀ c s, c ≠ '<' → find (c :: s) = none

theorem replaceFoundFrom_skip (find : Finder) (s rest : List Char) :
    replaceFoundFrom find s.length (s ++ rest) = replaceFound find rest := by
  induction s with
  | nil => rfl
  | cons c s ih => exact ih

variable {find : Finder}

theorem replaceFound_plain (finds : FindsTags find) {s : List Char} (plain : '<' ∉ s)
    (rest : List Char) : replaceFound find (s ++ rest) = s ++ replaceFound find rest := by
  induction s with
  | nil => rfl
  | cons c s ih =>
      rw [List.mem_cons, not_or] at plain
      rw [List.cons_append, replaceFound, replaceFoundFrom, finds c _ (Ne.symm plain.1)]
      exact congrArg (c :: ·) (ih plain.2)

theorem replaceFound_kept (finds : FindsTags find) {inside rest : List Char} (fits : Inside inside)
    (nothing : find ('<' :: (inside ++ '>' :: rest)) = none) :
    replaceFound find ('<' :: (inside ++ '>' :: rest)) =
      '<' :: (inside ++ '>' :: replaceFound find rest) := by
  have behind := replaceFound_plain finds (s := inside ++ ['>'])
    (fun member => (List.mem_append.mp member).elim fits.noStart (by decide)) rest
  rw [List.append_assoc, List.append_assoc] at behind
  rw [replaceFound, replaceFoundFrom, nothing]
  exact congrArg ('<' :: ·) behind

theorem replaceFound_tag {inside rest new : List Char}
    (here : find ('<' :: (inside ++ '>' :: rest)) = some (inside.length + 1, new)) :
    replaceFound find ('<' :: (inside ++ '>' :: rest)) = new ++ replaceFound find rest := by
  have behind := replaceFoundFrom_skip find (inside ++ ['>']) rest
  rw [List.length_append, List.append_assoc] at behind
  rw [replaceFound, replaceFoundFrom, here]
  exact congrArg (new ++ ·) behind

/-- Replacing what is found at tags of plain markup replaces marks by marks. -/
theorem replaceFound_written (each : Mark → List Mark) (finds : FindsTags find)
    (chars : ∀ c, each (.char c) = [.char c])
    (tags : ∀ inside fits ms, (tagOf inside).IsPlain → (∀ m ∈ ms, m.piece.IsPlain) →
      find ('<' :: (inside ++ '>' :: written ms)) = none ∧
          each (.tag inside fits) = [.tag inside fits] ∨
        find ('<' :: (inside ++ '>' :: written ms)) =
          some (inside.length + 1, written (each (.tag inside fits))))
    {ms : List Mark} (plain : ∀ m ∈ ms, m.piece.IsPlain) :
    replaceFound find (written ms) = written (ms.flatMap each) := by
  induction ms with
  | nil => rfl
  | cons m ms ih =>
      rw [List.forall_mem_cons] at plain
      rw [written_cons, List.flatMap_cons, written_append, ← ih plain.2]
      cases m with
      | char c =>
          rw [chars, written_cons, Mark.text, replaceFound_plain finds (noStart_escapeChar c)]
          simp [written]
      | tag inside fits =>
          rw [Mark.text, List.cons_append, List.append_assoc, List.singleton_append]
          rcases tags inside fits ms plain.1 plain.2 with ⟨nothing, kept⟩ | here
          · rw [replaceFound_kept finds fits nothing, kept]
            simp [written, Mark.text]
          · rw [replaceFound_tag here]

theorem replaceFound_nothing (finds : FindsTags find)
    (tags : ∀ inside fits ms, PlainInside inside →
      (∀ m ∈ Mark.tag inside fits :: ms, m.piece.IsPlain) →
      find ('<' :: (inside ++ '>' :: written ms)) = none)
    {ms : List Mark} (plain : ∀ m ∈ ms, m.piece.IsPlain) :
    replaceFound find (written ms) = written ms := by
  have whole := replaceFound_written (fun m => [m]) finds (fun _ => rfl)
    (fun inside fits ms named later => .inl ⟨tags inside fits ms (plainInside_of_isPlain named)
      (List.forall_mem_cons.mpr ⟨named, later⟩), rfl⟩) plain
  rwa [List.flatMap_singleton'] at whole

end JsxPreview.Markup
