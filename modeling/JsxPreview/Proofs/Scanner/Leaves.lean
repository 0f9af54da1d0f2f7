import JsxPreview.Proofs.Scanner.Spelling

/-! # What leaves are

`Leaf operand shape s rest` says what the text `s` of a leaf is, and what can stand behind it: the scanner
reads `s` in front of `rest` as a leaf exactly then (`lexLeaf_iff`).  What stands behind tells only where
the leaf ends.  So a leaf is read in front of any text that agrees with what stands behind it up to white
space, a comma or a closing bracket (`Leaf.alike`). -/
set_option autoImplicit false
namespace JsxPreview.Source

open JsxPreview.Text

/-! ## Tails -/

theorem regexTail_cons {c : Char} (plain : c ≠ '\\') (inClass : Bool) (s : List Char) :
    regexTail inClass (c :: s) =
      if isLineEnd c then none
      else if c == '[' then (regexTail true s).map (c :: ·)
      else if c == ']' then (regexTail false s).map (c :: ·)
      else if c == '/' && !inClass then some [c]
      else (regexTail inClass s).map (c :: ·) := by
  rw [regexTail]
  · exact fun _ escape _ => plain escape
  · exact fun _ _ escape _ => plain escape

/-- The tail of a regular expression ends at its slash, whatever stands behind it. -/
theorem regexTail_append {inClass : Bool} {s t : List Char} (found : regexTail inClass s = some t) :
    ∃ rest, s = t ++ rest ∧ ∀ rest, regexTail inClass (t ++ rest) = some t := by
  have nonempty {inClass : Bool} {t : List Char}
      (closes : ∀ rest, regexTail inClass (t ++ rest) = some t) : ∃ x t', t = x :: t' := by
    refine List.exists_cons_of_ne_nil ?_
    rintro rfl
    exact absurd (closes []) (by simp [regexTail])
  fun_induction regexTail inClass s generalizing t with
  | case1 | case4 => cases found
  | case2 inClass s ih =>
      obtain ⟨t, inner, rfl⟩ := Option.map_eq_some_iff.mp found
      obtain ⟨rest, rfl, closes⟩ := ih inner
      refine ⟨rest, rfl, fun rest' => ?_⟩
      simp only [List.cons_append, regexTail, closes rest', Option.map_some]
  | case3 inClass c s noBreak ih =>
      obtain ⟨t, inner, rfl⟩ := Option.map_eq_some_iff.mp found
      obtain ⟨rest, rfl, closes⟩ := ih inner
      refine ⟨rest, rfl, fun rest' => ?_⟩
      obtain ⟨x, t, rfl⟩ := nonempty closes
      rw [List.cons_append, List.cons_append, regexTail, closes, Option.map_some]
      intro tail carriage feed
      cases feed
      exact noBreak _ carriage rfl
  | case5 inClass c s noBreak noEscape inLine opens ih =>
      obtain ⟨t, inner, rfl⟩ := Option.map_eq_some_iff.mp found
      obtain ⟨rest, rfl, closes⟩ := ih inner
      refine ⟨rest, rfl, fun rest' => ?_⟩
      cases eq_of_beq opens
      rw [List.cons_append, regexTail_cons (by decide), if_neg inLine, if_pos opens, closes,
        Option.map_some]
  | case6 inClass c s noBreak noEscape inLine opens shuts ih =>
      obtain ⟨t, inner, rfl⟩ := Option.map_eq_some_iff.mp found
      obtain ⟨rest, rfl, closes⟩ := ih inner
      refine ⟨rest, rfl, fun rest' => ?_⟩
      cases eq_of_beq shuts
      rw [List.cons_append, regexTail_cons (by decide), if_neg inLine, if_neg opens, if_pos shuts,
        closes, Option.map_some]
  | case7 inClass c s noBreak noEscape inLine opens shuts ends =>
      cases found
      refine ⟨s, rfl, fun rest' => ?_⟩
      have slash : c ≠ '\\' := by
        rintro rfl
        cases ends
      rw [List.cons_append, regexTail_cons slash, if_neg inLine, if_neg opens, if_neg shuts,
        if_pos ends]
  | case8 inClass c s noBreak noEscape inLine opens shuts goes ih =>
      obtain ⟨t, inner, rfl⟩ := Option.map_eq_some_iff.mp found
      obtain ⟨rest, rfl, closes⟩ := ih inner
      refine ⟨rest, rfl, fun rest' => ?_⟩
      obtain ⟨x, t, rfl⟩ := nonempty closes
      have plain : c ≠ '\\' := fun escape => noEscape _ _ escape rfl
      rw [List.cons_append, regexTail_cons plain, if_neg inLine, if_neg opens, if_neg shuts,
        if_neg goes, closes, Option.map_some]

/-- The tail of a comment ends at its mark, whatever stands behind it. -/
theorem commentTail_append {s t : List Char} (found : commentTail s = some t) :
    ∃ rest, s = t ++ rest ∧ ∀ rest, commentTail (t ++ rest) = some t := by
  fun_induction commentTail s generalizing t with
  | case1 s =>
      cases found
      exact ⟨s, rfl, fun rest => by simp only [List.cons_append, commentTail]⟩
  | case2 c s noEnd ih =>
      obtain ⟨t, inner, rfl⟩ := Option.map_eq_some_iff.mp found
      obtain ⟨rest, rfl, closes⟩ := ih inner
      refine ⟨rest, rfl, fun rest' => ?_⟩
      obtain ⟨x, t, rfl⟩ : ∃ x t', t = x :: t' := by
        refine List.exists_cons_of_ne_nil ?_
        rintro rfl
        exact absurd (closes []) (by simp [commentTail])
      rw [List.cons_append, commentTail, closes, Option.map_some]
      intro tail star slash
      cases slash
      exact noEnd _ star rfl
  | case3 => cases found

/-- Raw template text ends at its mark, whatever stands behind it. -/
theorem rawTail_append {s raw : List Char} {more : Bool} (found : rawTail s = some (raw, more)) :
    ∃ rest, s = raw ++ rest ∧ ∀ rest, rawTail (raw ++ rest) = some (raw, more) := by
  have nonempty {t : List Char} (closes : ∀ rest, rawTail (t ++ rest) = some (t, more)) :
      ∃ x t', t = x :: t' := by
    refine List.exists_cons_of_ne_nil ?_
    rintro rfl
    exact absurd (closes []) (by simp [rawTail])
  fun_induction rawTail s generalizing raw with
  | case1 => cases found
  | case2 s ih =>
      obtain ⟨⟨t, _⟩, inner, same⟩ := Option.map_eq_some_iff.mp found
      cases same
      obtain ⟨rest, rfl, closes⟩ := ih inner
      refine ⟨rest, rfl, fun rest' => ?_⟩
      simp only [List.cons_append, rawTail, closes rest', Option.map_some]
  | case3 c s noBreak ih =>
      obtain ⟨⟨t, _⟩, inner, same⟩ := Option.map_eq_some_iff.mp found
      cases same
      obtain ⟨rest, rfl, closes⟩ := ih inner
      refine ⟨rest, rfl, fun rest' => ?_⟩
      obtain ⟨x, t, rfl⟩ := nonempty closes
      rw [List.cons_append, List.cons_append, rawTail, closes, Option.map_some]
      intro tail carriage feed
      cases feed
      exact noBreak _ carriage rfl
  | case4 s | case5 s =>
      cases found
      exact ⟨s, rfl, fun rest => by simp only [List.cons_append, List.nil_append, rawTail]⟩
  | case6 c s noBreak noEscape noEnd noOpen ih =>
      obtain ⟨⟨t, _⟩, inner, same⟩ := Option.map_eq_some_iff.mp found
      cases same
      obtain ⟨rest, rfl, closes⟩ := ih inner
      refine ⟨rest, rfl, fun rest' => ?_⟩
      obtain ⟨x, t, rfl⟩ := nonempty closes
      rw [List.cons_append, rawTail, closes, Option.map_some]
      · exact fun _ escape _ => noEscape _ _ escape rfl
      · exact fun _ _ escape _ => noEscape _ _ escape rfl
      · exact noEnd
      · intro tail dollar brace
        cases brace
        exact noOpen _ dollar rfl

/-! ## Texts that agree -/

/-- A comma, the brackets that close, and the end of a line. -/
def closingChars : List Char := [',', ')', ']', '\x7d', '\n']

/-- What no leaf goes on with: white space, commas and closing brackets. -/
def isParting (c : Char) : Bool := isBlank c || c == '\ufeff' || closingChars.contains c

/-- What no parting character is has none among the characters that are looked up in a table. -/
theorem parting_table {p : Char → Bool}
    (table : (']' :: foreignStarts).all (fun c => !(p c && isParting c)) = true) {c : Char}
    (parting : isParting c = true) : p c = false := by
  have listed : c ∈ ']' :: foreignStarts := by
    have known := parting
    rw [isParting, Bool.or_eq_true] at known
    rcases known with blank | closing
    · exact List.mem_cons_of_mem _ (mem_foreignStarts blank)
    · have all : closingChars.all (']' :: foreignStarts).contains = true := by decide
      exact List.contains_iff_mem.mp (List.all_eq_true.mp all c (List.contains_iff_mem.mp closing))
  have here := List.all_eq_true.mp table c listed
  rw [parting, Bool.and_true, Bool.not_eq_true'] at here
  exact here

/-- Two texts are the same up to a parting character in the second one. -/
inductive Alike : List Char → List Char → Prop
  | nil : Alike [] []
  | keep (c : Char) {s t : List Char} (others : Alike s t) : Alike (c :: s) (c :: t)
  | parts {c : Char} (s t : List Char) (parting : isParting c = true) : Alike s (c :: t)

namespace Alike

variable {rest rest' : List Char}

theorem refl : (s : List Char) → Alike s s
  | [] => .nil
  | c :: s => .keep c (refl s)

theorem head_cases (alike : Alike rest rest') :
    rest'.head? = rest.head? ∨ ∃ c, rest'.head? = some c ∧ isParting c = true := by
  cases alike with
  | nil => exact .inl rfl
  | keep c others => exact .inl rfl
  | parts s t parting => exact .inr ⟨_, rfl, parting⟩

/-- Where one text stops, so does the other. -/
theorem stops (alike : Alike rest rest') {p : Char → Bool}
    (table : (']' :: foreignStarts).all (fun c => !(p c && isParting c)) = true)
    (stop : ∀ c, rest.head? = some c → p c = false) : ∀ c, rest'.head? = some c → p c = false := by
  rcases alike.head_cases with same | ⟨d, head, parting⟩
  · rwa [same]
  · intro c head'
    cases head.symm.trans head'
    exact parting_table table parting

/-- What stands at the front of the second text without a parting character stands at the front of the
first. -/
theorem prefixed (alike : Alike rest rest') : ∀ {t : List Char}, t <+: rest' →
    (∀ c ∈ t, isParting c = false) → t <+: rest := by
  induction alike with
  | nil => exact fun front _ => front
  | keep c others ih =>
      intro t front plain
      cases t with
      | nil => exact List.nil_prefix
      | cons x t =>
          obtain ⟨same, behind⟩ := List.cons_prefix_cons.mp front
          exact List.cons_prefix_cons.mpr ⟨same, ih behind (List.forall_mem_cons.mp plain).2⟩
  | parts s t' parting =>
      intro t front plain
      cases t with
      | nil => exact List.nil_prefix
      | cons x t =>
          obtain ⟨rfl, _⟩ := List.cons_prefix_cons.mp front
          exact absurd (plain x (List.mem_cons_self ..)) (by simp [parting])

end Alike

/-! ## Numbers and punctuators -/

theorem numberRun_eq_nil_iff {hex : Bool} {s : List Char} : numberRun hex s = [] ↔
    ∀ c, s.head? = some c → (c.isAlphanum || c == '_' || c == '.') = false := by
  cases s with
  | nil => simp [numberRun]
  | cons c s =>
      simp only [List.head?_cons, Option.some.injEq, forall_eq']
      rw [← Bool.not_eq_true]
      cases s with
      | nil =>
          rw [numberRun]
          split
          case isTrue part => exact iff_of_false (by simp) (not_not_intro part)
          case isFalse part => exact iff_of_true rfl part
      | cons d s =>
          rw [numberRun]
          split
          case isFalse part => exact iff_of_true rfl part
          case isTrue part =>
            refine iff_of_false ?_ (not_not_intro part)
            split <;> simp

/-- The first character behind a number tells that the number ends. -/
theorem numberRun_ends {hex : Bool} {rest rest' : List Char}
    (ends : rest'.head? = rest.head? ∨ ∀ c, rest'.head? = some c → (Lexeme.number "").goesOn c = false) :
    (s : List Char) → numberRun hex (s ++ rest) = s → numberRun hex (s ++ rest') = s
  | [], run => by
      rw [List.nil_append, numberRun_eq_nil_iff] at run ⊢
      rcases ends with same | stop
      · rwa [same]
      · intro c head
        have refused := stop c head
        simp only [Lexeme.goesOn, Bool.or_eq_false_iff] at refused
        simp [refused]
  | [c], run => by
      have part : (c.isAlphanum || c == '_' || c == '.') = true := by
        rw [← Bool.not_eq_false]
        intro refused
        have nothing : numberRun hex (c :: rest) = [] :=
          numberRun_eq_nil_iff.mpr fun x head => Option.some.inj head ▸ refused
        exact absurd (nothing.symm.trans run) (by simp)
      cases rest' with
      | nil => rw [List.append_nil, numberRun, if_pos part]
      | cons d' t' =>
          -- neither a sign nor a part of the number stands behind
          have stopped : ¬ (!hex && (c == 'e' || c == 'E') && (d' == '+' || d' == '-')) = true ∧
              numberRun hex (d' :: t') = [] := by
            rcases ends with same | stop
            · obtain ⟨t, rfl⟩ : ∃ t, rest = d' :: t := ⟨_, (List.cons_head?_tail same.symm).symm⟩
              rw [List.singleton_append, numberRun, if_pos part] at run
              split at run
              case isTrue => cases run
              case isFalse unsigned =>
                refine ⟨unsigned, ?_⟩
                have behind : numberRun hex (d' :: t) = [] := (List.cons.inj run).2
                rwa [numberRun_eq_nil_iff] at behind ⊢
            · have refused := stop d' rfl
              simp only [Lexeme.goesOn, Bool.or_eq_false_iff] at refused
              exact ⟨by simp [refused], numberRun_eq_nil_iff.mpr fun x head => by
                rw [← Option.some.inj head]; simp [refused]⟩
          rw [List.singleton_append, numberRun, if_pos part, if_neg stopped.1, stopped.2]
  | c :: d :: s, run => by
      rw [List.cons_append, List.cons_append, numberRun] at run ⊢
      split at run
      case isFalse => cases run
      case isTrue part =>
        rw [if_pos part]
        split at run
        case isTrue signed =>
          rw [if_pos signed, numberRun_ends ends s (List.cons.inj (List.cons.inj run).2).2]
        case isFalse unsigned =>
          rw [if_neg unsigned]
          exact congrArg _ (numberRun_ends ends (d :: s) (List.cons.inj run).2)

theorem number_ends {rest rest' : List Char}
    (ends : rest'.head? = rest.head? ∨ ∀ c, rest'.head? = some c → (Lexeme.number "").goesOn c = false)
    {c : Char} {s : List Char} (run : number (c :: s ++ rest) = c :: s) :
    number (c :: s ++ rest') = c :: s := by
  have run' := run
  unfold number at run' ⊢
  -- whether a number is hexadecimal shows in its own characters
  have base {x : Char} (part : x.isAlphanum = true) :
      ['0', x].isPrefixOf (c :: s ++ rest') = ['0', x].isPrefixOf (c :: s ++ rest) := by
    cases s with
    | cons d s => rfl
    | nil =>
        have other : rest.head? ≠ some x := by
          intro head
          obtain ⟨t, rfl⟩ : ∃ t, rest = x :: t := ⟨_, (List.cons_head?_tail head).symm⟩
          rw [List.singleton_append, numberRun] at run'
          split at run'
          case isFalse => cases run'
          case isTrue =>
            split at run'
            case isTrue => cases run'
            case isFalse =>
              have refused := numberRun_eq_nil_iff.mp (List.cons.inj run').2 x rfl
              simp [part] at refused
        have other' : rest'.head? ≠ some x := by
          rcases ends with same | stop
          · rwa [same]
          · intro head
            have refused := stop x head
            simp [Lexeme.goesOn, part] at refused
        have none (t : List Char) (head : t.head? ≠ some x) : ['0', x].isPrefixOf (c :: t) = false := by
          cases t with
          | nil => simp [List.isPrefixOf]
          | cons d t =>
              have apart : x ≠ d := fun same => head (same ▸ rfl)
              simp [List.isPrefixOf, apart]
        exact (none rest' other').trans (none rest other).symm
  rw [base (by decide), base (by decide)]
  exact numberRun_ends ends _ run'

theorem numberRun_prefix {hex : Bool} (s : List Char) : numberRun hex s <+: s := by
  fun_induction numberRun hex s with
  | case1 | case3 | case6 => exact List.nil_prefix
  | case2 => exact List.prefix_refl _
  | case4 c d s _ _ ih => simpa using ih
  | case5 c d s _ _ ih => simpa using ih

theorem number_prefix (s : List Char) : number s <+: s := numberRun_prefix s

/-- A number goes on behind its first character, when that is a point. -/
theorem number_cons {x : Char} {s : List Char}
    (starts : (x.isDigit || (x == '.' && s.head?.any Char.isDigit)) = true) :
    ∃ t, number (x :: s) = x :: t ∧ ((x == '.') = true → t.head? = s.head?) := by
  obtain ⟨t, taken⟩ : ∃ t, number (x :: s) = x :: t := by
    obtain ⟨y, t, taken⟩ := List.exists_cons_of_ne_nil (number_ne_nil starts)
    have front := number_prefix (x :: s)
    rw [taken] at front
    exact ⟨t, (List.cons_prefix_cons.mp front).1 ▸ taken⟩
  refine ⟨t, taken, fun point => ?_⟩
  cases eq_of_beq point
  obtain ⟨d, head, digit⟩ : ∃ d, s.head? = some d ∧ d.isDigit = true := by
    rw [Bool.or_eq_true, Bool.and_eq_true] at starts
    rcases starts with digit | ⟨_, digit⟩
    · cases digit
    · exact (Option.any_eq_true ..).mp digit
  obtain ⟨s', rfl⟩ : ∃ s', s = d :: s' := ⟨_, (List.cons_head?_tail head).symm⟩
  have front := number_prefix ('.' :: d :: s')
  rw [taken, List.cons_prefix_cons] at front
  cases t with
  | cons y t => rw [List.head?_cons, List.head?_cons, (List.cons_prefix_cons.mp front.2).1]
  | nil =>
      rw [number, numberRun, if_pos (by decide), if_neg (by simp)] at taken
      have refused := numberRun_eq_nil_iff.mp (List.cons.inj taken).2 d rfl
      simp [Char.isAlphanum, digit] at refused

/-- The punctuator at the front of a text is the longest one there. -/
theorem punctAt_append_iff {p : String} {rest : List Char} : punctAt (p.toList ++ rest) = some p ↔
    p ∈ punctuators ∧
      ∀ q ∈ punctuators, q.toList <+: p.toList ++ rest → p.toList <+: q.toList → p = q := by
  refine ⟨fun found => ⟨List.mem_of_find?_eq_some found, fun q member front begins => ?_⟩,
    fun ⟨known, only⟩ => punctAt_of_only known only⟩
  obtain ⟨_, before, after, split, earlier⟩ := List.find?_eq_some_iff_append.mp found
  have ordered : punctuators.Pairwise fun p q => ¬ (p.toList <+: q.toList) := by
    decide
  rw [split] at ordered member
  rcases List.mem_append.mp member with inFront | member
  · have refused := earlier q inFront
    rw [Bool.not_eq_true', ← Bool.not_eq_true, List.isPrefixOf_iff_prefix] at refused
    exact absurd front refused
  · rcases List.mem_cons.mp member with same | behind
    · exact same.symm
    · have apart := (List.pairwise_cons.mp (List.pairwise_append.mp ordered).2.1).1 q behind
      exact absurd begins apart

/-! ## Leaves -/

/-- What a leaf is that starts no comment. -/
theorem lexLeaf_of_plain {operand : Bool} {c : Cursor} {x : Char} {s : List Char}
    (ahead : c.rest = x :: s) (noLine : ∀ t, x = '/' → s ≠ '/' :: t)
    (noBlock : ∀ t, x = '/' → s ≠ '*' :: t) : lexLeaf operand c =
      if x == '/' && operand then
        match regexTail false s with
        | some tail => .ok (.regex, (c.past (x :: tail)).skipWhile Char.isAlpha)
        | none => c.fail .unterminatedRegex
      else if x == '\'' || x == '"' then
        match stringTail x s with
        | some tail => .ok (.str, c.past (x :: tail))
        | none => c.fail .unterminatedString
      else if x.isDigit || (x == '.' && s.head?.any Char.isDigit) then
        .ok (.number, c.past (number c.rest))
      else if isWordStart x then .ok (.word, c.skipWhile isWordRest)
      else match punctAt c.rest with
        | some p => .ok (.punct, c.skip p.length)
        | none => c.fail (.unexpectedCharacter x) := by
  unfold lexLeaf
  split
  case h_1 nothing => exact absurd (ahead.symm.trans nothing) (by simp)
  case h_2 t line =>
    cases ahead.symm.trans line
    exact absurd rfl (noLine _ rfl)
  case h_3 t block =>
    cases ahead.symm.trans block
    exact absurd rfl (noBlock _ rfl)
  case h_4 y t _ _ same =>
    cases ahead.symm.trans same
    rfl

/-- Text that does not go on with a comment of a line. -/
def EndsLine (rest : List Char) : Prop := ∀ c, rest.head? = some c → isLineEnd c = true

/-- The text of a leaf, and a text that can stand behind it; in front of a leaf an operand is expected or not. -/
inductive Leaf : Bool → Shape → List Char → List Char → Prop
  | lineComment {operand : Bool} {s rest : List Char} (inLine : ∀ c ∈ s, isLineEnd c = false)
      (ends : EndsLine rest) : Leaf operand .comment ('/' :: '/' :: s) rest
  | blockComment {operand : Bool} {s : List Char} (rest : List Char) (tail : commentTail s = some s) :
      Leaf operand .comment ('/' :: '*' :: s) rest
  | regex {tail flags rest : List Char} (noComment : tail.head? ≠ some '/' ∧ tail.head? ≠ some '*')
      (found : regexTail false tail = some tail) (flagged : ∀ c ∈ flags, c.isAlpha = true)
      (ends : ∀ c, rest.head? = some c → c.isAlpha = false) : Leaf true .regex ('/' :: (tail ++ flags)) rest
  | str {operand : Bool} {quote : Char} {s : List Char} (rest : List Char)
      (opens : (quote == '\'' || quote == '"') = true) (found : stringTail quote s = some s) :
      Leaf operand .str (quote :: s) rest
  | number {operand : Bool} {c : Char} {s rest : List Char}
      (starts : (c.isDigit || (c == '.' && s.head?.any Char.isDigit)) = true)
      (ends : Source.number (c :: s ++ rest) = c :: s) : Leaf operand .number (c :: s) rest
  | word {operand : Bool} {c : Char} {s rest : List Char} (starts : isWordStart c = true)
      (inside : ∀ x ∈ s, isWordRest x = true) (ends : ∀ c, rest.head? = some c → isWordRest c = false) :
      Leaf operand .word (c :: s) rest
  | punct {operand : Bool} {p : String} {rest : List Char} (found : punctAt (p.toList ++ rest) = some p)
      (divides : p.toList.head? = some '/' → operand = false)
      (noComment : p = "/" → ∀ c, rest.head? = some c → c ≠ '/' ∧ c ≠ '*')
      (noNumber : p = "." → ∀ c, rest.head? = some c → c.isDigit = false) : Leaf operand .punct p.toList rest

/-- What punctuators start with. -/
theorem punctuators_heads : ∀ p ∈ punctuators, ∃ c s, p.toList = c :: s ∧
    (isBlank c || c == '\ufeff') = false ∧ c ≠ '\x60' ∧ (c == '\'' || c == '"') = false ∧ c.isDigit = false ∧
    isWordStart c = false ∧ (c = '/' → p = "/" ∨ s = ['=']) ∧ (c = '.' → p = "." ∨ s.head? = some '.') := by
  have table : ∀ p ∈ punctuators, p.toList.head?.any (fun c => decide (
      (isBlank c || c == '\ufeff') = false ∧ c ≠ '\x60' ∧ (c == '\'' || c == '"') = false ∧
      c.isDigit = false ∧ isWordStart c = false ∧ (c = '/' → p = "/" ∨ p.toList.tail = ['=']) ∧
      (c = '.' → p = "." ∨ p.toList.tail.head? = some '.'))) = true := by
    decide
  intro p known
  obtain ⟨c, front, facts⟩ := (Option.any_eq_true ..).mp (table p known)
  exact ⟨c, p.toList.tail, (List.cons_head?_tail front).symm, of_decide_eq_true facts⟩

namespace Leaf

variable {operand : Bool} {shape : Shape} {s rest : List Char}

/-- What a leaf starts with is no white space, and opens no template. -/
theorem head (leaf : Leaf operand shape s rest) :
    ∃ c t, s = c :: t ∧ (isBlank c || c == '\ufeff') = false ∧ c ≠ '\x60' := by
  have plain {c : Char} (starts : startsPlain c = true) : (isBlank c || c == '\ufeff') = false ∧ c ≠ '\x60' := by
    have foreign (d : Char) (member : d ∈ foreignStarts) : c ≠ d := by
      rintro rfl
      rw [(startsPlain_foreign member).1] at starts
      cases starts
    refine ⟨?_, foreign _ (by decide)⟩
    rw [← Bool.not_eq_true]
    exact fun blank => foreign c (mem_foreignStarts blank) rfl
  cases leaf with
  | lineComment | blockComment | regex => exact ⟨_, _, rfl, by decide, by decide⟩
  | @str _ quote s _ opens found =>
      exact ⟨_, _, rfl, plain (by simp only [Bool.or_eq_true] at opens; rcases opens with same | same <;> simp [startsPlain, eq_of_beq same])⟩
  | @number _ c s _ starts => 
      refine ⟨_, _, rfl, plain ?_⟩
      rw [Bool.or_eq_true, Bool.and_eq_true] at starts
      rcases starts with digit | ⟨point, _⟩
      · simp [startsPlain, digit]
      · simp [startsPlain, eq_of_beq point]
  | word starts => exact ⟨_, _, rfl, plain (by simp [startsPlain, starts])⟩
  | punct found =>
      obtain ⟨c, t, split, notBlank, noTemplate, _⟩ := punctuators_heads _ (punctAt_append_iff.mp found).1
      exact ⟨c, t, split, notBlank, noTemplate⟩

/-- What starts with another sign is a punctuator. -/
theorem isPunct_of_head {x : Char} {t : List Char} (leaf : Leaf operand shape (x :: t) rest)
    (sign : (x == '/' || x == '\'' || x == '"' || x.isDigit || x == '.' || isWordStart x) = false) :
    shape = .punct := by
  simp only [Bool.or_eq_false_iff] at sign
  obtain ⟨⟨⟨⟨⟨noSlash, noQuote⟩, noQuotes⟩, noDigit⟩, noPoint⟩, noWord⟩ := sign
  generalize whole : x :: t = s at leaf
  cases leaf with
  | lineComment | blockComment | regex =>
      cases whole
      cases noSlash
  | str _ opens =>
      cases whole
      simp [noQuote, noQuotes] at opens
  | number starts =>
      cases whole
      simp [noDigit, noPoint] at starts
  | word starts =>
      cases whole
      exact absurd starts (by simp [noWord])
  | punct => rfl

/-- The scanner reads a leaf in front of what can stand behind it. -/
theorem read (leaf : Leaf operand shape s rest) (pos : Nat) :
    lexLeaf operand ⟨pos, s ++ rest⟩ = .ok (shape, ⟨pos + byteLength s, rest⟩) := by
  have taken := Cursor.past_append pos s rest
  cases leaf with
  | @lineComment _ s _ inLine ends =>
      let goesOn : Char → Bool := (!isLineEnd ·)
      have inside : ∀ c ∈ '/' :: '/' :: s, goesOn c = true := by
        refine List.forall_mem_cons.mpr ⟨rfl, List.forall_mem_cons.mpr ⟨rfl, fun c member => ?_⟩⟩
        rw [Bool.not_eq_true']
        exact inLine c member
      have stop : ∀ c, rest.head? = some c → goesOn c = false := by
        intro c head
        rw [Bool.not_eq_false']
        exact ends c head
      rw [← Cursor.skipWhile_append pos inside stop]
      simp only [lexLeaf, List.cons_append, goesOn]
  | @blockComment _ s _ tail =>
      obtain ⟨_, _, closes⟩ := commentTail_append tail
      rw [← taken]
      simp only [lexLeaf, List.cons_append, closes]
  | @regex tail flags _ noComment found flagged ends =>
      obtain ⟨_, _, closes⟩ := regexTail_append found
      obtain ⟨x, t, rfl⟩ : ∃ x t, tail = x :: t := by
        refine List.exists_cons_of_ne_nil ?_
        rintro rfl
        cases found
      have behind := Cursor.skipWhile_append (pos + byteLength ('/' :: x :: t)) flagged ends
      rw [← Cursor.past_append] at behind
      have whole : '/' :: (x :: t ++ flags) ++ rest = '/' :: (x :: t ++ (flags ++ rest)) := by
        simp only [List.cons_append, List.append_assoc]
      rw [whole, lexLeaf_of_plain (c := ⟨pos, '/' :: (x :: t ++ (flags ++ rest))⟩) rfl
        (fun u _ same => noComment.1 (by cases same; rfl))
        (fun u _ same => noComment.2 (by cases same; rfl)), if_pos (by decide)]
      simp only [closes]
      rw [← List.cons_append, behind, ← List.cons_append, byteLength_append, Nat.add_assoc]
  | @str _ quote s _ opens found =>
      have other : quote ≠ '/' ∧ quote ≠ '\\' := by
        constructor <;> rintro rfl <;> cases opens
      obtain ⟨_, _, closes⟩ := stringTail_append other.2 found
      rw [lexLeaf_of_plain (c := ⟨pos, quote :: s ++ rest⟩) List.cons_append (fun _ same => absurd same other.1)
        (fun _ same => absurd same other.1), if_neg (by simp [other.1]), if_pos opens, closes]
      exact congrArg (fun after => Except.ok (Shape.str, after)) taken
  | @number _ c s _ starts ends =>
      have other : c ≠ '/' ∧ c ≠ '\'' ∧ c ≠ '"' := by
        refine ⟨?_, ?_, ?_⟩ <;>
        · rintro rfl
          simp at starts
      have starts' : (c.isDigit || (c == '.' && (s ++ rest).head?.any Char.isDigit)) = true := by
        cases s with
        | nil =>
            simp only [List.head?_nil, Option.any_none, Bool.and_false, Bool.or_false] at starts
            rw [starts, Bool.true_or]
        | cons d s => exact starts
      rw [lexLeaf_of_plain (c := ⟨pos, c :: s ++ rest⟩) List.cons_append (fun _ same => absurd same other.1)
        (fun _ same => absurd same other.1), if_neg (by simp [other]), if_neg (by simp [other]), if_pos starts',
        ends, taken]
  | @word _ c s _ starts inside ends =>
      have inside : ∀ x ∈ c :: s, isWordRest x = true :=
        List.forall_mem_cons.mpr ⟨isWordRest_of_isWordStart starts, inside⟩
      have other : c ≠ '/' ∧ c ≠ '\'' ∧ c ≠ '"' ∧ c ≠ '.' := by
        refine ⟨?_, ?_, ?_, ?_⟩ <;>
        · rintro rfl
          exact absurd starts (by decide)
      rw [lexLeaf_of_plain (c := ⟨pos, c :: s ++ rest⟩) List.cons_append (fun _ same => absurd same other.1)
        (fun _ same => absurd same other.1), if_neg (by simp [other]), if_neg (by simp [other]),
        if_neg (by simp [other, isDigit_of_isWordStart starts]), if_pos starts,
        Cursor.skipWhile_append pos inside ends]
  | @punct _ p _ found divides noComment noNumber =>
      obtain ⟨c, s, split, _, _, noQuote, noDigit, noWord, slash, point⟩ :=
        punctuators_heads p (punctAt_append_iff.mp found).1
      have notOpen (y : Char) (mark : y = '/' ∨ y = '*') : ∀ t, c = '/' → s ++ rest ≠ y :: t := by
        intro t isSlash same
        rcases slash isSlash with rfl | rfl
        · cases split
          have apart := noComment rfl y (by rw [← List.nil_append rest, same]; rfl)
          rcases mark with rfl | rfl
          · exact apart.1 rfl
          · exact apart.2 rfl
        · cases same
          rcases mark with same | same <;> cases same
      have noDivision : ¬ (c == '/' && operand) = true := by
        rw [Bool.and_eq_true, beq_iff_eq]
        rintro ⟨rfl, expected⟩
        rw [divides (by rw [split]; rfl)] at expected
        cases expected
      have noNumber : ¬ (c.isDigit || (c == '.' && (s ++ rest).head?.any Char.isDigit)) = true := by
        rw [noDigit, Bool.false_or, Bool.and_eq_true, beq_iff_eq]
        rintro ⟨isPoint, digit⟩
        rcases point isPoint with rfl | dots
        · cases split
          obtain ⟨d, head, digit⟩ := (Option.any_eq_true ..).mp digit
          rw [noNumber rfl d head] at digit
          cases digit
        · obtain ⟨t, rfl⟩ : ∃ t, s = '.' :: t := ⟨_, (List.cons_head?_tail dots).symm⟩
          cases digit
      have whole : p.toList ++ rest = c :: (s ++ rest) := by rw [split, List.cons_append]
      rw [lexLeaf_of_plain (c := ⟨pos, p.toList ++ rest⟩) whole (notOpen '/' (.inl rfl))
        (notOpen '*' (.inr rfl)), if_neg noDivision, if_neg (by simp [noQuote]), if_neg noNumber,
        if_neg (by simp [noWord])]
      simp only [found]
      rw [← String.length_toList]
      exact congrArg (fun after => Except.ok (Shape.punct, after)) taken

/-- Whether an operand is expected tells apart only regular expressions and divisions. -/
theorem expecting (leaf : Leaf operand shape s rest) {operand' : Bool} (operandHere : shape = .regex → operand' = true)
    (divides : shape = .punct → s.head? = some '/' → operand' = false) : Leaf operand' shape s rest := by
  cases leaf with
  | lineComment inLine ends => exact .lineComment inLine ends
  | blockComment _ tail => exact .blockComment _ tail
  | regex noComment found flagged ends =>
      rw [operandHere rfl]
      exact .regex noComment found flagged ends
  | str _ opens found => exact .str _ opens found
  | number starts ends => exact .number starts ends
  | word starts inside ends => exact .word starts inside ends
  | punct found _ noComment noNumber => exact .punct found (divides rfl) noComment noNumber

/-- A leaf ends where it does in front of any text that agrees with the one behind it. -/
theorem alike (leaf : Leaf operand shape s rest) {rest' : List Char} (alike : Alike rest rest')
    (inLine : "//".toList <+: s → EndsLine rest → EndsLine rest') : Leaf operand shape s rest' := by
  cases leaf with
  | lineComment inside ends => exact .lineComment inside (inLine ⟨_, rfl⟩ ends)
  | blockComment _ tail => exact .blockComment _ tail
  | regex noComment found flagged ends =>
      exact .regex noComment found flagged (alike.stops (by decide) ends)
  | str _ opens found => exact .str _ opens found
  | number starts ends =>
      refine .number starts (number_ends (alike.head_cases.imp_right ?_) ends)
      rintro ⟨d, head, parting⟩ c head'
      cases head.symm.trans head'
      exact parting_table (by decide) parting
  | word starts inside ends => exact .word starts inside (alike.stops (by decide +kernel) ends)
  | @punct _ p _ found divides noComment noNumber =>
      have plain : punctuators.all (fun q => (q.toList.drop 1).all (!isParting ·)) = true := by decide
      obtain ⟨known, only⟩ := punctAt_append_iff.mp found
      refine .punct (punctAt_append_iff.mpr ⟨known, fun q member front begins => only q member ?_ begins⟩)
        divides (fun slash c head => ?_) fun point => alike.stops (by decide) (noNumber point)
      · -- a longer punctuator has no parting character behind its first one
        obtain ⟨t, whole⟩ := begins
        rw [← whole, List.prefix_append_right_inj] at front ⊢
        refine alike.prefixed front fun c inside => ?_
        obtain ⟨x, s, split, _⟩ := punctuators_heads p known
        have inner := List.all_eq_true.mp (List.all_eq_true.mp plain q member) c
          (by rw [← whole, split]; simp [inside])
        simpa using inner
      · have stopped := alike.stops (p := fun c => c == '/' || c == '*') (by decide)
          (fun c head => by simpa using noComment slash c head) c head
        simpa using stopped

end Leaf

/-- A text at whose front a leaf is read has one there. -/
theorem exists_leaf {operand : Bool} {c : Cursor} {r : Shape × Cursor} (read : lexLeaf operand c = .ok r) :
    ∃ shape s rest, c.rest = s ++ rest ∧ Leaf operand shape s rest := by
  unfold lexLeaf at read
  split at read
  case h_1 => exact absurd read Cursor.fail_ne_ok
  case h_2 s ahead =>
    let goesOn : Char → Bool := (!isLineEnd ·)
    refine ⟨.comment, '/' :: '/' :: s.takeWhile goesOn, s.dropWhile goesOn, ?_, .lineComment ?_ ?_⟩
    · rw [ahead, List.cons_append, List.cons_append, List.takeWhile_append_dropWhile]
    · intro x member
      have accepted : goesOn x = true := List.all_eq_true.mp List.all_takeWhile x member
      rwa [← Bool.not_eq_true'] 
    · intro x head
      have stopped := List.head?_dropWhile_not goesOn s
      rw [head] at stopped
      simpa [goesOn] using stopped
  case h_3 s ahead =>
    split at read
    case h_2 => exact absurd read Cursor.fail_ne_ok
    case h_1 tail found =>
      obtain ⟨rest, split, closes⟩ := commentTail_append found
      refine ⟨.comment, '/' :: '*' :: tail, rest, by rw [ahead, split]; rfl, .blockComment rest ?_⟩
      simpa using closes []
  case h_4 x s noLine noBlock ahead =>
    have behind {p : Char → Bool} (t : List Char) : ∀ y, (t.dropWhile p).head? = some y → p y = false := by
      intro y head
      have stopped := List.head?_dropWhile_not p t
      rw [head] at stopped
      simpa using stopped
    split at read
    case isTrue regex =>
      rw [Bool.and_eq_true, beq_iff_eq] at regex
      obtain ⟨rfl, rfl⟩ := regex
      split at read
      case h_2 => exact absurd read Cursor.fail_ne_ok
      case h_1 tail found =>
        obtain ⟨rest, rfl, closes⟩ := regexTail_append found
        have notOpen (y : Char) (noComment : ∀ t, '/' = '/' → tail ++ rest = y :: t → False) :
            tail.head? ≠ some y := by
          intro head
          rw [← List.cons_head?_tail head] at noComment
          exact noComment _ rfl rfl
        refine ⟨.regex, '/' :: (tail ++ rest.takeWhile Char.isAlpha), rest.dropWhile Char.isAlpha, ?_,
          .regex ⟨notOpen '/' noLine, notOpen '*' noBlock⟩ (by simpa using closes []) ?_ (behind rest)⟩
        · rw [ahead, List.cons_append, List.append_assoc, List.takeWhile_append_dropWhile]
        · exact fun y member => List.all_eq_true.mp List.all_takeWhile y member
    case isFalse regex =>
      split at read
      case isTrue quote =>
        split at read
        case h_2 => exact absurd read Cursor.fail_ne_ok
        case h_1 tail found =>
          have plain : x ≠ '\\' := by
            rintro rfl
            cases quote
          obtain ⟨rest, rfl, closes⟩ := stringTail_append plain found
          exact ⟨.str, x :: tail, rest, ahead, .str rest quote (by simpa using closes [])⟩
      case isFalse quote =>
        split at read
        case isTrue starts =>
          obtain ⟨rest, whole⟩ := number_prefix c.rest
          obtain ⟨t, taken, point⟩ := number_cons starts
          rw [ahead, taken] at whole
          refine ⟨.number, x :: t, rest, ahead.trans whole.symm, .number ?_ ?_⟩
          · rw [Bool.or_eq_true, Bool.and_eq_true] at starts ⊢
            exact starts.imp_right fun both => ⟨both.1, by rw [point both.1]; exact both.2⟩
          · rw [whole, taken]
        case isFalse starts =>
          split at read
          case isTrue word =>
            refine ⟨.word, x :: s.takeWhile isWordRest, s.dropWhile isWordRest, ?_, .word word ?_ (behind s)⟩
            · rw [ahead, List.cons_append, List.takeWhile_append_dropWhile]
            · exact fun y member => List.all_eq_true.mp List.all_takeWhile y member
          case isFalse word =>
            split at read
            case h_2 => exact absurd read Cursor.fail_ne_ok
            case h_1 p found =>
              have front : p.toList.isPrefixOf c.rest = true :=
                List.find?_some (p := fun p : String => p.toList.isPrefixOf c.rest) found
              obtain ⟨rest, whole⟩ := List.isPrefixOf_iff_prefix.mp front
              rw [← whole] at found ahead
              refine ⟨.punct, p.toList, rest, whole.symm, .punct found ?_ ?_ ?_⟩
              · intro slash
                obtain ⟨t, split⟩ : ∃ t, p.toList = '/' :: t := ⟨_, (List.cons_head?_tail slash).symm⟩
                rw [split, List.cons_append] at ahead
                cases ahead
                simpa using regex
              · rintro rfl y head
                obtain ⟨t, rfl⟩ : ∃ t, rest = y :: t := ⟨_, (List.cons_head?_tail head).symm⟩
                cases ahead
                exact ⟨fun same => noLine t rfl (same ▸ rfl), fun same => noBlock t rfl (same ▸ rfl)⟩
              · rintro rfl y head
                obtain ⟨t, rfl⟩ : ∃ t, rest = y :: t := ⟨_, (List.cons_head?_tail head).symm⟩
                change '.' :: y :: t = x :: s at ahead
                cases ahead
                simpa using starts

/-- Every leaf that the scanner reads is one, in front of what stands behind it. -/
theorem leaf_of_read {operand : Bool} {c after : Cursor} {shape : Shape}
    (read : lexLeaf operand c = .ok (shape, after)) :
    ∃ s, c.rest = s ++ after.rest ∧ after.pos = c.pos + byteLength s ∧ Leaf operand shape s after.rest := by
  obtain ⟨shape', s, rest, whole, leaf⟩ := exists_leaf read
  have same := leaf.read c.pos
  rw [← whole] at same
  cases read.symm.trans same
  exact ⟨s, whole, rfl, leaf⟩

theorem lexLeaf_iff {operand : Bool} {shape : Shape} {pos : Nat} {s rest : List Char} :
    lexLeaf operand ⟨pos, s ++ rest⟩ = .ok (shape, ⟨pos + byteLength s, rest⟩) ↔ Leaf operand shape s rest := by
  refine ⟨fun read => ?_, fun leaf => leaf.read pos⟩
  obtain ⟨s', whole, length, leaf⟩ := leaf_of_read read
  rwa [List.append_cancel_right whole]

end JsxPreview.Source
