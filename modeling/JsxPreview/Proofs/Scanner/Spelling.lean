import JsxPreview.Proofs.Scanner.Tiling
import Mathlib.Data.List.Chain
import Mathlib.Data.List.Forall2

/-! # Texts that spell lexemes

A text spells lexemes when it is made of them with white space in front of each and behind the last
(`Spells`).  Where no lexeme is gone on by the character behind it (`Separated`), the scanner reads the
text as just these lexemes (`tokenize_separated`); so it does when of two lexemes in a row the first is
not gone on by the second (`Lexeme.goesBefore`, `tokenize_spelled`). -/
set_option autoImplicit false
namespace JsxPreview.Source

open JsxPreview.Text

/-! ## Lexemes -/

/-- Punctuators of expressions. -/
inductive Sign where
  | equals
  | opening
  | closing
  | openingBrace
  | closingBrace
  | comma
  | colon
  | question
  | arrow
  | semicolon
deriving DecidableEq, Repr

def Sign.text : Sign → String
  | .equals => "="
  | .opening => "("
  | .closing => ")"
  | .openingBrace => "\x7b"
  | .closingBrace => "\x7d"
  | .comma => ","
  | .colon => ":"
  | .question => "?"
  | .arrow => "=>"
  | .semicolon => ";"

inductive Lexeme where
  | word (text : String)
  | number (text : String)
  | str (text : String)
  | sign (s : Sign)
deriving DecidableEq, Repr

namespace Lexeme

def text : Lexeme → String
  | word text | number text | str text => text
  | sign s => s.text

def shape : Lexeme → Shape
  | word _ => .word
  | number _ => .number
  | str _ => .str
  | sign _ => .punct

def isSign : Lexeme → Bool
  | sign _ => true
  | word _ | number _ | str _ => false

def isWord : Lexeme → Bool
  | word _ => true
  | number _ | str _ | sign _ => false

/-- Whether the text is one lexeme of its kind. -/
def isWhole : Lexeme → Bool
  | word text => match text.toList with
      | [] => false
      | c :: s => isWordStart c && s.all isWordRest
  | number text => match text.toList with
      | [] => false
      | c :: s =>
          (c.isDigit || (c == '.' && s.head?.any Char.isDigit)) && Source.number (c :: s) == c :: s
  | str text => match text.toList with
      | [] => false
      | c :: s => (c == '\'' || c == '"') && stringTail c s == some s
  | sign _ => true

/-- Whether the lexeme goes on when the character stands right behind it. -/
def goesOn : Lexeme → Char → Bool
  | word _, c => isWordRest c
  | number _, c => c.isAlphanum || c == '_' || c == '.' || c == '+' || c == '-'
  | str _, _ => false
  | sign .equals, c => c == '=' || c == '>'
  | sign .question, c => c == '?' || c == '.'
  | sign _, _ => false

/-- Whether an operand can start with the lexeme. -/
def startsOperand : Lexeme → Bool
  | word _ | number _ | str _ | sign .opening | sign .openingBrace => true
  | sign _ => false

/-- Whether another lexeme can stand right behind, unless it starts with a point. -/
def goesBefore : Lexeme → Lexeme → Bool
  | word _, m | number _, m => m.isSign
  | sign .equals, m | sign .question, m => m.startsOperand
  | str _, _ | sign _, _ => true

end Lexeme

/-- Lexemes with white space in front of each and behind the last.  A question mark does not stand
right in front of a point, with which it would be one punctuator. -/
inductive Spells : List Lexeme → List Char → Prop
  | last {gap : List Char} (blank : isGap gap = true) : Spells [] gap
  | more {gap : List Char} {l : Lexeme} {ls : List Lexeme} {rest : List Char}
      (blank : isGap gap = true) (apart : l = .sign .question → rest.head? ≠ some '.')
      (others : Spells ls rest) : Spells (l :: ls) (gap ++ (l.text.toList ++ rest))

theorem Spells.tight {l : Lexeme} {ls : List Lexeme} {rest : List Char}
    (apart : l = .sign .question → rest.head? ≠ some '.') (others : Spells ls rest) :
    Spells (l :: ls) (l.text.toList ++ rest) :=
  @Spells.more [] l ls rest rfl apart others

theorem Spells.spaced {l : Lexeme} {ls : List Lexeme} {rest : List Char}
    (apart : l = .sign .question → rest.head? ≠ some '.') (others : Spells ls rest) :
    Spells (l :: ls) (' ' :: (l.text.toList ++ rest)) :=
  @Spells.more [' '] l ls rest (by decide) apart others

/-! ## Lexemes are read -/

namespace Cursor

theorem past_append (pos : Nat) (s rest : List Char) :
    (⟨pos, s ++ rest⟩ : Cursor).past s = ⟨pos + byteLength s, rest⟩ := by
  rw [past, skip, List.take_left, List.drop_left]

theorem skipWhile_append {p : Char → Bool} {s rest : List Char} (pos : Nat)
    (inside : ∀ c ∈ s, p c = true) (stop : ∀ c, rest.head? = some c → p c = false) :
    (⟨pos, s ++ rest⟩ : Cursor).skipWhile p = ⟨pos + byteLength s, rest⟩ := by
  have taken : (s ++ rest).takeWhile p = s := by
    rw [List.takeWhile_append_of_pos inside]
    cases rest with
    | nil => simp
    | cons c rest => simp [stop c rfl]
  rw [skipWhile, taken, past_append]

theorem upTo_append (pos : Nat) (s rest : List Char) :
    (⟨pos, s ++ rest⟩ : Cursor).upTo ⟨pos + byteLength s, rest⟩ = String.ofList s :=
  upTo_of_append rfl rfl

end Cursor

/-- A run of a number goes up to a character that is neither a part of one nor a sign. -/
theorem numberRun_append {hex : Bool} {rest : List Char}
    (stop : ∀ c, rest.head? = some c → (Lexeme.number "").goesOn c = false) :
    (s : List Char) → numberRun hex s = s → numberRun hex (s ++ rest) = s
  | [], _ => by
      rcases rest with _ | ⟨c, _ | ⟨d, rest⟩⟩
      · rfl
      · have := stop c rfl
        simp_all [Lexeme.goesOn, numberRun]
      · have := stop c rfl
        simp_all [Lexeme.goesOn, numberRun]
  | [c], run => by
      have part : (c.isAlphanum || c == '_' || c == '.') = true := by
        rw [numberRun] at run
        split at run
        case isTrue part => exact part
        case isFalse => cases run
      cases rest with
      | nil => exact run
      | cons d rest =>
          have refused := stop d rfl
          simp only [Lexeme.goesOn, Bool.or_eq_false_iff, beq_eq_false_iff_ne] at refused
          have others : numberRun hex ([] ++ d :: rest) = [] := numberRun_append stop [] rfl
          rw [List.nil_append] at others
          rw [List.singleton_append, numberRun, if_pos part, if_neg (by simp [refused]), others]
  | c :: d :: s, run => by
      rw [numberRun] at run
      split at run
      case isFalse => cases run
      case isTrue part =>
        rw [List.cons_append, List.cons_append, numberRun, if_pos part]
        split at run
        case isTrue signed =>
          rw [if_pos signed, numberRun_append stop s (List.cons.inj (List.cons.inj run).2).2]
        case isFalse unsigned =>
          rw [if_neg unsigned]
          exact congrArg _ (numberRun_append stop (d :: s) (List.cons.inj run).2)

theorem number_append {c : Char} {s rest : List Char} (run : number (c :: s) = c :: s)
    (stop : ∀ c, rest.head? = some c → (Lexeme.number "").goesOn c = false) :
    number (c :: s ++ rest) = c :: s := by
  -- whether a number is hexadecimal shows in its own characters
  have base {x : Char} (part : (Lexeme.number "").goesOn x = true) :
      ['0', x].isPrefixOf (c :: s ++ rest) = ['0', x].isPrefixOf (c :: s) := by
    cases s with
    | cons d s => rfl
    | nil =>
        cases rest with
        | nil => rfl
        | cons d rest =>
            have other : x ≠ d := by
              rintro rfl
              exact absurd (stop x rfl) (by simp [part])
            simp [List.isPrefixOf, other]
  unfold number at run ⊢
  rw [base (by decide), base (by decide)]
  exact numberRun_append stop _ run

/-- The tail of a literal ends at its quote, whatever stands behind it. -/
theorem stringTail_append {quote : Char} (plain : quote ≠ '\\') {s t : List Char}
    (found : stringTail quote s = some t) :
    ∃ rest, s = t ++ rest ∧ ∀ rest, stringTail quote (t ++ rest) = some t := by
  have nonempty {t : List Char} (closes : ∀ rest, stringTail quote (t ++ rest) = some t) :
      ∃ x t', t = x :: t' := by
    refine List.exists_cons_of_ne_nil ?_
    rintro rfl
    exact absurd (closes []) (by simp [stringTail])
  fun_induction stringTail quote s generalizing t with
  | case1 => cases found
  | case2 s ih =>
      obtain ⟨t, inner, rfl⟩ := Option.map_eq_some_iff.mp found
      obtain ⟨rest, rfl, closes⟩ := ih inner
      refine ⟨rest, rfl, fun rest' => ?_⟩
      simp only [List.cons_append, stringTail, closes rest', Option.map_some]
  | case3 c s noBreak ih =>
      obtain ⟨t, inner, rfl⟩ := Option.map_eq_some_iff.mp found
      obtain ⟨rest, rfl, closes⟩ := ih inner
      refine ⟨rest, rfl, fun rest' => ?_⟩
      rw [List.cons_append, List.cons_append, stringTail, closes]
      · rfl
      · intro tail carriage feed
        obtain ⟨x, t, rfl⟩ := nonempty closes
        cases feed
        exact noBreak _ carriage rfl
  | case4 => cases found
  | case5 c s _ _ inLine ends =>
      cases found
      cases eq_of_beq ends
      refine ⟨s, rfl, fun rest' => ?_⟩
      rw [List.cons_append, stringTail, if_neg inLine, if_pos ends]
      · exact fun _ escape => absurd escape plain
      · exact fun _ _ escape => absurd escape plain
  | case6 c s _ noEscape inLine goesOn ih =>
      obtain ⟨t, inner, rfl⟩ := Option.map_eq_some_iff.mp found
      obtain ⟨rest, rfl, closes⟩ := ih inner
      refine ⟨rest, rfl, fun rest' => ?_⟩
      obtain ⟨x, t, rfl⟩ := nonempty closes
      rw [List.cons_append, stringTail, if_neg inLine, if_neg goesOn, closes]
      · rfl
      · exact fun _ escape _ => noEscape _ _ escape rfl
      · exact fun _ _ escape _ => noEscape _ _ escape rfl

/-- What a punctuator has behind a sign at its front goes on the sign. -/
theorem punctuators_goOn (s : Sign) : s.text ∈ punctuators ∧ ∀ q ∈ punctuators,
    s.text.toList <+: q.toList → s.text ≠ q →
      (q.toList.drop s.text.toList.length).head?.any (Lexeme.sign s).goesOn = true := by
  cases s <;> decide

/-- A punctuator at the front of a text is read there unless a longer one stands there too. -/
theorem punctAt_of_only {p : String} {rest : List Char} (known : p ∈ punctuators)
    (only : ∀ q ∈ punctuators, q.toList <+: p.toList ++ rest → p.toList <+: q.toList → p = q) :
    punctAt (p.toList ++ rest) = some p := by
  have ordered : punctuators.Pairwise fun p q => ¬ (p.toList <+: q.toList) := by
    decide
  obtain ⟨before, after, split⟩ := List.append_of_mem known
  rw [split] at ordered
  refine List.find?_eq_some_iff_append.mpr ⟨?_, before, after, split, ?_⟩
  · rw [List.isPrefixOf_iff_prefix]
    exact List.prefix_append _ _
  · intro q member
    rw [Bool.not_eq_true', ← Bool.not_eq_true, List.isPrefixOf_iff_prefix]
    intro front
    have known' : q ∈ punctuators := split ▸ List.mem_append_left _ member
    have earlier := (List.pairwise_append.mp ordered).2.2 q member p (List.mem_cons_self ..)
    rcases List.prefix_or_prefix_of_prefix front (List.prefix_append p.toList rest) with
      shorter | begins
    · exact earlier shorter
    · exact earlier (only q known' front begins ▸ List.prefix_refl _)

/-- A sign at the front of a text is the punctuator there. -/
theorem punctAt_sign {s : Sign} {rest : List Char}
    (stop : ∀ c, rest.head? = some c → (Lexeme.sign s).goesOn c = false) :
    punctAt (s.text.toList ++ rest) = some s.text := by
  obtain ⟨known, longer⟩ := punctuators_goOn s
  refine punctAt_of_only known fun q member front begins => Classical.byContradiction fun other => ?_
  obtain ⟨behind, whole⟩ := begins
  have joins := longer q member ⟨behind, whole⟩ other
  rw [← whole, List.drop_left] at joins
  rw [← whole, List.prefix_append_right_inj] at front
  cases behind with
  | nil => cases joins
  | cons c behind =>
      obtain ⟨others, split⟩ := front
      rw [List.head?_cons, Option.any_some, stop c (by rw [← split]; rfl)] at joins
      cases joins

theorem le_of_isLetter {c : Char} (letter : isLetter c = true) : 65 ≤ c.toNat := by
  unfold isLetter at letter
  split at letter
  · change (decide (65 ≤ c.val ∧ c.val ≤ 90) ||
      (decide (97 ≤ c.val) && decide (c.val ≤ 122))) = true at letter
    simp only [Bool.or_eq_true, Bool.and_eq_true, decide_eq_true_eq, UInt32.le_iff_toNat_le]
      at letter
    change 65 ≤ c.val.toNat ∧ c.val.toNat ≤ 90 ∨ 97 ≤ c.val.toNat ∧ c.val.toNat ≤ 122 at letter
    change 65 ≤ c.val.toNat
    omega
  · omega

theorem isDigit_of_isWordStart {c : Char} (starts : isWordStart c = true) : c.isDigit = false := by
  rw [← Bool.not_eq_true]
  intro digit
  simp only [isWordStart, Bool.or_eq_true, beq_iff_eq] at starts
  rcases starts with ((letter | rfl) | rfl) | rfl
  · have large := le_of_isLetter letter
    have small : c.toNat ≤ 57 := by
      simp only [Char.isDigit, Bool.and_eq_true, decide_eq_true_eq, UInt32.le_iff_toNat_le] at digit
      exact digit.2
    omega
  all_goals exact absurd digit (by decide)

/-! ## First characters -/

/-- Characters that nothing but signs start with, and some that no lexeme starts with. -/
def foreignStarts : List Char :=
  ['=', '>', '(', ')', '\x7b', '\x7d', ',', ':', '?', ';', '#', '\x60', '/', '\x09', '\x0a', '\x0b',
    '\x0c', '\x0d', '\x20', '\x85', '\u00a0', '\u1680', '\u2000', '\u2001', '\u2002', '\u2003',
    '\u2004', '\u2005', '\u2006', '\u2007', '\u2008', '\u2009', '\u200a', '\u2028', '\u2029',
    '\u202f', '\u205f', '\u3000', '\ufeff']

theorem mem_foreignStarts {c : Char} (blank : (isBlank c || c == '\ufeff') = true) :
    c ∈ foreignStarts := by
  rw [Bool.or_eq_true, beq_iff_eq, isBlank, inRanges, List.any_eq_true] at blank
  rcases blank with ⟨r, range, inside⟩ | rfl
  · have same : c = Char.ofNat c.toNat := (Char.ofNat_toNat c).symm
    simp only [Bool.and_eq_true, decide_eq_true_eq] at inside
    have table : ∀ r ∈ blankRanges, ∀ k < 11, r.1 + k ≤ r.2 →
        Char.ofNat (r.1 + k) ∈ foreignStarts := by
      decide
    have short : ∀ r ∈ blankRanges, r.2 < r.1 + 11 := by decide
    have := short r range
    have here := table r range (c.toNat - r.1) (by omega) (by omega)
    rw [Nat.add_sub_cancel' inside.1] at here
    rwa [same]
  · decide

/-- What a lexeme that is no sign starts with. -/
def startsPlain (c : Char) : Bool :=
  isWordStart c || c.isDigit || c == '.' || c == '\'' || c == '"'

theorem startsPlain_foreign {c : Char} (foreign : c ∈ foreignStarts) :
    startsPlain c = false ∧ isWordRest c = false := by
  have table : foreignStarts.all (fun c => !(startsPlain c || isWordRest c)) = true := by
    decide +kernel
  have apart := List.all_eq_true.mp table c foreign
  rwa [Bool.not_eq_true', Bool.or_eq_false_iff] at apart

theorem Lexeme.head_cases {l : Lexeme} (whole : l.isWhole = true) : ∃ c t, l.text.toList = c :: t ∧
    (startsPlain c = true ∨ ∃ s, l = .sign s ∧ s.text.toList = c :: t) := by
  cases l with
  | sign s => cases s <;> exact ⟨_, _, rfl, .inr ⟨_, rfl, rfl⟩⟩
  | word text =>
      simp only [isWhole] at whole
      split at whole
      case h_1 => exact absurd whole Bool.false_ne_true
      case h_2 c t split =>
        refine ⟨c, t, split, .inl ?_⟩
        simp [startsPlain, (Bool.and_eq_true_iff.mp whole).1]
  | number text =>
      simp only [isWhole] at whole
      split at whole
      case h_1 => exact absurd whole Bool.false_ne_true
      case h_2 c t split =>
        refine ⟨c, t, split, .inl ?_⟩
        have starts := (Bool.and_eq_true_iff.mp whole).1
        simp only [Bool.or_eq_true, Bool.and_eq_true] at starts
        rcases starts with digit | ⟨point, _⟩
        · simp [startsPlain, digit]
        · simp [startsPlain, point]
  | str text =>
      simp only [isWhole] at whole
      split at whole
      case h_1 => exact absurd whole Bool.false_ne_true
      case h_2 c t split =>
        refine ⟨c, t, split, .inl ?_⟩
        have isQuote := (Bool.and_eq_true_iff.mp whole).1
        simp only [Bool.or_eq_true] at isQuote
        rcases isQuote with single | double
        · simp [startsPlain, single]
        · simp [startsPlain, double]

/-- No lexeme starts with white space, a number sign or a backtick. -/
theorem Lexeme.head_ink {l : Lexeme} (whole : l.isWhole = true) : ∃ c t, l.text.toList = c :: t ∧
    (isBlank c || c == '\ufeff') = false ∧ c ≠ '#' ∧ c ≠ '\x60' := by
  obtain ⟨c, t, split, plain | ⟨s, rfl, text⟩⟩ := head_cases whole
  · have foreign (d : Char) (member : d ∈ foreignStarts) : c ≠ d := by
      rintro rfl
      rw [(startsPlain_foreign member).1] at plain
      cases plain
    refine ⟨c, t, split, ?_, foreign _ (by decide), foreign _ (by decide)⟩
    rw [← Bool.not_eq_true]
    intro blank
    exact foreign c (mem_foreignStarts blank) rfl
  · refine ⟨c, t, split, ?_⟩
    cases s <;> cases text <;> decide

theorem goesOn_blank {c : Char} (blank : (isBlank c || c == '\ufeff') = true) (l : Lexeme) :
    l.goesOn c = false := by
  have table : foreignStarts.all (fun c => !(isBlank c || c == '\ufeff') ||
      !((Lexeme.number "").goesOn c || ['=', '>', '?', '.'].contains c)) = true := by
    decide
  have foreign := mem_foreignStarts blank
  have apart := List.all_eq_true.mp table c foreign
  rw [blank] at apart
  simp only [Bool.not_true, Bool.false_or, Bool.not_eq_true', Bool.or_eq_false_iff,
    List.contains_cons, List.contains_nil, beq_eq_false_iff_ne] at apart
  obtain ⟨number, equals, greater, question, point, -⟩ := apart
  cases l with
  | word text => exact (startsPlain_foreign foreign).2
  | number text => exact number
  | str text => rfl
  | sign s => cases s <;> simp [Lexeme.goesOn, equals, greater, question, point]

/-- What can stand right behind a lexeme does not go it on. -/
theorem goesOn_lexeme {l m : Lexeme} (before : l.goesBefore m = true) (whole : m.isWhole = true)
    {c : Char} {t : List Char} (split : m.text.toList = c :: t)
    (apart : l = .sign .question → c ≠ '.') : l.goesOn c = false := by
  -- behind a word or a number stands a sign
  have behindAtom (isSign : m.isSign = true) :
      isWordRest c = false ∧ (Lexeme.number "").goesOn c = false := by
    cases m with
    | sign s => cases s <;> cases split <;> decide
    | _ => cases isSign
  -- behind an equals sign or a question mark stands an operand
  have behindSign (starts : m.startsOperand = true) : c ≠ '=' ∧ c ≠ '>' ∧ c ≠ '?' := by
    obtain ⟨c', t', split', plain | ⟨s, rfl, _⟩⟩ := Lexeme.head_cases whole
    · cases split.symm.trans split'
      refine ⟨?_, ?_, ?_⟩ <;>
      · rintro rfl
        rw [(startsPlain_foreign (by decide)).1] at plain
        cases plain
    · cases s with
      | opening | openingBrace =>
          cases split
          decide
      | _ => cases starts
  cases l with
  | word text => exact (behindAtom before).1
  | number text => exact (behindAtom before).2
  | str text => rfl
  | sign s =>
      cases s with
      | equals =>
          obtain ⟨equals, greater, _⟩ := behindSign before
          simp [Lexeme.goesOn, equals, greater]
      | question =>
          obtain ⟨_, _, question⟩ := behindSign before
          simp [Lexeme.goesOn, question, apart]
      | _ => rfl

/-- A whole lexeme is read up to a character that does not go it on. -/
theorem lexLeaf_lexeme {operand : Bool} {l : Lexeme} {rest : List Char} (whole : l.isWhole = true)
    (stop : ∀ c, rest.head? = some c → l.goesOn c = false) (pos : Nat) :
    lexLeaf operand ⟨pos, l.text.toList ++ rest⟩ =
      .ok (l.shape, ⟨pos + byteLength l.text.toList, rest⟩) := by
  have taken := Cursor.past_append pos l.text.toList rest
  cases l with
  | word text =>
      simp only [Lexeme.isWhole] at whole
      simp only [Lexeme.text, Lexeme.shape] at taken ⊢
      split at whole
      case h_1 => exact absurd whole Bool.false_ne_true
      case h_2 c s split =>
        obtain ⟨starts, inside⟩ := Bool.and_eq_true_iff.mp whole
        have skipped := Cursor.skipWhile_append (s := c :: s) pos
          (List.forall_mem_cons.mpr
            ⟨isWordRest_of_isWordStart starts, List.all_eq_true.mp inside⟩) stop
        have other : c ≠ '/' ∧ c ≠ '\'' ∧ c ≠ '"' ∧ c ≠ '.' := by
          refine ⟨?_, ?_, ?_, ?_⟩ <;>
          · rintro rfl
            exact absurd starts (by decide)
        rw [split]
        simp only [List.cons_append] at skipped ⊢
        simp [Source.lexLeaf, other, starts, isDigit_of_isWordStart starts, skipped]
  | number text =>
      simp only [Lexeme.isWhole] at whole
      simp only [Lexeme.text, Lexeme.shape] at taken ⊢
      split at whole
      case h_1 => exact absurd whole Bool.false_ne_true
      case h_2 c s split =>
        obtain ⟨starts, run⟩ := Bool.and_eq_true_iff.mp whole
        have run := number_append (eq_of_beq run) stop
        have other : c ≠ '/' ∧ c ≠ '\'' ∧ c ≠ '"' := by
          refine ⟨?_, ?_, ?_⟩ <;>
          · rintro rfl
            simp at starts
        rw [split] at taken ⊢
        rw [List.cons_append] at taken run ⊢
        simp only [Bool.or_eq_true, Bool.and_eq_true, beq_iff_eq] at starts
        rcases starts with digit | ⟨rfl, digit⟩
        · simp [Source.lexLeaf, other, digit, run, taken]
        · obtain ⟨d, tail, rfl⟩ : ∃ d tail, s = d :: tail := by
            cases s with
            | nil => cases digit
            | cons d tail => exact ⟨d, tail, rfl⟩
          simp only [List.head?_cons, Option.any_some] at digit
          simp only [List.cons_append] at run taken ⊢
          simp [Source.lexLeaf, digit, run, taken]
  | str text =>
      simp only [Lexeme.isWhole] at whole
      simp only [Lexeme.text, Lexeme.shape] at taken ⊢
      split at whole
      case h_1 => exact absurd whole Bool.false_ne_true
      case h_2 quote s split =>
        obtain ⟨isQuote, found⟩ := Bool.and_eq_true_iff.mp whole
        simp only [Bool.or_eq_true, beq_iff_eq] at isQuote
        have plain : quote ≠ '\\' := by
          rcases isQuote with rfl | rfl <;> decide
        obtain ⟨_, _, closes⟩ := stringTail_append plain (eq_of_beq found)
        rw [split] at taken ⊢
        rw [List.cons_append] at taken ⊢
        rcases isQuote with rfl | rfl
        · simp [Source.lexLeaf, closes rest, taken]
        · simp [Source.lexLeaf, closes rest, taken]
  | sign s =>
      have found := punctAt_sign stop
      rw [Cursor.past, String.length_toList] at taken
      simp only [Lexeme.text, Lexeme.shape] at taken ⊢
      obtain ⟨c, t, split, slash, single, double, point, digit, word⟩ : ∃ c t,
          s.text.toList = c :: t ∧ c ≠ '/' ∧ c ≠ '\'' ∧ c ≠ '"' ∧ c ≠ '.' ∧ c.isDigit = false ∧
            isWordStart c = false := by
        cases s <;> exact ⟨_, _, rfl, by decide⟩
      rw [split, List.cons_append] at found taken ⊢
      simp [Source.lexLeaf, slash, single, double, point, digit, word, found, taken]

/-! ## Spelled texts are read -/

variable {d : Dialect} {ls : List Lexeme} {text : List Char}

/-- A token of a lexeme. -/
def Token.Shows (t : Token) (l : Lexeme) : Prop := t.shape = l.shape ∧ t.text = l.text

/-- All lexemes are whole, and none is gone on by the next one. -/
def Apart (ls : List Lexeme) : Prop :=
  (∀ l ∈ ls, l.isWhole = true) ∧ ls.IsChain fun l m => l.goesBefore m = true

theorem Apart.tail {l : Lexeme} (apart : Apart (l :: ls)) : Apart ls :=
  ⟨(List.forall_mem_cons.mp apart.1).2, apart.2.tail⟩

theorem skipBlank_gap {gap : List Char} (blank : isGap gap = true) (pos : Nat) (rest : List Char)
    (ink : ∀ c, rest.head? = some c → (isBlank c || c == '\ufeff') = false) :
    (⟨pos, gap ++ rest⟩ : Cursor).skipBlank = ⟨pos + byteLength gap, rest⟩ :=
  Cursor.skipWhile_append pos (List.all_eq_true.mp blank) ink

/-- What stands behind a lexeme does not go it on. -/
theorem Spells.stops {l : Lexeme} (spells : Spells ls text) (apart : Apart (l :: ls))
    (point : l = .sign .question → text.head? ≠ some '.') :
    ∀ c, text.head? = some c → l.goesOn c = false := by
  intro c head
  cases spells with
  | @last gap blank =>
      exact goesOn_blank (List.all_eq_true.mp blank c (List.mem_of_head? head)) l
  | @more gap m ms rest blank _ _ =>
      cases gap with
      | cons y gap =>
          cases head
          exact goesOn_blank (List.all_eq_true.mp blank _ (List.mem_cons_self ..)) l
      | nil =>
          obtain ⟨whole, chain⟩ := apart
          obtain ⟨x, t, split, _⟩ := Lexeme.head_ink (whole m (by simp))
          rw [List.nil_append, split] at head point
          cases head
          refine goesOn_lexeme (List.isChain_cons_cons.mp chain).1 (whole m (by simp)) split ?_
          intro question
          simpa using point question

/-- Whole lexemes with white space in front of each and behind the last, none of which is gone on by
the character behind it. -/
inductive Separated : List Lexeme → List Char → Prop
  | last {gap : List Char} (blank : isGap gap = true) : Separated [] gap
  | more {gap : List Char} {l : Lexeme} {ls : List Lexeme} {rest : List Char}
      (blank : isGap gap = true) (whole : l.isWhole = true)
      (stops : ∀ c, rest.head? = some c → l.goesOn c = false) (others : Separated ls rest) :
      Separated (l :: ls) (gap ++ (l.text.toList ++ rest))

theorem Spells.separated (spells : Spells ls text) (apart : Apart ls) : Separated ls text := by
  induction spells with
  | last blank => exact .last blank
  | more blank point others ih =>
      exact .more blank (apart.1 _ (List.mem_cons_self ..)) (others.stops apart point) (ih apart.tail)

/-- Without elements in a dialect none starts anywhere. -/
theorem startsElement_plain (plain : d.jsx = false) (operand : Bool) (s : List Char) :
    startsElement d operand s = false := by
  unfold startsElement
  split
  · rw [plain, Bool.false_and, Bool.false_and]
  · rfl

theorem reads_separated (separated : Separated ls text) (plain : d.jsx = false) :
    ∀ (depth : Nat) (operand : Bool) (pos : Nat), ∃ ts final,
      Reads d (.tokens false depth operand ⟨pos, text⟩) (ts, final) ∧
        List.Forall₂ Token.Shows ts ls := by
  induction separated with
  | @last gap blank =>
      intro depth operand pos
      have skipped := skipBlank_gap blank pos [] (fun _ head => absurd head (by simp))
      rw [List.append_nil] at skipped
      refine ⟨[], _, .tokensEnd ?_, .nil⟩
      rw [skipped]
      rfl
  | @more gap l ls rest blank whole stops _ ih =>
      intro depth operand pos
      obtain ⟨x, t, split, ink, _, noTemplate⟩ := Lexeme.head_ink whole
      have ahead : l.text.toList ++ rest = x :: (t ++ rest) := by rw [split, List.cons_append]
      have skipped := skipBlank_gap blank pos (l.text.toList ++ rest) (by
        intro c head
        rw [ahead] at head
        cases head
        exact ink)
      have more : tokensEnd false depth ⟨pos + byteLength gap, l.text.toList ++ rest⟩ =
          .ok false := by
        rw [tokensEnd, ahead]
        rfl
      have leaf : Reads d (.token operand ⟨pos + byteLength gap, l.text.toList ++ rest⟩)
          (l.shape, ⟨pos + byteLength gap + byteLength l.text.toList, rest⟩) := by
        refine .tokenLeaf ?_ ?_ (lexLeaf_lexeme whole stops _)
        · rw [ahead, List.head?_cons, ne_eq, Option.some.injEq]
          exact noTemplate
        · exact startsElement_plain plain operand _
      obtain ⟨ts, final, reads, shows⟩ := ih _ _ _
      refine ⟨_, final, .tokensMore ?_ ?_ reads, .cons ⟨rfl, ?_⟩ shows⟩
      · rw [skipped]
        exact more
      · rw [skipped]
        exact leaf
      · rw [skipped, tokenBetween, Cursor.upTo_append, String.ofList_toList]

/-- A text without a mark at its front has no first line of its own. -/
theorem firstLine_plain {text : List Char} (noMark : ¬ "#!".toList.isPrefixOf text = true) :
    firstLine (String.ofList text) = ([], ⟨0, text⟩) := by
  unfold firstLine
  rw [String.toList_ofList]
  exact if_neg noMark

theorem Separated.firstLine (separated : Separated ls text) :
    firstLine (String.ofList text) = ([], ⟨0, text⟩) := by
  have head : text.head? ≠ some '#' := by
    cases separated with
    | @last gap blank =>
        intro head
        have := List.all_eq_true.mp blank _ (List.mem_of_head? head)
        exact absurd this (by decide)
    | @more gap l ls rest blank whole _ _ =>
        intro head
        cases gap with
        | cons y gap =>
            cases head
            exact absurd (List.all_eq_true.mp blank _ (List.mem_cons_self ..)) (by decide)
        | nil =>
            obtain ⟨x, t, split, _, noSharp, _⟩ := Lexeme.head_ink whole
            rw [List.nil_append, split] at head
            cases head
            exact noSharp rfl
  have other : ¬ "#!".toList.isPrefixOf text = true := by
    cases text with
    | nil => decide
    | cons c text =>
        have other : '#' ≠ c := fun same => head (same ▸ rfl)
        simp [List.isPrefixOf, other]
  exact firstLine_plain other

/-- A text has the tokens of the lexemes that stand apart in it. -/
theorem tokenize_separated (separated : Separated ls text) (plain : d.jsx = false) :
    ∃ ts, tokenize d (String.ofList text) = .ok ts ∧ List.Forall₂ Token.Shows ts ls ∧
      Row text 0 (byteLength text) ts := by
  obtain ⟨ts, final, reads, shows⟩ := reads_separated separated plain 0 true 0
  have start := separated.firstLine
  have whole : Reads d (.ofSource (String.ofList text)) (ts, final) := by
    change Reads d (.tokens false 0 true (Source.firstLine (String.ofList text)).2) (ts, final)
    rw [start]
    exact reads
  obtain ⟨row, _⟩ := whole.tiles
  rw [start, String.toList_ofList, List.nil_append] at row
  refine ⟨ts, ?_, shows, row⟩
  rw [tokenize_of_reads whole, start, List.nil_append]

/-- A text has the tokens of the lexemes that it spells. -/
theorem tokenize_spelled (spells : Spells ls text) (apart : Apart ls) (plain : d.jsx = false) :
    ∃ ts, tokenize d (String.ofList text) = .ok ts ∧ List.Forall₂ Token.Shows ts ls ∧
      Row text 0 (byteLength text) ts :=
  tokenize_separated (spells.separated apart) plain

theorem Spells.length_le (spells : Spells ls text) (whole : ∀ l ∈ ls, l.isWhole = true) :
    ls.length ≤ text.length := by
  induction spells with
  | last _ => exact Nat.zero_le _
  | @more gap l ls rest _ _ _ ih =>
      obtain ⟨here, others⟩ := List.forall_mem_cons.mp whole
      obtain ⟨c, t, split, _⟩ := Lexeme.head_ink here
      have := ih others
      rw [List.length_append, List.length_append, split, List.length_cons, List.length_cons]
      omega

end JsxPreview.Source
