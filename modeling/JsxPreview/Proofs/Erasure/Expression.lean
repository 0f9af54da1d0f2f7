import JsxPreview.Proofs.Analysis.Rows
import JsxPreview.Proofs.Scanner.Spelling
import JsxPreview.Source.Erasure.Walk

/-! # Plain expressions

Expressions of names, numbers, strings, parentheses, calls, conditionals, object literals and arrow
functions, as trees with the lexemes that they are written with.  Two lexemes of an expression that
stand side by side are never read as one (`Expr.operand`), no lexeme is a reserved word
(`Expr.isFree`), and a row of tokens that holds the lexemes has its brackets matched
(`Expr.matched`). -/
set_option autoImplicit false
namespace JsxPreview.Source

open JsxPreview.Text

/-! ## Trees -/

/-- Words of the language, and words that belong to types and their declarations. -/
def reservedWords : List String :=
  erasureKeywords ++ ["abstract", "asserts", "declare", "infer", "interface", "is", "keyof",
    "module", "namespace", "override", "private", "protected", "public", "readonly", "type", "unique"]

structure Name where
  text : String
  whole : (Lexeme.word text).isWhole = true
  free : reservedWords.contains text = false

def Name.lexeme (n : Name) : Lexeme := .word n.text

inductive Atom where
  | name (n : Name)
  | number (text : String) (whole : (Lexeme.number text).isWhole = true)
  | str (text : String) (whole : (Lexeme.str text).isWhole = true)

def Atom.lexeme : Atom → Lexeme
  | .name n => n.lexeme
  | .number text _ => .number text
  | .str text _ => .str text

/-- The fields of an object are labelled, the arguments of a call are not. -/
def Label : Bool → Type
  | true => Name
  | false => Unit

def Label.lexemes : {labelled : Bool} → Label labelled → List Lexeme
  | true, name => [Name.lexeme name, .sign .colon]
  | false, _ => []

mutual

inductive Expr : Type where
  | atom (a : Atom)
  | parens (inner : Expr)
  | call (callee : Name) (arguments : Items false)
  | conditional (test yes no : Expr)
  | object (fields : Items true)
  | arrow (parameter : Name) (body : Expr)
  | arrowOfTwo (first second : Name) (body : Expr)

/-- Expressions with a comma behind each but the last one, which may have one, too. -/
inductive Items : Bool → Type where
  | nil {labelled : Bool} : Items labelled
  | last {labelled : Bool} (label : Label labelled) (e : Expr) : Items labelled
  | more {labelled : Bool} (label : Label labelled) (e : Expr) (others : Items labelled) :
      Items labelled

end

mutual

def Expr.lexemes : Expr → List Lexeme
  | .atom a => [a.lexeme]
  | .parens inner => .sign .opening :: (inner.lexemes ++ [.sign .closing])
  | .call callee arguments =>
      callee.lexeme :: .sign .opening :: (arguments.lexemes ++ [.sign .closing])
  | .conditional test yes no =>
      test.lexemes ++ .sign .question :: (yes.lexemes ++ .sign .colon :: no.lexemes)
  | .object fields => .sign .openingBrace :: (fields.lexemes ++ [.sign .closingBrace])
  | .arrow parameter body => parameter.lexeme :: .sign .arrow :: body.lexemes
  | .arrowOfTwo first second body =>
      .sign .opening :: first.lexeme :: .sign .comma :: second.lexeme :: .sign .closing ::
        .sign .arrow :: body.lexemes

def Items.lexemes {labelled : Bool} : Items labelled → List Lexeme
  | .nil => []
  | .last label e => label.lexemes ++ e.lexemes
  | .more label e others => label.lexemes ++ (e.lexemes ++ .sign .comma :: others.lexemes)

end

namespace Expr

/-- Whether the expression ends with a parenthesis. -/
def closes : Expr → Bool
  | atom _ | object _ => false
  | parens _ | call _ _ => true
  | conditional _ _ no => no.closes
  | arrow _ body | arrowOfTwo _ _ body => body.closes

/-- Whether the expression starts with the head of an arrow function. -/
def opensArrow : Expr → Bool
  | atom _ | parens _ | call _ _ | object _ => false
  | conditional test _ _ => test.opensArrow
  | arrow _ _ | arrowOfTwo _ _ _ => true

end Expr

mutual

/-- Whether in no conditional a parenthesis and the head of an arrow function stand around the
colon. -/
def Expr.isClear : Expr → Bool
  | .atom _ => true
  | .parens inner => inner.isClear
  | .call _ arguments => arguments.isClear
  | .conditional test yes no =>
      test.isClear && yes.isClear && no.isClear && !(yes.closes && no.opensArrow)
  | .object fields => fields.isClear
  | .arrow _ body | .arrowOfTwo _ _ body => body.isClear

def Items.isClear {labelled : Bool} : Items labelled → Bool
  | .nil => true
  | .last _ e => e.isClear
  | .more _ e others => e.isClear && others.isClear

end

/-! ## Lexemes of expressions -/

/-- Whether an operand can end with the lexeme. -/
def Lexeme.endsOperand : Lexeme → Bool
  | .word _ | .number _ | .str _ | .sign .closing | .sign .closingBrace => true
  | .sign _ => false

theorem Atom.isWhole (a : Atom) : a.lexeme.isWhole = true := by
  cases a with
  | name n => exact n.whole
  | number text whole => exact whole
  | str text whole => exact whole

theorem Atom.startsOperand (a : Atom) :
    a.lexeme.startsOperand = true ∧ a.lexeme.endsOperand = true := by
  cases a <;> exact ⟨rfl, rfl⟩

/-- Lexemes that stand apart, from the start of an operand to the end of one. -/
structure Operand (ls : List Lexeme) : Prop where
  apart : Apart ls
  starts : ∃ l rest, ls = l :: rest ∧ l.startsOperand = true
  ends : ∃ l front, ls = front ++ [l] ∧ l.endsOperand = true

theorem apart_sign {s : Sign} {ls : List Lexeme} (free : s ≠ .equals ∧ s ≠ .question)
    (apart : Apart ls) : Apart (.sign s :: ls) := by
  refine ⟨List.forall_mem_cons.mpr ⟨rfl, apart.1⟩, List.isChain_cons.mpr ⟨?_, apart.2⟩⟩
  intro m _
  cases s <;> first | rfl | exact absurd rfl free.1 | exact absurd rfl free.2

theorem apart_word {n : Name} {s : Sign} {ls : List Lexeme} (apart : Apart (.sign s :: ls)) :
    Apart (n.lexeme :: .sign s :: ls) :=
  ⟨List.forall_mem_cons.mpr ⟨n.whole, apart.1⟩, List.isChain_cons_cons.mpr ⟨rfl, apart.2⟩⟩

theorem apart_last {s : Sign} : Apart [.sign s] :=
  ⟨List.forall_mem_singleton.mpr rfl, List.isChain_singleton _⟩

namespace Operand

variable {ls rest : List Lexeme} {s : Sign}

theorem before (operand : Operand ls) (apart : Apart (.sign s :: rest)) :
    Apart (ls ++ .sign s :: rest) := by
  obtain ⟨⟨whole, chain⟩, _, l, front, rfl, ends⟩ := operand
  refine ⟨List.forall_mem_append.mpr ⟨whole, apart.1⟩, List.isChain_append.mpr ⟨chain, apart.2, ?_⟩⟩
  intro last atEnd m atStart
  rw [List.getLast?_concat] at atEnd
  cases atEnd
  cases atStart
  cases l with
  | sign s => cases s <;> first | rfl | cases ends
  | _ => rfl

/-- Behind a question mark, or any other sign, an operand stands apart. -/
theorem behind (operand : Operand ls) (s : Sign) : Apart (.sign s :: ls) := by
  obtain ⟨⟨whole, chain⟩, ⟨l, rest, rfl, starts⟩, _⟩ := operand
  refine ⟨List.forall_mem_cons.mpr ⟨rfl, whole⟩, List.isChain_cons_cons.mpr ⟨?_, chain⟩⟩
  cases s <;> first | rfl | exact starts

theorem joined {ms : List Lexeme} (first : Operand ls) (s : Sign) (second : Operand ms) :
    Operand (ls ++ .sign s :: ms) := by
  have apart := first.before (second.behind s)
  obtain ⟨_, ⟨l, after, rfl, starts⟩, _⟩ := first
  obtain ⟨_, _, last, before, rfl, ends⟩ := second
  exact ⟨apart, ⟨l, _, rfl, starts⟩, last, l :: after ++ .sign s :: before, by simp, ends⟩

/-- What leads to an operand makes one with it. -/
theorem led {l : Lexeme} (front : List Lexeme) (operand : Operand ls)
    (apart : Apart (l :: (front ++ ls))) (starts : l.startsOperand = true) :
    Operand (l :: (front ++ ls)) := by
  obtain ⟨_, _, last, before, rfl, ends⟩ := operand
  exact ⟨apart, ⟨l, _, rfl, starts⟩, last, l :: (front ++ before), by simp, ends⟩

end Operand

theorem Label.apart {labelled : Bool} (label : Label labelled) {ls : List Lexeme}
    (apart : Apart ls) : Apart (label.lexemes ++ ls) := by
  cases labelled with
  | true => exact apart_word (apart_sign (by decide) apart)
  | false => exact apart

mutual

theorem Expr.operand : (e : Expr) → Operand e.lexemes
  | .atom a => by
      refine ⟨⟨?_, List.isChain_singleton _⟩, ⟨_, [], rfl, a.startsOperand.1⟩, _, [], rfl,
        a.startsOperand.2⟩
      intro l member
      rw [List.mem_singleton.mp member]
      exact a.isWhole
  | .parens inner =>
      ⟨apart_sign (by decide) (inner.operand.before apart_last), ⟨_, _, rfl, rfl⟩,
        .sign .closing, .sign .opening :: inner.lexemes, rfl, rfl⟩
  | .call callee arguments =>
      ⟨apart_word (apart_sign (by decide) (arguments.apart apart_last)), ⟨_, _, rfl, rfl⟩,
        .sign .closing, callee.lexeme :: .sign .opening :: arguments.lexemes, rfl, rfl⟩
  | .conditional test yes no =>
      test.operand.joined .question (yes.operand.joined .colon no.operand)
  | .object fields =>
      ⟨apart_sign (by decide) (fields.apart apart_last), ⟨_, _, rfl, rfl⟩,
        .sign .closingBrace, .sign .openingBrace :: fields.lexemes, rfl, rfl⟩
  | .arrow parameter body =>
      .led [.sign .arrow] body.operand (apart_word (body.operand.behind .arrow)) rfl
  | .arrowOfTwo first second body => by
      have head := apart_sign (s := .closing) (by decide) (body.operand.behind .arrow)
      have parameters := apart_sign (s := .opening) (by decide) (apart_word (n := first)
        (apart_sign (s := .comma) (by decide) (apart_word (n := second) head)))
      exact .led [first.lexeme, .sign .comma, second.lexeme, .sign .closing, .sign .arrow]
        body.operand parameters rfl

theorem Items.apart {labelled : Bool} {s : Sign} {rest : List Lexeme} :
    (items : Items labelled) → Apart (.sign s :: rest) → Apart (items.lexemes ++ .sign s :: rest)
  | .nil, apart => apart
  | .last label e, apart => by
      rw [Items.lexemes, List.append_assoc]
      exact label.apart (e.operand.before apart)
  | .more label e others, apart => by
      rw [Items.lexemes, List.append_assoc, List.append_assoc, List.cons_append]
      exact label.apart (e.operand.before (apart_sign (by decide) (others.apart apart)))

end

/-- Whether the lexeme is no word that is reserved. -/
def Lexeme.isFree : Lexeme → Bool
  | .word text => !reservedWords.contains text
  | .number _ | .str _ | .sign _ => true

theorem Name.isFree (n : Name) : n.lexeme.isFree = true := by
  rw [Name.lexeme, Lexeme.isFree, n.free]
  rfl

theorem Sign.isFree (s : Sign) : (Lexeme.sign s).isFree = true := rfl

theorem Atom.isFree (a : Atom) : a.lexeme.isFree = true := by
  cases a with
  | name n => exact n.isFree
  | number text whole => rfl
  | str text whole => rfl

theorem Label.isFree {labelled : Bool} (label : Label labelled) :
    label.lexemes.all Lexeme.isFree = true := by
  cases labelled with
  | true => simp [Label.lexemes, Name.isFree label, Sign.isFree]
  | false => rfl

mutual

theorem Expr.isFree : (e : Expr) → e.lexemes.all Lexeme.isFree = true
  | .atom a => by simp [Expr.lexemes, a.isFree]
  | .parens inner => by simp [Expr.lexemes, Sign.isFree, inner.isFree]
  | .call callee arguments => by
      simp [Expr.lexemes, Sign.isFree, callee.isFree, arguments.isFree]
  | .conditional test yes no => by
      simp [Expr.lexemes, Sign.isFree, test.isFree, yes.isFree, no.isFree]
  | .object fields => by simp [Expr.lexemes, Sign.isFree, fields.isFree]
  | .arrow parameter body => by
      simp [Expr.lexemes, Sign.isFree, parameter.isFree, body.isFree]
  | .arrowOfTwo first second body => by
      simp [Expr.lexemes, Sign.isFree, first.isFree, second.isFree, body.isFree]

theorem Items.isFree {labelled : Bool} : (items : Items labelled) →
    items.lexemes.all Lexeme.isFree = true
  | .nil => rfl
  | .last label e => by simp [Items.lexemes, label.isFree, e.isFree]
  | .more label e others => by
      simp [Items.lexemes, Sign.isFree, label.isFree, e.isFree, others.isFree]

end

/-! ## Rows that hold lexemes -/

namespace TokenRow

variable {row : TokenRow} {i j k : Nat} {l : Lexeme} {ls : List Lexeme}

/-- The token at an index is the lexeme. -/
def Shows (row : TokenRow) (i : Nat) (l : Lexeme) : Prop := ∃ t, row.get? i = some t ∧ t.Shows l

/-- The tokens from an index on are the lexemes. -/
def Holds (row : TokenRow) (i : Nat) : List Lexeme → Prop
  | [] => True
  | l :: ls => row.Shows i l ∧ Holds row (i + 1) ls

theorem holds_append {ms : List Lexeme} :
    row.Holds i (ls ++ ms) ↔ row.Holds i ls ∧ row.Holds (i + ls.length) ms := by
  induction ls generalizing i with
  | nil => simp [Holds]
  | cons l ls ih =>
      rw [List.cons_append, Holds, Holds, ih, List.length_cons, and_assoc, Nat.add_assoc,
        Nat.add_comm 1]

namespace Shows

variable {s : Sign} {n : Name}

theorem lt_size (shows : row.Shows i l) : i < row.size := by
  obtain ⟨t, here, _⟩ := shows
  exact (Array.getElem?_eq_some_iff.mp here).1

theorem text_eq (shows : row.Shows i l) : row.text i = l.text := by
  obtain ⟨t, here, _, same⟩ := shows
  rw [TokenRow.text, here]
  exact same

theorem shape_eq (shows : row.Shows i l) : row.shape? i = some l.shape := by
  obtain ⟨t, here, same, _⟩ := shows
  rw [shape?, here]
  exact congrArg some same

/-- What tells from the shape and the text of a token alone what it is. -/
theorem any_eq (shows : row.Shows i l) {p : Token → Bool} {b : Bool}
    (same : ∀ start stop, p ⟨l.shape, start, stop, l.text⟩ = b) : (row.get? i).any p = b := by
  obtain ⟨⟨shape, start, stop, text⟩, here, rfl, rfl⟩ := shows
  rw [here]
  exact same start stop

theorem isPunct (shows : row.Shows i l) (p : String) :
    row.isPunct i p = (l.isSign && l.text == p) :=
  shows.any_eq fun _ _ => by cases l <;> rfl

theorem isAnyWord (shows : row.Shows i l) : row.isAnyWord i = l.isWord :=
  shows.any_eq fun _ _ => by cases l <;> rfl

theorem isWord (shows : row.Shows i l) (w : String) :
    row.isWord i w = (l.isWord && l.text == w) :=
  shows.any_eq fun _ _ => by cases l <;> rfl

theorem opensBracket (shows : row.Shows i (.sign s)) :
    row.opensBracket i = (s == .opening || s == .openingBrace) :=
  shows.any_eq fun _ _ => by cases s <;> rfl

theorem closesBracket (shows : row.Shows i (.sign s)) :
    row.closesBracket i = (s == .closing || s == .closingBrace) :=
  shows.any_eq fun _ _ => by cases s <;> rfl

theorem noBracket {a : Atom} (shows : row.Shows i a.lexeme) :
    row.opensBracket i = false ∧ row.closesBracket i = false :=
  ⟨shows.any_eq fun _ _ => by cases a <;> rfl, shows.any_eq fun _ _ => by cases a <;> rfl⟩

end Shows

end TokenRow

/-! ## Brackets -/

/-- Lexemes whose brackets are matched, wherever they stand. -/
def Matched (ls : List Lexeme) : Prop :=
  ∀ (row : TokenRow) (i : Nat), row.Holds i ls → row.Level i (i + ls.length)

namespace Matched

variable {ls ms : List Lexeme} {s opens closes : Sign}

theorem nil : Matched [] := fun row i _ => .refl row i

theorem append (first : Matched ls) (second : Matched ms) : Matched (ls ++ ms) := by
  intro row i holds
  obtain ⟨here, behind⟩ := TokenRow.holds_append.mp holds
  rw [List.length_append, ← Nat.add_assoc]
  exact (first row i here).trans (second row _ behind)

theorem atom (a : Atom) : Matched [a.lexeme] := fun _ _ holds => .token holds.1.noBracket

theorem sign (plain : s ≠ .opening ∧ s ≠ .closing ∧ s ≠ .openingBrace ∧ s ≠ .closingBrace) :
    Matched [.sign s] := by
  intro row i holds
  refine .token ?_
  rw [holds.1.opensBracket, holds.1.closesBracket]
  simp [plain]

/-- Signs that stand around what is bracketed. -/
def Around (opens closes : Sign) : Prop :=
  opens = .opening ∧ closes = .closing ∨ opens = .openingBrace ∧ closes = .closingBrace

theorem Around.brackets {row : TokenRow} {i j : Nat} (around : Around opens closes)
    (first : row.Shows i (.sign opens)) (last : row.Shows j (.sign closes)) :
    row.opensBracket i = true ∧ row.opensBracket j = false ∧ row.closesBracket j = true := by
  rw [first.opensBracket, last.opensBracket, last.closesBracket]
  rcases around with ⟨rfl, rfl⟩ | ⟨rfl, rfl⟩ <;> decide

theorem bracketed (around : Around opens closes) (inside : Matched ls) :
    Matched (.sign opens :: (ls ++ [.sign closes])) := by
  intro row i holds
  obtain ⟨first, rest⟩ := holds
  obtain ⟨held, last, -⟩ := TokenRow.holds_append.mp rest
  obtain ⟨opens, open', closes⟩ := around.brackets first last
  have group := TokenRow.Level.group opens (inside row _ held) open' closes
  rw [List.length_cons, List.length_append, List.length_singleton]
  have whole : i + (ls.length + 1 + 1) = i + 1 + ls.length + 1 := by omega
  rw [whole]
  exact group

/-- The bracket behind what is bracketed closes the one in front. -/
theorem matching {row : TokenRow} {i stop : Nat} (around : Around opens closes)
    (inside : Matched ls) (first : row.Shows i (.sign opens)) (held : row.Holds (i + 1) ls)
    (last : row.Shows (i + 1 + ls.length) (.sign closes)) (before : i + 1 + ls.length < stop)
    (within : stop ≤ row.size) : row.matching i stop = some (i + 1 + ls.length) := by
  obtain ⟨opens, open', closes⟩ := around.brackets first last
  exact TokenRow.Level.matching opens (inside row _ held) open' closes before within

end Matched

theorem Label.matched {labelled : Bool} (label : Label labelled) : Matched label.lexemes := by
  cases labelled with
  | false => exact .nil
  | true => exact .append (.atom (.name label)) (.sign (by decide))

theorem parameters_matched (first second : Name) :
    Matched [first.lexeme, .sign .comma, second.lexeme] :=
  .append (.atom (.name first)) (.append (.sign (s := .comma) (by decide)) (.atom (.name second)))

mutual

theorem Expr.matched : (e : Expr) → Matched e.lexemes
  | .atom a => .atom a
  | .parens inner => .bracketed (.inl ⟨rfl, rfl⟩) inner.matched
  | .call callee arguments =>
      .append (.atom (.name callee)) (.bracketed (.inl ⟨rfl, rfl⟩) arguments.matched)
  | .conditional test yes no =>
      .append test.matched (.append (.sign (s := .question) (by decide))
        (.append yes.matched (.append (.sign (s := .colon) (by decide)) no.matched)))
  | .object fields => .bracketed (.inr ⟨rfl, rfl⟩) fields.matched
  | .arrow parameter body =>
      .append (.atom (.name parameter)) (.append (.sign (s := .arrow) (by decide)) body.matched)
  | .arrowOfTwo first second body =>
      .append (.bracketed (.inl ⟨rfl, rfl⟩) (parameters_matched first second))
        (.append (.sign (s := .arrow) (by decide)) body.matched)

theorem Items.matched {labelled : Bool} : (items : Items labelled) → Matched items.lexemes
  | .nil => .nil
  | .last label e => .append label.matched e.matched
  | .more label e others =>
      .append label.matched (.append e.matched (.append (.sign (s := .comma) (by decide))
        others.matched))

end

end JsxPreview.Source
