import JsxPreview.Proofs.Analysis.Exports

/-! # Binding patterns as trees

A pattern is a tree over the tokens that spell it (`PatternTree`).  The tree says which names it binds,
and its tokens are read as just these names wherever they stand in a row, up to the token behind the
pattern (`patternItems_tree`): neither a key nor anything in a default is taken for a name. -/
set_option autoImplicit false
namespace JsxPreview.Source

def Token.opensGroup (t : Token) : Bool :=
  t.isPunct && (t.text == "(" || t.text == "[" || t.text == "\x7b")

def Token.closesGroup (t : Token) : Bool :=
  t.isPunct && (t.text == ")" || t.text == "]" || t.text == "\x7d")

/-- A token that is the given punctuator. -/
abbrev Punct (p : String) : Type := { t : Token // (t.isPunct && t.text == p) = true }

abbrev Word : Type := { t : Token // t.isWord = true }

/-- Tokens with matched brackets, none of which ends the run outside of brackets. -/
inductive IsRun : (Token → Bool) → List Token → Prop
  | nil {ends : Token → Bool} : IsRun ends []
  | token {ends : Token → Bool} {t : Token} {ts : List Token} (opens : t.opensGroup = false)
      (closes : t.closesGroup = false) (goesOn : ends t = false) (others : IsRun ends ts) :
      IsRun ends (t :: ts)
  | group {ends : Token → Bool} {first last : Token} {inside ts : List Token}
      (opens : first.opensGroup = true) (inner : IsRun (fun _ => false) inside)
      (closes : last.closesGroup = true) (others : IsRun ends ts) :
      IsRun ends (first :: (inside ++ last :: ts))

/-- What stands in front of the colon of a property. -/
inductive Key where
  | plain (t : Token) (kind : t.isWord = true ∨ t.isStr = true ∨ t.isNumber = true)
  | computed (opens : Punct "[") (inside : List Token) (run : IsRun (fun _ => false) inside)
      (closes : Punct "]")

def Key.tokens : Key → List Token
  | .plain t _ => [t]
  | .computed opens inside _ closes => opens.1 :: (inside ++ [closes.1])

/-- The default of a target, if it has one: no comma stands in it outside of brackets. -/
inductive Default where
  | absent
  | given (equals : Punct "=") (value : List Token)
      (run : IsRun (fun t => t.isPunct && t.text == ",") value)

def Default.tokens : Default → List Token
  | .absent => []
  | .given equals value _ => equals.1 :: value

open TokenRow (Part opener closer)

/-- A binding target, a property of an object pattern, or the items of a pattern.  As scripts have it, a
rest comes last and takes no default. -/
inductive PatternTree : Part → Type where
  | name (word : Word) : PatternTree .target
  | pattern {object : Bool} (opens : Punct (opener object)) (inside : PatternTree (.items object))
      (closes : Punct (closer object)) : PatternTree .target
  | shorthand (word : Word) : PatternTree .property
  | keyed (key : Key) (colon : Punct ":") (target : PatternTree .target) : PatternTree .property
  | nothing {object : Bool} : PatternTree (.items object)
  | hole (comma : Punct ",") (others : PatternTree (.items false)) : PatternTree (.items false)
  | rest {object : Bool} (dots : Punct "...") (target : PatternTree .target) :
      PatternTree (.items object)
  | last {object : Bool} (item : PatternTree (.item object)) (default : Default) :
      PatternTree (.items object)
  | more {object : Bool} (item : PatternTree (.item object)) (default : Default) (comma : Punct ",")
      (others : PatternTree (.items object)) : PatternTree (.items object)

namespace PatternTree

/-- The names that are bound, in the order of the source. -/
def names : {part : Part} → PatternTree part → List String
  | _, .name word => [word.1.text]
  | _, .pattern _ inside _ => inside.names
  | _, .shorthand word => [word.1.text]
  | _, .keyed _ _ target => target.names
  | _, .nothing => []
  | _, .hole _ others => others.names
  | _, .rest _ target => target.names
  | _, .last item _ => item.names
  | _, .more item _ _ others => item.names ++ others.names

def tokens : {part : Part} → PatternTree part → List Token
  | _, .name word => [word.1]
  | _, .pattern opens inside closes => opens.1 :: (inside.tokens ++ [closes.1])
  | _, .shorthand word => [word.1]
  | _, .keyed key colon target => key.tokens ++ colon.1 :: target.tokens
  | _, .nothing => []
  | _, .hole comma others => comma.1 :: others.tokens
  | _, .rest dots target => dots.1 :: target.tokens
  | _, .last item default => item.tokens ++ default.tokens
  | _, .more item default comma others =>
      item.tokens ++ (default.tokens ++ comma.1 :: others.tokens)

end PatternTree

namespace TokenRow

variable {row : TokenRow} {i : Nat} {t : Token} {ts us : List Token}

/-- The given tokens stand in the row from index `i` on. -/
def Has (row : TokenRow) (i : Nat) (ts : List Token) : Prop := ts <+: row.tokens.toList.drop i

theorem has_cons : row.Has i (t :: ts) ↔ row.get? i = some t ∧ row.Has (i + 1) ts := by
  rw [Has, Has, get?, ← Array.getElem?_toList, ← List.head?_drop, ← List.tail_drop]
  cases row.tokens.toList.drop i with
  | nil => simp
  | cons u us => simp [List.cons_prefix_cons, eq_comm]

theorem has_append : row.Has i (ts ++ us) ↔ row.Has i ts ∧ row.Has (i + ts.length) us := by
  induction ts generalizing i with
  | nil => simp [Has]
  | cons t ts ih =>
      rw [List.cons_append, has_cons, has_cons, ih, and_assoc, List.length_cons,
        Nat.add_right_comm, Nat.add_assoc]

theorem any_of_has (has : row.Has i (t :: ts)) (known : Token → Bool) :
    (row.get? i).any known = known t := by
  rw [(has_cons.mp has).1]
  rfl

theorem any_false : (fun k => (row.get? k).any fun _ => false) = fun _ => false := by
  funext k
  cases row.get? k <;> rfl

/-- A run of tokens is one where it stands in a row. -/
theorem balanced_of_has {ends : Token → Bool} (run : IsRun ends ts) (has : row.Has i ts) :
    row.Balanced (fun k => (row.get? k).any ends) i (i + ts.length) := by
  induction run generalizing i with
  | nil => exact .nil i
  | @token _ t ts opens closes goesOn _ ih =>
      have here := any_of_has has
      obtain ⟨found, behind⟩ := has_cons.mp has
      rw [show i + (t :: ts).length = i + 1 + ts.length by simp; omega]
      exact .token (lt_of_get? found) ((here _).trans opens) ((here _).trans closes)
        ((here _).trans goesOn) (ih behind)
  | @group _ first last inside ts opens _ closes _ inner ih =>
      obtain ⟨within, behind⟩ := has_append.mp (has_cons.mp has).2
      have inner := inner within
      rw [any_false] at inner
      rw [show i + (first :: (inside ++ last :: ts)).length =
        i + 1 + inside.length + 1 + ts.length by simp; omega]
      exact .group ((any_of_has has _).trans opens) inner ((any_of_has behind _).trans closes)
        (ih (has_cons.mp behind).2)

/-! ## Trees in a row -/

theorem isPunct_of_has {p : String} {punct : Punct p} (has : row.Has i (punct.1 :: ts)) :
    row.isPunct i p = true :=
  (any_of_has has _).trans punct.2

theorem defaults_of_has {default : Default} (has : row.Has i default.tokens) :
    row.Defaults i (i + default.tokens.length) := by
  cases default with
  | absent => exact .none i
  | given equals value run =>
      rw [Default.tokens, List.length_cons, Nat.add_comm value.length, ← Nat.add_assoc]
      exact .some (isPunct_of_has has) (balanced_of_has run (has_cons.mp has).2)

/-- Behind an item stands its default, a comma or the end of the pattern, and so no colon. -/
theorem noColon_of_default {default : Default} {j : Nat} (has : row.Has i default.tokens)
    (stop : j = i + default.tokens.length) (noColon : row.isPunct j ":" = false) :
    row.isPunct i ":" = false := by
  subst stop
  cases default with
  | absent => exact noColon
  | given equals value run => exact isPunct_unique (isPunct_of_has has) (by decide)

end TokenRow

open TokenRow

/-- The tokens of a tree, where they stand in a row, bind its names. -/
theorem PatternTree.binds {row : TokenRow} {part : Part} (tree : PatternTree part) :
    ∀ {i stop : Nat}, row.Has i tree.tokens → stop = i + tree.tokens.length →
      (part ≠ .target → row.isPunct stop ":" = false) → row.Binds part i tree.names stop := by
  induction tree with
  | name word =>
      rintro i _ has rfl -
      rw [names, ← text_of_get? (has_cons.mp has).1]
      exact .name ((any_of_has has _).trans word.2)
  | @pattern object opens inside closes ih =>
      rintro i _ has rfl -
      obtain ⟨within, behind⟩ := has_append.mp (has_cons.mp has).2
      have closing := isPunct_of_has behind
      rw [show i + (pattern opens inside closes).tokens.length = i + 1 + inside.tokens.length + 1 by
        simp [tokens]; omega]
      refine .pattern (isPunct_of_has has) (ih within rfl fun _ => isPunct_unique closing ?_) closing
      cases object <;> decide
  | shorthand word =>
      rintro i _ has rfl noColon
      rw [names, ← text_of_get? (has_cons.mp has).1]
      exact .shorthand ((any_of_has has _).trans word.2) (noColon nofun)
  | keyed key colon target ih =>
      rintro i _ has rfl -
      obtain ⟨front, back⟩ := has_append.mp has
      have free {j : Nat} : Part.target ≠ .target → row.isPunct j ":" = false :=
        fun other => absurd rfl other
      cases key with
      | plain t kind =>
          have known := any_of_has front
          refine .keyed ?_ (isPunct_of_has back) (ih (has_cons.mp back).2 ?_ free)
          · exact kind.imp (known _).trans (Or.imp (known _).trans (known _).trans)
          · simp [tokens, Key.tokens]
            omega
      | computed opens inside run closes =>
          obtain ⟨within, closing⟩ := has_append.mp (has_cons.mp front).2
          have key := balanced_of_has run within
          rw [any_false] at key
          rw [show i + (Key.computed opens inside run closes).tokens.length =
            i + 1 + inside.length + 1 by simp [Key.tokens]; omega] at back
          refine .computed (isPunct_of_has front) key (isPunct_of_has closing) (isPunct_of_has back)
            (ih (has_cons.mp back).2 ?_ free)
          simp [tokens, Key.tokens]
          omega
  | nothing =>
      rintro _ _ - rfl -
      exact .nothing _
  | hole comma others ih =>
      rintro i _ has rfl noColon
      refine .hole (isPunct_of_has has) (ih (has_cons.mp has).2 ?_ fun _ => noColon nofun)
      simp [tokens]
      omega
  | rest dots target ih =>
      rintro i _ has rfl -
      refine .rest (isPunct_of_has has) (ih (has_cons.mp has).2 ?_ fun absurd => (absurd rfl).elim)
      simp [tokens]
      omega
  | last item default ih =>
      rintro i stop has rfl noColon
      obtain ⟨front, back⟩ := has_append.mp has
      have value := defaults_of_has back
      rw [Nat.add_assoc, ← List.length_append] at value
      refine .last (ih front rfl fun _ => noColon_of_default back ?_ (noColon nofun)) value
      simp [tokens]
      omega
  | more item default comma others ih ih' =>
      rintro i _ has rfl noColon
      obtain ⟨front, back⟩ := has_append.mp has
      obtain ⟨given, behind⟩ := has_append.mp back
      have apart := isPunct_of_has behind
      refine .more (ih front rfl fun _ => noColon_of_default given rfl ?_) (defaults_of_has given)
        apart (ih' (has_cons.mp behind).2 ?_ fun _ => noColon nofun)
      · exact isPunct_unique apart (by decide)
      · simp [tokens]
        omega

/-- A pattern is read as the names of its tree, up to the token behind it, wherever it stands. -/
theorem patternItems_tree {row : TokenRow} {k : Nat} {object : Bool} (opens : Punct (opener object))
    (inside : PatternTree (.items object)) (closes : Punct (closer object))
    (placed : row.Has k (PatternTree.pattern opens inside closes).tokens) {fuel : Nat}
    (enough : row.patternAllowance ≤ fuel) :
    let pattern := PatternTree.pattern opens inside closes
    row.patternItems fuel k (row.isPunct k "\x7b") (k + 1) =
        .ok (pattern.names, k + pattern.tokens.length) ∧
      row.bindingTarget fuel k = .ok (pattern.names, k + pattern.tokens.length) := by
  intro pattern
  obtain ⟨within, behind⟩ := has_append.mp (has_cons.mp placed).2
  have opening := isPunct_of_has placed
  have closing := isPunct_of_has behind
  have length : k + pattern.tokens.length = k + 1 + inside.tokens.length + 1 := by
    simp [pattern, PatternTree.tokens]
    omega
  have binds := inside.binds within rfl fun _ => isPunct_unique closing (by cases object <;> decide)
  have there := lt_of_isPunct closing
  rw [TokenRow.patternAllowance] at enough
  have items := binds.reads closing (show 3 * _ ≤ fuel by omega) k
  have target := (TokenRow.Binds.pattern opening binds closing).reads (show 3 * _ ≤ fuel by omega)
  have kind : row.isPunct k "\x7b" = object := by
    cases object with
    | true => exact opening
    | false => exact isPunct_unique opening (by decide)
  rw [kind, length]
  exact ⟨items, target⟩

/-! ## A pattern with every kind of part -/

def wordAt (start : Nat) (w : String) : Word := ⟨⟨.word, start, start + w.length, w⟩, rfl⟩

def signAt (start : Nat) (p : String) : Punct p :=
  ⟨⟨.punct, start, start + p.length, p⟩, by simp [Token.isPunct]⟩

def patternAt (object : Bool) (start stop : Nat) (inside : PatternTree (.items object)) :
    PatternTree .target :=
  .pattern (signAt start (opener object)) inside (signAt stop (closer object))

/-- What stands inside of `[b = c(d, e), , ...f]`. -/
def nestedElements : PatternTree (.items false) :=
  .more (.name (wordAt 18 "b"))
    (.given (signAt 20 "=")
      [(wordAt 22 "c").1, (signAt 23 "(").1, (wordAt 24 "d").1, (signAt 25 ",").1, (wordAt 27 "e").1,
        (signAt 28 ")").1]
      (.token rfl rfl rfl (@IsRun.group _ _ _ [_, _, _] _ rfl
        (.token rfl rfl rfl (.token rfl rfl rfl (.token rfl rfl rfl .nil))) rfl .nil)))
    (signAt 29 ",")
    (.hole (signAt 31 ",") (.rest (signAt 33 "...") (.name (wordAt 36 "f"))))

/-- What stands inside of `\x7ba = x, "k": [b = c(d, e), , ...f], [g[0]]: \x7bh\x7d, ...r\x7d`. -/
def nestedProperties : PatternTree (.items true) :=
  .more (.shorthand (wordAt 5 "a"))
    (.given (signAt 7 "=") [(wordAt 9 "x").1] (.token rfl rfl rfl .nil)) (signAt 10 ",")
    (.more
      (.keyed (.plain ⟨.str, 12, 15, "\"k\""⟩ (.inr (.inl rfl))) (signAt 15 ":")
        (patternAt false 17 37 nestedElements))
      .absent (signAt 38 ",")
      (.more
        (.keyed
          (.computed (signAt 40 "[")
            [(wordAt 41 "g").1, (signAt 42 "[").1, ⟨.number, 43, 44, "0"⟩, (signAt 44 "]").1]
            (.token rfl rfl rfl (@IsRun.group _ _ _ [_] _ rfl (.token rfl rfl rfl .nil) rfl .nil))
            (signAt 45 "]"))
          (signAt 46 ":")
          (patternAt true 48 50 (@PatternTree.last true (.shorthand (wordAt 49 "h")) .absent)))
        .absent (signAt 51 ",") (.rest (signAt 53 "...") (.name (wordAt 56 "r")))))

/-- The row of `let` and the pattern, and of the initializer `= y` behind it. -/
def nestedRow : TokenRow where
  tokens := ((wordAt 0 "let").1 :: ((patternAt true 4 57 nestedProperties).tokens ++
    [(signAt 59 "=").1, (wordAt 61 "y").1])).toArray
  lineFeeds := []
  length := 62

theorem patternItems_tree_nested :
    nestedRow.Has 1 (patternAt true 4 57 nestedProperties).tokens ∧
      nestedRow.patternItems nestedRow.patternAllowance 1 true 2 =
        .ok (["a", "b", "f", "h", "r"], 37) := by
  have placed : nestedRow.Has 1 (patternAt true 4 57 nestedProperties).tokens := ⟨_, rfl⟩
  exact ⟨placed, (patternItems_tree _ nestedProperties _ placed (Nat.le_refl _)).1⟩

end JsxPreview.Source
