import JsxPreview.Proofs.Scanner.Segments

/-! # Calls that are read

A reader of calls, as far as elements are compiled to them: a callee made of names and points,
arguments between parentheses, object literals of properties and spreads, arrays, and string
literals.  It works on tokens without places and comments (`significant`), and splits lists at the
commas outside of brackets.  A list of items that are balanced and have no such comma is read as just
these items (`readList_items`). -/
set_option autoImplicit false
namespace JsxPreview.Source

open JsxPreview.Text

/-! ## Lists -/

def Token.isSign (t : Token) (text : String) : Bool := t.isPunct && t.text == text

@[simp] theorem isSign_signToken (text other : String) :
    (signToken text).isSign other = (text == other) := rfl

/-- The bracket that closes a bracket. -/
def closerOf : String → Option String
  | "(" => some ")"
  | "[" => some "]"
  | "\x7b" => some "\x7d"
  | _ => none

def closers : List String := [")", "]", "\x7d"]

/-- What closes the brackets that are open behind a token, the innermost first; `none` when the token
closes one that is not open. -/
def Token.bracketsAfter (t : Token) (brackets : List String) : Option (List String) :=
  if t.isPunct then
    match closerOf t.text with
    | some closer => some (closer :: brackets)
    | none =>
        if closers.contains t.text then
          match brackets with
          | closer :: rest => if t.text = closer then some rest else none
          | [] => none
        else some brackets
  else some brackets

/-- The items of a list up to its closing bracket, split at the commas outside of further brackets,
and what stands behind the list.  `item` has been read of the item that goes on. -/
def readItems (closer : String) (brackets : List String) (item : List Token) :
    List Token → Option (List (List Token) × List Token)
  | [] => none
  | t :: ts =>
      if brackets = [] ∧ t.isSign closer then some ([item], ts)
      else if brackets = [] ∧ t.isSign "," then
        (readItems closer [] [] ts).map fun r => (item :: r.1, r.2)
      else (t.bracketsAfter brackets).bind fun brackets => readItems closer brackets (item ++ [t]) ts

/-- The items of a list that is behind its opening bracket and ends with its closing one. -/
def readList (closer : String) (ts : List Token) : Option (List (List Token)) :=
  match readItems closer [] [] ts with
  | some ([[]], []) => some []
  | some (items, []) => if items.all (!·.isEmpty) then some items else none
  | _ => none

/-- What closes the brackets that are open behind tokens without a comma outside of brackets. -/
def bracketsThrough (brackets : List String) : List Token → Option (List String)
  | [] => some brackets
  | t :: ts =>
      if brackets = [] ∧ t.isSign "," then none
      else (t.bracketsAfter brackets).bind fun brackets => bracketsThrough brackets ts

/-- Tokens that can be an item of a list: their brackets are balanced, and commas only stand in
them. -/
def IsItem (ts : List Token) : Prop := ts ≠ [] ∧ bracketsThrough [] ts = some []

instance (ts : List Token) : Decidable (IsItem ts) :=
  decidable_of_iff (ts.isEmpty = false ∧ bracketsThrough [] ts = some [])
    (and_congr_left' (by cases ts <;> simp))

theorem bracketsThrough_cons {t : Token} {ts : List Token} {brackets brackets' : List String}
    (through : bracketsThrough brackets (t :: ts) = some brackets') :
    ¬ (brackets = [] ∧ t.isSign "," = true) ∧ ∃ inner, t.bracketsAfter brackets = some inner ∧
      bracketsThrough inner ts = some brackets' := by
  rw [bracketsThrough] at through
  split at through
  case isTrue => cases through
  case isFalse noComma => exact ⟨noComma, Option.bind_eq_some_iff.mp through⟩

theorem bracketsThrough_append {ts us : List Token} : ∀ {brackets brackets' : List String},
    bracketsThrough brackets ts = some brackets' →
      bracketsThrough brackets (ts ++ us) = bracketsThrough brackets' us := by
  induction ts with
  | nil =>
      intro brackets brackets' through
      cases through
      rfl
  | cons t ts ih =>
      intro brackets brackets' through
      obtain ⟨noComma, inner, after, through⟩ := bracketsThrough_cons through
      rw [List.cons_append, bracketsThrough, if_neg noComma, after]
      exact ih through

theorem Token.bracketsAfter_append {t : Token} {brackets brackets' : List String}
    (after : t.bracketsAfter brackets = some brackets') (outer : List String) :
    t.bracketsAfter (brackets ++ outer) = some (brackets' ++ outer) := by
  unfold Token.bracketsAfter at after ⊢
  split at after
  case isFalse noPunct =>
    cases after
    rw [if_neg noPunct]
  case isTrue punct =>
    rw [if_pos punct]
    split at after
    case h_1 closer opens =>
      cases after
      rfl
    case h_2 =>
      split at after
      case isFalse plain =>
        cases after
        rw [if_neg plain]
      case isTrue closes =>
        rw [if_pos closes]
        split at after
        case h_2 => cases after
        case h_1 closer rest =>
          split at after
          case isFalse => cases after
          case isTrue same =>
            cases after
            rw [List.cons_append]
            exact if_pos same

/-- Balanced tokens are balanced within further brackets, where they may have commas. -/
theorem bracketsThrough_inside {ts : List Token} (outer : List String) :
    ∀ {brackets brackets' : List String}, bracketsThrough brackets ts = some brackets' →
      bracketsThrough (brackets ++ outer) ts = some (brackets' ++ outer) := by
  induction ts with
  | nil =>
      intro brackets brackets' through
      cases through
      rfl
  | cons t ts ih =>
      intro brackets brackets' through
      obtain ⟨noComma, inner, after, through⟩ := bracketsThrough_cons through
      have noComma' : ¬ (brackets ++ outer = [] ∧ t.isSign "," = true) := by
        rintro ⟨empty, comma⟩
        exact noComma ⟨(List.append_eq_nil_iff.mp empty).1, comma⟩
      rw [bracketsThrough, if_neg noComma', Token.bracketsAfter_append after outer]
      exact ih through

/-- A bracket that closes is not balanced by itself. -/
theorem bracketsAfter_closer {t : Token} {closer : String} (known : closer ∈ closers)
    (closes : t.isSign closer = true) : t.bracketsAfter [] = none := by
  obtain ⟨isPunct, text⟩ := Bool.and_eq_true_iff.mp closes
  have noOpening : ∀ closer ∈ closers, closerOf closer = none := by decide
  rw [Token.bracketsAfter, if_pos isPunct, eq_of_beq text, noOpening closer known]
  exact if_pos (List.contains_iff_mem.mpr known)

theorem readItems_through {closer : String} (known : closer ∈ closers) {ts rest : List Token} :
    ∀ {brackets brackets' : List String} (item : List Token),
      bracketsThrough brackets ts = some brackets' →
        readItems closer brackets item (ts ++ rest) =
          readItems closer brackets' (item ++ ts) rest := by
  induction ts with
  | nil =>
      intro brackets brackets' item through
      cases through
      rw [List.nil_append, List.append_nil]
  | cons t ts ih =>
      intro brackets brackets' item through
      obtain ⟨noComma, inner, after, through⟩ := bracketsThrough_cons through
      have noCloser : ¬ (brackets = [] ∧ t.isSign closer = true) := by
        rintro ⟨rfl, closes⟩
        rw [bracketsAfter_closer known closes] at after
        cases after
      rw [List.cons_append, readItems, if_neg noCloser, if_neg noComma, after, Option.bind_some,
        ih _ through, List.append_assoc]
      rfl

/-- Items with a comma between each two. -/
def listed : List (List Token) → List Token
  | [] => []
  | [item] => item
  | item :: rest => item ++ signToken "," :: listed rest

theorem listed_cons (item : List Token) {rest : List (List Token)} (some : rest ≠ []) :
    listed (item :: rest) = item ++ signToken "," :: listed rest := by
  cases rest with
  | nil => exact absurd rfl some
  | cons => rfl

theorem readItems_listed {closer : String} (known : closer ∈ closers) {items : List (List Token)}
    (some : items ≠ []) (all : ∀ item ∈ items, IsItem item) (rest : List Token) :
    readItems closer [] [] (listed items ++ signToken closer :: rest) = .some (items, rest) := by
  have noComma : closer ≠ "," := by
    rintro rfl
    exact absurd known (by decide)
  induction items with
  | nil => exact absurd rfl some
  | cons item items ih =>
      obtain ⟨⟨_, balanced⟩, others⟩ := List.forall_mem_cons.mp all
      by_cases last : items = []
      · subst last
        rw [listed, readItems_through known [] balanced, List.nil_append, readItems, if_pos (by simp)]
      · rw [listed_cons item last, List.append_assoc, readItems_through known [] balanced,
          List.nil_append, List.cons_append, readItems, if_neg (by simp [noComma.symm]),
          if_pos (by simp), ih last others, Option.map_some]

/-- A list of items is read as these items. -/
theorem readList_items {closer : String} (known : closer ∈ closers) {items : List (List Token)}
    (all : ∀ item ∈ items, IsItem item) :
    readList closer (listed items ++ [signToken closer]) = some items := by
  by_cases none : items = []
  · subst none
    rw [readList, listed, List.nil_append, readItems, if_pos (by simp)]
  · have read := readItems_listed known none all []
    unfold readList
    rw [read]
    split
    case h_1 empty =>
      cases empty
      exact absurd rfl (all [] (List.mem_singleton_self _)).1
    case h_2 same =>
      cases same
      refine if_pos (List.all_eq_true.mpr fun item member => ?_)
      have := (all item member).1
      simpa using this
    case h_3 other => exact absurd rfl (other items)

/-- Within brackets a list of items is balanced. -/
theorem bracketsThrough_listed {items : List (List Token)} (all : ∀ item ∈ items, IsItem item)
    (closer : String) : bracketsThrough [closer] (listed items) = some [closer] := by
  induction items with
  | nil => rfl
  | cons item items ih =>
      obtain ⟨⟨_, balanced⟩, others⟩ := List.forall_mem_cons.mp all
      have inside : bracketsThrough [closer] item = some [closer] :=
        bracketsThrough_inside [closer] balanced
      by_cases last : items = []
      · subst last
        exact inside
      · rw [listed_cons item last, bracketsThrough_append inside, bracketsThrough, if_neg (by simp)]
        exact ih others

theorem closerOf_cases {opener closer : String} (pair : closerOf opener = some closer) :
    opener ≠ "," ∧ closerOf closer = none ∧ closer ∈ closers := by
  unfold closerOf at pair
  split at pair
  case h_4 => cases pair
  all_goals
    cases pair
    decide

/-- A list of items with its brackets is an item itself, also behind balanced tokens. -/
theorem isItem_bracketed {front : List Token} {opener closer : String}
    (pair : closerOf opener = some closer) (before : bracketsThrough [] front = some [])
    {items : List (List Token)} (all : ∀ item ∈ items, IsItem item) :
    IsItem (front ++ signToken opener :: (listed items ++ [signToken closer])) := by
  obtain ⟨noComma, noOpening, known⟩ := closerOf_cases pair
  have opens : (signToken opener).bracketsAfter [] = some [closer] := by
    simp [Token.bracketsAfter, signToken, Token.isPunct, pair]
  have closes : (signToken closer).bracketsAfter [closer] = some [] := by
    simp [Token.bracketsAfter, signToken, Token.isPunct, noOpening, known]
  refine ⟨by simp, ?_⟩
  rw [bracketsThrough_append before, bracketsThrough, if_neg (by simp [noComma]), opens,
    Option.bind_some, bracketsThrough_append (bracketsThrough_listed all closer), bracketsThrough,
    if_neg (by simp), closes]
  rfl

/-! ## Operands -/

/-- The characters that an escape of one character stands for. -/
def escapes : List (Char × Char) :=
  [('"', '"'), ('\'', '\''), ('\\', '\\'), ('b', '\x08'), ('f', '\x0c'), ('n', '\n'), ('r', '\r'),
    ('t', '\t'), ('v', '\x0b')]

/-- The value of what stands between the quotes of a string literal.  Of the escapes only those of
one character and those of four hexadecimal digits have one. -/
def literalValue (quote : Char) : List Char → Option (List Char)
  | [] => some []
  | '\\' :: 'u' :: a :: b :: c :: d :: s => do
      let code ← readDigits 16 0 [a, b, c, d]
      let x ← charOfCode? code
      return x :: (← literalValue quote s)
  | '\\' :: c :: s => do
      let x ← escapes.lookup c
      return x :: (← literalValue quote s)
  | c :: s =>
      if isLineEnd c || c == '\\' || c == quote then none else (literalValue quote s).map (c :: ·)

/-- The value of a string literal. -/
def stringValueOf (literal : String) : Option String :=
  match literal.toList with
  | [] => none
  | quote :: s =>
      if (quote == '"' || quote == '\'') && s.getLast? == some quote then
        (literalValue quote s.dropLast).map String.ofList
      else none

/-- The value of an operand that is a string literal. -/
def readString : List Token → Option String
  | [t] => if t.isStr then stringValueOf t.text else none
  | _ => none

/-- Names joined by points. -/
def readReference : List Token → Option String
  | [t] => if t.isWord then some t.text else none
  | t :: point :: rest =>
      if t.isWord && point.isSign "." then (readReference rest).map (t.text ++ "." ++ ·) else none
  | [] => none

/-- The callee and the arguments of a call. -/
def readCall (ts : List Token) : Option (String × List (List Token)) := do
  let callee := ts.takeWhile (!·.isSign "(")
  let name ← readReference callee
  let arguments ← readList ")" (ts.drop (callee.length + 1))
  return (name, arguments)

/-- The items of an array. -/
def readArray : List Token → Option (List (List Token))
  | t :: ts => if t.isSign "[" then readList "]" ts else none
  | [] => none

/-- A property of an object literal. -/
inductive Property where
  | spread (value : List Token)
  | field (name : String) (value : List Token)

/-- The name of a property, which is a name or a string literal. -/
def readPropertyName (t : Token) : Option String :=
  if t.isWord then some t.text else if t.isStr then stringValueOf t.text else none

def readProperty : List Token → Option Property
  | t :: u :: ts =>
      if t.isSign "..." then some (.spread (u :: ts))
      else if u.isSign ":" && !ts.isEmpty then (readPropertyName t).map (.field · ts)
      else none
  | _ => none

def readObject : List Token → Option (List Property)
  | t :: ts => if t.isSign "\x7b" then (readList "\x7d" ts).bind (·.mapM readProperty) else none
  | [] => none

/-! ## What is read -/

/-- A token that is no punctuator is balanced. -/
theorem bracketsThrough_atom {t : Token} (atom : t.isPunct = false) (ts : List Token) :
    bracketsThrough [] (t :: ts) = bracketsThrough [] ts := by
  have same : t.bracketsAfter [] = some [] := if_neg (by simp [atom])
  rw [bracketsThrough, if_neg (by simp [Token.isSign, atom]), same, Option.bind_some]

theorem isItem_atom {t : Token} (atom : t.isPunct = false) : IsItem [t] :=
  ⟨by simp, bracketsThrough_atom atom []⟩

theorem IsItem.behind {front us : List Token} (before : bracketsThrough [] front = some [])
    (item : IsItem us) : IsItem (front ++ us) := by
  refine ⟨by simp [item.1], ?_⟩
  rw [bracketsThrough_append before]
  exact item.2

/-- Names with a point between each two. -/
def pointed : List (List Char) → List Token
  | [] => []
  | [part] => [⟨.word, 0, 0, String.ofList part⟩]
  | part :: rest => ⟨.word, 0, 0, String.ofList part⟩ :: signToken "." :: pointed rest

theorem pointed_cons (part : List Char) {rest : List (List Char)} (some : rest ≠ []) :
    pointed (part :: rest) =
      ⟨.word, 0, 0, String.ofList part⟩ :: signToken "." :: pointed rest := by
  cases rest with
  | nil => exact absurd rfl some
  | cons => rfl

theorem readReference_pointed {parts : List (List Char)} (some : parts ≠ []) :
    readReference (pointed parts) = .some (String.ofList (joinWith ['.'] parts)) := by
  induction parts with
  | nil => exact absurd rfl some
  | cons part parts ih =>
      by_cases last : parts = []
      · subst last
        rfl
      · rw [pointed_cons part last, joinWith_cons _ _ last, readReference, ih last]
        simp [Token.isWord, String.ofList_append, String.append_assoc]

theorem bracketsThrough_pointed (parts : List (List Char)) :
    bracketsThrough [] (pointed parts) = some [] := by
  induction parts with
  | nil => rfl
  | cons part parts ih =>
      by_cases last : parts = []
      · subst last
        exact bracketsThrough_atom rfl []
      · have point : bracketsThrough [] [signToken "."] = some [] := by decide
        have behind := @bracketsThrough_append [signToken "."] (pointed parts) _ _ point
        rw [pointed_cons part last, bracketsThrough_atom rfl]
        exact behind.trans ih

theorem isItem_pointed {parts : List (List Char)} (some : parts ≠ []) : IsItem (pointed parts) := by
  refine ⟨?_, bracketsThrough_pointed parts⟩
  obtain ⟨part, parts, rfl⟩ := List.exists_cons_of_ne_nil some
  cases parts <;> simp [pointed]

/-- Names with points hold no parenthesis. -/
theorem pointed_plain (parts : List (List Char)) : ∀ t ∈ pointed parts, t.isSign "(" = false := by
  induction parts with
  | nil => simp [pointed]
  | cons part parts ih =>
      by_cases last : parts = []
      · subst last
        exact List.forall_mem_cons.mpr ⟨rfl, by simp⟩
      · rw [pointed_cons part last]
        exact List.forall_mem_cons.mpr ⟨rfl, List.forall_mem_cons.mpr ⟨rfl, ih⟩⟩

theorem readCall_items {parts : List (List Char)} (some : parts ≠ []) {items : List (List Token)}
    (all : ∀ item ∈ items, IsItem item) :
    readCall (pointed parts ++ signToken "(" :: (listed items ++ [signToken ")"])) =
      .some (String.ofList (joinWith ['.'] parts), items) := by
  have callee : (pointed parts ++ signToken "(" :: (listed items ++ [signToken ")"])).takeWhile
      (!·.isSign "(") = pointed parts := by
    rw [List.takeWhile_append_of_pos fun t member => by simp [pointed_plain parts t member]]
    simp
  have behind : (pointed parts ++ signToken "(" :: (listed items ++ [signToken ")"])).drop
      ((pointed parts).length + 1) = listed items ++ [signToken ")"] := by
    rw [← List.drop_drop, List.drop_left]
    rfl
  rw [readCall]
  simp only [callee, behind, readReference_pointed some]
  rw [readList_items (by decide) all]
  rfl

theorem readArray_items {items : List (List Token)} (all : ∀ item ∈ items, IsItem item) :
    readArray (signToken "[" :: (listed items ++ [signToken "]"])) = some items := by
  rw [readArray, if_pos (by simp), readList_items (by decide) all]

theorem readObject_items {items : List (List Token)} (all : ∀ item ∈ items, IsItem item) :
    readObject (signToken "\x7b" :: (listed items ++ [signToken "\x7d"])) =
      items.mapM readProperty := by
  rw [readObject, if_pos (by simp), readList_items (by decide) all, Option.bind_some]

theorem readProperty_spread {us : List Token} (some : us ≠ []) :
    readProperty (signToken "..." :: us) = .some (.spread us) := by
  obtain ⟨u, us, rfl⟩ := List.exists_cons_of_ne_nil some
  rw [readProperty, if_pos (by simp)]

theorem readProperty_field {t : Token} {name : String} (known : readPropertyName t = some name)
    {us : List Token} (nonempty : us ≠ []) :
    readProperty (t :: signToken ":" :: us) = some (.field name us) := by
  have noSign : t.isSign "..." = false := by
    obtain ⟨shape, start, stop, text⟩ := t
    cases shape <;> first | rfl | cases known
  rw [readProperty, if_neg (by simp [noSign]), if_pos (by simp [nonempty]), known, Option.map_some]

/-! ## Quoted texts -/

theorem hexDigits_control : ∀ n < 32,
    Quoted.hexDigits 4 n = ['0', '0', Nat.digitChar (n / 16), Nat.digitChar (n % 16)] ∧
      readDigits 16 0 ['0', '0', Nat.digitChar (n / 16), Nat.digitChar (n % 16)] = some n := by
  decide

theorem charOfCode?_toNat (c : Char) : charOfCode? c.toNat = some c := by
  have valid : c.toNat.isValidChar := c.valid
  rw [charOfCode?, dif_pos valid]
  rfl

theorem literalValue_jsonChar (c : Char) (s : List Char) :
    literalValue '"' (Quoted.jsonChar c ++ s) = (literalValue '"' s).map (c :: ·) := by
  have escaped {x : Char} (known : escapes.lookup x = some c) (noUnicode : x ≠ 'u') :
      literalValue '"' ('\\' :: x :: s) = (literalValue '"' s).map (c :: ·) := by
    rw [literalValue]
    · rw [known]
      cases literalValue '"' s <;> rfl
    · exact fun _ _ _ _ _ unicode _ => noUnicode unicode
  unfold Quoted.jsonChar
  split_ifs with quote backslash feed carriage tab back form control
  any_goals
    subst c
    exact escaped rfl (by decide)
  · obtain ⟨digits, value⟩ := hexDigits_control c.toNat control
    rw [digits]
    simp only [List.cons_append, List.nil_append, literalValue, value, Option.bind_eq_bind,
      Option.bind_some, charOfCode?_toNat]
    cases literalValue '"' s <;> rfl
  · have plain : (isLineEnd c || c == '\\' || c == '"') = false := by
      simp [isLineEnd, quote, backslash, feed, carriage]
    rw [List.singleton_append, literalValue, if_neg (by simp [plain])]
    · exact fun _ _ _ _ _ escape _ => backslash escape
    · exact fun _ _ escape _ => backslash escape

theorem literalValue_quoted (s : List Char) :
    literalValue '"' (s.flatMap Quoted.jsonChar) = some s := by
  induction s with
  | nil => rfl
  | cons c s ih => rw [List.flatMap_cons, literalValue_jsonChar, ih, Option.map_some]

/-- The value of a quoted text is the text. -/
theorem stringValueOf_json (s : String) : stringValueOf (Quoted.json s) = some s := by
  rw [stringValueOf, Quoted.json, String.toList_ofList, List.cons_append]
  simp [literalValue_quoted]

theorem stringTail_plain {x : Char} {s t : List Char} (found : stringTail '"' s = some t)
    (plain : (isLineEnd x || x == '"' || x == '\\') = false) :
    stringTail '"' (x :: s) = some (x :: t) := by
  simp only [Bool.or_eq_false_iff, beq_eq_false_iff_ne] at plain
  obtain ⟨⟨inLine, goesOn⟩, noEscape⟩ := plain
  rw [stringTail, if_neg (by simp [inLine]), if_neg (by simpa using goesOn), found, Option.map_some]
  · exact fun _ escape _ => noEscape escape
  · exact fun _ _ escape _ => noEscape escape

theorem stringTail_run {xs s t : List Char} (found : stringTail '"' s = some t)
    (plain : xs.all (fun x => !(isLineEnd x || x == '"' || x == '\\')) = true) :
    stringTail '"' (xs ++ s) = some (xs ++ t) := by
  induction xs with
  | nil => exact found
  | cons x xs ih =>
      rw [List.all_cons, Bool.and_eq_true, Bool.not_eq_true'] at plain
      exact stringTail_plain (ih plain.2) plain.1

theorem stringTail_jsonChar (c : Char) {s t : List Char} (found : stringTail '"' s = some t) :
    stringTail '"' (Quoted.jsonChar c ++ s) = some (Quoted.jsonChar c ++ t) := by
  have escaped {x : Char} {s t : List Char} (found : stringTail '"' s = some t)
      (noBreak : x ≠ '\r') : stringTail '"' ('\\' :: x :: s) = some ('\\' :: x :: t) := by
    rw [stringTail, found]
    · rfl
    · exact fun _ carriage _ => noBreak carriage
  have digits : ∀ n < 32, ['0', '0', Nat.digitChar (n / 16), Nat.digitChar (n % 16)].all
      (fun x => !(isLineEnd x || x == '"' || x == '\\')) = true := by
    decide
  unfold Quoted.jsonChar
  split_ifs with quote backslash feed carriage tab back form control
  iterate 7 exact escaped found (by decide)
  · rw [(hexDigits_control c.toNat control).1]
    exact escaped (stringTail_run found (digits c.toNat control)) (by decide)
  · refine stringTail_plain found ?_
    simp [isLineEnd, feed, carriage, quote, backslash]

/-- A quoted text is one literal. -/
theorem isWhole_json (s : String) : (Lexeme.str (Quoted.json s)).isWhole = true := by
  have inside (s : List Char) : stringTail '"' (s.flatMap Quoted.jsonChar ++ ['"']) =
      some (s.flatMap Quoted.jsonChar ++ ['"']) := by
    induction s with
    | nil => rfl
    | cons c s ih =>
        rw [List.flatMap_cons, List.append_assoc]
        exact stringTail_jsonChar c ih
  simp [Lexeme.isWhole, Quoted.json, inside]

end JsxPreview.Source
