import JsxPreview.Proofs.Guarded.Module
import JsxPreview.Proofs.Guarded.Walk
import JsxPreview.Source.Module
import JsxPreview.Source.Usage

/-! # Guarded search for uses of modules

The search reads a row by the index of each token, and looks at the three tokens behind a word.  It
walks over the rows that are nested in a token by the structure of the token.  The guarded search
finds what the plain one finds (`usagesAll_same`). -/
set_option autoImplicit false
namespace JsxPreview.Source

open JsxPreview.Text

namespace Guarded

/-- The use that the word at token `n` makes, by the tokens behind it. -/
def usage (row : TokenRow) (n : Nat) : Guarded (List Usage) :=
  if row.text (n + 1) == "(" && row.isStr (n + 2) && row.text (n + 3) == ")" then
    if row.text n == "require" then do
      subscript row (n + 2)
      let specifier ← unquoted (row.text (n + 2))
      .ok [.requireCall specifier (row.start (n + 2)) (row.stop (n + 2))]
    else if row.text n == "import" then do
      subscript row (n + 2)
      let specifier ← unquoted (row.text (n + 2))
      subscript row (n + 3)
      .ok [.dynamicImport specifier (row.start (n + 2)) (row.start n) (row.stop (n + 3))]
    else .ok []
  else if row.text n == "import" && row.text (n + 1) == "." && row.text (n + 2) == "meta" then do
    subscript row (n + 2)
    .ok [.importMeta (row.start n) (row.stop (n + 2))]
  else .ok []

mutual

/-- The uses in the tokens of a row from token `n` on, which are those of a list without its
comments. -/
def usagesAll (row : TokenRow) (n : Nat) : List Token → Guarded (List Usage)
  | [] => .ok []
  | t :: rest =>
      if t.isComment then usagesAll row n rest
      else do
        subscript row n
        let own ← usages row n t
        let others ← usagesAll row (n + 1) rest
        .ok (own ++ others)

/-- The uses in the token at index `n`. -/
def usages (row : TokenRow) (n : Nat) : Token → Guarded (List Usage)
  | ⟨.word, _, _, _⟩ => if row.followsDot n then .ok [] else usage row n
  | ⟨.template parts, _, _, _⟩ => partsUsages row parts
  | ⟨.jsx element, _, _, _⟩ => do
      let inside ← elementUsages row element
      .ok (.element :: inside)
  | ⟨.punct, _, _, _⟩ | ⟨.str, _, _, _⟩ | ⟨.number, _, _, _⟩ | ⟨.regex, _, _, _⟩
  | ⟨.comment, _, _, _⟩ => .ok []

def partsUsages (row : TokenRow) : List TemplatePart → Guarded (List Usage)
  | [] => .ok []
  | p :: rest => do
      let own ← partUsages row p
      let others ← partsUsages row rest
      .ok (own ++ others)

def partUsages (row : TokenRow) : TemplatePart → Guarded (List Usage)
  | .raw _ _ => .ok []
  | .subst body => bodyUsages row body

def bodyUsages (row : TokenRow) : Body → Guarded (List Usage)
  | ⟨_, _, tokens⟩ => usagesAll (row.nested tokens) 0 tokens

def elementUsages (row : TokenRow) : Element → Guarded (List Usage)
  | ⟨_, _, _, attributes, children⟩ => do
      let own ← attributesUsages row attributes
      let others ← childrenUsages row children
      .ok (own ++ others)

def attributesUsages (row : TokenRow) : List Attribute → Guarded (List Usage)
  | [] => .ok []
  | a :: rest => do
      let own ← attributeUsages row a
      let others ← attributesUsages row rest
      .ok (own ++ others)

def attributeUsages (row : TokenRow) : Attribute → Guarded (List Usage)
  | .spread body => bodyUsages row body
  | .named _ _ value => valueUsages row value

def valueUsages (row : TokenRow) : AttributeValue → Guarded (List Usage)
  | .expr body => bodyUsages row body
  | .element e => elementUsages row e
  | .bare | .str _ _ => .ok []

def childrenUsages (row : TokenRow) : List Child → Guarded (List Usage)
  | [] => .ok []
  | c :: rest => do
      let own ← childUsages row c
      let others ← childrenUsages row rest
      .ok (own ++ others)

def childUsages (row : TokenRow) : Child → Guarded (List Usage)
  | .expr body => bodyUsages row body
  | .element e => elementUsages row e
  | .text _ _ => .ok []

end

/-! ## The tokens ahead -/

/-- From index `n` on the row holds the tokens of a list that are not comments. -/
def Ahead (row : TokenRow) (n : Nat) (ts : List Token) : Prop :=
  row.tokens.toList.drop n = ts.filter (!·.isComment)

variable {row : TokenRow} {n : Nat} {t : Token} {ts : List Token}

theorem Ahead.get? (ahead : Ahead row n ts) (k : Nat) :
    row.get? (n + k) = (ts.filter (!·.isComment))[k]? := by
  rw [← ahead, List.getElem?_drop, TokenRow.get?, Array.getElem?_toList]

theorem Ahead.comment (ahead : Ahead row n (t :: ts)) (comment : t.isComment = true) :
    Ahead row n ts := by
  rw [Ahead, ahead, List.filter_cons_of_neg (by simp [comment])]

theorem Ahead.head (ahead : Ahead row n (t :: ts)) (ink : t.isComment = false) :
    row.get? n = some t := by
  rw [← Nat.add_zero n, ahead.get? 0, List.filter_cons_of_pos (by simp [ink])]
  rfl

theorem Ahead.tail (ahead : Ahead row n (t :: ts)) (ink : t.isComment = false) :
    Ahead row (n + 1) ts := by
  rw [Ahead, ← List.drop_drop, ahead, List.filter_cons_of_pos (by simp [ink])]
  rfl

/-- A word makes the same use by the tokens behind it in the row and in the list. -/
theorem usage_same (literal : row.Literal) (found : row.get? n = some t)
    (ahead : Ahead row (n + 1) ts) :
    usage row n = .ok (Token.usage t (ts.filter (!·.isComment))) := by
  have first : row.get? (n + 1) = (ts.filter (!·.isComment))[0]? := ahead.get? 0
  have second : row.get? (n + 2) = (ts.filter (!·.isComment))[1]? := ahead.get? 1
  have third : row.get? (n + 3) = (ts.filter (!·.isComment))[2]? := ahead.get? 2
  generalize ts.filter (!·.isComment) = following at first second third ⊢
  unfold usage Token.usage
  rcases following with _ | ⟨a, _ | ⟨b, _ | ⟨c, rest⟩⟩⟩
  · simp [TokenRow.text, first]
  · simp [TokenRow.text, TokenRow.isStr, first, second]
  · have nothing : row.text (n + 3) = "" := by
      rw [TokenRow.text, third]
      rfl
    rw [if_neg (by simp [nothing]), TokenRow.text_of_get? found, TokenRow.text_of_get? first,
      TokenRow.text_of_get? second, subscript_bind (TokenRow.lt_of_get? second),
      TokenRow.start_of_get? found, TokenRow.stop_of_get? second]
    dsimp only
    split <;> rfl
  · have isStr : row.isStr (n + 2) = b.isStr := by
      rw [TokenRow.isStr, second]
      rfl
    rw [subscript_bind (TokenRow.lt_of_get? second), subscript_bind (TokenRow.lt_of_get? second),
      subscript_bind (TokenRow.lt_of_get? second)]
    dsimp only
    rw [← TokenRow.text_of_get? found, ← TokenRow.text_of_get? first,
      ← TokenRow.text_of_get? second, ← TokenRow.text_of_get? third, ← isStr]
    split
    case isTrue called =>
      have isLiteral : row.isStr (n + 2) = true := by
        simp only [Bool.and_eq_true] at called
        exact called.1.2
      rw [unquoted_same (literal (n + 2) isLiteral), ok_bind, ok_bind,
        subscript_bind (TokenRow.lt_of_get? third), TokenRow.start_of_get? second,
        TokenRow.stop_of_get? second, TokenRow.start_of_get? found, TokenRow.stop_of_get? third]
      split
      · rfl
      · split <;> rfl
    case isFalse =>
      rw [TokenRow.start_of_get? found, TokenRow.stop_of_get? second]
      split <;> rfl

/-- The token behind a dot follows it. -/
theorem followsDot_succ (found : row.get? n = some t) :
    row.followsDot (n + 1) = (t.isPunct && (t.text == "." || t.text == "?.")) := by
  rw [TokenRow.followsDot, TokenRow.isPunct, TokenRow.isPunct, found, Bool.and_or_distrib_left]
  rfl

/-! ## The search -/

mutual

theorem usagesAll_same (row : TokenRow) (literal : row.Literal) (n : Nat) : (ts : List Token) →
    Ahead row n ts → (∀ t ∈ ts, ∀ b ∈ t.shape.bodies, Literals b.tokens) →
    usagesAll row n ts = .ok (Token.usagesAll (row.followsDot n) ts)
  | [], _, _ => rfl
  | t :: rest, ahead, inside => by
      have others := (List.forall_mem_cons.mp inside).2
      unfold usagesAll Token.usagesAll
      cases comment : t.isComment with
      | true => exact usagesAll_same row literal n rest (ahead.comment comment) others
      | false =>
          have found := ahead.head comment
          rw [if_neg Bool.false_ne_true, if_neg Bool.false_ne_true,
            subscript_bind (TokenRow.lt_of_get? found),
            usages_same row literal n t rest found (ahead.tail comment)
              (List.forall_mem_cons.mp inside).1, ok_bind,
            usagesAll_same row literal (n + 1) rest (ahead.tail comment) others, ok_bind,
            followsDot_succ found]

theorem usages_same (row : TokenRow) (literal : row.Literal) (n : Nat) : (t : Token) →
    (ts : List Token) → row.get? n = some t → Ahead row (n + 1) ts →
    (∀ b ∈ t.shape.bodies, Literals b.tokens) →
    usages row n t = .ok (t.usages (row.followsDot n) (ts.filter (!·.isComment)))
  | ⟨.word, start, stop, text⟩, ts, found, ahead, _ => by
      unfold usages Token.usages
      split
      · rfl
      · exact usage_same literal found ahead
  | ⟨.template parts, _, _, _⟩, _, _, _, inside => partsUsages_same row parts inside
  | ⟨.jsx element, _, _, _⟩, _, _, _, inside => by
      unfold usages Token.usages
      rw [elementUsages_same row element inside, ok_bind]
  | ⟨.punct, _, _, _⟩, _, _, _, _ | ⟨.str, _, _, _⟩, _, _, _, _ | ⟨.number, _, _, _⟩, _, _, _, _
  | ⟨.regex, _, _, _⟩, _, _, _, _ | ⟨.comment, _, _, _⟩, _, _, _, _ => rfl

theorem partsUsages_same (row : TokenRow) : (parts : List TemplatePart) →
    (∀ b ∈ (Shape.template parts).bodies, Literals b.tokens) →
    partsUsages row parts = .ok (TemplatePart.usagesAll parts)
  | [], _ => rfl
  | .raw _ _ :: rest, inside => by
      unfold partsUsages TemplatePart.usagesAll
      rw [partsUsages_same row rest inside]
      rfl
  | .subst body :: rest, inside => by
      obtain ⟨here, others⟩ := List.forall_mem_cons.mp inside
      unfold partsUsages TemplatePart.usagesAll
      rw [partUsages, bodyUsages_same row body here, ok_bind, partsUsages_same row rest others]
      rfl

theorem bodyUsages_same (row : TokenRow) : (b : Body) → Literals b.tokens →
    bodyUsages row b = .ok b.usages
  | ⟨_, _, tokens⟩, literals => by
      have inner : (row.nested tokens).Literal := literals.row (row.nested tokens) rfl
      obtain ⟨_, inside⟩ := literals
      exact usagesAll_same (row.nested tokens) inner 0 tokens List.toList_toArray inside

theorem elementUsages_same (row : TokenRow) : (e : Element) →
    (∀ b ∈ e.bodies, Literals b.tokens) → elementUsages row e = .ok e.usages
  | ⟨_, _, _, attributes, children⟩, inside => by
      obtain ⟨first, second⟩ := List.forall_mem_append.mp inside
      unfold elementUsages Element.usages
      rw [attributesUsages_same row attributes first, ok_bind,
        childrenUsages_same row children second, ok_bind]

theorem attributesUsages_same (row : TokenRow) : (as : List Attribute) →
    (∀ b ∈ Attribute.bodiesAll as, Literals b.tokens) →
    attributesUsages row as = .ok (Attribute.usagesAll as)
  | [], _ => rfl
  | a :: rest, inside => by
      obtain ⟨first, second⟩ := List.forall_mem_append.mp inside
      unfold attributesUsages Attribute.usagesAll
      rw [attributeUsages_same row a first, ok_bind, attributesUsages_same row rest second, ok_bind]

theorem attributeUsages_same (row : TokenRow) : (a : Attribute) →
    (∀ b ∈ a.bodies, Literals b.tokens) → attributeUsages row a = .ok a.usages
  | .spread body, inside => bodyUsages_same row body (inside body (List.mem_singleton.mpr rfl))
  | .named _ _ value, inside => valueUsages_same row value inside

theorem valueUsages_same (row : TokenRow) : (v : AttributeValue) →
    (∀ b ∈ v.bodies, Literals b.tokens) → valueUsages row v = .ok v.usages
  | .expr body, inside => bodyUsages_same row body (inside body (List.mem_singleton.mpr rfl))
  | .element e, inside => elementUsages_same row e inside
  | .bare, _ | .str _ _, _ => rfl

theorem childrenUsages_same (row : TokenRow) : (cs : List Child) →
    (∀ b ∈ Child.bodiesAll cs, Literals b.tokens) →
    childrenUsages row cs = .ok (Child.usagesAll cs)
  | [], _ => rfl
  | c :: rest, inside => by
      obtain ⟨first, second⟩ := List.forall_mem_append.mp inside
      unfold childrenUsages Child.usagesAll
      rw [childUsages_same row c first, ok_bind, childrenUsages_same row rest second, ok_bind]

theorem childUsages_same (row : TokenRow) : (c : Child) →
    (∀ b ∈ c.bodies, Literals b.tokens) → childUsages row c = .ok c.usages
  | .expr body, inside => bodyUsages_same row body (inside body (List.mem_singleton.mpr rfl))
  | .element e, inside => elementUsages_same row e inside
  | .text _ _, _ => rfl

end

end Guarded

/-! ## Whole texts under guard

For the tokens of any text, well formed or not, the guarded walks meet no fault and have the outcome of
the plain ones, which is an answer or a real error (`walkers_total`). -/

namespace Guarded

open GuardedRead (pass)

/-- What the walk over a text erases. -/
def erasureOf (source : List Char) (tokens : List Token) : GuardedRead Erasure := do
  let row := TokenRow.ofTokens source tokens
  let (_, e) ← (scan source row row.size (erasureAllowance source) 0 none 0).run {}
  return e.dropTypeExports.dropUnusedImports tokens

/-- What a module needs and offers. -/
def analyze (source : List Char) (tokens : List Token) (o : HeaderOptions) :
    GuardedRead Analysis := do
  let row := TokenRow.ofTokens source tokens
  let declared ← declarations source row (row.size + 1) 0 0 {}
  let used ← pass (usagesAll row 0 tokens)
  return (used.foldl Analysis.addUsage declared).withHeader o

theorem erasureOf_agrees {source : List Char} {ts : List Token}
    (lies : (TokenRow.ofTokens source ts).Lies source 0 (byteLength source)) :
    Agrees (erasureOf source ts) (Source.erasureOf source ts) fun _ => True := by
  have whole := lies.room_whole
  have fits : roomBetween source 0 (byteLength source) ≤ 16 * source.length := by
    have := charsBefore_le_length source (byteLength source)
    unfold roomBetween
    omega
  refine .bind (scan_runs lies (Nat.le_refl _) (erasureAllowance source) 0 none 0 ?_ {})
    fun _ _ => .pure trivial
  unfold erasureAllowance
  omega

theorem analyze_agrees {source : List Char} {low high : Nat} {ts : List Token}
    (lies : (TokenRow.ofTokens source ts).Lies source low high) (literals : Literals ts)
    (o : HeaderOptions) :
    Agrees (analyze source ts o) (Source.analyze source ts o) fun _ => True := by
  have literal : (TokenRow.ofTokens source ts).Literal := literals.row _ rfl
  obtain ⟨_, inside⟩ := literals
  refine .bind (declarations_agrees lies literal _ 0 0 {} (by omega) (Int.le_refl 0))
    fun declared _ => ?_
  exact .pass (usagesAll_same _ literal 0 ts List.toList_toArray inside) (.pure trivial)

end Guarded

/-- The walk that erases types and the analysis of a module come to an end on the tokens of any text.
Each token can be cut out of the text; under guard neither of them reads a token that is not there,
cuts the text outside its characters, closes a bracket that is not open, stands still, leaves its
range or uses up its allowance. -/
theorem walkers_total {d : Dialect} {source : String} {ts : List Token}
    (success : tokenize d source = .ok ts) :
    (∀ t : Token, t.Within ts → Stretch source.toList t.start t.stop t.text.toList) ∧
    Agrees (Guarded.erasureOf source.toList ts) (erasureOf source.toList ts) (fun _ => True) ∧
    ∀ o, Agrees (Guarded.analyze source.toList ts o) (analyze source.toList ts o)
      (fun _ => True) := by
  have tiles := tokenize_tiles success
  have lies : (TokenRow.ofTokens source.toList ts).Lies source.toList 0 (byteLength source.toList) :=
    ⟨ts, rfl, tiles, tokenize_spanned success⟩
  exact ⟨fun t within => tiles.stretch_within within, Guarded.erasureOf_agrees lies,
    Guarded.analyze_agrees lies (tokenize_literals success)⟩

/-- Brackets that are closed without being open, and a text that ends inside of a pattern. -/
def brokenText : String := "\x7d ) class A<T \x7b b?: [c; export const \x7b d: [e = f("

theorem walkers_total_broken : ∃ ts, tokenize ⟨true, true⟩ brokenText = .ok ts ∧ ts.length = 23 ∧
    Agrees (Guarded.erasureOf brokenText.toList ts) (erasureOf brokenText.toList ts)
      (fun _ => True) := by
  have scanned : ((tokenizeWithin (allowance brokenText.toList) ⟨true, true⟩
      brokenText).toOption.map List.length) = some 23 := by decide +kernel
  obtain ⟨ts, scanned, length⟩ := Option.map_eq_some_iff.mp scanned
  have success : tokenize ⟨true, true⟩ brokenText = .ok ts := by
    rw [tokenize_of_not_mem (by decide), ok_of_toOption scanned]
  exact ⟨ts, success, length, (walkers_total success).2.1⟩

end JsxPreview.Source
