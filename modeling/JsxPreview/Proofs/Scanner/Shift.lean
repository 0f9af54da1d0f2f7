import JsxPreview.Proofs.Scanner.Extension

/-! # Code in its place

What a text is read as does not depend on where it stands: put behind `k` bytes of other text, and in
front of what closes (`Closes`), it is read as the same tokens `k` bytes further on (`Reads.moves`), as
long as no comment of a line goes on with what follows.  `Scans` is such a reading from one cursor to
another. -/
set_option autoImplicit false
namespace JsxPreview.Source

open JsxPreview.Text

/-! ## Tokens further on -/

def TagName.shift (k : Nat) (n : TagName) : TagName := { n with start := k + n.start }

mutual

/-- A token `k` bytes further on, with all that stands in it. -/
def Token.shift (k : Nat) : Token → Token
  | ⟨shape, start, stop, text⟩ => ⟨shape.shift k, k + start, k + stop, text⟩

def Token.shiftAll (k : Nat) : List Token → List Token
  | [] => []
  | t :: rest => t.shift k :: Token.shiftAll k rest

def Shape.shift (k : Nat) : Shape → Shape
  | .template parts => .template (TemplatePart.shiftAll k parts)
  | .jsx element => .jsx (element.shift k)
  | .word => .word
  | .punct => .punct
  | .str => .str
  | .number => .number
  | .regex => .regex
  | .comment => .comment

def TemplatePart.shiftAll (k : Nat) : List TemplatePart → List TemplatePart
  | [] => []
  | p :: rest => p.shift k :: TemplatePart.shiftAll k rest

def TemplatePart.shift (k : Nat) : TemplatePart → TemplatePart
  | .raw start stop => .raw (k + start) (k + stop)
  | .subst body => .subst (body.shift k)

def Body.shift (k : Nat) : Body → Body
  | ⟨start, stop, tokens⟩ => ⟨k + start, k + stop, Token.shiftAll k tokens⟩

def Element.shift (k : Nat) : Element → Element
  | ⟨start, stop, name, attributes, children⟩ =>
      ⟨k + start, k + stop, name.map (TagName.shift k), Attribute.shiftAll k attributes,
        Child.shiftAll k children⟩

def Attribute.shiftAll (k : Nat) : List Attribute → List Attribute
  | [] => []
  | a :: rest => a.shift k :: Attribute.shiftAll k rest

def Attribute.shift (k : Nat) : Attribute → Attribute
  | .named name start value => .named name (k + start) (value.shift k)
  | .spread body => .spread (body.shift k)

def AttributeValue.shift (k : Nat) : AttributeValue → AttributeValue
  | .bare => .bare
  | .str value start => .str value (k + start)
  | .expr body => .expr (body.shift k)
  | .element element => .element (element.shift k)

def Child.shiftAll (k : Nat) : List Child → List Child
  | [] => []
  | c :: rest => c.shift k :: Child.shiftAll k rest

def Child.shift (k : Nat) : Child → Child
  | .text value start => .text value (k + start)
  | .expr body => .expr (body.shift k)
  | .element element => .element (element.shift k)

end

/-! ### No bytes further -/

theorem TagName.shift_zero (name : Option TagName) : name.map (TagName.shift 0) = name := by
  cases name with
  | none => rfl
  | some n => rw [Option.map_some, TagName.shift, Nat.zero_add]

mutual

theorem Token.shift_zero : (t : Token) → t.shift 0 = t
  | ⟨shape, start, stop, text⟩ => by rw [Token.shift, shape.shift_zero, Nat.zero_add, Nat.zero_add]

theorem Token.shiftAll_zero : (ts : List Token) → Token.shiftAll 0 ts = ts
  | [] => rfl
  | t :: rest => by rw [Token.shiftAll, t.shift_zero, Token.shiftAll_zero rest]

theorem Shape.shift_zero : (shape : Shape) → shape.shift 0 = shape
  | .template parts => by rw [Shape.shift, TemplatePart.shiftAll_zero parts]
  | .jsx element => by rw [Shape.shift, element.shift_zero]
  | .word | .punct | .str | .number | .regex | .comment => rfl

theorem TemplatePart.shiftAll_zero : (ps : List TemplatePart) → TemplatePart.shiftAll 0 ps = ps
  | [] => rfl
  | p :: rest => by rw [TemplatePart.shiftAll, p.shift_zero, TemplatePart.shiftAll_zero rest]

theorem TemplatePart.shift_zero : (p : TemplatePart) → p.shift 0 = p
  | .raw start stop => by rw [TemplatePart.shift, Nat.zero_add, Nat.zero_add]
  | .subst body => by rw [TemplatePart.shift, body.shift_zero]

theorem Body.shift_zero : (b : Body) → b.shift 0 = b
  | ⟨start, stop, tokens⟩ => by
      rw [Body.shift, Token.shiftAll_zero tokens, Nat.zero_add, Nat.zero_add]

theorem Element.shift_zero : (e : Element) → e.shift 0 = e
  | ⟨start, stop, name, attributes, children⟩ => by
      rw [Element.shift, TagName.shift_zero, Attribute.shiftAll_zero attributes,
        Child.shiftAll_zero children, Nat.zero_add, Nat.zero_add]

theorem Attribute.shiftAll_zero : (as : List Attribute) → Attribute.shiftAll 0 as = as
  | [] => rfl
  | a :: rest => by rw [Attribute.shiftAll, a.shift_zero, Attribute.shiftAll_zero rest]

theorem Attribute.shift_zero : (a : Attribute) → a.shift 0 = a
  | .named name start value => by rw [Attribute.shift, value.shift_zero, Nat.zero_add]
  | .spread body => by rw [Attribute.shift, body.shift_zero]

theorem AttributeValue.shift_zero : (v : AttributeValue) → v.shift 0 = v
  | .bare => rfl
  | .str value start => by rw [AttributeValue.shift, Nat.zero_add]
  | .expr body => by rw [AttributeValue.shift, body.shift_zero]
  | .element element => by rw [AttributeValue.shift, element.shift_zero]

theorem Child.shiftAll_zero : (cs : List Child) → Child.shiftAll 0 cs = cs
  | [] => rfl
  | c :: rest => by rw [Child.shiftAll, c.shift_zero, Child.shiftAll_zero rest]

theorem Child.shift_zero : (c : Child) → c.shift 0 = c
  | .text value start => by rw [Child.shift, Nat.zero_add]
  | .expr body => by rw [Child.shift, body.shift_zero]
  | .element element => by rw [Child.shift, element.shift_zero]

end

/-! ### Without the places -/

theorem TagName.unplaced_shift (k : Nat) (name : Option TagName) :
    (name.map (TagName.shift k)).map TagName.unplaced = name.map TagName.unplaced := by
  cases name <;> rfl

mutual

theorem Token.unplaced_shift (k : Nat) : (t : Token) → (t.shift k).unplaced = t.unplaced
  | ⟨shape, start, stop, text⟩ => by
      rw [Token.shift, Token.unplaced, Token.unplaced, shape.unplaced_shift k]

theorem Token.unplacedAll_shiftAll (k : Nat) : (ts : List Token) →
    Token.unplacedAll (Token.shiftAll k ts) = Token.unplacedAll ts
  | [] => rfl
  | t :: rest => by
      rw [Token.shiftAll, Token.unplacedAll, Token.unplacedAll, t.unplaced_shift k,
        Token.unplacedAll_shiftAll k rest]

theorem Shape.unplaced_shift (k : Nat) : (shape : Shape) → (shape.shift k).unplaced = shape.unplaced
  | .template parts => by
      rw [Shape.shift, Shape.unplaced, Shape.unplaced, TemplatePart.unplacedAll_shiftAll k parts]
  | .jsx element => by rw [Shape.shift, Shape.unplaced, Shape.unplaced, element.unplaced_shift k]
  | .word | .punct | .str | .number | .regex | .comment => rfl

theorem TemplatePart.unplacedAll_shiftAll (k : Nat) : (ps : List TemplatePart) →
    TemplatePart.unplacedAll (TemplatePart.shiftAll k ps) = TemplatePart.unplacedAll ps
  | [] => rfl
  | p :: rest => by
      rw [TemplatePart.shiftAll, TemplatePart.unplacedAll, TemplatePart.unplacedAll,
        p.unplaced_shift k, TemplatePart.unplacedAll_shiftAll k rest]

theorem TemplatePart.unplaced_shift (k : Nat) : (p : TemplatePart) →
    (p.shift k).unplaced = p.unplaced
  | .raw _ _ => rfl
  | .subst body => by
      rw [TemplatePart.shift, TemplatePart.unplaced, TemplatePart.unplaced, body.unplaced_shift k]

theorem Body.unplaced_shift (k : Nat) : (b : Body) → (b.shift k).unplaced = b.unplaced
  | ⟨start, stop, tokens⟩ => by
      rw [Body.shift, Body.unplaced, Body.unplaced, Token.unplacedAll_shiftAll k tokens]

theorem Element.unplaced_shift (k : Nat) : (e : Element) → (e.shift k).unplaced = e.unplaced
  | ⟨start, stop, name, attributes, children⟩ => by
      rw [Element.shift, Element.unplaced, Element.unplaced, TagName.unplaced_shift,
        Attribute.unplacedAll_shiftAll k attributes, Child.unplacedAll_shiftAll k children]

theorem Attribute.unplacedAll_shiftAll (k : Nat) : (as : List Attribute) →
    Attribute.unplacedAll (Attribute.shiftAll k as) = Attribute.unplacedAll as
  | [] => rfl
  | a :: rest => by
      rw [Attribute.shiftAll, Attribute.unplacedAll, Attribute.unplacedAll, a.unplaced_shift k,
        Attribute.unplacedAll_shiftAll k rest]

theorem Attribute.unplaced_shift (k : Nat) : (a : Attribute) → (a.shift k).unplaced = a.unplaced
  | .named name start value => by
      rw [Attribute.shift, Attribute.unplaced, Attribute.unplaced, value.unplaced_shift k]
  | .spread body => by
      rw [Attribute.shift, Attribute.unplaced, Attribute.unplaced, body.unplaced_shift k]

theorem AttributeValue.unplaced_shift (k : Nat) : (v : AttributeValue) →
    (v.shift k).unplaced = v.unplaced
  | .bare | .str _ _ => rfl
  | .expr body => by
      rw [AttributeValue.shift, AttributeValue.unplaced, AttributeValue.unplaced,
        body.unplaced_shift k]
  | .element element => by
      rw [AttributeValue.shift, AttributeValue.unplaced, AttributeValue.unplaced,
        element.unplaced_shift k]

theorem Child.unplacedAll_shiftAll (k : Nat) : (cs : List Child) →
    Child.unplacedAll (Child.shiftAll k cs) = Child.unplacedAll cs
  | [] => rfl
  | c :: rest => by
      rw [Child.shiftAll, Child.unplacedAll, Child.unplacedAll, c.unplaced_shift k,
        Child.unplacedAll_shiftAll k rest]

theorem Child.unplaced_shift (k : Nat) : (c : Child) → (c.shift k).unplaced = c.unplaced
  | .text _ _ => rfl
  | .expr body => by rw [Child.shift, Child.unplaced, Child.unplaced, body.unplaced_shift k]
  | .element element => by
      rw [Child.shift, Child.unplaced, Child.unplaced, element.unplaced_shift k]

end

/-! ### What places do not tell -/

section

variable (k : Nat) (t : Token)

theorem Token.isPunct_unplaced : t.unplaced.isPunct = t.isPunct := by
  obtain ⟨shape, start, stop, text⟩ := t
  cases shape <;> rfl

theorem Token.isComment_unplaced : t.unplaced.isComment = t.isComment := by
  obtain ⟨shape, start, stop, text⟩ := t
  cases shape <;> rfl

theorem Token.text_unplaced : t.unplaced.text = t.text := by
  cases t
  rfl

theorem Token.depthAfter_unplaced (depth : Nat) : t.unplaced.depthAfter depth = t.depthAfter depth := by
  simp only [Token.depthAfter, t.isPunct_unplaced, t.text_unplaced]

theorem Token.operandAfter_unplaced (operand : Bool) :
    t.unplaced.operandAfter operand = t.operandAfter operand := by
  obtain ⟨shape, start, stop, text⟩ := t
  cases shape <;> rfl

theorem Token.isComment_shift : (t.shift k).isComment = t.isComment := by
  rw [← Token.isComment_unplaced, Token.unplaced_shift, Token.isComment_unplaced]

theorem Token.depthAfter_shift (depth : Nat) : (t.shift k).depthAfter depth = t.depthAfter depth := by
  rw [← Token.depthAfter_unplaced, Token.unplaced_shift, Token.depthAfter_unplaced]

theorem Token.operandAfter_shift (operand : Bool) :
    (t.shift k).operandAfter operand = t.operandAfter operand := by
  rw [← Token.operandAfter_unplaced, Token.unplaced_shift, Token.operandAfter_unplaced]

end

theorem Token.any_shiftAll (k : Nat) (ts : List Token) :
    (Token.shiftAll k ts).any (!·.isComment) = ts.any (!·.isComment) := by
  induction ts with
  | nil => rfl
  | cons t ts ih =>
      rw [Token.shiftAll, List.any_cons, List.any_cons, ih, Token.isComment_shift]

theorem Child.shiftAll_append (k : Nat) (first second : List Child) :
    Child.shiftAll k (first ++ second) = Child.shiftAll k first ++ Child.shiftAll k second := by
  induction first with
  | nil => rfl
  | cons c rest ih =>
      rw [List.cons_append, Child.shiftAll, Child.shiftAll, ih, List.cons_append]

theorem Shape.shift_leaf {shape : Shape} (leaf : shape.isLeaf = true) (k : Nat) :
    shape.shift k = shape := by
  cases shape <;> first | rfl | cases leaf

theorem tokenBetween_within (k : Nat) {rest : List Char} {shape : Shape} {c d : Cursor}
    (leads : c.Leads d) : tokenBetween (shape.shift k) (c.within k rest) (d.within k rest) =
      (tokenBetween shape c d).shift k := by
  rw [tokenBetween, Cursor.upTo_within leads]
  rfl

theorem textChild_within (k : Nat) {rest : List Char} {c d : Cursor} (leads : c.Leads d) :
    textChild (c.within k rest) (d.within k rest) = Child.shiftAll k (textChild c d) := by
  rw [textChild, textChild, Cursor.upTo_within leads]
  split <;> rfl

theorem bodyChild_shift (k : Nat) (body : Body) :
    bodyChild (body.shift k) = Child.shiftAll k (bodyChild body) := by
  obtain ⟨start, stop, tokens⟩ := body
  rw [Body.shift, bodyChild, bodyChild, Token.any_shiftAll]
  split <;> rfl

/-! ## What an element goes on with -/

section

variable (k : Nat) (rest : List Char)

def TagStart.within : TagStart → TagStart
  | .fragment inner => .fragment (inner.within k rest)
  | .named name after => .named (name.shift k) (after.within k rest)

def TagPart.within : TagPart → TagPart
  | .stop closed after => .stop closed (after.within k rest)
  | .spread inner => .spread (inner.within k rest)
  | .name start after => .name (start.within k rest) (after.within k rest)

def ValueStart.within : ValueStart → ValueStart
  | .bare after => .bare (after.within k rest)
  | .str value start after => .str value (k + start) (after.within k rest)
  | .expr inner => .expr (inner.within k rest)
  | .element start => .element (start.within k rest)

def ChildStart.within : ChildStart → ChildStart
  | .expr inner => .expr (inner.within k rest)
  | .element start => .element (start.within k rest)
  | .stop after => .stop (after.within k rest)

end

namespace Cursor

variable {k : Nat} {rest : List Char} {c d : Cursor}

theorem head_within (some : c.rest ≠ []) : (c.within k rest).rest.head? = c.rest.head? := by
  obtain ⟨x, s, ahead⟩ := List.exists_cons_of_ne_nil some
  rw [within, ahead]
  rfl

theorem skip_one_within (some : c.rest ≠ []) :
    (c.within k rest).skip 1 = (c.skip 1).within k rest :=
  skip_within (List.length_pos_iff.mpr some)

/-- Where something is left behind, something is left in front. -/
theorem Leads.ne_nil (leads : c.Leads d) (some : d.rest ≠ []) : c.rest ≠ [] := by
  intro nothing
  have shorter := leads.length_le
  rw [nothing] at shorter
  exact some (List.length_eq_zero_iff.mp (Nat.le_zero.mp shorter))

theorem skip_one_skipBlank_within (some : (c.skip 1).skipBlank.rest ≠ []) :
    ((c.within k rest).skip 1).skipBlank = (c.skip 1).skipBlank.within k rest := by
  have here : c.rest ≠ [] := ((c.leads_skip 1).trans (leads_skipBlank _)).ne_nil some
  rw [skip_one_within here, skipBlank_within_of_ne some]

end Cursor

section

variable {k : Nat} {rest : List Char}

/-- Something stands behind the bracket of a tag. -/
theorem tagStart_ink {c : Cursor} {start : TagStart} (here : tagStart c = .ok start) :
    (c.skip 1).skipBlank.rest ≠ [] := by
  unfold tagStart at here
  simp only at here
  split at here
  case isTrue bracket => exact ne_nil_of_head? bracket
  case isFalse =>
    split at here
    case isTrue => exact absurd here Cursor.fail_ne_ok
    case isFalse moved =>
      have passes := (Cursor.leads_skipWhile (c.skip 1).skipBlank isTagNamePart).passes_of_ne
        (by simpa using moved)
      exact List.length_pos_iff.mp (Nat.zero_lt_of_lt passes.2)

theorem tagStart_within (closes : Closes rest) {c : Cursor} {start : TagStart}
    (here : tagStart c = .ok start) :
    tagStart (c.within k rest) = .ok (start.within k rest) := by
  have some := tagStart_ink here
  have name : ((c.skip 1).skipBlank.within k rest).skipWhile isTagNamePart =
      ((c.skip 1).skipBlank.skipWhile isTagNamePart).within k rest :=
    Cursor.skipWhile_within (.inr (closes.stops (by decide +kernel)))
  unfold tagStart at here ⊢
  rw [Cursor.skip_one_skipBlank_within some]
  simp only [Cursor.head_within some, name] at here ⊢
  split at here
  case isTrue bracket =>
    cases here
    rw [if_pos bracket, Cursor.skip_one_within some]
    rfl
  case isFalse bracket =>
    rw [if_neg bracket]
    split at here
    case isTrue => exact absurd here Cursor.fail_ne_ok
    case isFalse moved =>
      cases here
      have moved' : ¬ (k + ((c.skip 1).skipBlank.skipWhile isTagNamePart).pos ==
          k + (c.skip 1).skipBlank.pos) = true := by
        rw [beq_iff_eq] at moved ⊢
        omega
      rw [Cursor.upTo_within (Cursor.leads_skipWhile _ _)]
      exact if_neg moved'

theorem tagPart_within (closes : Closes rest) {before : Cursor} {part : TagPart}
    (here : tagPart before = .ok part) :
    tagPart (before.within k rest) = .ok (part.within k rest) := by
  unfold tagPart at here ⊢
  simp only at here ⊢
  split at here
  case h_1 => exact absurd here Cursor.fail_ne_ok
  case h_2 x s ahead =>
    have some : before.skipBlank.rest ≠ [] := by simp [ahead]
    have ahead' : (before.skipBlank.within k rest).rest = x :: (s ++ rest) := by
      rw [Cursor.within, ahead, List.cons_append]
    rw [Cursor.skipBlank_within_of_ne some]
    simp only [ahead']
    split at here
    case isTrue slash =>
      rw [if_pos slash]
      split at here
      case isFalse => exact absurd here Cursor.fail_ne_ok
      case isTrue bracket =>
        cases here
        obtain ⟨y, t, rfl⟩ : ∃ y t, s = y :: t := by
          cases s with
          | nil => exact absurd bracket (by simp)
          | cons y t => exact ⟨y, t, rfl⟩
        have two : 2 ≤ before.skipBlank.rest.length := by simp [ahead]
        rw [List.cons_append, List.head?_cons]
        rw [List.head?_cons] at bracket
        rw [if_pos bracket, Cursor.skip_within two]
        rfl
    case isFalse slash =>
      rw [if_neg slash]
      split at here
      case isTrue bracket =>
        cases here
        rw [if_pos bracket, Cursor.skip_one_within some]
        rfl
      case isFalse bracket =>
        rw [if_neg bracket]
        split at here
        case isTrue brace =>
          rw [if_pos brace]
          split at here
          case isFalse => exact absurd here Cursor.fail_ne_ok
          case isTrue dots =>
            cases here
            obtain ⟨t, behind⟩ := List.isPrefixOf_iff_prefix.mp dots
            have some' : (before.skipBlank.skip 1).skipBlank.rest ≠ [] := by
              rw [← behind]
              exact List.cons_ne_nil _ _
            have three : 3 ≤ (before.skipBlank.skip 1).skipBlank.rest.length := by
              rw [← behind]
              simp
            have dots' : "...".toList.isPrefixOf
                (((before.skipBlank.skip 1).skipBlank.within k rest).rest) = true := by
              refine List.isPrefixOf_iff_prefix.mpr ⟨t ++ rest, ?_⟩
              rw [← List.append_assoc, behind]
              rfl
            rw [Cursor.skip_one_skipBlank_within some', if_pos dots', Cursor.skip_within three]
            rfl
        case isFalse brace =>
          rw [if_neg brace]
          split at here
          case isFalse => exact absurd here Cursor.fail_ne_ok
          case isTrue starts =>
            cases here
            rw [if_pos starts, Cursor.skipWhile_within (.inr (closes.stops (by decide +kernel)))]
            rfl

theorem valueStart_within {before : Cursor} (some : before.rest ≠ []) {start : ValueStart}
    (here : valueStart before = .ok start) :
    valueStart (before.within k rest) = .ok (start.within k rest) := by
  unfold valueStart at here ⊢
  rw [Cursor.head_within some]
  split at here
  case isTrue bare =>
    cases here
    exact if_pos bare
  case isFalse equals =>
    rw [if_neg equals]
    simp only at here ⊢
    split at here
    case h_1 => exact absurd here Cursor.fail_ne_ok
    case h_2 x s ahead =>
      have some' : (before.skip 1).skipBlank.rest ≠ [] := by simp [ahead]
      have ahead' : ((before.skip 1).skipBlank.within k rest).rest = x :: (s ++ rest) := by
        rw [Cursor.within, ahead, List.cons_append]
      rw [Cursor.skip_one_skipBlank_within some']
      simp only [ahead']
      split at here
      case isTrue quote =>
        rw [if_pos quote]
        split at here
        case isFalse => exact absurd here Cursor.fail_ne_ok
        case isTrue closed =>
          cases here
          have raw : (s ++ rest).takeWhile (· != x) = s.takeWhile (· != x) := by
            rw [List.takeWhile_append, if_neg (Nat.ne_of_lt closed)]
          have length : (s.takeWhile (· != x)).length + 2 ≤ (before.skip 1).skipBlank.rest.length := by
            rw [ahead, List.length_cons]
            omega
          rw [raw, if_pos (by rw [List.length_append]; omega), Cursor.skip_within length]
          rfl
      case isFalse quote =>
        rw [if_neg quote]
        split at here
        case isTrue brace =>
          cases here
          rw [if_pos brace, Cursor.skip_one_within some']
          rfl
        case isFalse brace =>
          rw [if_neg brace]
          split at here
          case isFalse => exact absurd here Cursor.fail_ne_ok
          case isTrue bracket =>
            cases here
            exact if_pos bracket

/-- White space between the bracket and the slash of a closing tag. -/
def isTagGap (y : Char) : Bool := y == ' ' || y == '\t' || y == '\n' || y == '\x0c' || y == '\r'

theorem isBlank_of_isTagGap {y : Char} (gap : isTagGap y = true) : isBlank y = true := by
  simp only [isTagGap, Bool.or_eq_true, beq_iff_eq] at gap
  rcases gap with (((rfl | rfl) | rfl) | rfl) | rfl <;> decide

/-- Where a tag goes on, the white space behind its bracket ends. -/
theorem takeWhile_gap_lt {c : Cursor} {x : Char} {s : List Char} (ahead : c.rest = x :: s)
    (ink : (c.skip 1).skipBlank.rest ≠ []) : (s.takeWhile isTagGap).length < s.length := by
  refine Nat.lt_of_le_of_ne (List.takeWhile_prefix isTagGap).length_le fun all => ink ?_
  have gap : ∀ y ∈ s, isTagGap y = true := by
    rw [← List.takeWhile_prefix isTagGap |>.eq_of_length all]
    exact fun y member => List.all_eq_true.mp List.all_takeWhile y member
  have behind : (c.skip 1).rest = s := by
    rw [Cursor.skip, ahead]
    rfl
  rw [Cursor.skipBlank, Cursor.skipWhile_rest, behind, List.dropWhile_eq_nil_iff]
  intro y member
  rw [isBlank_of_isTagGap (gap y member), Bool.true_or]

/-- What follows a closing tag from behind its slash on, `n` characters behind `c`. -/
def closeStart (parent : Option String) (c : Cursor) (n : Nat) : Except SyntaxError ChildStart :=
  let name := (c.skip n).skipBlank
  let named := name.skipWhile isTagNamePart
  let close := named.skipBlank
  if name.rest.head? != some '>' && named.pos == name.pos then name.fail .expectedTagName
  else if close.rest.head? != some '>' then close.fail .expectedTagEnd
  else
    let closing := if name.rest.head? == some '>' then none else some (name.upTo named)
    if closing != parent then c.fail (.closingTagMismatch (parent.getD ""))
    else .ok (.stop (close.skip 1))

/-- The cursors of a closing tag behind its slash: at its name, behind that, and at its bracket. -/
theorem closeStart_iff {parent : Option String} {c name named close : Cursor} {m : Nat} {start : ChildStart}
    (atName : (c.skip m).skipBlank = name) (behind : name.skipWhile isTagNamePart = named)
    (atBracket : named.skipBlank = close) : closeStart parent c m = .ok start ↔
      start = .stop (close.skip 1) ∧ close.rest.head? = some '>' ∧
        (name.rest.head? = some '>' ∨ named.pos ≠ name.pos) ∧
        (if name.rest.head? = some '>' then none else some (name.upTo named)) = parent := by
  unfold closeStart
  simp only [atName, behind, atBracket]
  by_cases fragment : name.rest.head? = some '>'
  · by_cases bracket : close.rest.head? = some '>'
    · by_cases same : none = parent
      · simp [fragment, bracket, same, eq_comm (a := start)]
      · simp [fragment, bracket, same, Cursor.fail]
    · simp [fragment, bracket, Cursor.fail]
  · by_cases moved : named.pos = name.pos
    · simp [fragment, moved, Cursor.fail]
    · by_cases bracket : close.rest.head? = some '>'
      · by_cases same : some (name.upTo named) = parent
        · simp [fragment, bracket, moved, same, eq_comm (a := start)]
        · simp [fragment, bracket, moved, same, Cursor.fail]
      · simp [fragment, bracket, moved, Cursor.fail]

theorem closeStart_within {parent : Option String} {c : Cursor} {n : Nat} {start : ChildStart}
    (inside : n ≤ c.rest.length) (here : closeStart parent c n = .ok start) :
    closeStart parent (c.within k rest) n = .ok (start.within k rest) := by
  let name := (c.skip n).skipBlank
  let named := name.skipWhile isTagNamePart
  let close := named.skipBlank
  have names : (c.skip n).skipBlank = name ∧ name.skipWhile isTagNamePart = named ∧ named.skipBlank = close :=
    ⟨rfl, rfl, rfl⟩
  obtain ⟨rfl, bracket, hasName, same⟩ := (closeStart_iff names.1 names.2.1 names.2.2).mp here
  have ended : close.rest ≠ [] := ne_nil_of_head? (beq_iff_eq.mpr bracket)
  have someNamed : named.rest ≠ [] := (Cursor.leads_skipBlank _).ne_nil ended
  have someName : name.rest ≠ [] := (Cursor.leads_skipWhile _ _).ne_nil someNamed
  have atName : ((c.within k rest).skip n).skipBlank = name.within k rest := by
    rw [Cursor.skip_within inside, Cursor.skipBlank_within_of_ne someName]
  have behind : (name.within k rest).skipWhile isTagNamePart = named.within k rest :=
    Cursor.skipWhile_within (.inl someNamed)
  refine (closeStart_iff atName behind (Cursor.skipBlank_within_of_ne ended)).mpr ⟨?_, ?_, ?_, ?_⟩
  · rw [Cursor.skip_one_within ended]
    rfl
  · rwa [Cursor.head_within ended]
  · rw [Cursor.head_within someName]
    exact hasName.imp_right fun moved together => moved (Nat.add_left_cancel together)
  · rwa [Cursor.head_within someName, Cursor.upTo_within (Cursor.leads_skipWhile name isTagNamePart)]

/-- What follows a bracket among children, white space and another character. -/
theorem childStart_of_gap {parent : Option String} {c : Cursor} {gap t : List Char} {y : Char}
    (ahead : c.rest = '<' :: (gap ++ y :: t)) (inside : ∀ x ∈ gap, isTagGap x = true) (stop : isTagGap y = false) :
    childStart parent c =
      if y == '/' then closeStart parent c (gap.length + 2) else .ok (.element c) := by
  have taken : (gap ++ y :: t).takeWhile isTagGap = gap := by
    rw [List.takeWhile_append_of_pos inside, List.takeWhile_cons, stop]
    exact List.append_nil _
  have next : (gap ++ y :: t)[gap.length]? = some y := by
    rw [List.getElem?_append_right (Nat.le_refl _), Nat.sub_self]
    rfl
  rw [childStart, ahead]
  simp only
  rw [if_neg (by decide), if_pos (by decide)]
  change (if (gap ++ y :: t)[((gap ++ y :: t).takeWhile isTagGap).length]? == some '/' then
    closeStart parent c (((gap ++ y :: t).takeWhile isTagGap).length + 2) else .ok (.element c)) = _
  rw [taken, next]
  rfl

/-- What stops in front of the end is followed by a character that it does not take. -/
theorem takeWhile_split {p : Char → Bool} {s : List Char} (short : (s.takeWhile p).length < s.length) :
    ∃ y t, s = s.takeWhile p ++ y :: t ∧ p y = false := by
  have split := List.takeWhile_append_dropWhile (p := p) (l := s)
  have stop := List.head?_dropWhile_not p s
  cases behind : s.dropWhile p with
  | nil =>
      rw [behind, List.append_nil] at split
      rw [split] at short
      exact absurd short (Nat.lt_irrefl _)
  | cons y t =>
      rw [behind] at split stop
      exact ⟨y, t, split.symm, by simpa using stop⟩

/-- Where a tag among children goes on, the white space behind its bracket ends. -/
theorem exists_gap {parent : Option String} {c : Cursor} {start : ChildStart} {s : List Char}
    (ahead : c.rest = '<' :: s) (here : childStart parent c = .ok start)
    (ink : ∀ inner, start = .element inner → (inner.skip 1).skipBlank.rest ≠ []) :
    ∃ gap y t, s = gap ++ y :: t ∧ (∀ x ∈ gap, isTagGap x = true) ∧ isTagGap y = false := by
  have short : (s.takeWhile isTagGap).length < s.length := by
    rw [childStart, ahead] at here
    simp only at here
    rw [if_neg (by decide), if_pos (by decide)] at here
    split at here
    case isFalse =>
      cases here
      exact takeWhile_gap_lt ahead (ink c rfl)
    case isTrue slash =>
      change (s[(s.takeWhile isTagGap).length]? == some '/') = true at slash
      refine Nat.lt_of_not_le fun outside => ?_
      rw [List.getElem?_eq_none outside] at slash
      exact absurd slash (by decide)
  obtain ⟨y, t, split, stop⟩ := takeWhile_split short
  exact ⟨_, y, t, split, fun x => List.all_eq_true.mp List.all_takeWhile x, stop⟩

theorem childStart_within (k : Nat) (rest : List Char) {parent : Option String} {c : Cursor}
    {start : ChildStart} (here : childStart parent c = .ok start)
    (ink : ∀ inner, start = .element inner → (inner.skip 1).skipBlank.rest ≠ []) :
    childStart parent (c.within k rest) = .ok (start.within k rest) := by
  cases ahead : c.rest with
  | nil =>
      rw [childStart, ahead] at here
      exact absurd here Cursor.fail_ne_ok
  | cons x s =>
      have some : c.rest ≠ [] := by simp [ahead]
      by_cases bracket : x = '<'
      · subst bracket
        obtain ⟨gap, y, t, rfl, inside, stop⟩ := exists_gap ahead here ink
        have ahead' : (c.within k rest).rest = '<' :: (gap ++ y :: (t ++ rest)) := by
          simp [Cursor.within, ahead]
        rw [childStart_of_gap ahead inside stop] at here
        rw [childStart_of_gap ahead' inside stop]
        split at here
        case isTrue slash =>
          rw [if_pos slash]
          refine closeStart_within ?_ here
          rw [ahead, List.length_cons, List.length_append, List.length_cons]
          omega
        case isFalse slash =>
          cases here
          exact if_neg slash
      · have ahead' : (c.within k rest).rest = x :: (s ++ rest) := by
          rw [Cursor.within, ahead, List.cons_append]
        rw [childStart, ahead] at here
        rw [childStart, ahead']
        simp only at here ⊢
        split at here
        case isTrue brace =>
          cases here
          rw [if_pos brace, Cursor.skip_one_within some]
          rfl
        case isFalse =>
          rw [if_neg (by simpa using bracket)] at here
          exact absurd here Cursor.fail_ne_ok

end

theorem tagPart_ink {c : Cursor} {part : TagPart} (here : tagPart c = .ok part) : c.rest ≠ [] := by
  refine c.leads_skipBlank.ne_nil fun nothing => ?_
  rw [tagPart, nothing] at here
  exact absurd here Cursor.fail_ne_ok

theorem childStart_ink {parent : Option String} {c : Cursor} {start : ChildStart}
    (here : childStart parent c = .ok start) : c.rest ≠ [] := by
  intro nothing
  rw [childStart, nothing] at here
  exact absurd here Cursor.fail_ne_ok

theorem startsElement_within {d : Dialect} (simple : d.jsx = false ∨ d.typescript = false)
    {rest : List Char} (closes : Closes rest) (operand : Bool) {s : List Char} (some : s ≠ []) :
    startsElement d operand (s ++ rest) = startsElement d operand s := by
  rcases simple with plain | plain
  · rw [startsElement_plain plain, startsElement_plain plain]
  · obtain ⟨x, t, rfl⟩ := List.exists_cons_of_ne_nil some
    rw [List.cons_append]
    unfold startsElement
    split
    case h_1 u same =>
      cases same
      have refused : closingChars.all (fun c => !(isLetter c || c == '_' || c == '$' || c == '>')) = true := by
        decide +kernel
      simp only [elementFollows, head_extends closes refused, plain, Bool.false_and]
    case h_2 other =>
      split
      case h_1 u same =>
        cases same
        exact absurd rfl (other _)
      case h_2 => rfl

/-! ## The nest -/

/-- Raw template text ends at its mark, whatever stands behind it. -/
theorem rawTail_within {c : Cursor} {raw : List Char} {more : Bool} (here : rawTail c.rest = some (raw, more))
    (k : Nat) (rest : List Char) :
    raw.length ≤ c.rest.length ∧ rawTail (c.within k rest).rest = some (raw, more) := by
  obtain ⟨behind, split, goesOn⟩ := rawTail_append here
  refine ⟨by simp [split], ?_⟩
  rw [Cursor.within, split, List.append_assoc]
  exact goesOn _

theorem tokensEnd_within {inBraces : Bool} {depth : Nat} {c : Cursor} (some : c.rest ≠ []) (k : Nat)
    (rest : List Char) :
    tokensEnd inBraces depth (c.within k rest) = tokensEnd inBraces depth c := by
  obtain ⟨x, s, ahead⟩ := List.exists_cons_of_ne_nil some
  simp only [tokensEnd, Cursor.within, ahead, List.cons_append]

/-- Tokens that are read from one cursor on, up to white space in front of another. -/
inductive Scans (d : Dialect) : Bool → List Token → Cursor → Cursor → Prop
  | done {operand : Bool} {c final : Cursor} (same : c.skipBlank = final.skipBlank) :
      Scans d operand [] c final
  | more {operand : Bool} {c after final : Cursor} {shape : Shape} {ts : List Token}
      (first : Reads d (.token operand c.skipBlank) (shape, after))
      (others : Scans d ((tokenBetween shape c.skipBlank after).operandAfter operand) ts
        after final) :
      Scans d operand (tokenBetween shape c.skipBlank after :: ts) c final

/-- Whether a token is a comment that ends with its line. -/
def Token.isLineComment (t : Token) : Bool := "//".toList.isPrefixOf t.text.toList

/-- What is read of a call, and is read of it `k` bytes further on in front of `rest`. -/
def Call.Moves (d : Dialect) (k : Nat) (rest : List Char) (call : Call) (r : call.Result) : Prop :=
  match call, r with
  | .tokens true depth operand c, r =>
      Reads d (.tokens true depth operand (c.within k rest))
        (Token.shiftAll k r.1, r.2.within k rest)
  | .tokens false _ operand c, r =>
      (∀ t ∈ r.1, t.isLineComment = true → r.2.pos ≤ t.stop → EndsLine rest) →
        Scans d operand (Token.shiftAll k r.1) (c.within k rest) (r.2.within k rest)
  | .token operand c, r =>
      (r.2.rest = [] → "//".toList.isPrefixOf c.rest = true → EndsLine rest) →
        Reads d (.token operand (c.within k rest)) (r.1.shift k, r.2.within k rest)
  | .template opening partStart c, r =>
      Reads d (.template (opening.within k rest) (k + partStart) (c.within k rest))
        (TemplatePart.shiftAll k r.1, r.2.within k rest)
  | .body c, r => Reads d (.body (c.within k rest)) (r.1.shift k, r.2.within k rest)
  | .element c, r => Reads d (.element (c.within k rest)) (r.1.shift k, r.2.within k rest)
  | .attributes c, r =>
      Reads d (.attributes (c.within k rest))
        (Attribute.shiftAll k r.1, r.2.1, r.2.2.within k rest)
  | .value c, r => c.rest ≠ [] →
      Reads d (.value (c.within k rest)) (r.1.shift k, r.2.within k rest)
  | .children parent c, r =>
      Reads d (.children parent (c.within k rest)) (Child.shiftAll k r.1, r.2.within k rest)

/-- The text of a token that begins as a comment of a line does so too. -/
theorem isLineComment_of_read {d : Dialect} {operand : Bool} {c after : Cursor} {shape : Shape}
    (read : Reads d (.token operand c) (shape, after)) (line : "//".toList.isPrefixOf c.rest = true) :
    (tokenBetween shape c after).isLineComment = true := by
  obtain ⟨pos, text⟩ := c
  obtain ⟨s, ahead⟩ := List.isPrefixOf_iff_prefix.mp line
  have ahead : '/' :: '/' :: s = text := ahead
  subst ahead
  cases read with
  | tokenTemplate here _ => cases here
  | tokenElement here _ => cases here
  | tokenLeaf _ _ here =>
      cases here
      let inLine : Char → Bool := (!isLineEnd ·)
      have whole : '/' :: '/' :: s = '/' :: '/' :: s.takeWhile inLine ++ s.dropWhile inLine := by
        rw [List.cons_append, List.cons_append, List.takeWhile_append_dropWhile]
      have skipped : (⟨pos, '/' :: '/' :: s⟩ : Cursor).skipWhile inLine =
          ⟨pos + byteLength ('/' :: '/' :: s.takeWhile inLine), s.dropWhile inLine⟩ := by
        have := Cursor.past_append pos ('/' :: '/' :: s.takeWhile inLine) (s.dropWhile inLine)
        rw [← whole] at this
        exact this
      have text := Cursor.upTo_append pos ('/' :: '/' :: s.takeWhile inLine) (s.dropWhile inLine)
      rw [← whole] at text
      change "//".toList.isPrefixOf
        ((⟨pos, '/' :: '/' :: s⟩ : Cursor).upTo (Cursor.skipWhile _ inLine)).toList = true
      rw [skipped, text]
      simp [List.isPrefixOf]

theorem Reads.attributes_ink {d : Dialect} {c : Cursor} {r : List Attribute × Bool × Cursor}
    (reads : Reads d (.attributes c) r) : c.rest ≠ [] := by
  cases reads with
  | attributesStop here | attributesSpread here | attributesName here => exact tagPart_ink here

theorem Reads.element_ink {d : Dialect} {c : Cursor} {r : Element × Cursor}
    (reads : Reads d (.element c) r) : (c.skip 1).skipBlank.rest ≠ [] := by
  cases reads with
  | elementFragment here | elementClosed here | elementOpen here => exact tagStart_ink here

theorem Reads.close_ink {d : Dialect} {depth : Nat} {operand : Bool} {c : Cursor}
    {r : List Token × Cursor} (reads : Reads d (.tokens true depth operand c) r) : r.2.rest ≠ [] :=
  ne_nil_of_head? (beq_iff_eq.mpr (reads.close _ _ _ rfl))

theorem textEnd_within {parent : Option String} {start : Cursor} {child : ChildStart}
    (here : childStart parent (textEnd start) = .ok child) (k : Nat) (rest : List Char) :
    textEnd (start.within k rest) = (textEnd start).within k rest :=
  Cursor.skipWhile_within (.inl (childStart_ink here))

/-- Whatever is read is read in the same way further on, in front of what closes. -/
theorem Reads.moves {d : Dialect} (simple : d.jsx = false ∨ d.typescript = false) (k : Nat)
    {rest : List Char} (closes : Closes rest) {call : Call} {r : call.Result}
    (reads : Reads d call r) : call.Moves d k rest r := by
  induction reads with
  | @tokensEnd inBraces depth operand before here =>
      cases inBraces with
      | false => exact fun _ => .done (Cursor.skipBlank_within before)
      | true =>
          have read : Reads d (.tokens true depth operand before) ([], before.skipBlank) :=
            .tokensEnd here
          have some := read.close_ink
          change Reads d (.tokens true depth operand (before.within k rest))
            ([], before.skipBlank.within k rest)
          rw [← Cursor.skipBlank_within_of_ne some]
          refine .tokensEnd ?_
          rw [Cursor.skipBlank_within_of_ne some, tokensEnd_within some, here]
  | @tokensMore inBraces depth operand before shape after tail final here first others ih ihs =>
      have some := tokensEnd_ne_nil here
      have skipped : (before.within k rest).skipBlank = before.skipBlank.within k rest :=
        Cursor.skipBlank_within_of_ne some
      have token : tokenBetween (shape.shift k) (before.within k rest).skipBlank
          (after.within k rest) = (tokenBetween shape before.skipBlank after).shift k := by
        rw [skipped]
        exact tokenBetween_within k first.leads
      have leads : after.Leads final := others.leads
      cases inBraces with
      | true =>
          have goesOn : after.rest ≠ [] := leads.ne_nil others.close_ink
          have read := ih fun ended => absurd ended goesOn
          change Reads d (.tokens true depth operand (before.within k rest)) (_ :: _, _)
          rw [← token]
          rw [← skipped] at read
          refine .tokensMore ?_ read ?_
          · rw [skipped, tokensEnd_within some, here]
          · rw [token, Token.depthAfter_shift, Token.operandAfter_shift]
            exact ihs
      | false =>
          intro lines
          obtain ⟨here', lines⟩ := List.forall_mem_cons.mp lines
          have inLine : after.rest = [] → "//".toList.isPrefixOf before.skipBlank.rest = true →
              EndsLine rest := by
            intro ended line
            refine here' (isLineComment_of_read first line) ?_
            obtain ⟨taken, split, pos⟩ := leads
            rw [ended] at split
            rw [(List.append_eq_nil_iff.mp split.symm).1] at pos
            exact Nat.le_of_eq pos
          have read := ih inLine
          change Scans d _ (_ :: _) _ _
          rw [← token]
          rw [← skipped] at read
          refine .more read ?_
          rw [token, Token.operandAfter_shift]
          exact ihs lines
  | @tokenTemplate operand c parts after here inside ih =>
      have some : c.rest ≠ [] := ne_nil_of_head? (beq_iff_eq.mpr here)
      refine fun _ => .tokenTemplate ?_ ?_
      · rw [Cursor.head_within some, here]
      · rw [Cursor.skip_one_within some]
        exact ih
  | @tokenElement operand c element after here inside ih =>
      have some : c.rest ≠ [] :=
        ne_nil_of_head? (beq_iff_eq.mpr (head?_of_startsElement here))
      refine fun _ => .tokenElement ?_ ih
      rw [Cursor.within, startsElement_within simple closes operand some, here]
  | @tokenLeaf operand c shape after noTemplate noElement here =>
      intro inLine
      have some : c.rest ≠ [] := List.length_pos_iff.mp (Nat.zero_lt_of_lt (lexLeaf_passes here).2)
      have leaf : shape.shift k = shape := Shape.shift_leaf (lexLeaf_isLeaf here) k
      change Reads d (.token operand (c.within k rest)) (shape.shift k, _)
      rw [leaf]
      refine .tokenLeaf ?_ ?_ (lexLeaf_within closes here inLine k)
      · rw [Cursor.head_within some]
        exact noTemplate
      · rw [Cursor.within, startsElement_within simple closes operand some, noElement]
  | @templateEnd opening partStart c raw here =>
      obtain ⟨short, goesOn⟩ := rawTail_within here k rest
      have read : Reads d (.template (opening.within k rest) (k + partStart) (c.within k rest))
          ([.raw (k + partStart) ((c.within k rest).past raw).pos], (c.within k rest).past raw) :=
        .templateEnd goesOn
      rw [Cursor.past_within short] at read
      exact read
  | @templateMore opening partStart c raw tokens close parts after here inside others ih ihs =>
      obtain ⟨short, goesOn⟩ := rawTail_within here k rest
      have next : (close.within k rest).skip 1 = (close.skip 1).within k rest :=
        Cursor.skip_one_within inside.close_ink
      have body : Reads d (.tokens true 0 true ((c.within k rest).past raw))
          (Token.shiftAll k tokens, close.within k rest) := by
        rw [Cursor.past_within short]
        exact ih
      have parts : Reads d (.template (opening.within k rest) (close.within k rest).pos
          ((close.within k rest).skip 1)) (TemplatePart.shiftAll k parts, after.within k rest) := by
        rw [next]
        exact ihs
      have read : Reads d (.template (opening.within k rest) (k + partStart) (c.within k rest)) _ :=
        .templateMore goesOn body parts
      rw [Cursor.past_within short] at read
      exact read
  | @body c tokens close inside ih =>
      have read := Reads.body ih
      rw [Cursor.skip_one_within inside.close_ink] at read
      exact read
  | elementFragment here _ inside => exact .elementFragment (tagStart_within closes here) inside
  | elementClosed here _ tag => exact .elementClosed (tagStart_within closes here) tag
  | elementOpen here _ _ tag inside => exact .elementOpen (tagStart_within closes here) tag inside
  | attributesStop here => exact .attributesStop (tagPart_within closes here)
  | attributesSpread here _ _ inside others =>
      exact .attributesSpread (tagPart_within closes here) inside others
  | @attributesName before c named value after tail closed final here inside others ih ihs =>
      obtain ⟨rfl, rfl, _⟩ := tagPart_passes here
      have some := inside.leads.ne_nil others.attributes_ink
      have read := ih some
      rw [← Cursor.skipBlank_within_of_ne some] at read
      have all := Reads.attributesName (tagPart_within closes here) read ihs
      rw [Cursor.upTo_within (Cursor.leads_skipWhile _ _)] at all
      exact all
  | valueBare here => exact fun some => .valueBare (valueStart_within some here)
  | valueStr here => exact fun some => .valueStr (valueStart_within some here)
  | valueExpr here _ inside => exact fun some => .valueExpr (valueStart_within some here) inside
  | valueElement here _ inside =>
      exact fun some => .valueElement (valueStart_within some here) inside
  | @childrenStop parent start after here =>
      have ends := textEnd_within here k rest
      have child := childStart_within k rest here fun _ same => by cases same
      rw [← ends] at child
      have read := Reads.childrenStop (d := d) child
      rw [ends, textChild_within k (Cursor.leads_textEnd start)] at read
      exact read
  | @childrenExpr parent start inner body after tail final here inside others ih ihs =>
      have ends := textEnd_within here k rest
      have child := childStart_within k rest here fun _ same => by cases same
      rw [← ends] at child
      have read := Reads.childrenExpr child ih ihs
      rw [ends, textChild_within k (Cursor.leads_textEnd start), bodyChild_shift,
        ← Child.shiftAll_append, ← Child.shiftAll_append] at read
      exact read
  | @childrenElement parent start inner element after tail final here inside others ih ihs =>
      have ends := textEnd_within here k rest
      have child := childStart_within k rest here fun inner' same => by
        cases same
        exact inside.element_ink
      rw [← ends] at child
      have read := Reads.childrenElement child ih ihs
      rw [ends, textChild_within k (Cursor.leads_textEnd start)] at read
      change Reads d (.children parent (start.within k rest)) (Child.shiftAll k (_ ++ _ :: _), _)
      rw [Child.shiftAll_append]
      exact read

end JsxPreview.Source
