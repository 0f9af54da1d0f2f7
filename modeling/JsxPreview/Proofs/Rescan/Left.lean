import JsxPreview.Proofs.Rescan.Cursors
import JsxPreview.Proofs.Scanner.Nesting
import JsxPreview.Proofs.Scanner.Rows

/-! # Tokens that are left

What erasure leaves of a token is what stands behind the part of it that is blanked, at its place in the
text (`Token.left`), and of its containers what is left of their tokens.  A token of which all is blanked
leaves nothing. -/
set_option autoImplicit false
namespace JsxPreview.Source

open JsxPreview.Text

/-- What is left of a text at byte `n` behind the characters at its front that are blanked. -/
def Erasure.leftFrom (spans : List Span) (n : Nat) : List Char → List Char
  | [] => []
  | c :: s => if holds spans n then leftFrom spans (n + c.utf8Size) s else c :: s

mutual

def Token.left (spans : List Span) : Token → List Token
  | ⟨shape, start, stop, text⟩ =>
      let rest := Erasure.leftFrom spans start text.toList
      let start := stop - byteLength rest
      if rest.isEmpty then []
      else [⟨shape.left spans, start, stop, String.ofList (Erasure.imageOf spans start rest)⟩]

def Token.leftAll (spans : List Span) : List Token → List Token
  | [] => []
  | t :: rest => t.left spans ++ Token.leftAll spans rest

def Shape.left (spans : List Span) : Shape → Shape
  | .template parts => .template (TemplatePart.leftAll spans parts)
  | .jsx element => .jsx (element.left spans)
  | .word => .word
  | .punct => .punct
  | .str => .str
  | .number => .number
  | .regex => .regex
  | .comment => .comment

def TemplatePart.leftAll (spans : List Span) : List TemplatePart → List TemplatePart
  | [] => []
  | p :: rest => p.left spans :: TemplatePart.leftAll spans rest

def TemplatePart.left (spans : List Span) : TemplatePart → TemplatePart
  | .raw start stop => .raw start stop
  | .subst body => .subst (body.left spans)

def Body.left (spans : List Span) : Body → Body
  | ⟨start, stop, tokens⟩ => ⟨start, stop, Token.leftAll spans tokens⟩

def Element.left (spans : List Span) : Element → Element
  | ⟨start, stop, name, attributes, children⟩ =>
      ⟨start, stop, name, Attribute.leftAll spans attributes, Child.leftAll spans children⟩

def Attribute.leftAll (spans : List Span) : List Attribute → List Attribute
  | [] => []
  | a :: rest => a.left spans :: Attribute.leftAll spans rest

def Attribute.left (spans : List Span) : Attribute → Attribute
  | .named name start value => .named name start (value.left spans)
  | .spread body => .spread (body.left spans)

def AttributeValue.left (spans : List Span) : AttributeValue → AttributeValue
  | .bare => .bare
  | .str value start => .str value start
  | .expr body => .expr (body.left spans)
  | .element element => .element (element.left spans)

def Child.leftAll (spans : List Span) : List Child → List Child
  | [] => []
  | c :: rest => c.left spans ++ Child.leftAll spans rest

/-- A container of which only comments are left is no child any more. -/
def Child.left (spans : List Span) : Child → List Child
  | .text value start => [.text value start]
  | .expr body => bodyChild (body.left spans)
  | .element element => [.element (element.left spans)]

end

variable {spans : List Span} {n : Nat}

/-! ## Fronts -/

namespace Erasure

/-- The front that is dropped is blanked, and what is left of the text starts with a character that is not. -/
theorem leftFrom_split (spans : List Span) (s : List Char) (n : Nat) : ∃ front, s = front ++ leftFrom spans n s ∧
    isGap (imageOf spans n front) = true ∧
    (leftFrom spans n s ≠ [] → holds spans (n + byteLength front) = false) := by
  induction s generalizing n with
  | nil => exact ⟨[], rfl, rfl, fun some => absurd rfl some⟩
  | cons c s ih =>
      rw [leftFrom]
      split
      case isTrue held =>
        obtain ⟨front, split, gap, kept⟩ := ih (n + c.utf8Size)
        refine ⟨c :: front, congrArg _ split, ?_, fun some => ?_⟩
        · rw [imageOf, isGap, List.all_append, Bool.and_eq_true]
          exact ⟨isGap_image (.inr held), gap⟩
        · rw [byteLength_cons, ← Nat.add_assoc]
          exact kept some
      case isFalse kept => exact ⟨[], rfl, rfl, fun _ => by simpa using kept⟩

theorem leftFrom_of_kept {s : List Char} (kept : holds spans n = false) : leftFrom spans n s = s := by
  cases s with
  | nil => rfl
  | cons c s => rw [leftFrom, kept]; rfl

/-- Of what is blanked as a whole nothing is left. -/
theorem leftFrom_of_gone {s : List Char} (gone : ∀ m, n ≤ m → m < n + byteLength s → holds spans m = true) :
    leftFrom spans n s = [] := by
  induction s generalizing n with
  | nil => rfl
  | cons c s ih =>
      have size := c.utf8Size_pos
      rw [byteLength_cons] at gone
      rw [leftFrom, if_pos (gone n (Nat.le_refl n) (by omega))]
      exact ih fun m behind before => gone m (by omega) (by omega)

end Erasure

/-! ## Lists of tokens -/

theorem Token.leftAll_append (ts us : List Token) :
    Token.leftAll spans (ts ++ us) = Token.leftAll spans ts ++ Token.leftAll spans us := by
  induction ts with
  | nil => rfl
  | cons t ts ih => rw [List.cons_append, Token.leftAll, Token.leftAll, ih, List.append_assoc]

theorem Token.mem_leftAll {ts : List Token} {t' : Token} :
    t' ∈ Token.leftAll spans ts ↔ ∃ t ∈ ts, t' ∈ t.left spans := by
  induction ts with
  | nil => simp [Token.leftAll]
  | cons t ts ih => simp [Token.leftAll, ih]

theorem Child.leftAll_append (cs ds : List Child) :
    Child.leftAll spans (cs ++ ds) = Child.leftAll spans cs ++ Child.leftAll spans ds := by
  induction cs with
  | nil => rfl
  | cons c cs ih => rw [List.cons_append, Child.leftAll, Child.leftAll, ih, List.append_assoc]

theorem Shape.left_leaf {shape : Shape} (leaf : shape.isLeaf = true) : shape.left spans = shape := by
  cases shape <;> first | rfl | cases leaf

theorem Shape.isLeaf_left (shape : Shape) : (shape.left spans).isLeaf = shape.isLeaf := by
  cases shape <;> rfl

/-! ## One token -/

section

variable {t t' : Token}

theorem Token.left_eq (t : Token) : t.left spans =
    let rest := Erasure.leftFrom spans t.start t.text.toList
    if rest.isEmpty then []
    else [⟨t.shape.left spans, t.stop - byteLength rest, t.stop,
      String.ofList (Erasure.imageOf spans (t.stop - byteLength rest) rest)⟩] := by
  cases t
  rfl

theorem Token.left_eq_nil_iff : t.left spans = [] ↔ Erasure.leftFrom spans t.start t.text.toList = [] := by
  rw [Token.left_eq]
  simp

theorem Token.mem_left : t' ∈ t.left spans ↔ ∃ rest ≠ [], Erasure.leftFrom spans t.start t.text.toList = rest ∧
    t' = ⟨t.shape.left spans, t.stop - byteLength rest, t.stop,
      String.ofList (Erasure.imageOf spans (t.stop - byteLength rest) rest)⟩ := by
  rw [Token.left_eq]
  by_cases nothing : Erasure.leftFrom spans t.start t.text.toList = []
  · simp [nothing]
  · simp [nothing]

theorem Token.left_of_mem (left : t' ∈ t.left spans) : t.left spans = [t'] := by
  obtain ⟨rest, some, same, rfl⟩ := Token.mem_left.mp left
  rw [Token.left_eq]
  simp only [same]
  rw [if_neg (by simpa using some)]

theorem Token.shape_of_mem_left (left : t' ∈ t.left spans) : t'.shape = t.shape.left spans := by
  obtain ⟨_, _, _, rfl⟩ := Token.mem_left.mp left
  rfl

theorem Token.stop_of_mem_left (left : t' ∈ t.left spans) : t'.stop = t.stop := by
  obtain ⟨_, _, _, rfl⟩ := Token.mem_left.mp left
  rfl

theorem Token.isComment_of_mem_left (left : t' ∈ t.left spans) : t'.isComment = t.isComment := by
  rw [Token.isComment, Token.isComment, Token.shape_of_mem_left left]
  cases t.shape <;> rfl

theorem Token.bodies_of_isComment (comment : t.isComment = true) : t.shape.bodies = [] := by
  obtain ⟨shape, _, _, _⟩ := t
  cases shape <;> first | rfl | exact absurd comment Bool.false_ne_true

theorem Token.isPunct_of_mem_left (left : t' ∈ t.left spans) : t'.isPunct = t.isPunct := by
  rw [Token.isPunct, Token.isPunct, Token.shape_of_mem_left left]
  cases t.shape <;> rfl

end

/-- A token whose first byte is left stays at its place, read between the same two cursors. -/
theorem left_tokenBetween {shape : Shape} {c after : Cursor} (passes : c.Passes after)
    (kept : Erasure.holds spans c.pos = false) : (tokenBetween shape c after).left spans =
      [tokenBetween (shape.left spans) (c.erased spans) (after.erased spans)] := by
  obtain ⟨s, split, pos⟩ := passes.leads
  have text : (c.upTo after).toList = s := Cursor.toList_upTo split pos
  have some : s ≠ [] := by
    rintro rfl
    have shorter := passes.2
    rw [split] at shorter
    exact Nat.lt_irrefl _ shorter
  have whole : Erasure.leftFrom spans c.pos (c.upTo after).toList = s := by
    rw [text, Erasure.leftFrom_of_kept kept]
  refine Token.left_of_mem (Token.mem_left.mpr ⟨s, some, whole, ?_⟩)
  have begins : after.pos - byteLength s = c.pos := by rw [pos, Nat.add_sub_cancel]
  rw [tokenBetween, Cursor.upTo_erased passes.leads, text]
  change _ = Token.mk _ (after.pos - byteLength s) after.pos
    (String.ofList (Erasure.imageOf spans (after.pos - byteLength s) s))
  rw [begins]
  rfl

/-! ## Containers -/

theorem any_leftAll_comments (spans : List Span) {ts : List Token} (comments : ts.any (!·.isComment) = false) :
    (Token.leftAll spans ts).any (!·.isComment) = false := by
  rw [List.any_eq_false] at comments ⊢
  intro t' member
  obtain ⟨t, among, left⟩ := Token.mem_leftAll.mp member
  rw [Token.isComment_of_mem_left left]
  exact comments t among

theorem bodyChild_left (b : Body) : bodyChild (b.left spans) = Child.leftAll spans (bodyChild b) := by
  unfold bodyChild
  split
  case isTrue significant =>
    split
    case isTrue =>
      rw [Child.leftAll, Child.left, Child.leftAll, bodyChild, if_pos significant, List.append_nil]
    case isFalse comments =>
      have nothing := any_leftAll_comments spans (by simpa using comments)
      cases b
      exact absurd (nothing.symm.trans significant) (by simp)
  case isFalse comments =>
    split
    case isTrue => rw [Child.leftAll, Child.left, Child.leftAll, bodyChild, if_neg comments]; rfl
    case isFalse => rfl

theorem textChild_left (c d : Cursor) : Child.leftAll spans (textChild c d) = textChild c d := by
  unfold textChild
  split <;> rfl

theorem TemplatePart.mem_leftAll {part : TemplatePart} {parts : List TemplatePart} (member : part ∈ parts) :
    part.left spans ∈ TemplatePart.leftAll spans parts := by
  induction parts with
  | nil => exact absurd member List.not_mem_nil
  | cons first rest ih =>
      rw [TemplatePart.leftAll]
      rcases List.mem_cons.mp member with rfl | member
      · exact List.mem_cons_self ..
      · exact List.mem_cons_of_mem _ (ih member)

theorem Attribute.mem_leftAll {a : Attribute} {attributes : List Attribute} (member : a ∈ attributes) :
    a.left spans ∈ Attribute.leftAll spans attributes := by
  induction attributes with
  | nil => exact absurd member List.not_mem_nil
  | cons first rest ih =>
      rw [Attribute.leftAll]
      rcases List.mem_cons.mp member with rfl | member
      · exact List.mem_cons_self ..
      · exact List.mem_cons_of_mem _ (ih member)

theorem Child.left_subset {c : Child} {children : List Child} (member : c ∈ children) :
    c.left spans ⊆ Child.leftAll spans children := by
  obtain ⟨front, back, rfl⟩ := List.append_of_mem member
  rw [Child.leftAll_append, Child.leftAll]
  exact List.subset_append_of_subset_right _ (List.subset_append_left ..)

theorem Element.attributes_left (el : Element) :
    (el.left spans).attributes = Attribute.leftAll spans el.attributes := by
  cases el
  rfl

theorem Element.children_left (el : Element) : (el.left spans).children = Child.leftAll spans el.children := by
  cases el
  rfl

/-- A container of an element is one of what is left of the element, unless only comments are left in it. -/
theorem Element.Contains.left {el : Element} {b : Body} (contains : el.Contains b) :
    (el.left spans).Contains (b.left spans) ∨ (b.left spans).tokens.any (!·.isComment) = false := by
  induction contains with
  | @spread el among =>
      refine .inl (.spread ?_)
      rw [Element.attributes_left]
      exact Attribute.mem_leftAll among
  | @value el name start among =>
      refine .inl (@Contains.value _ _ name start ?_)
      rw [Element.attributes_left]
      exact Attribute.mem_leftAll among
  | @valueElement el inner name start among _ ih =>
      refine ih.imp_left (@Contains.valueElement _ _ _ name start ?_)
      rw [Element.attributes_left]
      exact Attribute.mem_leftAll among
  | @child el among =>
      cases significant : (b.left spans).tokens.any (!·.isComment) with
      | false => exact .inr rfl
      | true =>
          refine .inl (.child ?_)
          rw [Element.children_left]
          refine Child.left_subset among ?_
          rw [Child.left, bodyChild, if_pos significant]
          exact List.mem_singleton_self _
  | @childElement el inner among _ ih =>
      refine ih.imp_left (.childElement ?_)
      rw [Element.children_left]
      exact Child.left_subset among (List.mem_singleton_self _)

theorem Shape.container_left (spans : List Span) {shape : Shape} {b : Body} (container : b ∈ shape.bodies) :
    b.left spans ∈ (shape.left spans).bodies ∨ (Token.leftAll spans b.tokens).any (!·.isComment) = false := by
  rcases Shape.mem_bodies_iff.mp container with ⟨parts, rfl, part⟩ | ⟨el, rfl, contains⟩
  · exact .inl (Shape.mem_bodies_iff.mpr (.inl ⟨_, rfl, TemplatePart.mem_leftAll part⟩))
  · refine contains.left.imp (fun within => Shape.mem_bodies_iff.mpr (.inr ⟨_, rfl, within⟩)) ?_
    cases b
    exact id

/-! ## Rows -/

/-- Of what is inside of a token of which nothing is left nothing is left. -/
def Token.GoneInside (spans : List Span) (ts : List Token) : Prop :=
  ∀ t : Token, t.Within ts → t.left spans = [] →
    ∀ b ∈ t.shape.bodies, ∀ u : Token, u.Within b.tokens → u.left spans = []

/-- A row of which more than comments is left is found in what is left of a text. -/
theorem Nested.left {us ts : List Token} (nested : Nested us ts) (inside : Token.GoneInside spans ts)
    (significant : (Token.leftAll spans us).any (!·.isComment) = true) :
    Nested (Token.leftAll spans us) (Token.leftAll spans ts) := by
  induction ts using nested_induction with
  | step ts ih =>
      rcases nested_iff.mp nested with rfl | ⟨t, member, b, container, nested⟩
      · exact .here
      · have inner := ih t member b container nested fun u within => inside u (.inside member container within)
        -- something is left of the token, as something is left inside of it
        obtain ⟨u', among, ink⟩ := List.any_eq_true.mp significant
        obtain ⟨u, among, left⟩ := Token.mem_leftAll.mp among
        obtain ⟨t', kept⟩ : ∃ t', t' ∈ t.left spans := by
          refine List.exists_mem_of_ne_nil _ fun gone => ?_
          rw [inside t (.here member) gone b container u (nested.within among)] at left
          exact absurd left List.not_mem_nil
        have shape := Token.shape_of_mem_left kept
        rcases Shape.container_left spans container with container' | comments
        · refine .of_inside (Token.mem_leftAll.mpr ⟨t, member, kept⟩) (b := b.left spans) (by rwa [shape]) ?_
          cases b
          exact inner
        · rcases nested_iff.mp inner with same | ⟨v, among, _, container, _⟩
          · rw [same, comments] at significant
            cases significant
          · have comment : v.isComment = true := by simpa using List.any_eq_false.mp comments v among
            rw [Token.bodies_of_isComment comment] at container
            exact absurd container List.not_mem_nil

end JsxPreview.Source
