import JsxPreview.Proofs.Scanner.Spans

/-! # Tokens inside tokens

A list of tokens is nested in another one when it is the inside of a substitution of a template or of a
container of an element there, at any depth (`Nested`).  The containers of an element are those of its
attributes and children and of the elements among these (`Element.mem_bodies_iff`).  What holds of tokens
as soon as it holds of all that is directly inside them holds of all tokens (`nested_induction`).  Where a
token starts says in which list it is (`Spanned.same_list`). -/
set_option autoImplicit false
namespace JsxPreview.Source

variable {b : Body} {us ts : List Token}

/-- A container of an element, or of an element given to an attribute or among the children. -/
inductive Element.Contains (b : Body) : Element → Prop
  | spread {el : Element} (among : .spread b ∈ el.attributes) : Contains b el
  | value {el : Element} {name : String} {start : Nat}
      (among : .named name start (.expr b) ∈ el.attributes) : Contains b el
  | valueElement {el inner : Element} {name : String} {start : Nat}
      (among : .named name start (.element inner) ∈ el.attributes)
      (within : Contains b inner) : Contains b el
  | child {el : Element} (among : .expr b ∈ el.children) : Contains b el
  | childElement {el inner : Element} (among : .element inner ∈ el.children)
      (within : Contains b inner) : Contains b el

/-- The tokens `us` are these tokens, or inside of one of them. -/
inductive Nested (us : List Token) : List Token → Prop
  | here : Nested us us
  | template {ts : List Token} {t : Token} {parts : List TemplatePart} {b : Body} (member : t ∈ ts)
      (shape : t.shape = .template parts) (part : .subst b ∈ parts) (within : Nested us b.tokens) :
      Nested us ts
  | jsx {ts : List Token} {t : Token} {el : Element} {b : Body} (member : t ∈ ts)
      (shape : t.shape = .jsx el) (container : el.Contains b) (within : Nested us b.tokens) :
      Nested us ts

/-! ## The containers of an element -/

theorem Attribute.bodies_subset {a : Attribute} {attributes : List Attribute}
    (member : a ∈ attributes) : a.bodies ⊆ Attribute.bodiesAll attributes := by
  induction attributes with
  | nil => exact absurd member List.not_mem_nil
  | cons first rest ih =>
      rw [Attribute.bodiesAll]
      rcases List.mem_cons.mp member with rfl | member
      · exact List.subset_append_left ..
      · exact List.subset_append_of_subset_right _ (ih member)

theorem Child.bodies_subset {c : Child} {children : List Child} (member : c ∈ children) :
    c.bodies ⊆ Child.bodiesAll children := by
  induction children with
  | nil => exact absurd member List.not_mem_nil
  | cons first rest ih =>
      rw [Child.bodiesAll]
      rcases List.mem_cons.mp member with rfl | member
      · exact List.subset_append_left ..
      · exact List.subset_append_of_subset_right _ (ih member)

theorem Element.bodies_eq (el : Element) :
    el.bodies = Attribute.bodiesAll el.attributes ++ Child.bodiesAll el.children := by
  cases el
  rfl

theorem Element.Contains.mem_bodies {el : Element} (contains : el.Contains b) : b ∈ el.bodies := by
  induction contains <;> rw [Element.bodies_eq]
  case spread among =>
      refine List.mem_append_left _ (Attribute.bodies_subset among ?_)
      exact List.mem_singleton_self _
  case value among =>
      refine List.mem_append_left _ (Attribute.bodies_subset among ?_)
      exact List.mem_singleton_self _
  case valueElement among _ ih => exact List.mem_append_left _ (Attribute.bodies_subset among ih)
  case child among =>
      refine List.mem_append_right _ (Child.bodies_subset among ?_)
      exact List.mem_singleton_self _
  case childElement among _ ih => exact List.mem_append_right _ (Child.bodies_subset among ih)

mutual

theorem Element.contains_of_mem : (el : Element) → b ∈ el.bodies → el.Contains b
  | ⟨start, stop, name, attributes, children⟩, member => by
      rcases List.mem_append.mp member with member | member
      · exact Attribute.contains_of_mem ⟨start, stop, name, attributes, children⟩ attributes
          (List.Subset.refl _) member
      · exact Child.contains_of_mem ⟨start, stop, name, attributes, children⟩ children
          (List.Subset.refl _) member

theorem Attribute.contains_of_mem (el : Element) : (attributes : List Attribute) →
    attributes ⊆ el.attributes → b ∈ Attribute.bodiesAll attributes → el.Contains b
  | [], _, member => absurd member List.not_mem_nil
  | .spread inner :: rest, among, member => by
      obtain ⟨here, others⟩ := List.cons_subset.mp among
      rcases List.mem_append.mp member with member | member
      · rw [← List.mem_singleton.mp member] at here
        exact .spread here
      · exact Attribute.contains_of_mem el rest others member
  | .named name start value :: rest, among, member => by
      obtain ⟨here, others⟩ := List.cons_subset.mp among
      rcases List.mem_append.mp member with member | member
      · exact AttributeValue.contains_of_mem el name start value here member
      · exact Attribute.contains_of_mem el rest others member

theorem AttributeValue.contains_of_mem (el : Element) (name : String) (start : Nat) :
    (value : AttributeValue) → .named name start value ∈ el.attributes → b ∈ value.bodies →
      el.Contains b
  | .bare, _, member => absurd member List.not_mem_nil
  | .str _ _, _, member => absurd member List.not_mem_nil
  | .expr _, here, member => .value (List.mem_singleton.mp member ▸ here)
  | .element inner, here, member => .valueElement here (Element.contains_of_mem inner member)

theorem Child.contains_of_mem (el : Element) : (children : List Child) → children ⊆ el.children →
    b ∈ Child.bodiesAll children → el.Contains b
  | [], _, member => absurd member List.not_mem_nil
  | .text _ _ :: rest, among, member =>
      Child.contains_of_mem el rest (List.cons_subset.mp among).2 member
  | .expr inner :: rest, among, member => by
      obtain ⟨here, others⟩ := List.cons_subset.mp among
      rcases List.mem_append.mp member with member | member
      · rw [← List.mem_singleton.mp member] at here
        exact .child here
      · exact Child.contains_of_mem el rest others member
  | .element inner :: rest, among, member => by
      obtain ⟨here, others⟩ := List.cons_subset.mp among
      rcases List.mem_append.mp member with member | member
      · exact .childElement here (Element.contains_of_mem inner member)
      · exact Child.contains_of_mem el rest others member

end

theorem Element.mem_bodies_iff {el : Element} : b ∈ el.bodies ↔ el.Contains b :=
  ⟨Element.contains_of_mem el, Element.Contains.mem_bodies⟩

theorem Shape.mem_bodies_iff {shape : Shape} : b ∈ shape.bodies ↔
    (∃ parts, shape = .template parts ∧ .subst b ∈ parts) ∨
      ∃ el, shape = .jsx el ∧ el.Contains b := by
  cases shape with
  | template parts =>
      rw [Shape.bodies, List.mem_filterMap]
      constructor
      · rintro ⟨part, member, isBody⟩
        cases part with
        | raw _ _ => exact nomatch isBody
        | subst _ => exact .inl ⟨parts, rfl, Option.some.inj isBody ▸ member⟩
      · rintro (⟨_, same, member⟩ | ⟨_, same, -⟩)
        · cases same
          exact ⟨_, member, rfl⟩
        · exact nomatch same
  | jsx el =>
      rw [Shape.bodies, Element.mem_bodies_iff]
      constructor
      · exact fun contains => .inr ⟨el, rfl, contains⟩
      · rintro (⟨_, same, -⟩ | ⟨_, same, contains⟩)
        · exact nomatch same
        · cases same
          exact contains
  | _ => simp [Shape.bodies]

theorem Nested.of_inside {t : Token} (member : t ∈ ts) (container : b ∈ t.shape.bodies)
    (within : Nested us b.tokens) : Nested us ts := by
  rcases Shape.mem_bodies_iff.mp container with ⟨parts, shape, part⟩ | ⟨el, shape, contains⟩
  · exact .template member shape part within
  · exact .jsx member shape contains within

/-- What is nested in tokens is these tokens, or nested in a container of one of them. -/
theorem nested_iff : Nested us ts ↔
    us = ts ∨ ∃ t ∈ ts, ∃ b ∈ t.shape.bodies, Nested us b.tokens := by
  constructor
  · intro nested
    cases nested with
    | here => exact .inl rfl
    | template member shape part within =>
        exact .inr ⟨_, member, _, Shape.mem_bodies_iff.mpr (.inl ⟨_, shape, part⟩), within⟩
    | jsx member shape contains within =>
        exact .inr ⟨_, member, _, Shape.mem_bodies_iff.mpr (.inr ⟨_, shape, contains⟩), within⟩
  · rintro (rfl | ⟨t, member, b, container, within⟩)
    · exact .here
    · exact .of_inside member container within

theorem Nested.deeper {t : Token} {b : Body} (nested : Nested us ts) (member : t ∈ us)
    (container : b ∈ t.shape.bodies) : Nested b.tokens ts := by
  induction nested with
  | here => exact .of_inside member container .here
  | template among shape part _ ih => exact .template among shape part ih
  | jsx among shape contains _ ih => exact .jsx among shape contains ih

theorem Token.Within.deeper {t u : Token} {b : Body} (within : t.Within ts)
    (container : b ∈ t.shape.bodies) (inside : u.Within b.tokens) : u.Within ts := by
  induction within with
  | here member => exact .inside member container inside
  | inside member outer _ ih => exact .inside member outer ih

/-! ## Induction over what is inside -/

section Induction

/-- That tokens have a property as soon as the tokens of all their containers have it. -/
def FromInside (P : List Token → Prop) : Prop :=
  ∀ ts : List Token, (∀ t ∈ ts, ∀ b ∈ t.shape.bodies, P b.tokens) → P ts

variable {P : List Token → Prop}

mutual

theorem Token.all_inside (step : FromInside P) : (ts : List Token) → ∀ t ∈ ts, ∀ b ∈ t.shape.bodies, P b.tokens
  | [] => fun _ member => absurd member List.not_mem_nil
  | t :: rest => List.forall_mem_cons.mpr ⟨Token.inside step t, Token.all_inside step rest⟩

theorem Token.inside (step : FromInside P) : (t : Token) → ∀ b ∈ t.shape.bodies, P b.tokens
  | ⟨.template parts, _, _, _⟩ => TemplatePart.inside step parts
  | ⟨.jsx el, _, _, _⟩ => Element.inside step el
  | ⟨.word, _, _, _⟩ | ⟨.punct, _, _, _⟩ | ⟨.str, _, _, _⟩ | ⟨.number, _, _, _⟩
  | ⟨.regex, _, _, _⟩ | ⟨.comment, _, _, _⟩ => fun _ member => absurd member List.not_mem_nil

theorem TemplatePart.inside (step : FromInside P) : (parts : List TemplatePart) → ∀ b ∈ (Shape.template parts).bodies, P b.tokens
  | [] => fun _ member => absurd member List.not_mem_nil
  | .raw _ _ :: rest => TemplatePart.inside step rest
  | .subst b :: rest => List.forall_mem_cons.mpr ⟨Body.inside step b, TemplatePart.inside step rest⟩

theorem Body.inside (step : FromInside P) : (b : Body) → P b.tokens
  | ⟨_, _, tokens⟩ => step tokens (Token.all_inside step tokens)

theorem Element.inside (step : FromInside P) : (el : Element) → ∀ b ∈ el.bodies, P b.tokens
  | ⟨_, _, _, attributes, children⟩ =>
      List.forall_mem_append.mpr ⟨Attribute.all_inside step attributes, Child.all_inside step children⟩

theorem Attribute.all_inside (step : FromInside P) : (attributes : List Attribute) → ∀ b ∈ Attribute.bodiesAll attributes, P b.tokens
  | [] => fun _ member => absurd member List.not_mem_nil
  | .spread b :: rest =>
      List.forall_mem_cons.mpr ⟨Body.inside step b, Attribute.all_inside step rest⟩
  | .named _ _ value :: rest =>
      List.forall_mem_append.mpr ⟨AttributeValue.inside step value, Attribute.all_inside step rest⟩

theorem AttributeValue.inside (step : FromInside P) : (value : AttributeValue) → ∀ b ∈ value.bodies, P b.tokens
  | .expr b => List.forall_mem_singleton.mpr (Body.inside step b)
  | .element el => Element.inside step el
  | .bare => fun _ member => absurd member List.not_mem_nil
  | .str _ _ => fun _ member => absurd member List.not_mem_nil

theorem Child.all_inside (step : FromInside P) : (children : List Child) → ∀ b ∈ Child.bodiesAll children, P b.tokens
  | [] => fun _ member => absurd member List.not_mem_nil
  | .text _ _ :: rest => Child.all_inside step rest
  | .expr b :: rest => List.forall_mem_cons.mpr ⟨Body.inside step b, Child.all_inside step rest⟩
  | .element el :: rest =>
      List.forall_mem_append.mpr ⟨Element.inside step el, Child.all_inside step rest⟩

end

/-- What holds of tokens when it holds of the tokens of all their containers holds of all tokens. -/
theorem nested_induction
    (step : ∀ ts : List Token, (∀ t ∈ ts, ∀ b ∈ t.shape.bodies, P b.tokens) → P ts)
    (ts : List Token) : P ts := step ts (Token.all_inside step ts)

end Induction

/-! ## Places of nested tokens -/

theorem Nested.within {v : Token} (nested : Nested us ts) (member : v ∈ us) : v.Within ts := by
  induction ts using nested_induction with
  | step ts ih =>
      rcases nested_iff.mp nested with rfl | ⟨t, among, b, container, within⟩
      · exact .here member
      · exact .inside among container (ih t among b container within)

namespace Spanned

variable {low high : Nat} {us' : List Token} {v v' : Token}

/-- Nested tokens stand between two ends as well, and what starts between these is one of them or inside
of one. -/
theorem nested (spanned : Spanned low high ts) (nested : Nested us ts) :
    ∃ low' high', Spanned low' high' us ∧ low ≤ low' ∧ high' ≤ high ∧
      ∀ t : Token, t.Within ts → low' ≤ t.start → t.start < high' → t.Within us := by
  induction ts using nested_induction generalizing low high with
  | step ts ih =>
      rcases nested_iff.mp nested with rfl | ⟨t, member, b, container, nested⟩
      · exact ⟨low, high, spanned, Nat.le_refl low, Nat.le_refl high, fun _ within _ _ => within⟩
      · obtain ⟨low', high', inner, begins, ends, back⟩ :=
          ih t member b container (spanned.container member container) nested
        have inside (u : Token) (within : u.Within ts) (behind : low' ≤ u.start)
            (before : u.start < high') : u.Within us :=
          back u (spanned.within_of_inside member container within (Nat.le_trans begins behind)
            (Nat.lt_of_lt_of_le before ends)) behind before
        obtain ⟨follow, _, _, bodies, _⟩ := spanned
        obtain ⟨after, _, before⟩ := (bodies t member).of_mem container
        obtain ⟨first, _, last⟩ := follow.of_mem member
        simp only [Body.span, Token.span] at after before first last
        exact ⟨low', high', inner, by omega, by omega, inside⟩

/-- No token of a list starts where a token inside of one of them starts. -/
theorem start_ne_inside (spanned : Spanned low high ts) {t : Token} {b : Body} (member : t ∈ ts)
    (container : b ∈ t.shape.bodies) (within : v.Within b.tokens) (among : v' ∈ ts) :
    v'.start ≠ v.start := by
  obtain ⟨starts, stops⟩ := spanned.within_token member container within
  have grows := (spanned.span_within (.inside member container within)).2.1
  have grows' := (spanned.span_within (.here among)).2.1
  obtain ⟨follow, _, _, _, _⟩ := spanned
  rcases follow.apart among member with rfl | first | first
  · omega
  · simp only [Token.span] at first
    omega
  · simp only [Token.span] at first
    omega

/-- Tokens that start at one place, each in a container, are in one container. -/
theorem same_container (spanned : Spanned low high ts) {t t' : Token} {b b' : Body} (member : t ∈ ts)
    (container : b ∈ t.shape.bodies) (within : v.Within b.tokens) (member' : t' ∈ ts)
    (container' : b' ∈ t'.shape.bodies) (within' : v'.Within b'.tokens) (same : v.start = v'.start) :
    b = b' := by
  obtain ⟨starts, stops⟩ := spanned.within_token member container within
  obtain ⟨starts', stops'⟩ := spanned.within_token member' container' within'
  obtain ⟨begins, grows, ends⟩ := (spanned.container member container).span_within within
  obtain ⟨begins', grows', ends'⟩ := (spanned.container member' container').span_within within'
  obtain ⟨follow, _, _, bodies, _⟩ := spanned
  rcases follow.apart member member' with rfl | first | first
  · rcases (bodies t member).apart container container' with rfl | first | first
    · rfl
    · simp only [Body.span] at first
      omega
    · simp only [Body.span] at first
      omega
  · simp only [Token.span] at first
    omega
  · simp only [Token.span] at first
    omega

/-- Tokens that start at one place are of one list. -/
theorem same_list (spanned : Spanned low high ts) (nested : Nested us ts) (nested' : Nested us' ts)
    (member : v ∈ us) (member' : v' ∈ us') (same : v.start = v'.start) : us = us' := by
  induction ts using nested_induction generalizing low high with
  | step ts ih =>
      rcases nested_iff.mp nested with rfl | ⟨t, among, b, container, within⟩
      · rcases nested_iff.mp nested' with rfl | ⟨t', among', b', container', within'⟩
        · rfl
        · exact absurd same (spanned.start_ne_inside among' container'
            (within'.within member') member)
      · have inside := within.within member
        rcases nested_iff.mp nested' with rfl | ⟨t', among', b', container', within'⟩
        · exact absurd same.symm (spanned.start_ne_inside among container inside member')
        · cases spanned.same_container among container inside among' container'
            (within'.within member') same
          exact ih t among b container (spanned.container among container) within within'

theorem index_eq (spanned : Spanned low high ts) {i i' : Nat}
    (at_ : (ts.filter (!·.isComment))[i]? = some v) (at' : (ts.filter (!·.isComment))[i']? = some v')
    (same : v.start = v'.start) : i = i' := by
  obtain ⟨follow, grows, _, _, _⟩ := spanned
  have ascending : (ts.filter (!·.isComment)).Pairwise fun t u => t.start < u.start :=
    (follow.pairwise.imp_of_mem fun member _ before =>
      Nat.lt_of_lt_of_le (grows _ member) before).sublist List.filter_sublist
  obtain ⟨inRow, rfl⟩ := List.getElem?_eq_some_iff.mp at_
  obtain ⟨inRow', rfl⟩ := List.getElem?_eq_some_iff.mp at'
  rw [List.pairwise_iff_getElem] at ascending
  rcases Nat.lt_trichotomy i i' with less | same | less
  · have := ascending i i' inRow inRow' less
    omega
  · exact same
  · have := ascending i' i inRow' inRow less
    omega

end Spanned

end JsxPreview.Source
