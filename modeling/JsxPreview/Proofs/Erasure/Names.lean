import JsxPreview.Proofs.Scanner.Nesting
import JsxPreview.Source.Erasure.Basic

/-! # Names in use

A name is in use when it is left, at any depth, as a word outside the recorded imports or at the front of
a tag (`Erasure.Uses`).  The walk over the tokens passes over what is blanked with all that is inside; so
it collects the names in use when no token is blanked without its inside (`namesAll_iff`). -/
set_option autoImplicit false
namespace JsxPreview.Source

variable {e : Erasure} {n : String} {ts us : List Token}

/-- What a tag refers to: its name up to the first dot. -/
def TagName.root (tag : TagName) : String := String.ofList (tag.text.toList.takeWhile (· != '.'))

/-- The name is that of a word that is left outside the imports, or the root of a tag of an element that is
left, at any depth of the tokens. -/
inductive Erasure.Uses (e : Erasure) (ts : List Token) (n : String) : Prop
  | word {us : List Token} {t : Token} (nested : Nested us ts) (member : t ∈ us) (word : t.shape = .word)
      (spelled : t.text = n) (left : e.isBlank t.start = false) (outside : e.isInImport t.start = false)
  | tag {us : List Token} {t : Token} {el : Element} {tag : TagName} (nested : Nested us ts)
      (member : t ∈ us) (element : t.shape = .jsx el) (among : tag ∈ el.tagNames) (root : tag.root = n)
      (left : e.isBlank t.start = false)

/-- What is inside of a blanked token is blanked. -/
def Erasure.Covers (e : Erasure) (ts : List Token) : Prop :=
  ∀ t : Token, t.Within ts → e.isBlank t.start = true → ∀ b ∈ t.shape.bodies,
    ∀ u : Token, u.Within b.tokens → e.isBlank u.start = true

/-! ## Names of an element -/

theorem Body.names_eq (b : Body) : b.names e = Token.namesAll e b.tokens := by
  cases b
  rfl

/-- The name is that of a tag, or collected in one of the containers. -/
def Refers (e : Erasure) (n : String) (tags : List TagName) (bs : List Body) : Prop :=
  (∃ tag ∈ tags, tag.root = n) ∨ ∃ b ∈ bs, n ∈ Token.namesAll e b.tokens

namespace Refers

theorem nothing : ¬ Refers e n [] [] := by
  rintro (⟨_, member, _⟩ | ⟨_, member, _⟩)
  · exact List.not_mem_nil member
  · exact List.not_mem_nil member

theorem body {b : Body} : Refers e n [] [b] ↔ n ∈ b.names e := by
  simp [Refers, Body.names_eq]

theorem append {tags tags' : List TagName} {bs bs' : List Body} :
    Refers e n (tags ++ tags') (bs ++ bs') ↔ Refers e n tags bs ∨ Refers e n tags' bs' := by
  simp only [Refers, List.mem_append, or_and_right, exists_or]
  exact or_or_or_comm

end Refers

mutual

theorem Element.names_iff : (el : Element) → (n ∈ el.names e ↔ Refers e n el.tagNames el.bodies)
  | ⟨_, _, name, attributes, children⟩ => by
      have own : n ∈ name.toList.map (fun n => String.ofList (n.text.toList.takeWhile (· != '.'))) ↔
          Refers e n name.toList [] := by
        simp [Refers, TagName.root]
      rw [Element.names, List.mem_append, List.mem_append, own, Attribute.names_iff attributes,
        Child.names_iff children, ← Refers.append, ← Refers.append]
      rfl

theorem Attribute.names_iff : (attributes : List Attribute) → (n ∈ Attribute.namesAll e attributes ↔
    Refers e n (Attribute.tagNamesAll attributes) (Attribute.bodiesAll attributes))
  | [] => iff_of_false List.not_mem_nil Refers.nothing
  | .spread b :: rest => by
      rw [Attribute.namesAll, List.mem_append, Attribute.names_iff rest, Attribute.names, ← Refers.body,
        ← Refers.append]
      rfl
  | .named _ _ value :: rest => by
      rw [Attribute.namesAll, List.mem_append, Attribute.names_iff rest, Attribute.names,
        AttributeValue.names_iff value, ← Refers.append]
      rfl

theorem AttributeValue.names_iff : (value : AttributeValue) →
    (n ∈ value.names e ↔ Refers e n value.tagNames value.bodies)
  | .bare => iff_of_false List.not_mem_nil Refers.nothing
  | .str _ _ => iff_of_false List.not_mem_nil Refers.nothing
  | .expr _ => Refers.body.symm
  | .element el => Element.names_iff el

theorem Child.names_iff : (children : List Child) → (n ∈ Child.namesAll e children ↔
    Refers e n (Child.tagNamesAll children) (Child.bodiesAll children))
  | [] => iff_of_false List.not_mem_nil Refers.nothing
  | .text _ _ :: rest => Child.names_iff rest
  | .expr b :: rest => by
      rw [Child.namesAll, List.mem_append, Child.names_iff rest, Child.names, ← Refers.body,
        ← Refers.append]
      rfl
  | .element el :: rest => by
      rw [Child.namesAll, List.mem_append, Child.names_iff rest, Child.names, Element.names_iff el,
        ← Refers.append]
      rfl

end

/-! ## Names of tokens -/

theorem TemplatePart.names_iff (parts : List TemplatePart) : n ∈ TemplatePart.namesAll e parts ↔
    ∃ b ∈ (Shape.template parts).bodies, n ∈ Token.namesAll e b.tokens := by
  induction parts with
  | nil => exact iff_of_false List.not_mem_nil (by simp [Shape.bodies])
  | cons part rest ih =>
      rw [TemplatePart.namesAll, List.mem_append, ih]
      cases part with
      | raw _ _ => exact or_iff_right List.not_mem_nil
      | subst b =>
          have whole : (Shape.template (.subst b :: rest)).bodies = b :: (Shape.template rest).bodies := rfl
          rw [whole, TemplatePart.names, Body.names_eq]
          simp only [List.mem_cons, or_and_right, exists_or, exists_eq_left]

/-- What one token adds to the names. -/
theorem Token.names_iff {t : Token} : n ∈ t.names e ↔
    (t.shape = .word ∧ t.text = n ∧ e.isBlank t.start = false ∧ e.isInImport t.start = false) ∨
      e.isBlank t.start = false ∧ ((∃ el, t.shape = .jsx el ∧ ∃ tag ∈ el.tagNames, tag.root = n) ∨
        ∃ b ∈ t.shape.bodies, n ∈ Token.namesAll e b.tokens) := by
  obtain ⟨shape, start, stop, text⟩ := t
  cases shape with
  | word =>
      rw [Token.names]
      split
      case isTrue gone =>
        rw [Bool.or_eq_true] at gone
        rcases gone with gone | gone <;> simp [gone, Shape.bodies]
      case isFalse left =>
        rw [Bool.or_eq_true, not_or, Bool.not_eq_true, Bool.not_eq_true] at left
        simp [left, Shape.bodies, eq_comm]
  | template parts =>
      rw [Token.names]
      split
      case isTrue gone => simp [gone]
      case isFalse left =>
        rw [Bool.not_eq_true] at left
        simp [left, TemplatePart.names_iff]
  | jsx el =>
      rw [Token.names]
      split
      case isTrue gone => simp [gone]
      case isFalse left =>
        rw [Bool.not_eq_true] at left
        simp [left, Element.names_iff, Refers, Shape.bodies]
  | _ => simp [Token.names, Shape.bodies]

theorem Token.mem_namesAll : n ∈ Token.namesAll e ts ↔ ∃ t ∈ ts, n ∈ t.names e := by
  induction ts with
  | nil => simp [Token.namesAll]
  | cons t rest ih => simp [Token.namesAll, ih]

theorem Erasure.Uses.of_inside {t : Token} {b : Body} (member : t ∈ ts) (container : b ∈ t.shape.bodies)
    (uses : e.Uses b.tokens n) : e.Uses ts n := by
  cases uses with
  | word nested among word spelled left outside =>
      exact .word (.of_inside member container nested) among word spelled left outside
  | tag nested among element tag root left =>
      exact .tag (.of_inside member container nested) among element tag root left

theorem Erasure.Covers.inside (covers : e.Covers ts) {t : Token} {b : Body} (member : t ∈ ts)
    (container : b ∈ t.shape.bodies) : e.Covers b.tokens :=
  fun u within => covers u (.inside member container within)

/-- The names in use in some tokens are those that a token of them adds, or that are in use in a container
of one that is left. -/
theorem Erasure.uses_iff (covers : e.Covers ts) : e.Uses ts n ↔
    ∃ t ∈ ts, (t.shape = .word ∧ t.text = n ∧ e.isBlank t.start = false ∧ e.isInImport t.start = false) ∨
      e.isBlank t.start = false ∧ ((∃ el, t.shape = .jsx el ∧ ∃ tag ∈ el.tagNames, tag.root = n) ∨
        ∃ b ∈ t.shape.bodies, e.Uses b.tokens n) := by
  -- a token is left when one inside of it is
  have outer {u t : Token} {b : Body} {us : List Token} (member : t ∈ ts)
      (container : b ∈ t.shape.bodies) (within : Nested us b.tokens) (among : u ∈ us)
      (left : e.isBlank u.start = false) : e.isBlank t.start = false := by
    refine Bool.eq_false_iff.mpr fun gone => ?_
    rw [covers t (.here member) gone b container u (within.within among)] at left
    exact Bool.noConfusion left
  constructor
  · rintro (⟨nested, among, word, spelled, left, outside⟩ | ⟨nested, among, element, tag, root, left⟩)
    · rcases nested_iff.mp nested with rfl | ⟨t, member, b, container, within⟩
      · exact ⟨_, among, .inl ⟨word, spelled, left, outside⟩⟩
      · exact ⟨t, member, .inr ⟨outer member container within among left, .inr ⟨b, container,
          .word within among word spelled left outside⟩⟩⟩
    · rcases nested_iff.mp nested with rfl | ⟨t, member, b, container, within⟩
      · exact ⟨_, among, .inr ⟨left, .inl ⟨_, element, _, tag, root⟩⟩⟩
      · exact ⟨t, member, .inr ⟨outer member container within among left, .inr ⟨b, container,
          .tag within among element tag root left⟩⟩⟩
  · rintro ⟨t, member, ⟨word, spelled, left, outside⟩ | ⟨left, ⟨el, element, tag, among, root⟩ |
      ⟨b, container, uses⟩⟩⟩
    · exact .word .here member word spelled left outside
    · exact .tag .here member element among root left
    · exact .of_inside member container uses

/-- The collected names are the names in use. -/
theorem namesAll_iff (covers : e.Covers ts) : n ∈ Token.namesAll e ts ↔ e.Uses ts n := by
  induction ts using nested_induction with
  | step ts ih =>
      rw [Token.mem_namesAll, Erasure.uses_iff covers]
      refine exists_congr fun t => and_congr_right fun member => ?_
      rw [Token.names_iff]
      refine or_congr_right (and_congr_right fun _ => or_congr_right ?_)
      exact exists_congr fun b => and_congr_right fun container =>
        ih t member b container (covers.inside member container)

end JsxPreview.Source
