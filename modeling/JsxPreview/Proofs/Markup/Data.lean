import JsxPreview.Element.Render
import JsxPreview.Proofs.Markup.Pieces
import JsxPreview.Proofs.Script.Fields

/-! # Data cannot forge markup

A `Node` is a tree of data: nothing, booleans, numbers, texts, lists, fragments and host elements, whose
attributes are texts, numbers, booleans and styles.  Its markup is read back as the tree's tags and the
characters of its texts, in order (`renderNode_data`): what a text or an attribute holds never starts or
ends a tag. -/
set_option autoImplicit false
namespace JsxPreview.Element

open JsxPreview.Script
open JsxPreview.Markup

/-! ## Trees of data -/

structure MarkupName where
  text : String
  fits : isMarkupName text.toList = true

inductive AttributeValue where
  | text (s : String)
  | number (x : Double)
  | bool (b : Bool)

def AttributeValue.value : AttributeValue → Value
  | .text s => .text s
  | .number x => .number x
  | .bool b => .bool b

/-- A property of a host element that is no child of it and no markup. -/
inductive Attribute where
  | plain (name : MarkupName) (value : AttributeValue)
      (free : name.text ≠ "children" ∧ name.text ≠ "dangerouslySetInnerHTML")
  | style (declarations : List (String × String))

def Attribute.field : Attribute → String × Value
  | .plain name value _ => (name.text, value.value)
  | .style declarations => ("style", .record (declarations.map fun d => (d.1, .text d.2)))

/-- A tree of data.  The attributes of an element stand before and behind its children. -/
inductive Node where
  | absent
  | null
  | bool (b : Bool)
  | number (x : Double)
  | text (s : String)
  | list (items : List Node)
  | fragment (key ref : Value) (child : Node)
  | host (tag : MarkupName) (key ref : Value) (before : List Attribute) (child : Node)
      (behind : List Attribute)

/-- The property for children, unless there are none. -/
def childField : Value → List (String × Value)
  | .undefined => []
  | child => [("children", child)]

/-- The properties of a host element. -/
def fieldsOf (before : List Attribute) (child : Value) (behind : List Attribute) :
    List (String × Value) :=
  before.map Attribute.field ++ childField child ++ behind.map Attribute.field

namespace Node

mutual

def value : Node → Value
  | .absent => .undefined
  | .null => .null
  | .bool b => .bool b
  | .number x => .number x
  | .text s => .text s
  | .list items => .list (values items)
  | .fragment key ref child => .element (.symbol "react.fragment") key ref (childField child.value)
  | .host tag key ref before child behind =>
      .element (.text tag.text) key ref (fieldsOf before child.value behind)

def values : List Node → List Value
  | [] => []
  | node :: rest => node.value :: values rest

end

mutual

/-- The tags of a tree and the characters of its texts, in order. -/
def pieces : Node → List Piece
  | .absent | .null | .bool _ => []
  | .number x => x.toText.toList.map .char
  | .text s => s.toList.map .char
  | .list items => piecesAll items
  | .fragment _ _ child => child.pieces
  | .host tag _ _ _ child _ =>
      if voidTags.contains tag.text then [.selfClosing tag.text.toList]
      else .opening tag.text.toList :: (child.pieces ++ [.closing tag.text.toList])

def piecesAll : List Node → List Piece
  | [] => []
  | node :: rest => node.pieces ++ piecesAll rest

end

mutual

/-- How deep the parts of a tree lie in each other. -/
def depth : Node → Nat
  | .list items => depthAll items + 1
  | .fragment _ _ child | .host _ _ _ _ child _ => child.depth + 1
  | _ => 1

def depthAll : List Node → Nat
  | [] => 0
  | node :: rest => max node.depth (depthAll rest)

end

end Node

/-! ## Attributes -/

theorem inheritedText_inside : ∀ name ∈ inheritedNames,
    ('<' ∉ (inheritedText name).toList ∧ '>' ∉ (inheritedText name).toList) ∧
      (inheritedText name).toList.getLast? ≠ some '/' := by
  decide +kernel

/-- The name that markup has for a property can stand in a tag. -/
theorem attributeName_inside (name : MarkupName) : Inside (attributeName name.text).toList ∧
    (attributeName name.text).toList.getLast? ≠ some '/' := by
  rw [attributeName]
  split_ifs with _ _ _ _ inherits
  · exact ⟨⟨by decide, by decide⟩, by decide⟩
  · exact ⟨⟨by decide, by decide⟩, by decide⟩
  · exact ⟨⟨by decide, by decide⟩, by decide⟩
  · exact ⟨⟨by decide, by decide⟩, by decide⟩
  · obtain ⟨inside, ends⟩ := inheritedText_inside name.text (List.contains_iff_mem.mp inherits)
    exact ⟨⟨inside.1, inside.2⟩, ends⟩
  · exact ⟨inside_markupName name.fits, getLast_markupName name.fits⟩

theorem quotedAttribute_isAttributes {name : String} (inside : Inside name.toList) (value : String) :
    IsAttributes (quotedAttribute name value).toList := by
  have text : (quotedAttribute name value).toList =
      ' ' :: (name.toList ++ ['=', '"'] ++ (escapeQuoted value).toList ++ ['"']) := by
    simp [quotedAttribute]
  rw [text]
  refine .spaced (((inside.append ⟨by decide, by decide⟩).append (inside_escapeQuoted value)).append
    ⟨by decide, by decide⟩) ?_
  rw [List.getLast?_concat]
  decide

/-- Steps that all succeed, with results of a kind. -/
theorem mapM_ok {α β : Type} {f : α → Except Value β} {P : β → Prop} (as : List α)
    (each : ∀ a ∈ as, ∃ b, f a = .ok b ∧ P b) : ∃ bs, as.mapM f = .ok bs ∧ ∀ b ∈ bs, P b := by
  induction as with
  | nil => exact ⟨[], rfl, fun b member => absurd member List.not_mem_nil⟩
  | cons a as ih =>
      obtain ⟨b, first, holds⟩ := each a (List.mem_cons_self ..)
      obtain ⟨bs, rest, all⟩ := ih fun a member => each a (List.mem_cons_of_mem _ member)
      refine ⟨b :: bs, ?_, List.forall_mem_cons.mpr ⟨holds, all⟩⟩
      rw [List.mapM_cons, first, rest]
      rfl

theorem styleText_declarations (declarations : List (String × String)) : ∃ css,
    styleText (.record (declarations.map fun d => (d.1, .text d.2))) = .ok css := by
  obtain ⟨texts, written, -⟩ := mapM_ok (P := fun _ => True)
    (f := fun e : String × Value => do return hyphenate e.1 ++ ":" ++ (← e.2.asText))
    ((Value.record (declarations.map fun d => (d.1, .text d.2))).entries.filter fun e =>
      !(e.2.isNullish || isEmptyText e.2)) (by
    intro e member
    obtain ⟨d, -, rfl⟩ := List.mem_map.mp ((walked_perm _).mem_iff.mp (List.mem_filter.mp member).1)
    exact ⟨_, rfl, trivial⟩)
  refine ⟨String.intercalate ";" texts, ?_⟩
  rw [styleText, written]
  rfl

theorem attributeText_plain (name : MarkupName) (value : AttributeValue) : ∃ text,
    attributeText name.text value.value = .ok text ∧ IsAttributes text.toList := by
  obtain ⟨inside, ends⟩ := attributeName_inside name
  by_cases held : name.text ∈ heldBack
  · exact ⟨"", by simp [attributeText, held], .nil⟩
  · cases value with
    | text s =>
        refine ⟨_, ?_, quotedAttribute_isAttributes inside s⟩
        simp [attributeText, held, AttributeValue.value, Value.isObject, Value.toText, Value.asText]
    | number x =>
        refine ⟨_, ?_, quotedAttribute_isAttributes inside x.toText⟩
        simp [attributeText, held, AttributeValue.value, Value.isObject, Value.toText, Value.asText]
    | bool b =>
        cases b with
        | false => exact ⟨"", by simp [attributeText, AttributeValue.value], .nil⟩
        | true =>
            refine ⟨" " ++ attributeName name.text, ?_, ?_⟩
            · simp [attributeText, held, AttributeValue.value, Value.isObject]
            · rw [String.toList_append]
              exact .spaced inside ends

theorem attributeText_style (declarations : List (String × String)) : ∃ text,
    attributeText "style" (.record (declarations.map fun d => (d.1, .text d.2))) = .ok text ∧
      IsAttributes text.toList := by
  obtain ⟨css, written⟩ := styleText_declarations declarations
  refine ⟨if css = "" then "" else quotedAttribute "style" css, ?_, ?_⟩
  · simp [attributeText, heldBack, Value.isObject, written]
  · split
    · exact .nil
    · exact quotedAttribute_isAttributes ⟨by decide, by decide⟩ css

theorem attributeText_isAttributes (a : Attribute) : ∃ text,
    attributeText a.field.1 a.field.2 = .ok text ∧ IsAttributes text.toList := by
  cases a with
  | plain name value free => exact attributeText_plain name value
  | style declarations => exact attributeText_style declarations

/-! ## Properties of an element -/

theorem field_free (a : Attribute) :
    a.field.1 ≠ "children" ∧ a.field.1 ≠ "dangerouslySetInnerHTML" := by
  cases a with
  | plain name value free => exact free
  | style declarations => exact ⟨show "style" ≠ "children" by decide, show "style" ≠ _ by decide⟩

theorem childField_cases (child : Value) :
    childField child = [] ∧ child = .undefined ∨ childField child = [("children", child)] := by
  cases child <;> first | exact .inl ⟨rfl, rfl⟩ | exact .inr rfl

theorem mem_fieldsOf {before behind : List Attribute} {child : Value} {field : String × Value}
    (member : field ∈ fieldsOf before child behind) :
    (∃ a : Attribute, a.field = field) ∨ field = ("children", child) := by
  rw [fieldsOf, List.mem_append, List.mem_append] at member
  rcases member with (member | member) | member
  · obtain ⟨a, -, same⟩ := List.mem_map.mp member
    exact .inl ⟨a, same⟩
  · rcases childField_cases child with ⟨none', -⟩ | single
    · rw [none'] at member
      exact absurd member List.not_mem_nil
    · rw [single, List.mem_singleton] at member
      exact .inr member
  · obtain ⟨a, -, same⟩ := List.mem_map.mp member
    exact .inl ⟨a, same⟩

theorem attributesText_fieldsOf (before : List Attribute) (child : Value) (behind : List Attribute) :
    ∃ text, attributesText (fieldsOf before child behind) = .ok text ∧ IsAttributes text.toList := by
  obtain ⟨texts, written, all⟩ := mapM_ok (P := fun text : String => IsAttributes text.toList)
    (f := fun p : String × Value => attributeText p.1 p.2)
    (walked (fieldsOf before child behind)) (by
    intro field member
    rcases mem_fieldsOf ((walked_perm _).mem_iff.mp member) with ⟨a, rfl⟩ | rfl
    · exact attributeText_isAttributes a
    · exact ⟨"", by simp [attributeText, heldBack], .nil⟩)
  refine ⟨String.join texts, ?_, ?_⟩
  · rw [attributesText, written]
    rfl
  · clear written
    rw [String.toList_join]
    induction texts with
    | nil => exact .nil
    | cons text texts ih =>
        rw [List.forall_mem_cons] at all
        exact all.1.append (ih all.2)

theorem property_children (before : List Attribute) (child : Value) (behind : List Attribute) :
    (Value.record (fieldsOf before child behind)).property "children" = child := by
  have only {v : Value} (member : ("children", v) ∈ walked (fieldsOf before child behind)) :
      v = child := by
    rcases mem_fieldsOf ((walked_perm _).mem_iff.mp member) with ⟨a, same⟩ | same
    · exact absurd (congrArg Prod.fst same) (field_free a).1
    · exact (Prod.mk.inj same).2
  show ((walked (fieldsOf before child behind)).lookup "children").getD .undefined = child
  cases found : (walked (fieldsOf before child behind)).lookup "children" with
  | some v =>
      obtain ⟨front, back, split, -⟩ := List.lookup_eq_some_iff.mp found
      exact only (by rw [split]; exact List.mem_append_right _ (List.mem_cons_self ..))
  | none =>
      rcases childField_cases child with ⟨-, absent⟩ | single
      · exact absent.symm
      · have member : ("children", child) ∈ walked (fieldsOf before child behind) := by
          rw [(walked_perm _).mem_iff, fieldsOf, single]
          simp
        exact absurd (List.lookup_eq_none_iff.mp found _ member) (by simp)

theorem innerMarkup_fieldsOf (before : List Attribute) (child : Value) (behind : List Attribute) :
    innerMarkup? (fieldsOf before child behind) = none := by
  have absent : (walked (fieldsOf before child behind)).lookup "dangerouslySetInnerHTML" = none := by
    rw [List.lookup_eq_none_iff]
    intro field member
    rcases mem_fieldsOf ((walked_perm _).mem_iff.mp member) with ⟨a, rfl⟩ | rfl
    · exact bne_iff_ne.mpr (Ne.symm (field_free a).2)
    · exact bne_iff_ne.mpr (show "dangerouslySetInnerHTML" ≠ "children" by decide)
  have html : (Value.record (fieldsOf before child behind)).property "dangerouslySetInnerHTML" =
      .undefined := by
    show ((walked (fieldsOf before child behind)).lookup "dangerouslySetInnerHTML").getD
      (inherited "dangerouslySetInnerHTML") = .undefined
    rw [absent]
    rfl
  rw [innerMarkup?, html]
  rfl

/-! ## Rendering -/

/-- A value that renders, within some depth, to markup that reads as some pieces. -/
def Shows (v : Value) (depth : Nat) (ps : List Piece) : Prop :=
  ∃ markup, (∀ more, renderNode (depth + more) v = pure markup) ∧ Reads markup.toList ps

theorem not_thenable_text (s : String) : (Value.text s).isThenable = false := by
  show (((Value.text s).entries.lookup "then").getD .undefined).isFunction = false
  cases found : (Value.text s).entries.lookup "then" with
  | none => rfl
  | some v =>
      obtain ⟨front, back, split, -⟩ := List.lookup_eq_some_iff.mp found
      have member : ("then", v) ∈ (Value.text s).entries := by
        rw [split]
        exact List.mem_append_right _ (List.mem_cons_self ..)
      obtain ⟨i, inRange, same⟩ := List.mem_mapIdx.mp member
      rw [List.getElem_map] at same
      rw [← (Prod.mk.inj same).2]
      rfl

/-- A text or a number renders to its escaped text. -/
theorem shows_leaf {v : Value} {s : String} (text : v.toText = .ok s)
    (leaf : ∀ steps, renderNode (steps + 1) v = escapeText <$> Rendering.ofExcept v.toText) :
    Shows v 1 (s.toList.map .char) := by
  refine ⟨escapeText s, fun more => ?_, reads_escapeText s⟩
  rw [Nat.add_comm, leaf, text]
  rfl

theorem renderTag_data {markup : String} {ps : List Piece} (reads : Reads markup.toList ps)
    (tag : MarkupName) (before : List Attribute) (child : Value) (behind : List Attribute) :
    ∃ text, (∀ render : Value → Rendering String, render child = pure markup →
        renderTag render tag.text (fieldsOf before child behind) = pure text) ∧
      Reads text.toList (if voidTags.contains tag.text then [.selfClosing tag.text.toList]
        else .opening tag.text.toList :: (ps ++ [.closing tag.text.toList])) := by
  obtain ⟨attributes, written, fits⟩ := attributesText_fieldsOf before child behind
  have start (render : Value → Rendering String) (rendered : render child = pure markup) :
      renderTag render tag.text (fieldsOf before child behind) = pure
        (if voidTags.contains tag.text then "<" ++ tag.text ++ attributes ++ "/>"
        else "<" ++ tag.text ++ attributes ++ ">" ++ markup ++ "</" ++ tag.text ++ ">") := by
    rw [renderTag, written, innerMarkup_fieldsOf, property_children, rendered]
    split <;> rfl
  have inTag : Inside (tag.text.toList ++ attributes.toList) :=
    (inside_markupName tag.fits).append fits.inside
  refine ⟨_, start, ?_⟩
  split
  · have whole := reads_tag (inTag.append (t := ['/']) ⟨by decide, by decide⟩)
    rw [List.append_assoc, tagOf_selfClosing tag.fits fits] at whole
    simpa using whole
  · have opening := reads_tag inTag
    have slash : Inside ['/'] := ⟨by decide, by decide⟩
    have closing := reads_tag (slash.append (inside_markupName tag.fits))
    rw [tagOf_opening tag.fits fits] at opening
    simpa [tagOf] using (opening.append reads).append closing

mutual

theorem Node.shows : ∀ node : Node, Shows node.value node.depth node.pieces
  | .absent => ⟨"", fun more => by rw [Nat.add_comm]; rfl, Reads.nil⟩
  | .null => ⟨"", fun more => by rw [Nat.add_comm]; rfl, Reads.nil⟩
  | .bool _ => ⟨"", fun more => by rw [Nat.add_comm]; rfl, Reads.nil⟩
  | .number x => shows_leaf rfl fun steps => rfl
  | .text s => shows_leaf rfl fun steps => by
      rw [Node.value, renderNode, not_thenable_text]
      · rfl
      all_goals nofun
  | .list items => by
      obtain ⟨markup, rendered, reads⟩ := Node.showsAll items
      refine ⟨markup, fun more => ?_, reads⟩
      rw [Node.depth, Nat.add_right_comm]
      exact rendered more
  | .fragment key ref child => by
      obtain ⟨markup, rendered, reads⟩ := child.shows
      refine ⟨markup, fun more => ?_, reads⟩
      have inner := property_children [] child.value []
      rw [fieldsOf, List.map_nil, List.nil_append, List.append_nil] at inner
      rw [Node.depth, Nat.add_right_comm, Node.value, renderNode, renderElement, inner]
      exact rendered more
  | .host tag key ref before child behind => by
      obtain ⟨markup, rendered, reads⟩ := child.shows
      obtain ⟨text, tagged, whole⟩ := renderTag_data reads tag before child.value behind
      refine ⟨text, fun more => ?_, by rw [Node.pieces]; exact whole⟩
      rw [Node.depth, Nat.add_right_comm, Node.value, renderNode, renderElement]
      exact tagged _ (rendered more)

theorem Node.showsAll : ∀ nodes : List Node, ∃ markup,
    (∀ more, renderAll (renderNode (Node.depthAll nodes + more)) (Node.values nodes) = pure markup) ∧
      Reads markup.toList (Node.piecesAll nodes)
  | [] => ⟨"", fun more => rfl, Reads.nil⟩
  | node :: rest => by
      obtain ⟨first, rendered, reads⟩ := node.shows
      obtain ⟨later, rendered', reads'⟩ := Node.showsAll rest
      refine ⟨first ++ later, fun more => ?_, by rw [String.toList_append]; exact reads.append reads'⟩
      have here := rendered (Node.depthAll (node :: rest) - node.depth + more)
      have behind := rendered' (Node.depthAll (node :: rest) - Node.depthAll rest + more)
      rw [Node.depthAll] at here behind ⊢
      rw [show node.depth + (max node.depth (Node.depthAll rest) - node.depth + more) =
        max node.depth (Node.depthAll rest) + more by omega] at here
      rw [show Node.depthAll rest + (max node.depth (Node.depthAll rest) - Node.depthAll rest + more) =
        max node.depth (Node.depthAll rest) + more by omega] at behind
      rw [Node.values, renderAll, here, behind]
      rfl

end

mutual

theorem Node.nests_pieces : ∀ (node : Node) (names : List (List Char)) (ps : List Piece),
    nests names (node.pieces ++ ps) = nests names ps
  | .absent, _, _ | .null, _, _ | .bool _, _, _ => rfl
  | .number x, names, ps => nests_chars x.toText.toList names ps
  | .text s, names, ps => nests_chars s.toList names ps
  | .list items, names, ps => Node.nests_piecesAll items names ps
  | .fragment _ _ child, names, ps => child.nests_pieces names ps
  | .host tag _ _ _ child _, names, ps => by
      rw [Node.pieces]
      split
      · rfl
      · rw [List.cons_append, nests, List.append_assoc, child.nests_pieces, List.singleton_append,
          nests, beq_self_eq_true, Bool.true_and]

theorem Node.nests_piecesAll : ∀ (nodes : List Node) (names : List (List Char)) (ps : List Piece),
    nests names (Node.piecesAll nodes ++ ps) = nests names ps
  | [], _, _ => rfl
  | node :: rest, names, ps => by
      rw [Node.piecesAll, List.append_assoc, node.nests_pieces, Node.nests_piecesAll rest]

end

/-- A tree of data renders to markup in which every `<` starts and every `>` ends one tag, and which is
read back as the tags of the tree, properly nested, and the characters of its texts. -/
theorem renderNode_data (node : Node) : ∃ markup,
    (∀ more, renderNode (node.depth + more) node.value = pure markup) ∧
      Markup.pieces markup.toList = some node.pieces ∧ nests [] node.pieces = true ∧
      markup.toList.count '<' = node.pieces.countP Piece.isTag ∧
      markup.toList.count '>' = node.pieces.countP Piece.isTag := by
  obtain ⟨markup, rendered, reads⟩ := node.shows
  have nested := node.nests_pieces [] []
  rw [List.append_nil] at nested
  exact ⟨markup, rendered, reads.pieces_eq, nested, pieces_count reads.pieces_eq⟩

end JsxPreview.Element
