import JsxPreview.Element.Render
import JsxPreview.Proofs.Markup.Data
import JsxPreview.Proofs.Markup.PlainText

/-! # Plain text of rendered trees

Plain text undoes rendering: a tree of data shows its texts in order, whatever they hold
(`renderDocument_plainText`).  Elements without end tag show nothing, so not every text of a tree with a
child in such an element is shown (`renderDocument_void_child`). -/
set_option autoImplicit false
namespace JsxPreview.Element

open JsxPreview.Markup
open JsxPreview.Preview (RenderOptions)
open JsxPreview.Script (Value)

/-! ## What a tree shows -/

namespace Node

mutual

/-- The names of a tree's tags. -/
def tags : Node → List String
  | .list items => tagsAll items
  | .fragment _ _ child => child.tags
  | .host tag _ _ _ child _ => tag.text :: child.tags
  | _ => []

def tagsAll : List Node → List String
  | [] => []
  | node :: rest => node.tags ++ tagsAll rest

end

mutual

/-- The texts of a tree in order, with the end of a line behind every element that ends one.  Elements of
some names show nothing. -/
def shown (childless : List String) : Node → List Char
  | .number x => x.toText.toList
  | .text s => s.toList
  | .list items => shownAll childless items
  | .fragment _ _ child => child.shown childless
  | .host tag _ _ _ child _ =>
      if childless.contains tag.text then []
      else child.shown childless ++ if endsLine tag.text then ['\n'] else []
  | _ => []

def shownAll (childless : List String) : List Node → List Char
  | [] => []
  | node :: rest => node.shown childless ++ shownAll childless rest

end

end Node

theorem shown_chars (s : List Char) : (s.map Piece.char).flatMap Piece.shown = s := by
  rw [List.flatMap_map]
  exact List.flatMap_singleton' s

mutual

/-- The pieces of a tree show its texts. -/
theorem Node.shown_pieces : ∀ node : Node,
    node.pieces.flatMap Piece.shown = node.shown voidTags
  | .absent | .null | .bool _ => rfl
  | .number x => shown_chars x.toText.toList
  | .text s => shown_chars s.toList
  | .list items => Node.shown_piecesAll items
  | .fragment _ _ child => child.shown_pieces
  | .host tag _ _ _ child _ => by
      rw [Node.pieces, Node.shown]
      split
      · rfl
      · rw [List.flatMap_cons, List.flatMap_append, child.shown_pieces]
        simp [Piece.shown]

theorem Node.shown_piecesAll : ∀ nodes : List Node,
    (Node.piecesAll nodes).flatMap Piece.shown = Node.shownAll voidTags nodes
  | [] => rfl
  | node :: rest => by
      rw [Node.piecesAll, Node.shownAll, List.flatMap_append, node.shown_pieces,
        Node.shown_piecesAll rest]

end

theorem isPlain_chars (s : List Char) : ∀ p ∈ s.map Piece.char, p.IsPlain := by
  intro p member
  obtain ⟨c, -, rfl⟩ := List.mem_map.mp member
  trivial

mutual

theorem Node.isPlain_pieces : ∀ node : Node, (∀ tag ∈ node.tags, isPlainTag tag = true) →
    ∀ p ∈ node.pieces, p.IsPlain
  | .absent, _ | .null, _ | .bool _, _ => nofun
  | .number x, _ => isPlain_chars x.toText.toList
  | .text s, _ => isPlain_chars s.toList
  | .list items, plain => Node.isPlain_piecesAll items plain
  | .fragment _ _ child, plain => child.isPlain_pieces plain
  | .host tag _ _ _ child _, plain => by
      rw [Node.tags, List.forall_mem_cons] at plain
      have named : isPlainTag (String.ofList tag.text.toList) = true := by
        rw [String.ofList_toList]
        exact plain.1
      intro p member
      rw [Node.pieces] at member
      split at member
      · rw [List.mem_singleton.mp member]
        exact named
      · rw [List.mem_cons, List.mem_append, List.mem_singleton] at member
        rcases member with rfl | member | rfl
        · exact named
        · exact child.isPlain_pieces plain.2 p member
        · exact named

theorem Node.isPlain_piecesAll : ∀ nodes : List Node,
    (∀ tag ∈ Node.tagsAll nodes, isPlainTag tag = true) → ∀ p ∈ Node.piecesAll nodes, p.IsPlain
  | [], _ => nofun
  | node :: rest, plain => by
      rw [Node.tagsAll, List.forall_mem_append] at plain
      rw [Node.piecesAll, List.forall_mem_append]
      exact ⟨node.isPlain_pieces plain.1, Node.isPlain_piecesAll rest plain.2⟩

end

/-- A tree whose tags have plain names renders to markup with its texts as plain text. -/
theorem Node.plainText_markup (node : Node) (plain : ∀ tag ∈ node.tags, isPlainTag tag = true) :
    ∃ markup, (∀ more, renderNode (node.depth + more) node.value = pure markup) ∧
      plainText markup = String.ofList (cleaned (node.shown voidTags)) := by
  obtain ⟨markup, rendered, reads⟩ := node.shows
  refine ⟨markup, rendered, ?_⟩
  rw [plainText_pieces reads.pieces_eq (node.isPlain_pieces plain), node.shown_pieces]

theorem renderDocument_asked {steps : Nat} {v : Value} {markup : String} {options : RenderOptions}
    (rendered : renderNode steps v = pure markup) (asked : options.plainText = true) :
    renderDocument steps options v = .ok (plainText markup) := by
  rw [renderDocument, rendered]
  show Except.ok (document options markup) = _
  rw [document, if_pos asked]

/-- Plain text undoes rendering: a tree whose tags have plain names shows its texts in order, character
for character, with the end of a line behind every block, in paragraphs.  Void elements show nothing. -/
theorem renderDocument_plainText (node : Node) (plain : ∀ tag ∈ node.tags, isPlainTag tag = true)
    {options : RenderOptions} (asked : options.plainText = true) (more : Nat) :
    renderDocument (node.depth + more) options node.value =
      .ok (String.ofList (cleaned (node.shown voidTags))) := by
  obtain ⟨markup, rendered, text⟩ := node.plainText_markup plain
  rw [renderDocument_asked (rendered more) asked, text]

/-- A tree whose texts look like markup, and whose tags look like others. -/
def lookalikes : Node :=
  .host ⟨"header", by decide⟩ .null .null
    [.plain ⟨"title", by decide⟩ (.text "</p>\"<br>") ⟨by decide, by decide⟩]
    (.list [
      .host ⟨"p", by decide⟩ .null .null [] (.text "  <b> &lt; &amp;nbsp; ") [],
      .text "\n \n",
      .host ⟨"abbr", by decide⟩ .null .null [] (.text "</head>") [],
      .host ⟨"br-x", by decide⟩ .null .null [] (.text "&") [],
      .host ⟨"img", by decide⟩ .null .null [] (.text "dropped") []]) []

theorem renderDocument_lookalikes :
    (∀ tag ∈ lookalikes.tags, isPlainTag tag = true) ∧
      renderDocument (lookalikes.depth + 5) { plainText := true } lookalikes.value =
        .ok "<b> &lt; &amp;nbsp;\n\n</head>&" := by
  have plain : ∀ tag ∈ lookalikes.tags, isPlainTag tag = true := by decide
  refine ⟨plain, ?_⟩
  rw [renderDocument_plainText lookalikes plain rfl 5]
  exact congrArg Except.ok (by decide)

/-- A void element with a child. -/
def captioned : Node := .host ⟨"img", by decide⟩ .null .null [] (.text "x") []

/-- Not every text of a tree is shown: a void element has no children in markup. -/
theorem renderDocument_void_child :
    ¬ ∀ (node : Node) (options : RenderOptions) (more : Nat),
      (∀ tag ∈ node.tags, isPlainTag tag = true) → options.plainText = true →
        renderDocument (node.depth + more) options node.value =
          .ok (String.ofList (cleaned (node.shown []))) := by
  intro every
  have plain : ∀ tag ∈ captioned.tags, isPlainTag tag = true := by decide
  obtain ⟨markup, rendered, text⟩ := captioned.plainText_markup plain
  have claimed := every captioned { plainText := true } 0 plain rfl
  rw [renderDocument_asked (rendered 0) rfl, text] at claimed
  exact absurd (Except.ok.inj claimed) (by decide)

end JsxPreview.Element
