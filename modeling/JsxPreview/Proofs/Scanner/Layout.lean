import JsxPreview.Proofs.Scanner.Termination

/-! # Tokens stand where they say

Every token, and every raw part of a template, is the text at its place (`Stands`), and the tokens of a text or of a container come in the order of their places.  `Laid` says
so of tokens at every depth, and holds of all that is read (`Reads.laid`). -/
set_option autoImplicit false
namespace JsxPreview.Source

open JsxPreview.Text

/-- A text that starts with no white space stands at byte `offset`. -/
def Stands (source : List Char) (offset : Nat) (text : List Char) : Prop :=
  ∃ front back, source = front ++ text ++ back ∧ byteLength front = offset ∧
    ∃ c s, text = c :: s ∧ isBlank c = false

/-- The containers of the substitutions of a template. -/
def TemplatePart.body? : TemplatePart → Option Body
  | .raw _ _ => none
  | .subst body => some body

/-- The offsets between which a raw part lies. -/
def TemplatePart.raw? : TemplatePart → Option (Nat × Nat)
  | .raw start stop => some (start, stop)
  | .subst _ => none

namespace Shape

/-- Whether a token is its text and nests no tokens. -/
def isLeaf : Shape → Bool
  | .template _ | .jsx _ => false
  | .word | .punct | .str | .number | .regex | .comment => true

def bodies : Shape → List Body
  | .template parts => parts.filterMap TemplatePart.body?
  | .jsx element => element.bodies
  | .word | .punct | .str | .number | .regex | .comment => []

def raws : Shape → List (Nat × Nat)
  | .template parts => parts.filterMap TemplatePart.raw?
  | .jsx _ | .word | .punct | .str | .number | .regex | .comment => []

end Shape

/-- The tokens of a text or a container stand in it, one behind the other, at every depth. -/
inductive Laid (source : List Char) : List Token → Prop
  | intro {ts : List Token}
      (ordered : ts.Pairwise fun t u => t.start ≤ u.start)
      (stands : ∀ t ∈ ts, Stands source t.start t.text.toList)
      (raws : ∀ t ∈ ts, ∀ raw ∈ t.shape.raws, Stands source raw.1 (slice raw.1 raw.2 source))
      (inside : ∀ t ∈ ts, ∀ body ∈ t.shape.bodies, Laid source body.tokens) : Laid source ts

theorem Laid.nil {source : List Char} : Laid source [] :=
  .intro .nil (fun _ member => absurd member List.not_mem_nil)
    (fun _ member => absurd member List.not_mem_nil) (fun _ member => absurd member List.not_mem_nil)

theorem Laid.cons {source : List Char} {t : Token} {ts : List Token}
    (behind : ∀ u ∈ ts, t.start ≤ u.start)
    (here : Stands source t.start t.text.toList)
    (raws : ∀ raw ∈ t.shape.raws, Stands source raw.1 (slice raw.1 raw.2 source))
    (inside : ∀ body ∈ t.shape.bodies, Laid source body.tokens) (others : Laid source ts) :
    Laid source (t :: ts) := by
  obtain ⟨ordered, standsOf, rawsOf, insideOf⟩ := others
  exact .intro (List.pairwise_cons.mpr ⟨behind, ordered⟩)
    (List.forall_mem_cons.mpr ⟨here, standsOf⟩) (List.forall_mem_cons.mpr ⟨raws, rawsOf⟩)
    (List.forall_mem_cons.mpr ⟨inside, insideOf⟩)

theorem Laid.tail {source : List Char} {t : Token} {ts : List Token} (laid : Laid source (t :: ts)) :
    Laid source ts := by
  obtain ⟨ordered, stands, raws, inside⟩ := laid
  exact .intro (List.pairwise_cons.mp ordered).2 (List.forall_mem_cons.mp stands).2
    (List.forall_mem_cons.mp raws).2 (List.forall_mem_cons.mp inside).2

/-! ## Texts between cursors -/

/-- A cursor stands in a source. -/
def Cursor.In (source : List Char) (c : Cursor) : Prop := (⟨0, source⟩ : Cursor).Leads c

theorem Cursor.In.leads {source : List Char} {c d : Cursor} (here : c.In source)
    (leads : c.Leads d) : d.In source :=
  Cursor.Leads.trans here leads

/-- A cursor stands behind a front of the source. -/
theorem Cursor.In.split {source : List Char} {c : Cursor} (here : c.In source) :
    ∃ front, source = front ++ c.rest ∧ c.pos = byteLength front := by
  obtain ⟨front, whole, pos⟩ := here
  exact ⟨front, whole, pos.trans (Nat.zero_add _)⟩

theorem Cursor.In.pos_le {source : List Char} {c : Cursor} (here : c.In source) : c.pos ≤ byteLength source := by
  obtain ⟨front, whole, pos⟩ := here.split
  rw [pos, whole, byteLength_append]
  exact Nat.le_add_right _ _

theorem Cursor.In.dropBytes_pos {source : List Char} {c : Cursor} (here : c.In source) :
    dropBytes c.pos source = c.rest := by
  obtain ⟨front, whole, pos⟩ := here.split
  rw [whole, pos, dropBytes_byteLength]

/-- The text between two cursors stands at the first one. -/
theorem Cursor.In.stands {source : List Char} {c d : Cursor} (here : c.In source)
    (passes : c.Passes d) {x : Char} (head : c.rest.head? = some x) (ink : isBlank x = false) :
    Stands source c.pos (c.upTo d).toList ∧ Stands source c.pos (slice c.pos d.pos source) := by
  obtain ⟨front, whole, pos⟩ := here.split
  obtain ⟨⟨text, rest, after⟩, shorter⟩ := passes
  have text_eq : (c.upTo d).toList = text := Cursor.toList_upTo rest after
  have slice_eq : slice c.pos d.pos source = text := by
    rw [after, pos, whole, rest]
    exact slice_middle front text d.rest
  have stands : Stands source c.pos text := by
    refine ⟨front, d.rest, ?_, pos.symm, ?_⟩
    · rw [List.append_assoc, ← rest]
      exact whole
    · cases text with
      | nil =>
          rw [rest] at shorter
          exact absurd shorter (Nat.lt_irrefl _)
      | cons y s =>
          rw [rest] at head
          cases head
          exact ⟨_, s, rfl, ink⟩
  rw [text_eq, slice_eq]
  exact ⟨stands, stands⟩

theorem Cursor.head_skipBlank {c : Cursor} (some : c.skipBlank.rest ≠ []) :
    ∃ x, c.skipBlank.rest.head? = .some x ∧ isBlank x = false := by
  have stopped := List.head?_dropWhile_not (fun x => isBlank x || x == '\ufeff') c.rest
  rw [← Cursor.skipWhile_rest] at stopped
  cases ahead : c.skipBlank.rest with
  | nil => exact absurd ahead some
  | cons x s =>
      rw [Cursor.skipBlank] at ahead
      rw [ahead] at stopped
      refine ⟨x, rfl, ?_⟩
      simp only [List.head?_cons, Bool.or_eq_false_iff] at stopped
      exact stopped.1

/-- The tokens of a container end at its closing brace. -/
theorem Reads.close {d : Dialect} {call : Call} {r : call.Result} (reads : Reads d call r) :
    ∀ depth operand c, call = .tokens true depth operand c →
      (call.after r).rest.head? = some '\x7d' := by
  induction reads with
  | tokensEnd here =>
      intro depth operand c same
      cases same
      rw [Call.after]
      unfold Source.tokensEnd at here
      split at here
      case h_1 => exact absurd here Cursor.fail_ne_ok
      case h_2 x s ahead =>
        simp only [Bool.true_and, Except.ok.injEq, Bool.and_eq_true, beq_iff_eq] at here
        rw [ahead, here.1]
        rfl
  | tokensMore here _ _ _ others =>
      intro depth operand c same
      cases same
      exact others _ _ _ rfl
  | _ =>
      intro depth operand c same
      cases same

/-! ## Calls -/

theorem bodiesAll_append (first second : List Child) :
    Child.bodiesAll (first ++ second) = Child.bodiesAll first ++ Child.bodiesAll second := by
  induction first with
  | nil => rfl
  | cons child first ih => rw [List.cons_append, Child.bodiesAll, Child.bodiesAll, ih,
      List.append_assoc]

theorem bodiesAll_textChild (start c : Cursor) : Child.bodiesAll (textChild start c) = [] := by
  unfold textChild
  split <;> rfl

theorem mem_bodiesAll_bodyChild {body inner : Body}
    (member : body ∈ Child.bodiesAll (bodyChild inner)) : body = inner := by
  unfold bodyChild at member
  split at member
  · simpa [Child.bodiesAll, Child.bodies] using member
  · exact absurd member List.not_mem_nil

/-- What a token is made of stands in the source. -/
def Shape.LaidOut (source : List Char) (shape : Shape) : Prop :=
  (∀ raw ∈ shape.raws, Stands source raw.1 (slice raw.1 raw.2 source)) ∧
    ∀ b ∈ shape.bodies, Laid source b.tokens

namespace Call

/-- A call that starts in a source; the raw part of a template starts at its delimiter. -/
def In (source : List Char) : Call → Prop
  | .template _ partStart c =>
      ∃ (d : Cursor) (x : Char), d.In source ∧ d.pos = partStart ∧ d.Passes c ∧
        d.rest.head? = some x ∧ isBlank x = false
  | .tokens _ _ _ c | .token _ c | .body c | .element c | .attributes c | .value c
  | .children _ c => c.In source

theorem In.cursor {source : List Char} {call : Call} (here : call.In source) :
    call.cursor.In source := by
  cases call with
  | template opening partStart c =>
      obtain ⟨d, _, start, _, passes, _⟩ := here
      exact start.leads passes.leads
  | _ => exact here

/-- What a call reads stands in the source. -/
def LaidOut (source : List Char) : (call : Call) → call.Result → Prop
  | .tokens _ _ _ c, r => Laid source r.1 ∧ ∀ t ∈ r.1, c.pos ≤ t.start
  | .token _ _, r => r.1.LaidOut source
  | .template _ _ _, r => (Shape.template r.1).LaidOut source
  | .body _, r => Laid source r.1.tokens
  | .element _, r => ∀ b ∈ r.1.bodies, Laid source b.tokens
  | .attributes _, r => ∀ b ∈ Attribute.bodiesAll r.1, Laid source b.tokens
  | .value _, r => ∀ b ∈ r.1.bodies, Laid source b.tokens
  | .children _ _, r => ∀ b ∈ Child.bodiesAll r.1, Laid source b.tokens

end Call

theorem lexLeaf_isLeaf {operand : Bool} {c after : Cursor} {shape : Shape}
    (here : lexLeaf operand c = .ok (shape, after)) : shape.isLeaf = true := by
  unfold lexLeaf at here
  repeat' split at here
  all_goals first
    | (cases here; rfl)
    | cases here

theorem Shape.laidOut_leaf {source : List Char} {shape : Shape} (leaf : shape.isLeaf = true) :
    shape.LaidOut source := by
  cases shape with
  | template parts => exact absurd leaf Bool.false_ne_true
  | jsx element => exact absurd leaf Bool.false_ne_true
  | _ =>
      exact ⟨fun _ member => absurd member List.not_mem_nil,
        fun _ member => absurd member List.not_mem_nil⟩

/-- The raw part up to the cursor behind `raw`. -/
theorem Call.In.raw {source : List Char} {opening c : Cursor} {partStart : Nat} {raw : List Char}
    (here : (Call.template opening partStart c).In source) :
    Stands source partStart (slice partStart (c.past raw).pos source) := by
  obtain ⟨d, x, start, rfl, passes, head, ink⟩ := here
  exact (start.stands (passes.trans_leads (Cursor.leads_past _ _)) head ink).2

theorem Reads.laid {d : Dialect} {source : List Char} {call : Call} {r : call.Result}
    (reads : Reads d call r) : call.In source → call.LaidOut source r := by
  induction reads with
  | tokensEnd _ =>
      intro _
      exact ⟨.nil, fun _ member => absurd member List.not_mem_nil⟩
  | @tokensMore inBraces depth operand before shape after rest final more first _ firstLaid
      othersLaid =>
      intro here
      have begins : before.skipBlank.In source := here.cursor.leads (Cursor.leads_skipBlank _)
      have passes := first.token_passes
      have isBehind : before.pos ≤ before.skipBlank.pos := (Cursor.leads_skipBlank _).pos_le
      have isPast := passes.leads.pos_le
      obtain ⟨x, head, ink⟩ := Cursor.head_skipBlank (tokensEnd_ne_nil more)
      obtain ⟨raws, inside⟩ := firstLaid begins
      obtain ⟨others, behind⟩ := othersLaid (begins.leads passes.leads)
      refine ⟨.cons ?_ (begins.stands passes head ink).1 raws inside others, ?_⟩
      · intro u member
        exact Nat.le_trans isPast (behind u member)
      · intro u member
        rcases List.mem_cons.mp member with rfl | member
        · exact isBehind
        · exact Nat.le_trans isBehind (Nat.le_trans isPast (behind u member))
  | @tokenTemplate operand c parts after here _ ih =>
      intro start
      refine ih ⟨c, '\x60', start, rfl, ?_, here, by decide⟩
      exact Cursor.passes_skip Nat.one_pos (ne_nil_of_head? (by simpa using here))
  | tokenElement _ _ ih =>
      intro start
      exact ⟨fun _ member => absurd member List.not_mem_nil, ih start⟩
  | tokenLeaf _ _ here =>
      intro _
      exact Shape.laidOut_leaf (lexLeaf_isLeaf here)
  | templateEnd _ =>
      intro start
      refine ⟨?_, fun _ member => absurd member List.not_mem_nil⟩
      intro raw member
      cases List.mem_singleton.mp member
      exact start.raw
  | @templateMore opening partStart c raw tokens close parts after _ inner _ innerLaid othersLaid =>
      intro start
      have inside : (c.past raw).In source := start.cursor.leads (Cursor.leads_past _ _)
      have brace : close.rest.head? = some '\x7d' := inner.close _ _ _ rfl
      obtain ⟨raws, bodies⟩ := othersLaid ⟨close, '\x7d', inside.leads inner.leads, rfl,
        Cursor.passes_skip Nat.one_pos (ne_nil_of_head? (by simpa using brace)), brace, by decide⟩
      refine ⟨?_, ?_⟩
      · intro part member
        rcases List.mem_cons.mp member with rfl | member
        · exact start.raw
        · exact raws part member
      · intro body member
        rcases List.mem_cons.mp member with rfl | member
        · exact (innerLaid inside).1
        · exact bodies body member
  | body _ ih =>
      intro start
      exact (ih start).1
  | elementFragment here _ ih =>
      intro start
      exact ih (start.leads (tagStart_passes here).leads)
  | elementClosed here _ ih =>
      intro start body member
      refine ih (start.leads (tagStart_passes here).leads) body ?_
      simpa [Element.bodies, Child.bodiesAll] using member
  | elementOpen here tag _ tagLaid childrenLaid =>
      intro start body member
      have named := start.leads (tagStart_passes here).leads
      rw [Element.bodies] at member
      rcases List.mem_append.mp member with member | member
      · exact tagLaid named body member
      · exact childrenLaid (named.leads tag.leads) body member
  | attributesStop _ =>
      intro _ body member
      exact absurd member List.not_mem_nil
  | attributesSpread here inner _ innerLaid othersLaid =>
      intro start body member
      have inside := start.leads (tagPart_passes here).leads
      rw [Attribute.bodiesAll, Attribute.bodies] at member
      rcases List.mem_cons.mp member with rfl | member
      · exact innerLaid inside
      · exact othersLaid (inside.leads inner.leads) body member
  | attributesName here inner _ valueLaid othersLaid =>
      intro start body member
      obtain ⟨rfl, rfl, _⟩ := tagPart_passes here
      have behind := ((start.leads (Cursor.leads_skipBlank _)).leads
        (Cursor.leads_skipWhile _ isAttributeNamePart)).leads (Cursor.leads_skipBlank _)
      rw [Attribute.bodiesAll, Attribute.bodies] at member
      rcases List.mem_append.mp member with member | member
      · exact valueLaid behind body member
      · exact othersLaid (behind.leads inner.leads) body member
  | valueBare _ | valueStr _ =>
      intro _ body member
      exact absurd member List.not_mem_nil
  | valueExpr here _ ih =>
      intro start body member
      rw [List.mem_singleton.mp member]
      exact ih (start.leads (valueStart_passes here).leads)
  | valueElement here _ ih =>
      intro start
      exact ih (start.leads (valueStart_passes here).leads)
  | childrenStop _ =>
      intro _ body member
      rw [bodiesAll_textChild] at member
      exact absurd member List.not_mem_nil
  | childrenExpr here inner _ innerLaid othersLaid =>
      intro start body member
      have inside := (start.leads (Cursor.leads_textEnd _)).leads (childStart_passes here).leads
      rw [bodiesAll_append, bodiesAll_append, bodiesAll_textChild, List.nil_append] at member
      rcases List.mem_append.mp member with member | member
      · rw [mem_bodiesAll_bodyChild member]
        exact innerLaid inside
      · exact othersLaid (inside.leads inner.leads) body member
  | @childrenElement parent before inner element after rest final here reads _ innerLaid
      othersLaid =>
      intro start body member
      have same : inner = textEnd before := childStart_passes here
      have inside : inner.In source := same ▸ start.leads (Cursor.leads_textEnd _)
      rw [bodiesAll_append, bodiesAll_textChild, List.nil_append, Child.bodiesAll,
        Child.bodies] at member
      rcases List.mem_append.mp member with member | member
      · exact innerLaid inside body member
      · exact othersLaid (inside.leads reads.leads) body member

/-! ## Texts -/

/-- A first line that names an interpreter stands at the start. -/
theorem laid_firstLine {source : String} {ts : List Token} (laid : Laid source.toList ts) :
    Laid source.toList ((firstLine source).1 ++ ts) := by
  unfold firstLine
  simp only
  split
  case isFalse => exact laid
  case isTrue begins =>
    obtain ⟨rest, whole⟩ := List.isPrefixOf_iff_prefix.mp begins
    have start : (⟨0, source.toList⟩ : Cursor).In source.toList := .refl _
    have ahead : source.toList = '#' :: '!' :: rest := whole.symm
    have passes : (⟨0, source.toList⟩ : Cursor).Passes
        ((⟨0, source.toList⟩ : Cursor).skipWhile (· != '\n')) :=
      Cursor.passes_skipWhile ahead (by decide)
    have head : source.toList.head? = some '#' := by
      rw [ahead]
      rfl
    exact .cons (fun _ _ => Nat.zero_le _) (start.stands passes head (by decide)).1
      (Shape.laidOut_leaf rfl).1 (Shape.laidOut_leaf rfl).2 laid

theorem tokenize_cases {d : Dialect} {source : String} {ts : List Token}
    (success : tokenize d source = .ok ts) : ∃ tokens final, ts = (firstLine source).1 ++ tokens ∧
      Reads d (.ofSource source) (tokens, final) := by
  unfold tokenize at success
  cases answer : tokenized d source with
  | none =>
      rw [answer] at success
      exact absurd success (by simp)
  | some r =>
      rw [answer, Option.getD_some] at success
      subst success
      obtain ⟨fuel, within, _⟩ := Scan.answerFrom_answers answer
      obtain ⟨⟨tokens, final⟩, lexed, same⟩ := ok_of_bind within
      exact ⟨tokens, final, (ok_of_pure same).symm, Call.reads_of_run (.ofSource source) _ lexed⟩

theorem tokenize_laid {d : Dialect} {source : String} {ts : List Token}
    (success : tokenize d source = .ok ts) : Laid source.toList ts := by
  obtain ⟨tokens, final, rfl, reads⟩ := tokenize_cases success
  exact laid_firstLine (reads.laid (leads_firstLine source)).1

end JsxPreview.Source
