import JsxPreview.Proofs.Scanner.Layout

/-! # Tokens tile the source

The tokens of a text stand one behind the other, none is empty, and between them there is only white
space.  The parts of a template tile it, and the tokens of every container tile the container in the
same way, whose braces are balanced and which ends at a closing brace (`Tiles`).  That is so of all
that is read (`Reads.tiled`). -/
set_option autoImplicit false
namespace JsxPreview.Source

open JsxPreview.Text

/-- A text stands in the source from byte `low` to byte `high`. -/
def Stretch (source : List Char) (low high : Nat) (text : List Char) : Prop :=
  ∃ front back, source = front ++ text ++ back ∧ byteLength front = low ∧
    low + byteLength text = high

/-- White space and byte order marks. -/
def isGap (text : List Char) : Bool := text.all fun x => isBlank x || x == '\ufeff'

def Gap (source : List Char) (low high : Nat) : Prop :=
  ∃ text, Stretch source low high text ∧ isGap text = true

/-- Tokens that are not empty, each with its text, and gaps before, between and behind them. -/
def Row (source : List Char) (low high : Nat) : List Token → Prop
  | [] => Gap source low high
  | t :: ts => Gap source low t.start ∧ t.start < t.stop ∧
      Stretch source t.start t.stop t.text.toList ∧ Row source t.stop high ts

/-- The depth of braces behind tokens; none when one closes what is not open. -/
def braceDepth (depth : Nat) : List Token → Option Nat
  | [] => some depth
  | t :: ts =>
      if t.isPunct && t.text == "\x7d" && depth == 0 then none
      else braceDepth (t.depthAfter depth) ts

/-- Every brace that closes has one that it closes, and none is left open. -/
def Balanced (ts : List Token) : Prop := braceDepth 0 ts = some 0

/-- Raw parts and containers by turns, from `start` to `stop`, the first and the last one raw. -/
inductive PartsTile (stop : Nat) : Nat → List TemplatePart → Prop
  | last {start : Nat} (grows : start < stop) : PartsTile stop start [.raw start stop]
  | more {start : Nat} {b : Body} {parts : List TemplatePart} (grows : start < b.start)
      (inside : b.start ≤ b.stop) (others : PartsTile stop b.stop parts) :
      PartsTile stop start (.raw start b.start :: .subst b :: parts)

/-- Tokens between two bytes, the parts of their templates and the tokens of their containers, at
every depth. -/
inductive Tiles (source : List Char) : Nat → Nat → List Token → Prop
  | intro {low high : Nat} {ts : List Token}
      (row : Row source low high ts)
      (parts : ∀ t ∈ ts, ∀ parts, t.shape = .template parts → PartsTile t.stop t.start parts)
      (within : ∀ t ∈ ts, ∀ b ∈ t.shape.bodies, t.start < b.start ∧ b.stop < t.stop)
      (balanced : ∀ t ∈ ts, ∀ b ∈ t.shape.bodies, Balanced b.tokens)
      (closed : ∀ t ∈ ts, ∀ b ∈ t.shape.bodies, Stretch source b.stop (b.stop + 1) ['\x7d'])
      (inside : ∀ t ∈ ts, ∀ b ∈ t.shape.bodies, Tiles source b.start b.stop b.tokens) :
      Tiles source low high ts

/-! ## Stretches -/

namespace Stretch

variable {source text : List Char} {low high : Nat}

theorem le (stretch : Stretch source low high text) : low ≤ high := by
  obtain ⟨_, _, _, _, ends⟩ := stretch
  omega

/-- A stretch starts and ends between two characters. -/
theorem isBoundary (stretch : Stretch source low high text) :
    Text.isBoundary low source = true ∧ Text.isBoundary high source = true := by
  obtain ⟨front, back, whole, begins, ends⟩ := stretch
  have first := isBoundary_append front (text ++ back)
  have second := isBoundary_append (front ++ text) back
  rw [← List.append_assoc, ← whole, begins] at first
  rw [← whole, byteLength_append, begins, ends] at second
  exact ⟨first, second⟩

end Stretch

theorem Cursor.In.stretch {source : List Char} {c d : Cursor} (here : c.In source)
    (leads : c.Leads d) : Stretch source c.pos d.pos (c.upTo d).toList := by
  obtain ⟨front, whole, pos⟩ := here.split
  obtain ⟨text, rest, after⟩ := leads
  have taken : (c.upTo d).toList = text := Cursor.toList_upTo rest after
  rw [taken]
  refine ⟨front, d.rest, ?_, pos.symm, after.symm⟩
  rw [List.append_assoc, ← rest]
  exact whole

theorem Cursor.In.gap {source : List Char} {c : Cursor} (here : c.In source) :
    Gap source c.pos c.skipBlank.pos := by
  obtain ⟨front, whole, pos⟩ := here.split
  obtain ⟨text, rest, ends, blank, -⟩ := c.skipWhile_split fun x => isBlank x || x == '\ufeff'
  refine ⟨text, ⟨front, c.skipBlank.rest, ?_, pos.symm, ends.symm⟩, List.all_eq_true.mpr blank⟩
  rw [List.append_assoc]
  exact whole.trans (congrArg _ rest)

theorem Cursor.In.brace {source : List Char} {c : Cursor} (here : c.In source)
    (head : c.rest.head? = some '\x7d') : Stretch source c.pos (c.pos + 1) ['\x7d'] := by
  obtain ⟨front, whole, pos⟩ := here.split
  obtain ⟨rest, ahead⟩ := List.head?_eq_some_iff.mp head
  refine ⟨front, rest, ?_, pos.symm, rfl⟩
  rw [whole, ahead, List.append_assoc]
  rfl

theorem Cursor.pos_skip_brace {c : Cursor} (head : c.rest.head? = some '\x7d') :
    (c.skip 1).pos = c.pos + 1 := by
  obtain ⟨rest, ahead⟩ := List.head?_eq_some_iff.mp head
  rw [Cursor.skip, ahead]
  rfl

/-! ## Rows -/

namespace Row

variable {source : List Char} {low high : Nat} {ts : List Token}

theorem le (row : Row source low high ts) : low ≤ high := by
  induction ts generalizing low with
  | nil =>
      obtain ⟨_, stretch, _⟩ := row
      exact stretch.le
  | cons t ts ih =>
      obtain ⟨⟨_, gap, _⟩, grows, _, others⟩ := row
      have := gap.le
      have := ih others
      omega

theorem of_mem (row : Row source low high ts) {t : Token} (member : t ∈ ts) :
    low ≤ t.start ∧ t.start < t.stop ∧ t.stop ≤ high ∧
      Stretch source t.start t.stop t.text.toList := by
  induction ts generalizing low with
  | nil => exact absurd member List.not_mem_nil
  | cons u ts ih =>
      obtain ⟨⟨_, gap, _⟩, grows, stretch, others⟩ := row
      have begins := gap.le
      rcases List.mem_cons.mp member with rfl | member
      · exact ⟨begins, grows, others.le, stretch⟩
      · obtain ⟨behind, rest⟩ := ih others member
        exact ⟨by omega, rest⟩

/-- A token in a row ends before all that come behind it. -/
theorem pairwise (row : Row source low high ts) : ts.Pairwise fun t u => t.stop ≤ u.start := by
  induction ts generalizing low with
  | nil => exact .nil
  | cons t ts ih =>
      obtain ⟨_, _, _, others⟩ := row
      exact List.pairwise_cons.mpr ⟨fun u member => (others.of_mem member).1, ih others⟩

end Row

/-! ## Tiles -/

theorem PartsTile.le {start stop : Nat} {parts : List TemplatePart}
    (tile : PartsTile stop start parts) : start ≤ stop := by
  induction tile with
  | last grows => exact Nat.le_of_lt grows
  | more grows inside _ ih => omega

/-- Tokens that tile a text have spans in it, which start and end between two characters and come
one behind the other. -/
theorem Tiles.spans {source : List Char} {low high : Nat} {ts : List Token}
    (tiles : Tiles source low high ts) : (ts.Pairwise fun t u => t.stop ≤ u.start) ∧
      ∀ t ∈ ts, low ≤ t.start ∧ t.start < t.stop ∧ t.stop ≤ high ∧
        isBoundary t.start source = true ∧ isBoundary t.stop source = true := by
  obtain ⟨row, _⟩ := tiles
  refine ⟨row.pairwise, ?_⟩
  intro t member
  obtain ⟨begins, grows, ends, stretch⟩ := row.of_mem member
  exact ⟨begins, grows, ends, stretch.isBoundary⟩

/-- A container between two bytes, with its closing brace. -/
structure Container (source : List Char) (low high : Nat) (b : Body) : Prop where
  begins : low ≤ b.start
  ends : b.stop < high
  balanced : Balanced b.tokens
  closed : Stretch source b.stop (b.stop + 1) ['\x7d']
  tiles : Tiles source b.start b.stop b.tokens

theorem Container.mono {source : List Char} {low high low' high' : Nat} {b : Body}
    (container : Container source low high b) (lower : low' ≤ low) (higher : high ≤ high') :
    Container source low' high' b :=
  { container with
    begins := Nat.le_trans lower container.begins
    ends := Nat.lt_of_lt_of_le container.ends higher }

/-- What a token from `start` to `stop` is made of tiles it. -/
def Shape.TiledBy (source : List Char) (start stop : Nat) (shape : Shape) : Prop :=
  (∀ parts, shape = .template parts → PartsTile stop start parts) ∧
    ∀ b ∈ shape.bodies, Container source (start + 1) stop b

theorem Tiles.nil {source : List Char} {low high : Nat} (gap : Gap source low high) :
    Tiles source low high [] :=
  .intro gap (fun _ member => absurd member List.not_mem_nil)
    (fun _ member => absurd member List.not_mem_nil)
    (fun _ member => absurd member List.not_mem_nil)
    (fun _ member => absurd member List.not_mem_nil)
    (fun _ member => absurd member List.not_mem_nil)

theorem Tiles.cons {source : List Char} {low high : Nat} {t : Token} {ts : List Token}
    (gap : Gap source low t.start) (grows : t.start < t.stop)
    (stretch : Stretch source t.start t.stop t.text.toList)
    (tiled : t.shape.TiledBy source t.start t.stop) (others : Tiles source t.stop high ts) :
    Tiles source low high (t :: ts) := by
  obtain ⟨row, parts, within, balanced, closed, inside⟩ := others
  obtain ⟨partsOf, containers⟩ := tiled
  exact .intro ⟨gap, grows, stretch, row⟩ (List.forall_mem_cons.mpr ⟨partsOf, parts⟩)
    (List.forall_mem_cons.mpr
      ⟨fun b member => ⟨(containers b member).begins, (containers b member).ends⟩, within⟩)
    (List.forall_mem_cons.mpr ⟨fun b member => (containers b member).balanced, balanced⟩)
    (List.forall_mem_cons.mpr ⟨fun b member => (containers b member).closed, closed⟩)
    (List.forall_mem_cons.mpr ⟨fun b member => (containers b member).tiles, inside⟩)

/-! ## Braces -/

/-- No token inside braces closes the container. -/
theorem opened_of_tokensEnd {depth : Nat} {c after : Cursor} {shape : Shape}
    (here : tokensEnd true depth c = .ok false) (leads : c.Leads after)
    (closes : (tokenBetween shape c after).text = "\x7d") : depth ≠ 0 := by
  obtain ⟨text, rest, pos⟩ := leads
  have taken : (c.upTo after).toList = text := Cursor.toList_upTo rest pos
  have brace : text = ['\x7d'] := taken.symm.trans (congrArg String.toList closes)
  rw [brace, List.singleton_append] at rest
  rw [tokensEnd, rest] at here
  simpa using here

/-! ## Calls -/

namespace Call

/-- What a call reads tiles what it goes over. -/
def Tiled (source : List Char) : (call : Call) → call.Result → Prop
  | .tokens inBraces depth _ c, r => Tiles source c.pos r.2.pos r.1 ∧
      (inBraces = true → braceDepth depth r.1 = some 0)
  | .token _ c, r => r.1.TiledBy source c.pos r.2.pos
  | .template _ partStart c, r => PartsTile r.2.pos partStart r.1 ∧
      ∀ b ∈ (Shape.template r.1).bodies, Container source c.pos r.2.pos b
  | .body c, r => Container source c.pos r.2.pos r.1
  | .element c, r => ∀ b ∈ r.1.bodies, Container source (c.pos + 1) r.2.pos b
  | .attributes c, r => ∀ b ∈ Attribute.bodiesAll r.1, Container source c.pos r.2.2.pos b
  | .value c, r => ∀ b ∈ r.1.bodies, Container source c.pos r.2.pos b
  | .children _ c, r => ∀ b ∈ Child.bodiesAll r.1, Container source c.pos r.2.pos b

/-- A call that starts in a source, a raw part of a template behind its first character. -/
def StartsIn (source : List Char) (call : Call) : Prop :=
  call.cursor.In source ∧
    match call with
    | .template _ partStart c => partStart < c.pos
    | _ => True

end Call

theorem Shape.tiledBy_leaf {source : List Char} {start stop : Nat} {shape : Shape}
    (leaf : shape.isLeaf = true) : shape.TiledBy source start stop := by
  cases shape with
  | template parts => exact absurd leaf Bool.false_ne_true
  | jsx element => exact absurd leaf Bool.false_ne_true
  | _ =>
      exact ⟨fun parts same => absurd same (by simp),
        fun _ member => absurd member List.not_mem_nil⟩

/-- The tokens up to a closing brace are the tokens of a container. -/
theorem container_of_tokens {source : List Char} {c close : Cursor} {tokens : List Token}
    (start : c.In source) (leads : c.Leads close) (head : close.rest.head? = some '\x7d')
    (tiled : (Call.tokens true 0 true c).Tiled source (tokens, close)) :
    Container source c.pos (close.skip 1).pos ⟨c.pos, close.pos, tokens⟩ where
  begins := Nat.le_refl _
  ends := by
    rw [Cursor.pos_skip_brace head]
    exact Nat.lt_succ_self _
  balanced := tiled.2 rfl
  closed := (start.leads leads).brace head
  tiles := tiled.1

theorem Reads.tiled {d : Dialect} {source : List Char} {call : Call} {r : call.Result}
    (reads : Reads d call r) : call.StartsIn source → call.Tiled source r := by
  induction reads with
  | @tokensEnd inBraces depth operand before here =>
      rintro ⟨start, -⟩
      refine ⟨.nil start.gap, ?_⟩
      rintro rfl
      unfold Source.tokensEnd at here
      split at here
      · exact absurd here Cursor.fail_ne_ok
      · simp only [Bool.true_and, Except.ok.injEq, Bool.and_eq_true, beq_iff_eq] at here
        rw [braceDepth, here.2]
  | @tokensMore inBraces depth operand before shape after rest final more first _ firstTiled
      othersTiled =>
      rintro ⟨start, -⟩
      have begins : before.skipBlank.In source := start.leads (Cursor.leads_skipBlank _)
      have passes := first.token_passes
      obtain ⟨others, depthOf⟩ := othersTiled ⟨begins.leads passes.leads, trivial⟩
      refine ⟨.cons start.gap passes.pos_lt (begins.stretch passes.leads)
        (firstTiled ⟨begins, trivial⟩) others, ?_⟩
      rintro rfl
      rw [braceDepth, if_neg (by simpa using fun _ => opened_of_tokensEnd more passes.leads)]
      exact depthOf rfl
  | @tokenTemplate operand c parts after here inside ih =>
      rintro ⟨start, -⟩
      have behind : c.Passes (c.skip 1) :=
        Cursor.passes_skip Nat.one_pos (ne_nil_of_head? (by simpa using here))
      have begins := behind.pos_lt
      obtain ⟨tile, containers⟩ := ih ⟨start.leads behind.leads, begins⟩
      refine ⟨?_, ?_⟩
      · rintro _ ⟨⟩
        exact tile
      · intro b member
        exact (containers b member).mono begins (Nat.le_refl _)
  | tokenElement _ _ ih =>
      rintro ⟨start, -⟩
      exact ⟨fun _ same => absurd same (by simp), ih ⟨start, trivial⟩⟩
  | tokenLeaf _ _ here =>
      intro _
      exact Shape.tiledBy_leaf (lexLeaf_isLeaf here)
  | @templateEnd opening partStart c raw here =>
      rintro ⟨_, grows⟩
      have ends : c.pos < (c.past raw).pos := (rawTail_passes here).pos_lt
      exact ⟨.last (Nat.lt_trans grows ends), fun _ member => absurd member List.not_mem_nil⟩
  | @templateMore opening partStart c raw tokens close parts after here inner others innerTiled
      othersTiled =>
      rintro ⟨start, grows⟩
      have raws : c.pos < (c.past raw).pos := (rawTail_passes here).pos_lt
      have inside : (c.past raw).In source := start.leads (Cursor.leads_past _ _)
      have brace : close.rest.head? = some '\x7d' := inner.close _ _ _ rfl
      have container := container_of_tokens inside inner.leads brace
        (innerTiled ⟨inside, trivial⟩)
      have closes : close.pos < (close.skip 1).pos := container.ends
      obtain ⟨tile, containers⟩ := othersTiled
        ⟨(inside.leads inner.leads).leads (Cursor.leads_skip _ _), closes⟩
      have ends : (close.skip 1).pos ≤ after.pos := others.leads.pos_le
      have spans : (c.past raw).pos ≤ close.pos := inner.leads.pos_le
      refine ⟨.more (b := ⟨_, close.pos, _⟩) (Nat.lt_trans grows raws) spans tile, ?_⟩
      intro b member
      rcases List.mem_cons.mp member with rfl | member
      · exact container.mono (Nat.le_of_lt raws) ends
      · exact (containers b member).mono (by omega) (Nat.le_refl _)
  | body inner ih =>
      rintro ⟨start, -⟩
      exact container_of_tokens start inner.leads (inner.close _ _ _ rfl) (ih ⟨start, trivial⟩)
  | elementFragment here _ ih =>
      rintro ⟨start, -⟩ b member
      have passes := tagStart_passes here
      exact (ih ⟨start.leads passes.leads, trivial⟩ b member).mono passes.pos_lt (Nat.le_refl _)
  | elementClosed here _ ih =>
      rintro ⟨start, -⟩ b member
      have passes := tagStart_passes here
      rw [Element.bodies, Child.bodiesAll, List.append_nil] at member
      exact (ih ⟨start.leads passes.leads, trivial⟩ b member).mono passes.pos_lt (Nat.le_refl _)
  | elementOpen here tag inside tagTiled childrenTiled =>
      rintro ⟨start, -⟩ b member
      have passes := tagStart_passes here
      have named := start.leads passes.leads
      have begins := passes.pos_lt
      rw [Element.bodies] at member
      rcases List.mem_append.mp member with member | member
      · exact (tagTiled ⟨named, trivial⟩ b member).mono begins inside.leads.pos_le
      · exact (childrenTiled ⟨named.leads tag.leads, trivial⟩ b member).mono
          (Nat.le_trans begins tag.leads.pos_le) (Nat.le_refl _)
  | attributesStop _ =>
      intro _ b member
      exact absurd member List.not_mem_nil
  | attributesSpread here inner others innerTiled othersTiled =>
      rintro ⟨start, -⟩ b member
      have leads := (tagPart_passes here).leads
      have inside := start.leads leads
      rw [Attribute.bodiesAll, Attribute.bodies] at member
      rcases List.mem_cons.mp member with rfl | member
      · exact (innerTiled ⟨inside, trivial⟩).mono leads.pos_le others.leads.pos_le
      · exact (othersTiled ⟨inside.leads inner.leads, trivial⟩ b member).mono
          (Nat.le_trans leads.pos_le inner.leads.pos_le) (Nat.le_refl _)
  | @attributesName before c named value after rest closed final here inner others valueTiled
      othersTiled =>
      rintro ⟨start, -⟩ b member
      obtain ⟨rfl, rfl, _⟩ := tagPart_passes here
      have leads := ((Cursor.leads_skipBlank before).trans
        (Cursor.leads_skipWhile _ isAttributeNamePart)).trans (Cursor.leads_skipBlank _)
      have behind := start.leads leads
      rw [Attribute.bodiesAll, Attribute.bodies] at member
      rcases List.mem_append.mp member with member | member
      · exact (valueTiled ⟨behind, trivial⟩ b member).mono leads.pos_le others.leads.pos_le
      · exact (othersTiled ⟨behind.leads inner.leads, trivial⟩ b member).mono
          (Nat.le_trans leads.pos_le inner.leads.pos_le) (Nat.le_refl _)
  | valueBare _ | valueStr _ =>
      intro _ b member
      exact absurd member List.not_mem_nil
  | valueExpr here inner ih =>
      rintro ⟨start, -⟩ b member
      have leads := (valueStart_passes here).leads
      rw [List.mem_singleton.mp member]
      exact (ih ⟨start.leads leads, trivial⟩).mono leads.pos_le (Nat.le_refl _)
  | valueElement here _ ih =>
      rintro ⟨start, -⟩ b member
      have leads := (valueStart_passes here).leads
      exact (ih ⟨start.leads leads, trivial⟩ b member).mono
        (Nat.le_succ_of_le leads.pos_le) (Nat.le_refl _)
  | childrenStop _ =>
      intro _ b member
      rw [bodiesAll_textChild] at member
      exact absurd member List.not_mem_nil
  | @childrenExpr parent start inner body after rest final here inner others innerTiled
      othersTiled =>
      rintro ⟨begins, -⟩ b member
      have leads := (Cursor.leads_textEnd start).trans (childStart_passes here).leads
      have inside := begins.leads leads
      rw [bodiesAll_append, bodiesAll_append, bodiesAll_textChild, List.nil_append] at member
      rcases List.mem_append.mp member with member | member
      · rw [mem_bodiesAll_bodyChild member]
        exact (innerTiled ⟨inside, trivial⟩).mono leads.pos_le others.leads.pos_le
      · exact (othersTiled ⟨inside.leads inner.leads, trivial⟩ b member).mono
          (Nat.le_trans leads.pos_le inner.leads.pos_le) (Nat.le_refl _)
  | @childrenElement parent start inner element after rest final here reads others innerTiled
      othersTiled =>
      rintro ⟨begins, -⟩ b member
      have same : inner = textEnd start := childStart_passes here
      have leads : start.Leads inner := same ▸ Cursor.leads_textEnd start
      have inside := begins.leads leads
      rw [bodiesAll_append, bodiesAll_textChild, List.nil_append, Child.bodiesAll,
        Child.bodies] at member
      rcases List.mem_append.mp member with member | member
      · exact (innerTiled ⟨inside, trivial⟩ b member).mono (Nat.le_succ_of_le leads.pos_le)
          others.leads.pos_le
      · exact (othersTiled ⟨inside.leads reads.leads, trivial⟩ b member).mono
          (Nat.le_trans leads.pos_le reads.leads.pos_le) (Nat.le_refl _)

/-! ## Texts -/

/-- The tokens of a text end with it. -/
theorem Reads.text_end {d : Dialect} {call : Call} {r : call.Result} (reads : Reads d call r) :
    ∀ depth operand c, call = .tokens false depth operand c → (call.after r).rest = [] := by
  induction reads with
  | tokensEnd here =>
      intro depth operand c same
      cases same
      unfold Source.tokensEnd at here
      split at here
      case h_1 ahead => exact ahead
      case h_2 => exact absurd here (by simp)
  | tokensMore _ _ _ _ others =>
      intro depth operand c same
      cases same
      exact others _ _ _ rfl
  | _ =>
      intro depth operand c same
      cases same

theorem tiles_firstLine {source : String} {high : Nat} {ts : List Token}
    (tiles : Tiles source.toList (firstLine source).2.pos high ts) :
    Tiles source.toList 0 high ((firstLine source).1 ++ ts) := by
  unfold firstLine at *
  by_cases begins : "#!".toList.isPrefixOf source.toList = true
  · simp only [if_pos begins] at *
    obtain ⟨rest, ahead⟩ := List.isPrefixOf_iff_prefix.mp begins
    have start : (⟨0, source.toList⟩ : Cursor).In source.toList := .refl _
    have passes : (⟨0, source.toList⟩ : Cursor).Passes
        ((⟨0, source.toList⟩ : Cursor).skipWhile (· != '\n')) :=
      Cursor.passes_skipWhile (x := '#') ahead.symm (by decide)
    exact .cons ⟨[], ⟨[], source.toList, rfl, rfl, rfl⟩, rfl⟩ passes.pos_lt
      (start.stretch passes.leads) (Shape.tiledBy_leaf rfl) tiles
  · simp only [if_neg begins] at *
    exact tiles

theorem Reads.tiles {d : Dialect} {source : String} {tokens : List Token} {final : Cursor}
    (reads : Reads d (.ofSource source) (tokens, final)) :
    Tiles source.toList 0 (byteLength source.toList) ((firstLine source).1 ++ tokens) := by
  have start : (firstLine source).2.In source.toList := leads_firstLine source
  have tiles : Tiles source.toList (firstLine source).2.pos final.pos tokens :=
    (reads.tiled ⟨start, trivial⟩).1
  obtain ⟨front, whole, ends⟩ := (start.leads reads.leads).split
  have last : final.pos = byteLength source.toList := by
    have nothing : final.rest = [] := reads.text_end _ _ _ rfl
    change source.toList = front ++ final.rest at whole
    change final.pos = byteLength front at ends
    rw [ends, whole, nothing, List.append_nil]
  rw [← last]
  exact tiles_firstLine tiles

/-- The tokens of a source tile it, from its first byte to its last and at every depth. -/
theorem tokenize_tiles {d : Dialect} {source : String} {ts : List Token}
    (success : tokenize d source = .ok ts) :
    Tiles source.toList 0 (byteLength source.toList) ts := by
  obtain ⟨tokens, final, rfl, reads⟩ := tokenize_cases success
  exact reads.tiles

/-- An element around a template around an object. -/
def nestedText : String :=
  "x = <a b=\x7b\x60é$\x7b \x7bc: 1\x7d \x7d $\x7by\x7d\x60\x7d> \x7bd\x7d </a>; /* z */\n"

theorem tokenize_tiles_nested : ∃ ts, tokenize ⟨true, false⟩ nestedText = .ok ts ∧
    ts.length = 5 ∧ Tiles nestedText.toList 0 51 ts := by
  have scanned : ((tokenizeWithin (allowance nestedText.toList) ⟨true, false⟩
      nestedText).toOption.map List.length) = some 5 := by decide +kernel
  obtain ⟨ts, scanned, length⟩ := Option.map_eq_some_iff.mp scanned
  have success : tokenize ⟨true, false⟩ nestedText = .ok ts := by
    rw [tokenize_of_not_mem (by decide), ok_of_toOption scanned]
  have bytes : byteLength nestedText.toList = 51 := by decide
  exact ⟨ts, success, length, bytes ▸ tokenize_tiles success⟩

end JsxPreview.Source
