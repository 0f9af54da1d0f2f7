import JsxPreview.Proofs.Scanner.Layout

/-! # Spans nest

The tokens of a text follow each other, the containers of a token follow each other inside it, and so
on at every depth (`Spanned`).  So what a span that ends with a token cuts off is whole: a token that
starts in it ends in it (`Spanned.whole_of_mem`), also when the span lies in a container
(`Spanned.whole_of_inside`). -/
set_option autoImplicit false
namespace JsxPreview.Source

open JsxPreview.Text

/-! ## Spans in a row -/

theorem apart_of_pairwise {α : Type} {R : α → α → Prop} {l : List α} (apart : l.Pairwise R)
    {x y : α} (inX : x ∈ l) (inY : y ∈ l) : x = y ∨ R x y ∨ R y x := by
  induction l with
  | nil => exact absurd inX List.not_mem_nil
  | cons first l ih =>
      rw [List.pairwise_cons] at apart
      rcases List.mem_cons.mp inX with sameX | behindX
      · rcases List.mem_cons.mp inY with sameY | behindY
        · exact .inl (sameX.trans sameY.symm)
        · exact .inr (.inl (sameX ▸ apart.1 y behindY))
      · rcases List.mem_cons.mp inY with sameY | behindY
        · exact .inr (.inr (sameY ▸ apart.1 x behindX))
        · exact ih apart.2 behindX behindY

/-- Things whose spans follow each other from `low` on, and end by `high`. -/
def Follow {α : Type} (span : α → Nat × Nat) (low high : Nat) : List α → Prop
  | [] => low ≤ high
  | x :: rest => low ≤ (span x).1 ∧ (span x).1 ≤ (span x).2 ∧ Follow span (span x).2 high rest

namespace Follow

variable {α : Type} {span : α → Nat × Nat} {low high : Nat} {xs ys : List α}

theorem le (follow : Follow span low high xs) : low ≤ high := by
  induction xs generalizing low with
  | nil => exact follow
  | cons x xs ih =>
      obtain ⟨begins, ends, rest⟩ := follow
      have := ih rest
      omega

theorem low_le (follow : Follow span low high xs) {low' : Nat} (lower : low' ≤ low) :
    Follow span low' high xs := by
  cases xs with
  | nil => exact Nat.le_trans lower follow
  | cons x xs => exact ⟨Nat.le_trans lower follow.1, follow.2⟩

theorem le_high (follow : Follow span low high xs) {high' : Nat} (higher : high ≤ high') :
    Follow span low high' xs := by
  induction xs generalizing low with
  | nil => exact Nat.le_trans follow higher
  | cons x xs ih => exact ⟨follow.1, follow.2.1, ih follow.2.2⟩

theorem append {middle : Nat} (first : Follow span low middle xs)
    (second : Follow span middle high ys) : Follow span low high (xs ++ ys) := by
  induction xs generalizing low with
  | nil => exact second.low_le first
  | cons x xs ih => exact ⟨first.1, first.2.1, ih first.2.2⟩

theorem of_mem (follow : Follow span low high xs) {x : α} (member : x ∈ xs) :
    low ≤ (span x).1 ∧ (span x).1 ≤ (span x).2 ∧ (span x).2 ≤ high := by
  induction xs generalizing low with
  | nil => exact absurd member List.not_mem_nil
  | cons first xs ih =>
      obtain ⟨begins, ends, rest⟩ := follow
      rcases List.mem_cons.mp member with rfl | member
      · exact ⟨begins, ends, rest.le⟩
      · obtain ⟨behind, inside⟩ := ih rest member
        exact ⟨Nat.le_trans begins (Nat.le_trans ends behind), inside⟩

theorem pairwise (follow : Follow span low high xs) :
    xs.Pairwise fun x y => (span x).2 ≤ (span y).1 := by
  induction xs generalizing low with
  | nil => exact .nil
  | cons x xs ih =>
      obtain ⟨_, _, rest⟩ := follow
      exact List.pairwise_cons.mpr ⟨fun y member => (rest.of_mem member).1, ih rest⟩

/-- Of two things in a row one ends in front of the other. -/
theorem apart (follow : Follow span low high xs) {x y : α} (inX : x ∈ xs) (inY : y ∈ xs) :
    x = y ∨ (span x).2 ≤ (span y).1 ∨ (span y).2 ≤ (span x).1 :=
  apart_of_pairwise follow.pairwise inX inY

end Follow

/-! ## Spans at every depth -/

def Token.span (t : Token) : Nat × Nat := (t.start, t.stop)

/-- A container up to the end of its closing brace. -/
def Body.span (b : Body) : Nat × Nat := (b.start, b.stop + 1)

/-- The tokens of a text or a container follow each other, and so do the containers of each of them,
at every depth. -/
inductive Spanned : Nat → Nat → List Token → Prop
  | intro {low high : Nat} {ts : List Token}
      (follow : Follow Token.span low high ts)
      (grows : ∀ t ∈ ts, t.start < t.stop)
      (raws : ∀ t ∈ ts, ∀ raw ∈ t.shape.raws, t.start ≤ raw.1 ∧ raw.1 < t.stop)
      (bodies : ∀ t ∈ ts, Follow Body.span (t.start + 1) t.stop t.shape.bodies)
      (inside : ∀ t ∈ ts, ∀ b ∈ t.shape.bodies, Spanned b.start b.stop b.tokens) :
      Spanned low high ts

/-- Containers follow each other, and in each of them its tokens. -/
def Containers (low high : Nat) (bs : List Body) : Prop :=
  Follow Body.span low high bs ∧ ∀ b ∈ bs, Spanned b.start b.stop b.tokens

namespace Containers

variable {low high : Nat} {bs cs : List Body}

theorem nil (le : low ≤ high) : Containers low high [] :=
  ⟨le, fun _ member => absurd member List.not_mem_nil⟩

theorem append {middle : Nat} (first : Containers low middle bs)
    (second : Containers middle high cs) : Containers low high (bs ++ cs) :=
  ⟨first.1.append second.1, List.forall_mem_append.mpr ⟨first.2, second.2⟩⟩

theorem low_le (containers : Containers low high bs) {low' : Nat} (lower : low' ≤ low) :
    Containers low' high bs :=
  ⟨containers.1.low_le lower, containers.2⟩

end Containers

theorem Spanned.nil {low high : Nat} (le : low ≤ high) : Spanned low high [] :=
  .intro le (fun _ member => absurd member List.not_mem_nil)
    (fun _ member => absurd member List.not_mem_nil)
    (fun _ member => absurd member List.not_mem_nil)
    (fun _ member => absurd member List.not_mem_nil)

theorem Spanned.cons {low high : Nat} {t : Token} {ts : List Token} (begins : low ≤ t.start)
    (grows : t.start < t.stop) (raws : ∀ raw ∈ t.shape.raws, t.start ≤ raw.1 ∧ raw.1 < t.stop)
    (containers : Containers (t.start + 1) t.stop t.shape.bodies)
    (others : Spanned t.stop high ts) : Spanned low high (t :: ts) := by
  obtain ⟨follow, growsOf, rawsOf, bodiesOf, insideOf⟩ := others
  exact .intro ⟨begins, Nat.le_of_lt grows, follow⟩ (List.forall_mem_cons.mpr ⟨grows, growsOf⟩)
    (List.forall_mem_cons.mpr ⟨raws, rawsOf⟩)
    (List.forall_mem_cons.mpr ⟨containers.1, bodiesOf⟩)
    (List.forall_mem_cons.mpr ⟨containers.2, insideOf⟩)

theorem Spanned.tail {low high : Nat} {t : Token} {ts : List Token}
    (spanned : Spanned low high (t :: ts)) : Spanned t.stop high ts := by
  obtain ⟨follow, grows, raws, bodies, inside⟩ := spanned
  exact .intro follow.2.2 (List.forall_mem_cons.mp grows).2 (List.forall_mem_cons.mp raws).2
    (List.forall_mem_cons.mp bodies).2 (List.forall_mem_cons.mp inside).2

theorem Spanned.container {low high : Nat} {ts : List Token} (spanned : Spanned low high ts)
    {t : Token} {b : Body} (member : t ∈ ts) (container : b ∈ t.shape.bodies) :
    Spanned b.start b.stop b.tokens := by
  obtain ⟨_, _, _, _, inside⟩ := spanned
  exact inside t member b container

theorem Spanned.le_high {low high high' : Nat} {ts : List Token} (spanned : Spanned low high ts)
    (higher : high ≤ high') : Spanned low high' ts := by
  obtain ⟨follow, grows, raws, bodies, inside⟩ := spanned
  exact .intro (follow.le_high higher) grows raws bodies inside

/-! ## Calls -/

/-- What a call reads nests between its two ends.  A raw part of a template starts where the call
says or behind. -/
def Call.Spans : (call : Call) → call.Result → Prop
  | .tokens _ _ _ c, r => Spanned c.pos r.2.pos r.1
  | .token _ c, r => Containers (c.pos + 1) r.2.pos r.1.bodies ∧
      ∀ raw ∈ r.1.raws, c.pos ≤ raw.1 ∧ raw.1 < r.2.pos
  | .template _ partStart c, r => Containers c.pos r.2.pos (Shape.template r.1).bodies ∧
      ∀ raw ∈ (Shape.template r.1).raws, raw.1 = partStart ∨ c.pos ≤ raw.1 ∧ raw.1 < r.2.pos
  | .body c, r => Containers c.pos r.2.pos [r.1]
  | .element c, r => Containers (c.pos + 1) r.2.pos r.1.bodies
  | .attributes c, r => Containers c.pos r.2.2.pos (Attribute.bodiesAll r.1)
  | .value c, r => Containers c.pos r.2.pos r.1.bodies
  | .children _ c, r => Containers c.pos r.2.pos (Child.bodiesAll r.1)

theorem containers_leaf {shape : Shape} (leaf : shape.isLeaf = true) :
    shape.bodies = [] ∧ shape.raws = [] := by
  cases shape with
  | template parts => exact absurd leaf Bool.false_ne_true
  | jsx element => exact absurd leaf Bool.false_ne_true
  | _ => exact ⟨rfl, rfl⟩

theorem Containers.bodyChild {low high : Nat} {b : Body} (containers : Containers low high [b]) :
    Containers low high (Child.bodiesAll (bodyChild b)) := by
  unfold Source.bodyChild
  split
  · exact containers
  · exact .nil containers.1.le

/-- Behind the tokens of a container stands its closing brace. -/
theorem Reads.closes {d : Dialect} {depth : Nat} {operand : Bool} {c close : Cursor}
    {tokens : List Token} (reads : Reads d (.tokens true depth operand c) (tokens, close)) :
    close.pos < (close.skip 1).pos := by
  have brace : close.rest.head? = some '\x7d' := reads.close _ _ _ rfl
  exact (Cursor.passes_skip Nat.one_pos (ne_nil_of_head? (by simpa using brace))).pos_lt

theorem Reads.spans {d : Dialect} {call : Call} {r : call.Result} (reads : Reads d call r) :
    call.Spans r := by
  induction reads with
  | tokensEnd _ => exact .nil (Cursor.leads_skipBlank _).pos_le
  | @tokensMore inBraces depth operand before shape after rest final _ first _ firstSpans
      others =>
      obtain ⟨containers, raws⟩ := firstSpans
      exact .cons (Cursor.leads_skipBlank before).pos_le first.token_passes.pos_lt raws containers
        others
  | @tokenTemplate operand c parts after here inside ih =>
      obtain ⟨containers, raws⟩ := ih
      have behind : c.Passes (c.skip 1) :=
        Cursor.passes_skip Nat.one_pos (ne_nil_of_head? (by simpa using here))
      have ends : (c.skip 1).pos ≤ after.pos := inside.leads.pos_le
      have begins := behind.pos_lt
      refine ⟨containers.low_le begins, ?_⟩
      intro raw member
      rcases raws raw member with same | ⟨starts, stops⟩
      · rw [same]
        exact ⟨Nat.le_refl _, Nat.lt_of_lt_of_le begins ends⟩
      · exact ⟨Nat.le_trans (Nat.le_of_lt begins) starts, stops⟩
  | tokenElement _ _ ih => exact ⟨ih, fun _ member => absurd member List.not_mem_nil⟩
  | tokenLeaf _ _ here =>
      obtain ⟨bodies, raws⟩ := containers_leaf (lexLeaf_isLeaf here)
      rw [Call.Spans, bodies, raws]
      exact ⟨.nil (lexLeaf_passes here).pos_lt, fun _ member => absurd member List.not_mem_nil⟩
  | templateEnd here =>
      refine ⟨.nil (Cursor.leads_past _ _).pos_le, ?_⟩
      intro raw member
      rw [List.mem_singleton.mp member]
      exact .inl rfl
  | @templateMore opening partStart c raw tokens close parts after here inner others innerSpans
      ih =>
      obtain ⟨containers, raws⟩ := ih
      have begins : c.pos ≤ (c.past raw).pos := (Cursor.leads_past _ _).pos_le
      have ends : (c.past raw).pos ≤ close.pos := inner.leads.pos_le
      have closes : close.pos < (close.skip 1).pos := inner.closes
      have stops : (close.skip 1).pos ≤ after.pos := others.leads.pos_le
      refine ⟨?_, ?_⟩
      · have body : Containers c.pos (close.skip 1).pos [⟨(c.past raw).pos, close.pos, tokens⟩] :=
          ⟨⟨begins, Nat.le_succ_of_le ends, closes⟩, List.forall_mem_singleton.mpr innerSpans⟩
        exact body.append containers
      · intro part member
        rcases List.mem_cons.mp member with same | member
        · rw [same]
          exact .inl rfl
        · right
          rcases raws part member with same | ⟨starts, ends'⟩
          · rw [same]
            exact ⟨Nat.le_trans begins ends, Nat.lt_of_lt_of_le closes stops⟩
          · exact ⟨by omega, ends'⟩
  | @body start tokens close inside ih =>
      have ends : start.pos ≤ close.pos := inside.leads.pos_le
      exact ⟨⟨Nat.le_refl _, Nat.le_succ_of_le ends, inside.closes⟩,
        List.forall_mem_singleton.mpr ih⟩
  | elementFragment here _ ih => exact ih.low_le (tagStart_passes here).pos_lt
  | elementClosed here _ ih =>
      have whole := ih.low_le (tagStart_passes here).pos_lt
      rw [Call.Spans, Element.bodies, Child.bodiesAll, List.append_nil]
      exact whole
  | elementOpen here _ _ tag children =>
      exact (tag.append children).low_le (tagStart_passes here).pos_lt
  | attributesStop here => exact .nil (tagPart_passes here).leads.pos_le
  | attributesSpread here _ _ inside others =>
      exact (inside.append others).low_le (tagPart_passes here).leads.pos_le
  | @attributesName before c named value after rest closed final here _ _ inside others =>
      obtain ⟨rfl, rfl, _⟩ := tagPart_passes here
      have behind := ((Cursor.leads_skipBlank before).trans
        (Cursor.leads_skipWhile _ isAttributeNamePart)).trans (Cursor.leads_skipBlank _)
      exact (inside.append others).low_le behind.pos_le
  | valueBare here =>
      rw [valueStart_passes here]
      exact .nil (Nat.le_refl _)
  | valueStr here => exact .nil (valueStart_passes here).leads.pos_le
  | valueExpr here _ ih => exact ih.low_le (valueStart_passes here).leads.pos_le
  | valueElement here _ ih =>
      exact ih.low_le (Nat.le_succ_of_le (valueStart_passes here).leads.pos_le)
  | @childrenStop parent start after here =>
      have ends := (Cursor.leads_textEnd start).trans (childStart_passes here).leads
      rw [Call.Spans, bodiesAll_textChild]
      exact .nil ends.pos_le
  | @childrenExpr parent start inner body after rest final here _ _ inside others =>
      have begins := (Cursor.leads_textEnd start).trans (childStart_passes here).leads
      have both := (Containers.bodyChild inside).append others
      rw [Call.Spans, List.append_assoc, bodiesAll_append, bodiesAll_textChild, List.nil_append,
        bodiesAll_append]
      exact both.low_le begins.pos_le
  | @childrenElement parent start inner element after rest final here _ _ inside others =>
      have same : inner = textEnd start := childStart_passes here
      have begins : start.pos ≤ inner.pos := same ▸ (Cursor.leads_textEnd start).pos_le
      have both := inside.append others
      rw [Call.Spans, bodiesAll_append, bodiesAll_textChild, List.nil_append, Child.bodiesAll,
        Child.bodies]
      exact both.low_le (Nat.le_succ_of_le begins)

theorem spanned_firstLine {source : String} {high : Nat} {ts : List Token}
    (spanned : Spanned (firstLine source).2.pos high ts) :
    Spanned 0 high ((firstLine source).1 ++ ts) := by
  unfold firstLine at *
  by_cases begins : "#!".toList.isPrefixOf source.toList = true
  · simp only [if_pos begins] at *
    obtain ⟨rest, ahead⟩ := List.isPrefixOf_iff_prefix.mp begins
    have passes : (⟨0, source.toList⟩ : Cursor).Passes
        ((⟨0, source.toList⟩ : Cursor).skipWhile (· != '\n')) :=
      Cursor.passes_skipWhile (x := '#') ahead.symm (by decide)
    exact .cons (Nat.le_refl _) passes.pos_lt (fun _ member => absurd member List.not_mem_nil)
      (.nil passes.pos_lt) spanned
  · simp only [if_neg begins] at *
    exact spanned

/-- The tokens of a source nest between its two ends. -/
theorem tokenize_spanned {d : Dialect} {source : String} {ts : List Token}
    (success : tokenize d source = .ok ts) : Spanned 0 (byteLength source.toList) ts := by
  obtain ⟨tokens, final, rfl, reads⟩ := tokenize_cases success
  have spanned : Spanned (firstLine source).2.pos final.pos tokens := reads.spans
  have within : final.pos ≤ byteLength source.toList :=
    Cursor.In.pos_le ((leads_firstLine source).trans reads.leads)
  exact spanned_firstLine (spanned.le_high within)

/-! ## Whole spans -/

/-- The token `t` is among tokens, or among those of their containers at any depth. -/
inductive Token.Within (t : Token) : List Token → Prop
  | here {ts : List Token} (member : t ∈ ts) : Within t ts
  | inside {ts : List Token} {u : Token} {b : Body} (member : u ∈ ts)
      (container : b ∈ u.shape.bodies) (within : Within t b.tokens) : Within t ts

theorem Token.Within.of_subset {t : Token} {ts us : List Token} (within : t.Within ts)
    (subset : ts ⊆ us) : t.Within us := by
  cases within with
  | here member => exact .here (subset member)
  | inside member container within => exact .inside (subset member) container within

/-- A token that starts between two places ends there too. -/
def Whole (ts : List Token) (start stop : Nat) : Prop :=
  ∀ t : Token, t.Within ts → start ≤ t.start → t.start < stop → t.stop ≤ stop

namespace Spanned

variable {low high : Nat} {ts : List Token}

theorem span_within (spanned : Spanned low high ts) {t : Token} (within : t.Within ts) :
    low ≤ t.start ∧ t.start < t.stop ∧ t.stop ≤ high := by
  induction within generalizing low high with
  | here member =>
      obtain ⟨follow, grows, _, _, _⟩ := spanned
      obtain ⟨begins, _, ends⟩ := follow.of_mem member
      exact ⟨begins, grows _ member, ends⟩
  | inside member container _ ih =>
      obtain ⟨follow, _, _, bodies, inside⟩ := spanned
      obtain ⟨begins, grows, ends⟩ := ih (inside _ member _ container)
      obtain ⟨after, _, before⟩ := (bodies _ member).of_mem container
      obtain ⟨low_le, _, le_high⟩ := follow.of_mem member
      simp only [Body.span, Token.span] at *
      omega

/-- The tokens of a container lie in its token, behind where it starts. -/
theorem within_token (spanned : Spanned low high ts) {t u : Token} {b : Body} (member : t ∈ ts)
    (container : b ∈ t.shape.bodies) (within : u.Within b.tokens) :
    t.start < u.start ∧ u.stop ≤ t.stop := by
  obtain ⟨begins, _, ends⟩ := (spanned.container member container).span_within within
  obtain ⟨_, _, _, bodies, _⟩ := spanned
  obtain ⟨after, _, before⟩ := (bodies t member).of_mem container
  simp only [Body.span] at after before
  omega

/-- So do those of a container of a token at any depth. -/
theorem within_inside (spanned : Spanned low high ts) {t u : Token} {b : Body} (inside : t.Within ts)
    (container : b ∈ t.shape.bodies) (within : u.Within b.tokens) :
    t.start < u.start ∧ u.stop ≤ t.stop := by
  induction inside generalizing low high with
  | here member => exact spanned.within_token member container within
  | inside member outer _ ih => exact ih (spanned.container member outer)

/-- A token at any depth lies in one of the tokens, and is this one or in one of its containers. -/
theorem within_cases (spanned : Spanned low high ts) {t : Token} (within : t.Within ts) :
    ∃ u ∈ ts, u.start ≤ t.start ∧ t.stop ≤ u.stop ∧
      (t = u ∨ ∃ b ∈ u.shape.bodies, t.Within b.tokens ∧ b.start ≤ t.start ∧ t.stop ≤ b.stop) := by
  cases within with
  | here member => exact ⟨t, member, Nat.le_refl _, Nat.le_refl _, .inl rfl⟩
  | @inside _ u b member container within =>
      obtain ⟨starts, stops⟩ := spanned.within_token member container within
      obtain ⟨begins, _, ends⟩ := (spanned.container member container).span_within within
      exact ⟨u, member, Nat.le_of_lt starts, stops, .inr ⟨b, container, within, begins, ends⟩⟩

theorem whole_end (spanned : Spanned low high ts) (start : Nat) : Whole ts start high :=
  fun _ within _ _ => (spanned.span_within within).2.2

/-- What ends with one of the tokens is whole. -/
theorem whole_of_mem (spanned : Spanned low high ts) {v : Token} (member : v ∈ ts) (start : Nat) :
    Whole ts start v.stop := by
  intro t within _ before
  obtain ⟨u, among, begins, ends, _⟩ := spanned.within_cases within
  have grows := (spanned.span_within within).2.1
  obtain ⟨follow, growsOf, _, _, _⟩ := spanned
  have growsV := growsOf v member
  rcases follow.apart among member with rfl | first | first
  · exact ends
  · simp only [Token.span] at first
    omega
  · simp only [Token.span] at first
    omega

/-- A token that starts between the two ends of a container is inside of it. -/
theorem within_of_inside (spanned : Spanned low high ts) {t u : Token} {b : Body} (member : u ∈ ts)
    (container : b ∈ u.shape.bodies) (within : t.Within ts) (behind : b.start ≤ t.start)
    (before : t.start < b.stop) : t.Within b.tokens := by
  obtain ⟨u', among, startsIn, stopsIn, deeper⟩ := spanned.within_cases within
  have grows := (spanned.span_within within).2.1
  obtain ⟨follow, _, _, bodies, inside⟩ := spanned
  obtain ⟨after, _, last⟩ := (bodies u member).of_mem container
  simp only [Body.span] at after last
  rcases follow.apart among member with rfl | first | first
  · rcases deeper with rfl | ⟨b', among', within', startsIn', stopsIn'⟩
    · omega
    · rcases (bodies u' member).apart among' container with rfl | first | first
      · exact within'
      · simp only [Body.span] at first
        omega
      · simp only [Body.span] at first
        omega
  · simp only [Token.span] at first
    omega
  · simp only [Token.span] at first
    omega

/-- What is whole in a container is whole. -/
theorem whole_of_inside (spanned : Spanned low high ts) {u : Token} {b : Body} (member : u ∈ ts)
    (container : b ∈ u.shape.bodies) {start stop : Nat} (whole : Whole b.tokens start stop)
    (begins : b.start ≤ start) (ends : stop ≤ b.stop) : Whole ts start stop := by
  intro t within behind before
  have inside := spanned.within_of_inside member container within (Nat.le_trans begins behind)
    (Nat.lt_of_lt_of_le before ends)
  exact whole t inside behind before

end Spanned

end JsxPreview.Source
