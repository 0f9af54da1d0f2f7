import JsxPreview.Proofs.Analysis.Whole
import JsxPreview.Proofs.Emission.Chunks

/-! # What is copied

A token that no rewrite covers is emitted: a plain one as its own text, a template with its raw parts
as they are, and inside templates and elements so are the tokens of the containers that are written.
`Copies` says which texts these are, and `Copies.emitted` that each of them is emitted as a copy: as
no rewrite cuts a token, what is not covered is in no token that is. -/
set_option autoImplicit false
namespace JsxPreview.Source

open JsxPreview.Text

/-- Whether a rewrite replaces what starts at byte `n`. -/
def Rewrites.Covers (rs : Rewrites) (n : Nat) : Prop :=
  ∃ start r, rs.find? start = some r ∧ start ≤ n ∧ n < r.stop

/-! ## Written containers -/

mutual

/-- The containers of an element that are written.  Of its keys it is the last one, as an argument
of its own; the others are left out. -/
def Element.written : Element → List Body
  | ⟨_, _, _, attributes, children⟩ =>
      Attribute.writtenProperties attributes ++ Attribute.writtenKey [] attributes ++
        Child.writtenAll children

def Attribute.writtenProperties : List Attribute → List Body
  | [] => []
  | .named name _ value :: rest =>
      if name == "key" then Attribute.writtenProperties rest
      else value.written ++ Attribute.writtenProperties rest
  | .spread b :: rest => b :: Attribute.writtenProperties rest

def Attribute.writtenKey (found : List Body) : List Attribute → List Body
  | [] => found
  | .named name _ value :: rest =>
      if name == "key" then Attribute.writtenKey value.written rest
      else Attribute.writtenKey found rest
  | .spread _ :: rest => Attribute.writtenKey found rest

def AttributeValue.written : AttributeValue → List Body
  | .expr b => [b]
  | .element el => el.written
  | .bare | .str _ _ => []

def Child.writtenAll : List Child → List Body
  | [] => []
  | .text _ _ :: rest => Child.writtenAll rest
  | .expr b :: rest => b :: Child.writtenAll rest
  | .element el :: rest => el.written ++ Child.writtenAll rest

end

/-- The containers of a token that are written. -/
def Shape.written : Shape → List Body
  | .template parts => parts.filterMap TemplatePart.body?
  | .jsx element => element.written
  | .word | .punct | .str | .number | .regex | .comment => []

/-- A text that emission copies from tokens, and its offset in the source. -/
inductive Copies (e : Emitter) : List Token → Nat → List Char → Prop
  | token {ts : List Token} {t : Token} (member : t ∈ ts)
      (uncovered : ¬ e.rewrites.Covers t.start) (leaf : t.shape.isLeaf = true) :
      Copies e ts t.start t.text.toList
  | raw {ts : List Token} {t : Token} {start stop : Nat} (member : t ∈ ts)
      (uncovered : ¬ e.rewrites.Covers start) (part : (start, stop) ∈ t.shape.raws) :
      Copies e ts start (slice start stop e.source)
  | inside {ts : List Token} {t : Token} {b : Body} {offset : Nat} {text : List Char}
      (member : t ∈ ts) (written : b ∈ t.shape.written) (copies : Copies e b.tokens offset text) :
      Copies e ts offset text

mutual

theorem Element.written_subset : (element : Element) → element.written ⊆ element.bodies
  | ⟨_, _, _, attributes, children⟩ => by
      intro b member
      rw [Element.written] at member
      rw [Element.bodies]
      rcases List.mem_append.mp member with member | member
      · refine List.mem_append_left _ ?_
        rcases List.mem_append.mp member with member | member
        · exact Attribute.writtenProperties_subset attributes member
        · exact (Attribute.writtenKey_subset attributes [] b member).resolve_left List.not_mem_nil
      · exact List.mem_append_right _ (Child.writtenAll_subset children member)

theorem Attribute.writtenProperties_subset : (attributes : List Attribute) →
    Attribute.writtenProperties attributes ⊆ Attribute.bodiesAll attributes
  | [] => List.Subset.refl _
  | .named name _ value :: rest => by
      intro b member
      rw [Attribute.writtenProperties] at member
      rw [Attribute.bodiesAll, Attribute.bodies]
      split at member
      · exact List.mem_append_right _ (Attribute.writtenProperties_subset rest member)
      · rcases List.mem_append.mp member with member | member
        · exact List.mem_append_left _ (AttributeValue.written_subset value member)
        · exact List.mem_append_right _ (Attribute.writtenProperties_subset rest member)
  | .spread inner :: rest => by
      intro b member
      rw [Attribute.writtenProperties] at member
      rw [Attribute.bodiesAll, Attribute.bodies]
      rcases List.mem_cons.mp member with rfl | member
      · exact List.mem_cons_self ..
      · exact List.mem_cons_of_mem _ (Attribute.writtenProperties_subset rest member)

theorem Attribute.writtenKey_subset : (attributes : List Attribute) → (found : List Body) →
    ∀ b ∈ Attribute.writtenKey found attributes,
      b ∈ found ∨ b ∈ Attribute.bodiesAll attributes
  | [], _ => fun _ => .inl
  | .named name _ value :: rest, found => by
      intro b member
      rw [Attribute.writtenKey] at member
      rw [Attribute.bodiesAll, Attribute.bodies]
      split at member
      · refine .inr ?_
        rcases Attribute.writtenKey_subset rest value.written b member with member | member
        · exact List.mem_append_left _ (AttributeValue.written_subset value member)
        · exact List.mem_append_right _ member
      · rcases Attribute.writtenKey_subset rest found b member with member | member
        · exact .inl member
        · exact .inr (List.mem_append_right _ member)
  | .spread inner :: rest, found => by
      intro b member
      rw [Attribute.writtenKey] at member
      rw [Attribute.bodiesAll, Attribute.bodies]
      rcases Attribute.writtenKey_subset rest found b member with member | member
      · exact .inl member
      · exact .inr (List.mem_cons_of_mem _ member)

theorem AttributeValue.written_subset : (value : AttributeValue) →
    value.written ⊆ value.bodies
  | .expr b => by rw [AttributeValue.written, AttributeValue.bodies]; exact List.Subset.refl _
  | .element el => by
      rw [AttributeValue.written, AttributeValue.bodies]
      exact Element.written_subset el
  | .bare => by rw [AttributeValue.written]; exact List.nil_subset _
  | .str _ _ => by rw [AttributeValue.written]; exact List.nil_subset _

theorem Child.writtenAll_subset : (children : List Child) →
    Child.writtenAll children ⊆ Child.bodiesAll children
  | [] => List.Subset.refl _
  | .text _ _ :: rest => by
      rw [Child.writtenAll, Child.bodiesAll, Child.bodies]
      exact Child.writtenAll_subset rest
  | .expr b :: rest => by
      rw [Child.writtenAll, Child.bodiesAll, Child.bodies]
      exact List.cons_subset_cons _ (Child.writtenAll_subset rest)
  | .element el :: rest => by
      intro b member
      rw [Child.writtenAll] at member
      rw [Child.bodiesAll, Child.bodies]
      rcases List.mem_append.mp member with member | member
      · exact List.mem_append_left _ (Element.written_subset el member)
      · exact List.mem_append_right _ (Child.writtenAll_subset rest member)

end

/-! ## What is emitted for an element -/

theorem infix_joinChunks (separator : String) {parts : List (List Chunk)} {chunks : List Chunk}
    (member : chunks ∈ parts) : chunks <:+: Emitter.joinChunks separator parts := by
  induction parts with
  | nil => exact absurd member List.not_mem_nil
  | cons part rest ih =>
      cases rest with
      | nil =>
          rw [List.mem_singleton.mp member]
          exact List.infix_refl _
      | cons next rest =>
          have join : Emitter.joinChunks separator (part :: next :: rest) =
              part ++ .code separator :: Emitter.joinChunks separator (next :: rest) := by
            rw [Emitter.joinChunks]
            intro nothing
            cases nothing
          rw [join]
          rcases List.mem_cons.mp member with rfl | member
          · exact List.infix_append_of_infix_left (List.infix_refl _)
          · exact List.infix_append_of_infix_right (List.infix_cons (ih member))

/-- A part of one of the parts of a list is a part of their join. -/
theorem infix_joinChunks_of_mem (separator : String) {parts : List (List Chunk)}
    {chunks : List Chunk} (within : ∃ part ∈ parts, chunks <:+: part) :
    chunks <:+: Emitter.joinChunks separator parts := by
  obtain ⟨part, member, inside⟩ := within
  exact inside.trans (infix_joinChunks separator member)

section Elements

variable (e : Emitter)

section Parts

variable {start stop : Nat} {name : Option TagName} {attributes : List Attribute}
  {children : List Child} {chunks : List Chunk}

theorem infix_element_of_property (within : ∃ part ∈ e.properties attributes, chunks <:+: part) :
    chunks <:+: e.element ⟨start, stop, name, attributes, children⟩ := by
  obtain ⟨part, member, inside⟩ := within
  unfold Emitter.element
  refine List.infix_append_of_infix_left (List.infix_append_of_infix_left
    (List.infix_append_of_infix_right (List.infix_cons (infix_joinChunks_of_mem ", " ?_))))
  exact ⟨part, List.mem_append_left _ member, inside⟩

theorem infix_element_of_key (within : chunks <:+: e.key [] attributes) :
    chunks <:+: e.element ⟨start, stop, name, attributes, children⟩ := by
  unfold Emitter.element
  exact List.infix_append_of_infix_left
    (List.infix_append_of_infix_right (List.infix_cons within))

theorem infix_element_of_child (within : ∃ part ∈ e.childValues children, chunks <:+: part) :
    chunks <:+: e.element ⟨start, stop, name, attributes, children⟩ := by
  have inside := infix_joinChunks_of_mem ", " within
  have some : children.isEmpty = false := by
    obtain ⟨part, member, _⟩ := within
    cases children with
    | nil => exact absurd member List.not_mem_nil
    | cons child rest => rfl
  unfold Emitter.element
  refine List.infix_append_of_infix_left (List.infix_append_of_infix_left
    (List.infix_append_of_infix_right (List.infix_cons (infix_joinChunks_of_mem ", " ?_))))
  simp only [some, Bool.false_eq_true, if_false]
  split
  · exact ⟨_, List.mem_append_right _ (List.mem_singleton_self _),
      List.infix_cons (List.infix_append_of_infix_left (List.infix_cons inside))⟩
  · exact ⟨_, List.mem_append_right _ (List.mem_singleton_self _), List.infix_cons inside⟩

end Parts

mutual

theorem Element.emits : (element : Element) → ∀ b ∈ element.written, e.body b <:+: e.element element
  | ⟨start, _, name, attributes, children⟩ => by
      intro b member
      rw [Element.written] at member
      rcases List.mem_append.mp member with member | member
      · rcases List.mem_append.mp member with member | member
        · exact infix_element_of_property e (Attribute.emitsProperty attributes b member)
        · exact infix_element_of_key e (Attribute.emitsKey attributes [] []
            (fun _ none => absurd none List.not_mem_nil) b member)
      · exact infix_element_of_child e (Child.emits children b member)

theorem Attribute.emitsProperty : (attributes : List Attribute) →
    ∀ b ∈ Attribute.writtenProperties attributes, ∃ part ∈ e.properties attributes,
      e.body b <:+: part
  | [] => fun _ member => absurd member List.not_mem_nil
  | .named name _ value :: rest => by
      intro b member
      rw [Attribute.writtenProperties] at member
      rw [Emitter.properties]
      split at member
      case isTrue isKey =>
        rw [if_pos isKey]
        exact Attribute.emitsProperty rest b member
      case isFalse noKey =>
        rw [if_neg noKey]
        rcases List.mem_append.mp member with member | member
        · refine ⟨_, List.mem_cons_self .., ?_⟩
          exact List.infix_cons (List.infix_cons
            (List.infix_cons (AttributeValue.emits value b member)))
        · obtain ⟨part, among, inside⟩ := Attribute.emitsProperty rest b member
          exact ⟨part, List.mem_cons_of_mem _ among, inside⟩
  | .spread inner :: rest => by
      intro b member
      rw [Attribute.writtenProperties] at member
      rw [Emitter.properties]
      rcases List.mem_cons.mp member with rfl | member
      · exact ⟨_, List.mem_cons_self .., List.infix_cons (List.infix_refl _)⟩
      · obtain ⟨part, among, inside⟩ := Attribute.emitsProperty rest b member
        exact ⟨part, List.mem_cons_of_mem _ among, inside⟩

theorem Attribute.emitsKey : (attributes : List Attribute) → (found : List Body) →
    (chunks : List Chunk) → (∀ b ∈ found, e.body b <:+: chunks) →
    ∀ b ∈ Attribute.writtenKey found attributes, e.body b <:+: e.key chunks attributes
  | [], _, _, emitted => emitted
  | .named name _ value :: rest, found, chunks, emitted => by
      rw [Attribute.writtenKey, Emitter.key]
      split
      · refine Attribute.emitsKey rest value.written _ ?_
        intro b member
        exact List.infix_cons (AttributeValue.emits value b member)
      · exact Attribute.emitsKey rest found chunks emitted
  | .spread _ :: rest, found, chunks, emitted => by
      rw [Attribute.writtenKey, Emitter.key]
      exact Attribute.emitsKey rest found chunks emitted

theorem AttributeValue.emits : (value : AttributeValue) →
    ∀ b ∈ value.written, e.body b <:+: e.attributeValue value
  | .expr inner => by
      intro b member
      rw [AttributeValue.written, List.mem_singleton] at member
      have emitted : e.attributeValue (.expr inner) = e.body b := by
        rw [member, Emitter.attributeValue]
      exact emitted.symm ▸ List.infix_refl (e.body b)
  | .element el => by
      rw [AttributeValue.written, Emitter.attributeValue]
      exact Element.emits el
  | .bare => by
      rw [AttributeValue.written]
      exact fun _ member => absurd member List.not_mem_nil
  | .str _ _ => by
      rw [AttributeValue.written]
      exact fun _ member => absurd member List.not_mem_nil

theorem Child.emits : (children : List Child) → ∀ b ∈ Child.writtenAll children,
    ∃ part ∈ e.childValues children, e.body b <:+: part
  | [] => fun _ member => absurd member List.not_mem_nil
  | .text _ _ :: rest => by
      intro b member
      rw [Child.writtenAll] at member
      rw [Emitter.childValues]
      obtain ⟨part, among, inside⟩ := Child.emits rest b member
      exact ⟨part, List.mem_cons_of_mem _ among, inside⟩
  | .expr inner :: rest => by
      intro b member
      rw [Child.writtenAll] at member
      rw [Emitter.childValues]
      rcases List.mem_cons.mp member with rfl | member
      · exact ⟨_, List.mem_cons_self .., List.infix_refl _⟩
      · obtain ⟨part, among, inside⟩ := Child.emits rest b member
        exact ⟨part, List.mem_cons_of_mem _ among, inside⟩
  | .element el :: rest => by
      intro b member
      rw [Child.writtenAll] at member
      rw [Emitter.childValues]
      rcases List.mem_append.mp member with member | member
      · exact ⟨_, List.mem_cons_self .., Element.emits el b member⟩
      · obtain ⟨part, among, inside⟩ := Child.emits rest b member
        exact ⟨part, List.mem_cons_of_mem _ among, inside⟩

end

end Elements

/-! ## What is emitted for tokens -/

section Tokens

variable {e : Emitter}

/-- Emission comes to each token that is not covered, emits it and goes on behind it. -/
theorem tokens_reach {t : Token} (uncovered : ¬ e.rewrites.Covers t.start) (stop : Nat)
    (pre rest : List Token) : (pre ++ t :: rest).Pairwise (fun t u => t.start ≤ u.start) →
      ∀ cursor skipped, (∀ u ∈ pre ++ t :: rest, u.start < skipped → e.rewrites.Covers u.start) →
        ∃ front skipped', skipped' ≤ t.start ∧ e.tokens stop cursor skipped (pre ++ t :: rest) =
          front ++ (e.token t ++ e.tokens stop t.stop skipped' rest) := by
  induction pre with
  | nil =>
      intro _ cursor skipped covered
      have notSkipped : ¬ t.start < skipped :=
        fun skips => uncovered (covered t (List.mem_cons_self ..) skips)
      rw [List.nil_append, Emitter.tokens, if_neg notSkipped]
      split
      case h_1 r found =>
        have inserts : ¬ t.start < r.stop :=
          fun replaces => uncovered ⟨t.start, r, found, Nat.le_refl _, replaces⟩
        rw [if_neg inserts, List.append_assoc]
        exact ⟨_, skipped, Nat.le_of_not_lt notSkipped, rfl⟩
      case h_2 =>
        rw [List.append_assoc]
        exact ⟨_, skipped, Nat.le_of_not_lt notSkipped, rfl⟩
  | cons first pre ih =>
      intro ordered cursor skipped covered
      rw [List.cons_append, List.pairwise_cons] at ordered
      have coveredRest (u : Token) (among : u ∈ pre ++ t :: rest) :=
        covered u (List.mem_cons_of_mem _ among)
      have behind (chunks : List Chunk) {cursor skipped : Nat}
          (covered : ∀ u ∈ pre ++ t :: rest, u.start < skipped → e.rewrites.Covers u.start) :
          ∃ front skipped', skipped' ≤ t.start ∧
            chunks ++ e.tokens stop cursor skipped (pre ++ t :: rest) =
              front ++ (e.token t ++ e.tokens stop t.stop skipped' rest) := by
        obtain ⟨front, skipped', before, same⟩ := ih ordered.2 cursor skipped covered
        exact ⟨chunks ++ front, skipped', before, by rw [same, List.append_assoc]⟩
      rw [List.cons_append, Emitter.tokens]
      split
      case isTrue => exact ih ordered.2 cursor skipped coveredRest
      case isFalse =>
        simp only
        split
        case h_1 r found =>
          split
          case isTrue =>
            -- what the rewrite covers may be passed over
            refine behind _ fun u among before => ?_
            exact ⟨first.start, r, found, ordered.1 u among, before⟩
          case isFalse => exact behind _ coveredRest
        case h_2 => exact behind _ coveredRest

theorem infix_tokens {t : Token} (uncovered : ¬ e.rewrites.Covers t.start) (stop : Nat)
    {ts : List Token} (member : t ∈ ts) (ordered : ts.Pairwise fun t u => t.start ≤ u.start)
    (cursor : Nat) : e.token t <:+: e.tokens stop cursor 0 ts := by
  obtain ⟨pre, rest, rfl⟩ := List.append_of_mem member
  obtain ⟨front, _, _, same⟩ := tokens_reach uncovered stop pre rest ordered cursor 0
    fun _ _ before => absurd before (Nat.not_lt_zero _)
  rw [same, ← List.append_assoc]
  exact ⟨front, _, rfl⟩

theorem body_eq (e : Emitter) (b : Body) : e.body b = e.tokens b.stop b.start 0 b.tokens := by
  cases b
  rfl

theorem token_of_leaf (e : Emitter) {t : Token} (leaf : t.shape.isLeaf = true) :
    e.token t = Chunk.copy t.start t.text.toList := by
  obtain ⟨shape, start, stop, text⟩ := t
  cases shape with
  | template parts => exact absurd leaf Bool.false_ne_true
  | jsx element => exact absurd leaf Bool.false_ne_true
  | _ => rfl

theorem infix_token_of_raw {t : Token} {start stop : Nat} (part : (start, stop) ∈ t.shape.raws) :
    Chunk.copy start (slice start stop e.source) <:+: e.token t := by
  obtain ⟨shape, begins, ends, text⟩ := t
  cases shape with
  | template parts =>
      obtain ⟨raw, member, same⟩ := List.mem_filterMap.mp part
      rw [Emitter.token]
      induction parts with
      | nil => exact absurd member List.not_mem_nil
      | cons first rest ih =>
          rcases List.mem_cons.mp member with rfl | member
          · cases raw with
            | subst b => exact absurd same (by simp [TemplatePart.raw?])
            | raw start' stop' =>
                cases same
                rw [Emitter.templateParts]
                exact List.infix_append_of_infix_left (List.infix_refl _)
          · have behind := ih (List.mem_filterMap.mpr ⟨raw, member, same⟩) member
            cases first <;> exact List.infix_append_of_infix_right behind
  | _ => exact absurd part List.not_mem_nil

theorem infix_token_of_written {t : Token} {b : Body} (written : b ∈ t.shape.written) :
    e.body b <:+: e.token t := by
  obtain ⟨shape, begins, ends, text⟩ := t
  cases shape with
  | template parts =>
      obtain ⟨part, member, same⟩ := List.mem_filterMap.mp written
      rw [Emitter.token]
      induction parts with
      | nil => exact absurd member List.not_mem_nil
      | cons first rest ih =>
          rcases List.mem_cons.mp member with rfl | member
          · cases part with
            | raw start stop => exact absurd same (by simp [TemplatePart.body?])
            | subst inner =>
                cases same
                rw [Emitter.templateParts]
                exact List.infix_append_of_infix_left (List.infix_refl _)
          · have behind := ih (List.mem_filterMap.mpr ⟨part, member, same⟩) member
            cases first <;> exact List.infix_append_of_infix_right behind
  | jsx element =>
      rw [Emitter.token]
      exact element.emits e b written
  | _ => exact absurd written List.not_mem_nil

theorem written_subset_bodies (shape : Shape) : shape.written ⊆ shape.bodies := by
  cases shape with
  | jsx element => exact element.written_subset
  | _ => exact List.Subset.refl _

/-! ## What is copied is emitted -/

variable {ts : List Token} {offset : Nat} {text : List Char}

/-- What lies in a covered token is covered. -/
theorem Rewrites.Whole.covers {rs : Rewrites} (whole : rs.Whole ts) {t : Token} (member : t ∈ ts)
    (covers : rs.Covers t.start) {n : Nat} (behind : t.start ≤ n) (before : n < t.stop) :
    rs.Covers n := by
  obtain ⟨start, r, found, first, last⟩ := covers
  obtain ⟨front, back, split, _⟩ := List.lookup_eq_some_iff.mp found
  have entry : (start, r) ∈ rs.entries := split ▸ List.mem_append_right _ (List.mem_cons_self ..)
  have ends : t.stop ≤ r.stop := whole (start, r) entry t (.here member) first last
  exact ⟨start, r, found, Nat.le_trans first behind, Nat.lt_of_lt_of_le before ends⟩

theorem Rewrites.Whole.inside {rs : Rewrites} (whole : rs.Whole ts) {t : Token} {b : Body}
    (member : t ∈ ts) (container : b ∈ t.shape.bodies) : rs.Whole b.tokens :=
  fun e entry u within => whole e entry u (.inside member container within)

theorem Copies.uncovered (copies : Copies e ts offset text) : ¬ e.rewrites.Covers offset := by
  induction copies with
  | token _ uncovered _ => exact uncovered
  | raw _ uncovered _ => exact uncovered
  | inside _ _ _ ih => exact ih

/-- What is copied starts in a token. -/
theorem Copies.starts (copies : Copies e ts offset text) : ∀ {low high : Nat},
    Spanned low high ts → ∃ t ∈ ts, t.start ≤ offset ∧ offset < t.stop := by
  induction copies with
  | @token ts t member _ _ =>
      intro low high ⟨_, grows, _, _, _⟩
      exact ⟨t, member, Nat.le_refl _, grows t member⟩
  | @raw ts t start stop member _ part =>
      intro low high ⟨_, _, raws, _, _⟩
      exact ⟨t, member, raws t member _ part⟩
  | @inside ts t b offset text member written _ ih =>
      intro low high spanned
      have container := written_subset_bodies _ written
      obtain ⟨u, among, begins, ends⟩ := ih (spanned.container member container)
      obtain ⟨starts, stops⟩ := spanned.within_token member container (.here among)
      exact ⟨t, member, by omega, by omega⟩

/-- What is copied from tokens that stand in a source is emitted as a copy. -/
theorem Copies.emitted {source : List Char} (copies : Copies e ts offset text) :
    ∀ {low high : Nat}, Laid source ts → Spanned low high ts → e.rewrites.Whole ts →
      ∀ stop cursor, Chunk.copy offset text <:+: e.tokens stop cursor 0 ts := by
  induction copies with
  | @token ts t member uncovered leaf =>
      intro low high ⟨ordered, _, _, _⟩ spanned whole stop cursor
      rw [← token_of_leaf e leaf]
      exact infix_tokens uncovered stop member ordered cursor
  | @raw ts t start _ member uncovered part =>
      intro low high ⟨ordered, _, _, _⟩ spanned whole stop cursor
      have inside : t.start ≤ start ∧ start < t.stop := by
        obtain ⟨_, _, raws, _, _⟩ := spanned
        exact raws t member _ part
      have kept : ¬ e.rewrites.Covers t.start :=
        fun covers => uncovered (whole.covers member covers inside.1 inside.2)
      exact (infix_token_of_raw part).trans
        (infix_tokens kept stop member ordered cursor)
  | @inside ts t b offset text member written copies ih =>
      intro low high ⟨ordered, _, _, nested⟩ spanned whole stop cursor
      have container := written_subset_bodies _ written
      have spans := spanned.container member container
      have kept : ¬ e.rewrites.Covers t.start := by
        intro covers
        obtain ⟨u, among, begins, ends⟩ := copies.starts spans
        obtain ⟨starts, stops⟩ := spanned.within_token member container (.here among)
        exact copies.uncovered (whole.covers member covers (by omega) (by omega))
      have within := ih (nested t member b container) spans (whole.inside member container) b.stop
        b.start
      rw [← body_eq] at within
      exact (within.trans (infix_token_of_written written)).trans
        (infix_tokens kept stop member ordered cursor)

/-- What is copied stands in the source. -/
theorem Copies.stands (copies : Copies e ts offset text) :
    Laid e.source ts → Stands e.source offset text := by
  induction copies with
  | @token ts t member _ _ =>
      intro ⟨_, stands, _, _⟩
      exact stands t member
  | @raw ts t start stop member _ part =>
      intro ⟨_, _, raws, _⟩
      exact raws t member _ part
  | @inside ts t b offset text member written _ ih =>
      intro ⟨_, _, _, nested⟩
      exact ih (nested t member b (written_subset_bodies _ written))

end Tokens

end JsxPreview.Source
