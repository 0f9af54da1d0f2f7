import JsxPreview.Proofs.Analysis.Edits
import JsxPreview.Proofs.Scanner.Spans
import JsxPreview.Source.Module

/-! # Rewrites cut no token

A rewrite ends where a token ends, or with the source.  Spans nest, so a token that starts in what is
replaced lies in it (`analyze_whole`): what declarations replace ends with a token at the top level,
and what a use replaces lies with its tokens in one container. -/
set_option autoImplicit false
namespace JsxPreview.Source

open JsxPreview.Text

/-! ## Where uses are -/

mutual

theorem Element.usages_eq : (element : Element) →
    element.usages = element.bodies.flatMap Body.usages
  | ⟨_, _, _, attributes, children⟩ => by
      rw [Element.usages, Element.bodies, List.flatMap_append, Attribute.usagesAll_eq attributes,
        Child.usagesAll_eq children]

theorem Attribute.usagesAll_eq : (attributes : List Attribute) →
    Attribute.usagesAll attributes = (Attribute.bodiesAll attributes).flatMap Body.usages
  | [] => rfl
  | .spread b :: rest => by
      rw [Attribute.usagesAll, Attribute.bodiesAll, List.flatMap_append,
        Attribute.usagesAll_eq rest]
      exact congrArg (· ++ _) (List.append_nil _).symm
  | .named _ _ value :: rest => by
      rw [Attribute.usagesAll, Attribute.bodiesAll, List.flatMap_append,
        Attribute.usagesAll_eq rest]
      exact congrArg (· ++ _) (AttributeValue.usages_eq value)

theorem AttributeValue.usages_eq : (value : AttributeValue) →
    value.usages = value.bodies.flatMap Body.usages
  | .expr _ => (List.append_nil _).symm
  | .element el => Element.usages_eq el
  | .bare => rfl
  | .str _ _ => rfl

theorem Child.usagesAll_eq : (children : List Child) →
    Child.usagesAll children = (Child.bodiesAll children).flatMap Body.usages
  | [] => rfl
  | .text _ _ :: rest => by
      rw [Child.usagesAll, Child.bodiesAll, List.flatMap_append, Child.usagesAll_eq rest]
      rfl
  | .expr b :: rest => by
      rw [Child.usagesAll, Child.bodiesAll, List.flatMap_append, Child.usagesAll_eq rest]
      exact congrArg (· ++ _) (List.append_nil _).symm
  | .element el :: rest => by
      rw [Child.usagesAll, Child.bodiesAll, List.flatMap_append, Child.usagesAll_eq rest]
      exact congrArg (· ++ _) (Element.usages_eq el)

end

theorem TemplatePart.usagesAll_eq (parts : List TemplatePart) :
    TemplatePart.usagesAll parts = (Shape.template parts).bodies.flatMap Body.usages := by
  induction parts with
  | nil => rfl
  | cons part rest ih =>
      cases part with
      | raw start stop => exact ih
      | subst b => exact congrArg (b.usages ++ ·) ih

/-- What a use replaces. -/
def Usage.span? : Usage → Option (Nat × Nat)
  | .requireCall _ start stop | .dynamicImport _ _ start stop | .importMeta start stop =>
      some (start, stop)
  | .element => none

variable {ts : List Token} {u : Usage} {start stop : Nat}

/-- What the use of a word replaces starts with a token and ends with one. -/
theorem Token.span_usage {t : Token} {following : List Token} (member : u ∈ t.usage following)
    (span : u.span? = some (start, stop)) :
    (∃ v ∈ t :: following, v.start = start) ∧ ∃ v ∈ t :: following, v.stop = stop := by
  unfold Token.usage at member
  split at member
  case h_1 open_ literal close rest =>
    split at member
    · split at member
      · cases List.mem_singleton.mp member
        cases span
        exact ⟨⟨literal, by simp, rfl⟩, literal, by simp, rfl⟩
      · split at member
        · cases List.mem_singleton.mp member
          cases span
          exact ⟨⟨t, by simp, rfl⟩, close, by simp, rfl⟩
        · exact absurd member List.not_mem_nil
    · split at member
      · cases List.mem_singleton.mp member
        cases span
        exact ⟨⟨t, by simp, rfl⟩, literal, by simp, rfl⟩
      · exact absurd member List.not_mem_nil
  case h_2 dot word =>
    split at member
    · cases List.mem_singleton.mp member
      cases span
      exact ⟨⟨t, by simp, rfl⟩, word, by simp, rfl⟩
    · exact absurd member List.not_mem_nil
  case h_3 => exact absurd member List.not_mem_nil

theorem mem_usages_body {bs : List Body} (member : u ∈ bs.flatMap Body.usages) :
    ∃ b ∈ bs, u ∈ Token.usagesAll false b.tokens := by
  obtain ⟨⟨start, stop, tokens⟩, among, inside⟩ := List.mem_flatMap.mp member
  exact ⟨_, among, inside⟩

/-- A use is that of a word among tokens, or in a container of one of them. -/
theorem Token.usagesAll_cases {afterDot : Bool} (member : u ∈ Token.usagesAll afterDot ts)
    (span : u.span? = some (start, stop)) :
    (∃ front t rest, ts = front ++ t :: rest ∧ t.isWord = true ∧
        u ∈ t.usage (rest.filter (!·.isComment))) ∨
      ∃ t ∈ ts, ∃ b ∈ t.shape.bodies, u ∈ Token.usagesAll false b.tokens := by
  induction ts generalizing afterDot with
  | nil => exact absurd member List.not_mem_nil
  | cons t rest ih =>
      have later {afterDot : Bool} (member : u ∈ Token.usagesAll afterDot rest) :
          (∃ front t' rest', t :: rest = front ++ t' :: rest' ∧ t'.isWord = true ∧
              u ∈ t'.usage (rest'.filter (!·.isComment))) ∨
            ∃ t' ∈ t :: rest, ∃ b ∈ t'.shape.bodies, u ∈ Token.usagesAll false b.tokens := by
        rcases ih member with ⟨front, t', rest', rfl, here⟩ | ⟨t', among, inside⟩
        · exact .inl ⟨t :: front, t', rest', rfl, here⟩
        · exact .inr ⟨t', List.mem_cons_of_mem _ among, inside⟩
      rw [Token.usagesAll] at member
      split at member
      · exact later member
      rcases List.mem_append.mp member with member | member
      · obtain ⟨shape, begins, ends, text⟩ := t
        cases shape with
        | word =>
            rw [Token.usages] at member
            split at member
            · exact absurd member List.not_mem_nil
            · exact .inl ⟨[], _, rest, rfl, rfl, member⟩
        | template parts =>
            rw [Token.usages, TemplatePart.usagesAll_eq] at member
            exact .inr ⟨_, List.mem_cons_self .., mem_usages_body member⟩
        | jsx element =>
            rw [Token.usages, Element.usages_eq] at member
            rcases List.mem_cons.mp member with rfl | member
            · exact absurd span (by simp [Usage.span?])
            · exact .inr ⟨_, List.mem_cons_self .., mem_usages_body member⟩
        | _ => exact absurd member List.not_mem_nil
      · exact later member

/-- What a use replaces lies between the two ends of the tokens and is whole. -/
theorem Spanned.whole_usage {low high : Nat} (spanned : Spanned low high ts)
    {afterDot : Bool} (member : u ∈ Token.usagesAll afterDot ts)
    (span : u.span? = some (start, stop)) :
    low ≤ start ∧ stop ≤ high ∧ Whole ts start stop := by
  induction spanned generalizing afterDot with
  | @intro low high ts follow grows raws bodies inside ih =>
      have whole : Spanned low high ts := .intro follow grows raws bodies inside
      rcases Token.usagesAll_cases member span with
        ⟨front, t, rest, split, _, here⟩ | ⟨t, among, b, container, here⟩
      · obtain ⟨⟨v, first, begins⟩, w, last, ends⟩ := Token.span_usage here span
        have own : t :: rest.filter (!·.isComment) ⊆ ts := by
          rw [split]
          exact List.subset_append_of_subset_right _ (List.cons_subset_cons _ List.filter_sublist.subset)
        rw [← begins, ← ends]
        exact ⟨(follow.of_mem (own first)).1, (follow.of_mem (own last)).2.2,
          whole.whole_of_mem (own last) _⟩
      · obtain ⟨begins, ends, within⟩ := ih t among b container here
        obtain ⟨after, _, before⟩ := (bodies t among).of_mem container
        obtain ⟨low_le, _, le_high⟩ := follow.of_mem among
        simp only [Body.span, Token.span] at *
        exact ⟨by omega, by omega, whole.whole_of_inside among container within begins ends⟩

/-! ## Rewrites -/

/-- What is replaced is whole. -/
def Rewrites.Whole (ts : List Token) (rs : Rewrites) : Prop :=
  ∀ e ∈ rs.entries, Source.Whole ts e.1 e.2.stop

namespace Analysis

variable {a a' : Analysis}

theorem whole_rewrite (whole : a.rewrites.Whole ts) (span : Source.Whole ts start stop)
    (pieces : List Piece) : (a.rewrite start stop pieces).rewrites.Whole ts := by
  intro e entry
  rcases Rewrites.mem_insert entry with rfl | entry
  · exact span
  · exact whole e entry

/-- What ends with a token of the row or with the source is whole. -/
theorem whole_stop {source : List Char} (spanned : Spanned 0 (byteLength source) ts)
    (start last : Nat) : Source.Whole ts start ((TokenRow.ofTokens source ts).stop last) := by
  unfold TokenRow.stop
  cases found : (TokenRow.ofTokens source ts).get? last with
  | none => exact spanned.whole_end start
  | some t =>
      have among : t ∈ (ts.filter (!·.isComment)).toArray := Array.mem_of_getElem? found
      exact spanned.whole_of_mem (List.mem_filter.mp (List.mem_toArray.mp among)).1 start

theorem whole_edit {source : List Char} (spanned : Spanned 0 (byteLength source) ts)
    (edit : Edit (TokenRow.ofTokens source ts) a a') (whole : a.rewrites.Whole ts) :
    a'.rewrites.Whole ts := by
  cases edit with
  | load => exact whole_rewrite whole (whole_stop spanned _ _) _
  | replace => exact whole_rewrite whole (whole_stop spanned _ _) _
  | insert place =>
      refine whole_rewrite whole ?_ _
      intro t _ behind before
      omega
  | note _ rewrites _ =>
      rw [rewrites]
      exact whole

theorem whole_addUsage (whole : a.rewrites.Whole ts)
    (span : ∀ start stop, u.span? = some (start, stop) → Source.Whole ts start stop) :
    (a.addUsage u).rewrites.Whole ts := by
  cases u with
  | element => exact whole
  | _ => exact whole_rewrite whole (span _ _ rfl) _

/-- What every use keeps holds behind uses. -/
theorem addUsages_keep {P : Analysis → Prop} {us : List Usage}
    (kept : ∀ u ∈ us, ∀ {a : Analysis}, P a → P (a.addUsage u)) (holds : P a) :
    P (us.foldl Analysis.addUsage a) := by
  induction us generalizing a with
  | nil => exact holds
  | cons u us ih =>
      rw [List.forall_mem_cons] at kept
      exact ih kept.2 (kept.1 holds)

theorem rewrites_withHeader (a : Analysis) (o : HeaderOptions) :
    (a.withHeader o).rewrites = a.rewrites := by
  have noted (a : Analysis) : (a.withMeta o).rewrites = a.rewrites := by
    unfold withMeta
    split <;> rfl
  have made (a : Analysis) : (a.withFactory o).rewrites = a.rewrites := by
    unfold withFactory
    split <;> rfl
  have rendered (a : Analysis) : (a.withRenderer o).rewrites = a.rewrites := by
    unfold withRenderer
    split
    · rfl
    · split <;> rfl
  have offered (a : Analysis) : a.withGetters.rewrites = a.rewrites := by
    unfold withGetters
    split <;> rfl
  rw [withHeader, offered, rendered, made, noted]

end Analysis

/-- No rewrite of an analysis cuts a token. -/
theorem analyze_whole {source : List Char} {o : HeaderOptions} {a : Analysis}
    (success : analyze source ts o = .ok a) (spanned : Spanned 0 (byteLength source) ts) :
    a.rewrites.Whole ts := by
  unfold analyze at success
  obtain ⟨declared, declares, success⟩ := ok_of_bind success
  cases ok_of_pure success
  have nothing : ({} : Analysis).rewrites.Whole ts := fun _ entry => absurd entry List.not_mem_nil
  have read := (Analysis.declarations_edits declares).keep
    (P := fun a => a.rewrites.Whole ts) (Analysis.whole_edit spanned) nothing
  rw [Analysis.rewrites_withHeader]
  refine Analysis.addUsages_keep (P := fun a => a.rewrites.Whole ts)
    (fun u member _ whole => Analysis.whole_addUsage whole fun start stop span => ?_) read
  exact (spanned.whole_usage member span).2.2

end JsxPreview.Source
