import JsxPreview.Proofs.Scanner.Shift
import JsxPreview.Proofs.TypeErasure

/-! # Cursors of erased texts

An erased text has the places of its source, so the scan of the one goes along the scan of the other
(`Cursor.erased`).  Where nothing is blanked a cursor moves in the erased text as in the source, and what
an element goes on with is the same. -/
set_option autoImplicit false
namespace JsxPreview.Source

open JsxPreview.Text

variable {spans : List Span} {low high n : Nat}

/-- Nothing is blanked between two bytes. -/
def Clear (spans : List Span) (low high : Nat) : Prop :=
  ∀ n, low ≤ n → n < high → Erasure.holds spans n = false

theorem Clear.mono {low' high' : Nat} (clear : Clear spans low high) (lower : low ≤ low') (higher : high' ≤ high) :
    Clear spans low' high' :=
  fun n behind before => clear n (Nat.le_trans lower behind) (Nat.lt_of_lt_of_le before higher)

namespace Erasure

/-- What is blanked agrees with the source up to its first blank. -/
theorem alike_imageOf (spans : List Span) (n : Nat) : (s : List Char) → Alike s (imageOf spans n s)
  | [] => .nil
  | c :: s => by
      rw [imageOf, image]
      split
      case isFalse => exact .keep c (alike_imageOf spans _ s)
      case isTrue =>
        obtain ⟨size, _, blank⟩ := blankFor_measures c
        cases made : blankFor c with
        | nil =>
            rw [made, byteLength_nil] at size
            exact absurd c.utf8Size_pos (by omega)
        | cons x t =>
            have isBlank := (blank x (made ▸ List.mem_cons_self ..)).1
            exact .parts _ _ (by simp [isParting, isBlank])

/-- Characters that end lines are not blanked. -/
theorem endsLine_imageOf {s : List Char} (ends : EndsLine s) (n : Nat) : EndsLine (imageOf spans n s) := by
  cases s with
  | nil => exact ends
  | cons c s =>
      have isEnd := ends c rfl
      have kept : endsLine c = true := by
        simp only [isLineEnd, Bool.or_eq_true, beq_iff_eq] at isEnd
        rcases isEnd with rfl | rfl <;> decide
      rw [imageOf, image, kept, Bool.not_true, Bool.and_false, if_neg Bool.false_ne_true]
      intro x head
      cases head
      exact isEnd

theorem isGap_imageOf_gap {s : List Char} (gap : isGap s = true) (n : Nat) :
    isGap (imageOf spans n s) = true := by
  induction s generalizing n with
  | nil => rfl
  | cons c s ih =>
      rw [isGap, List.all_cons, Bool.and_eq_true] at gap
      rw [imageOf, isGap, List.all_append, Bool.and_eq_true]
      exact ⟨isGap_image (.inl gap.1), ih gap.2 _⟩

end Erasure

/-! ## Moves -/

namespace Cursor

/-- The cursor at the same place of the erased text. -/
def erased (spans : List Span) (c : Cursor) : Cursor := ⟨c.pos, Erasure.imageOf spans c.pos c.rest⟩

variable {c d : Cursor}

theorem erased_of_leads (spans : List Span) (leads : c.Leads d) : ∃ s, c.rest = s ++ d.rest ∧ d.pos = c.pos + byteLength s ∧
    (c.erased spans).rest = Erasure.imageOf spans c.pos s ++ (d.erased spans).rest := by
  obtain ⟨s, split, pos⟩ := leads
  refine ⟨s, split, pos, ?_⟩
  rw [erased, erased, split, Erasure.imageOf_append, pos]

/-- Where nothing is blanked the erased text goes on as the source. -/
theorem erased_of_clear (leads : c.Leads d) (clear : Clear spans c.pos d.pos) :
    ∃ s, c.rest = s ++ d.rest ∧ d.pos = c.pos + byteLength s ∧
      c.erased spans = ⟨c.pos, s ++ (d.erased spans).rest⟩ := by
  obtain ⟨s, split, pos, image⟩ := erased_of_leads spans leads
  rw [Erasure.imageOf_outside (pos ▸ clear)] at image
  exact ⟨s, split, pos, congrArg (Cursor.mk c.pos) image⟩

theorem head_erased {x : Char} {s : List Char} (ahead : c.rest = x :: s)
    (kept : Erasure.holds spans c.pos = false) :
    (c.erased spans).rest = x :: Erasure.imageOf spans (c.pos + x.utf8Size) s := by
  rw [erased, ahead, Erasure.imageOf, Erasure.image, kept]
  rfl

theorem head?_erased (kept : Erasure.holds spans c.pos = false) :
    (c.erased spans).rest.head? = c.rest.head? := by
  cases ahead : c.rest with
  | nil => rw [erased, ahead]; rfl
  | cons x s => rw [head_erased ahead kept]; rfl

/-- What does not start with a character that is no white space does not do so when it is erased. -/
theorem head_erased_ne {x : Char} (ink : isParting x = false) (other : c.rest.head? ≠ some x) :
    (c.erased spans).rest.head? ≠ some x := by
  rcases (Erasure.alike_imageOf spans c.pos c.rest).head_cases with same | ⟨y, head, parting⟩
  · rwa [erased, same]
  · rw [erased, head]
    rintro ⟨⟩
    exact Bool.false_ne_true (ink.symm.trans parting)

theorem past_erased {s : List Char} (front : s <+: c.rest) (clear : Clear spans c.pos (c.past s).pos) :
    (c.erased spans).past s = (c.past s).erased spans ∧ s <+: (c.erased spans).rest := by
  obtain ⟨rest, whole⟩ := front
  have behind := past_of_append whole
  have leads : c.Leads ⟨c.pos + byteLength s, rest⟩ := ⟨s, whole.symm, rfl⟩
  rw [behind] at clear ⊢
  obtain ⟨s', split, length, image⟩ := erased_of_clear leads clear
  rw [← whole] at split
  cases List.append_cancel_right split
  rw [image]
  exact ⟨past_append .., List.prefix_append _ _⟩

theorem skip_erased {n : Nat} (inside : n ≤ c.rest.length) (clear : Clear spans c.pos (c.skip n).pos) :
    (c.erased spans).skip n = (c.skip n).erased spans := by
  have length : (c.rest.take n).length = n := List.length_take_of_le inside
  have moved := (past_erased (s := c.rest.take n) (List.take_prefix n _) (by rwa [past, length])).1
  rwa [past, past, length] at moved

/-- Characters of a kind are skipped in the erased text as well, when they are not blanked. -/
theorem skipWhile_erased {p : Char → Bool} (clear : Clear spans c.pos (c.skipWhile p).pos)
    (stop : ∀ x, ((c.skipWhile p).erased spans).rest.head? = some x → p x = false) :
    (c.erased spans).skipWhile p = (c.skipWhile p).erased spans := by
  obtain ⟨s, split, pos, inside, _⟩ := c.skipWhile_split p
  obtain ⟨s', split', _, image⟩ := erased_of_clear (c.leads_skipWhile p) clear
  cases List.append_cancel_right (split.symm.trans split')
  rw [image, skipWhile_append c.pos inside stop, ← pos]
  rfl

/-- The characters of a name end where the name does. -/
theorem skipName_erased {p : Char → Bool} (clear : Clear spans c.pos (c.skipWhile p).pos)
    (table : (']' :: foreignStarts).all (fun c => !(p c && isParting c)) = true) :
    (c.erased spans).skipWhile p = (c.skipWhile p).erased spans := by
  refine skipWhile_erased clear ((Erasure.alike_imageOf _ _ _).stops table fun x head => ?_)
  obtain ⟨_, _, _, _, stop⟩ := c.skipWhile_split p
  exact stop x head

theorem skipBlank_of_gap {s rest : List Char} (gap : isGap s = true) (split : c.rest = s ++ rest) :
    c.skipBlank = (⟨c.pos + byteLength s, rest⟩ : Cursor).skipBlank := by
  obtain ⟨pos, text⟩ := c
  subst split
  exact skipBlank_append pos gap rest

/-- White space stays white space. -/
theorem skipBlank_erased (c : Cursor) : (c.erased spans).skipBlank = (c.skipBlank.erased spans).skipBlank := by
  obtain ⟨s, split, pos, blank, _⟩ := c.skipWhile_split fun x => isBlank x || x == '\ufeff'
  obtain ⟨s', split', pos', image⟩ := erased_of_leads spans c.leads_skipBlank
  cases List.append_cancel_right (split.symm.trans split')
  have gap : isGap s = true := List.all_eq_true.mpr blank
  rw [skipBlank_of_gap (Erasure.isGap_imageOf_gap gap c.pos) image, Erasure.byteLength_imageOf]
  exact congrArg (fun n => (⟨n, (c.skipBlank.erased spans).rest⟩ : Cursor).skipBlank) pos.symm

theorem skipBlank_erased_of_end (ended : c.skipBlank.rest = []) :
    (c.erased spans).skipBlank = c.skipBlank.erased spans := by
  have nothing : (c.skipBlank.erased spans).rest = [] := by rw [erased, ended]; rfl
  rw [skipBlank_erased, skipBlank, skipWhile, past, nothing]
  simp [skip, erased]

/-- White space ends where something is that is not blanked. -/
theorem skipBlank_erased_of_kept (kept : Erasure.holds spans c.skipBlank.pos = false) :
    (c.erased spans).skipBlank = c.skipBlank.erased spans := by
  cases ahead : c.skipBlank.rest with
  | nil => exact skipBlank_erased_of_end ahead
  | cons x s =>
      rw [skipBlank_erased]
      refine skipWhile_of_stop (head_erased ahead kept) ?_
      obtain ⟨_, _, _, _, stop⟩ := c.skipWhile_split fun x => isBlank x || x == '\ufeff'
      exact stop x (by rw [← skipBlank, ahead]; rfl)

theorem upTo_erased (leads : c.Leads d) : (c.erased spans).upTo (d.erased spans) =
    String.ofList (Erasure.imageOf spans c.pos (c.upTo d).toList) := by
  obtain ⟨s, split, pos, image⟩ := erased_of_leads spans leads
  have text : (c.upTo d).toList = s := toList_upTo split pos
  have length : (d.erased spans).pos - (c.erased spans).pos =
      byteLength (Erasure.imageOf spans c.pos s) := by
    rw [Erasure.byteLength_imageOf, erased, erased, pos, Nat.add_sub_cancel_left]
  rw [text, upTo, length, image, takeBytes_byteLength]

theorem upTo_erased_of_clear (leads : c.Leads d) (clear : Clear spans c.pos d.pos) :
    (c.erased spans).upTo (d.erased spans) = c.upTo d := by
  rw [upTo_erased leads]
  obtain ⟨s, split, pos⟩ := leads
  have text : (c.upTo d).toList = s := toList_upTo split pos
  rw [text, Erasure.imageOf_outside (pos ▸ clear), ← text, String.ofList_toList]

/-- A character in front of what is not blanked is left. -/
theorem skip_one_erased (some : c.rest ≠ []) (clear : Clear spans c.pos (c.skip 1).pos) :
    (c.erased spans).skip 1 = (c.skip 1).erased spans :=
  skip_erased (List.length_pos_iff.mpr some) clear

end Cursor

/-! ## What an element goes on with -/

section

variable (spans : List Span)

def TagStart.erased : TagStart → TagStart
  | .fragment inner => .fragment (inner.erased spans)
  | .named name after => .named name (after.erased spans)

def TagPart.erased : TagPart → TagPart
  | .stop closed after => .stop closed (after.erased spans)
  | .spread inner => .spread (inner.erased spans)
  | .name start after => .name (start.erased spans) (after.erased spans)

def ValueStart.erased : ValueStart → ValueStart
  | .bare after => .bare (after.erased spans)
  | .str value start after => .str value start (after.erased spans)
  | .expr inner => .expr (inner.erased spans)
  | .element start => .element (start.erased spans)

def ChildStart.erased : ChildStart → ChildStart
  | .expr inner => .expr (inner.erased spans)
  | .element start => .element (start.erased spans)
  | .stop after => .stop (after.erased spans)

end

/-! Each of these reads up to some byte (`reach`). -/

def TagStart.reach : TagStart → Nat
  | .fragment after | .named _ after => after.pos

def TagPart.reach : TagPart → Nat
  | .stop _ after | .spread after | .name _ after => after.pos

def ValueStart.reach : ValueStart → Nat
  | .bare after | .str _ _ after | .expr after => after.pos
  | .element start => start.pos + 1

def ChildStart.reach : ChildStart → Nat
  | .expr after | .stop after => after.pos
  | .element start => (start.skip 1).skipBlank.pos + 1

theorem tagStart_erased {c : Cursor} {start : TagStart} (here : tagStart c = .ok start)
    (clear : Clear spans c.pos start.reach) : tagStart (c.erased spans) = .ok (start.erased spans) := by
  have some := tagStart_ink here
  have whole : c.rest ≠ [] := ((c.leads_skip 1).trans (Cursor.leads_skipBlank _)).ne_nil some
  have begins : c.pos ≤ (c.skip 1).pos := (c.leads_skip 1).pos_le
  have grows : (c.skip 1).pos ≤ (c.skip 1).skipBlank.pos := (Cursor.leads_skipBlank _).pos_le
  have moved (reaches : (c.skip 1).skipBlank.pos < start.reach) :
      ((c.erased spans).skip 1).skipBlank = (c.skip 1).skipBlank.erased spans ∧
        ((c.skip 1).skipBlank.erased spans).rest.head? = (c.skip 1).skipBlank.rest.head? := by
    have kept := clear _ (by omega) reaches
    rw [Cursor.skip_one_erased whole (clear.mono (Nat.le_refl _) (by omega)),
      Cursor.skipBlank_erased_of_kept kept]
    exact ⟨rfl, Cursor.head?_erased kept⟩
  unfold tagStart at here ⊢
  simp only at here ⊢
  split at here
  case isTrue bracket =>
    cases here
    have reaches := (Cursor.passes_skip Nat.one_pos some).pos_lt
    obtain ⟨inner, head⟩ := moved reaches
    rw [inner, head, if_pos bracket, Cursor.skip_one_erased some (clear.mono (by omega) (Nat.le_refl _))]
    rfl
  case isFalse bracket =>
    split at here
    case isTrue => exact absurd here Cursor.fail_ne_ok
    case isFalse named =>
      cases here
      have leads := Cursor.leads_skipWhile (c.skip 1).skipBlank isTagNamePart
      have reaches := (leads.passes_of_ne (by simpa using named)).pos_lt
      have clear' := clear.mono (show c.pos ≤ (c.skip 1).skipBlank.pos by omega) (Nat.le_refl _)
      obtain ⟨inner, head⟩ := moved reaches
      rw [inner, head, if_neg bracket, Cursor.skipName_erased clear' (by decide +kernel),
        Cursor.upTo_erased_of_clear leads clear']
      exact if_neg named

theorem tagPart_erased {before : Cursor} {part : TagPart} (here : tagPart before = .ok part)
    (clear : Clear spans before.pos part.reach) (kept : Erasure.holds spans before.skipBlank.pos = false) :
    tagPart (before.erased spans) = .ok (part.erased spans) := by
  have begins : before.pos ≤ before.skipBlank.pos := before.leads_skipBlank.pos_le
  have clear' := clear.mono begins (Nat.le_refl _)
  unfold tagPart at here ⊢
  simp only at here ⊢
  rw [Cursor.skipBlank_erased_of_kept kept]
  split at here
  case h_1 => exact absurd here Cursor.fail_ne_ok
  case h_2 x s ahead =>
    have some : before.skipBlank.rest ≠ [] := by simp [ahead]
    simp only [Cursor.head_erased ahead kept]
    split at here
    case isTrue slash =>
      rw [if_pos slash]
      split at here
      case isFalse => exact absurd here Cursor.fail_ne_ok
      case isTrue bracket =>
        cases here
        cases eq_of_beq slash
        obtain ⟨t, rfl⟩ : ∃ t, s = '>' :: t := ⟨_, (List.cons_head?_tail (eq_of_beq bracket)).symm⟩
        obtain ⟨moved, front⟩ := Cursor.past_erased (s := ['/', '>']) ⟨t, ahead.symm⟩ clear'
        rw [Cursor.head_erased ahead kept] at front
        obtain ⟨u, image⟩ := (List.cons_prefix_cons.mp front).2
        rw [← image]
        exact congrArg (fun after => Except.ok (TagPart.stop true after)) moved
    case isFalse slash =>
      rw [if_neg slash]
      split at here
      case isTrue bracket =>
        cases here
        rw [if_pos bracket, Cursor.skip_one_erased some clear']
        rfl
      case isFalse bracket =>
        rw [if_neg bracket]
        split at here
        case isTrue brace =>
          rw [if_pos brace]
          split at here
          case isFalse => exact absurd here Cursor.fail_ne_ok
          case isTrue dots =>
            cases here
            have front := List.isPrefixOf_iff_prefix.mp dots
            have some' : (before.skipBlank.skip 1).skipBlank.rest ≠ [] := by
              obtain ⟨t, whole⟩ := front
              simp [← whole]
            have opens : before.skipBlank.pos < (before.skipBlank.skip 1).pos :=
              (Cursor.passes_skip Nat.one_pos some).pos_lt
            have grows := (before.skipBlank.skip 1).leads_skipBlank.pos_le
            have ends : (before.skipBlank.skip 1).skipBlank.pos <
                ((before.skipBlank.skip 1).skipBlank.skip 3).pos :=
              (Cursor.passes_skip (by decide) some').pos_lt
            have inner := Cursor.skipBlank_erased_of_kept (clear' _ (by omega) ends)
            obtain ⟨moved, front⟩ := Cursor.past_erased front (clear'.mono (by omega) (Nat.le_refl _))
            rw [Cursor.skip_one_erased some (clear'.mono (Nat.le_refl _) (Nat.le_of_lt (by
              exact Nat.lt_of_le_of_lt grows ends))), inner,
              if_pos (List.isPrefixOf_iff_prefix.mpr front)]
            exact congrArg (fun after => Except.ok (TagPart.spread after)) moved
        case isFalse brace =>
          rw [if_neg brace]
          split at here
          case isFalse => exact absurd here Cursor.fail_ne_ok
          case isTrue starts =>
            cases here
            rw [if_pos starts, Cursor.skipName_erased clear' (by decide +kernel)]
            rfl

/-- Characters of a kind in front of another one that is not blanked. -/
theorem Erasure.takeWhile_imageOf {p : Char → Bool} {s t : List Char} {y : Char}
    (split : s = s.takeWhile p ++ y :: t) (stop : p y = false)
    (clear : Clear spans n (n + byteLength (s.takeWhile p) + 1)) :
    ∃ u, imageOf spans n s = s.takeWhile p ++ y :: u ∧ (imageOf spans n s).takeWhile p = s.takeWhile p := by
  have kept : holds spans (n + byteLength (s.takeWhile p)) = false := clear _ (by omega) (by omega)
  have image : imageOf spans n s = s.takeWhile p ++
      y :: imageOf spans (n + byteLength (s.takeWhile p) + y.utf8Size) t := by
    conv => lhs; rw [split]
    rw [imageOf_append, imageOf_outside (clear.mono (Nat.le_refl _) (Nat.le_succ _)), imageOf,
      Erasure.image, kept]
    rfl
  refine ⟨_, image, ?_⟩
  rw [image, List.takeWhile_append_of_pos fun x => List.all_eq_true.mp List.all_takeWhile x,
    List.takeWhile_cons, stop]
  exact List.append_nil _

theorem valueStart_erased {before : Cursor} {start : ValueStart} (here : valueStart before = .ok start)
    (clear : Clear spans before.pos start.reach) :
    valueStart (before.erased spans) = .ok (start.erased spans) := by
  unfold valueStart at here ⊢
  split at here
  case isTrue bare =>
    cases here
    have other : before.rest.head? ≠ some '=' := by simpa using bare
    exact if_pos (by simpa using Cursor.head_erased_ne (by decide) other)
  case isFalse equals =>
    have equals : before.rest.head? = some '=' := by simpa using equals
    have some : before.rest ≠ [] := ne_nil_of_head? (beq_iff_eq.mpr equals)
    have opens : before.pos < (before.skip 1).pos := (Cursor.passes_skip Nat.one_pos some).pos_lt
    have grows := (before.skip 1).leads_skipBlank.pos_le
    -- the value starts behind the white space, at a byte that is left
    have moved (reaches : (before.skip 1).skipBlank.pos < start.reach) :
        (before.erased spans).rest.head? = before.rest.head? ∧
          ((before.erased spans).skip 1).skipBlank = (before.skip 1).skipBlank.erased spans ∧
          Erasure.holds spans (before.skip 1).skipBlank.pos = false := by
      have kept := clear _ (by omega) reaches
      rw [Cursor.skip_one_erased some (clear.mono (Nat.le_refl _) (by omega)),
        Cursor.skipBlank_erased_of_kept kept]
      exact ⟨Cursor.head?_erased (clear _ (Nat.le_refl _) (by omega)), rfl, kept⟩
    simp only at here ⊢
    split at here
    case h_1 => exact absurd here Cursor.fail_ne_ok
    case h_2 x s ahead =>
      have some' : (before.skip 1).skipBlank.rest ≠ [] := by simp [ahead]
      split at here
      case isTrue quote =>
        split at here
        case isFalse => exact absurd here Cursor.fail_ne_ok
        case isTrue closed =>
          cases here
          obtain ⟨head, inner, kept⟩ := moved (Cursor.passes_skip (by omega) some').pos_lt
          obtain ⟨y, t, split, stop⟩ := takeWhile_split closed
          have same : y = x := by simpa using stop
          subst same
          have whole : y :: (s.takeWhile (· != y) ++ [y]) ++ t = (before.skip 1).skipBlank.rest := by
            rw [ahead, List.cons_append, List.append_assoc, List.singleton_append, ← split]
          have ends : (before.skip 1).skipBlank.past (y :: (s.takeWhile (· != y) ++ [y])) =
              (before.skip 1).skipBlank.skip ((s.takeWhile (· != y)).length + 2) := by
            rw [Cursor.past, List.length_cons, List.length_append, List.length_singleton]
          have clear := clear.mono (Nat.le_trans (Nat.le_of_lt opens) grows) (Nat.le_refl _)
          change Clear spans _ (Cursor.skip _ _).pos at clear
          have after := (Cursor.past_erased ⟨t, whole⟩ (ends ▸ clear)).1
          rw [ends, Cursor.past, List.length_cons, List.length_append, List.length_singleton] at after
          rw [← ends, Cursor.past_of_append whole] at clear
          have size := y.utf8Size_pos
          obtain ⟨u, image, raw⟩ := Erasure.takeWhile_imageOf split stop
            (clear.mono (Nat.le_add_right _ y.utf8Size) (by
              simp only [byteLength_cons, byteLength_append, byteLength_nil]
              omega))
          rw [head, if_neg (by simp [equals]), inner]
          simp only [Cursor.head_erased ahead kept]
          rw [if_pos quote, raw, if_pos (by rw [image]; simp), after]
          rfl
      case isFalse quote =>
        split at here
        case isTrue brace =>
          cases here
          obtain ⟨head, inner, kept⟩ := moved (Cursor.passes_skip Nat.one_pos some').pos_lt
          rw [head, if_neg (by simp [equals]), inner]
          simp only [Cursor.head_erased ahead kept]
          rw [if_neg quote, if_pos brace, Cursor.skip_one_erased some' (clear.mono (by omega) (Nat.le_refl _))]
          rfl
        case isFalse brace =>
          split at here
          case isFalse => exact absurd here Cursor.fail_ne_ok
          case isTrue bracket =>
            cases here
            obtain ⟨head, inner, kept⟩ := moved (Nat.lt_succ_self _)
            rw [head, if_neg (by simp [equals]), inner]
            simp only [Cursor.head_erased ahead kept]
            rw [if_neg quote, if_neg brace, if_pos bracket]
            rfl

theorem closeStart_reach {parent : Option String} {c : Cursor} {m : Nat} {start : ChildStart}
    (here : closeStart parent c m = .ok start) : (c.skip m).pos ≤ start.reach := by
  obtain ⟨rfl, -⟩ := (closeStart_iff rfl rfl rfl).mp here
  exact (((Cursor.leads_skipBlank _).trans (Cursor.leads_skipWhile _ _)).trans
    ((Cursor.leads_skipBlank _).trans (Cursor.leads_skip _ 1))).pos_le

theorem closeStart_erased {parent : Option String} {c : Cursor} {m : Nat} {start : ChildStart}
    (inside : m ≤ c.rest.length) (here : closeStart parent c m = .ok start)
    (clear : Clear spans c.pos start.reach) :
    closeStart parent (c.erased spans) m = .ok (start.erased spans) := by
  let name := (c.skip m).skipBlank
  let named := name.skipWhile isTagNamePart
  let close := named.skipBlank
  have names : (c.skip m).skipBlank = name ∧ name.skipWhile isTagNamePart = named ∧ named.skipBlank = close :=
    ⟨rfl, rfl, rfl⟩
  obtain ⟨rfl, bracket, hasName, same⟩ := (closeStart_iff names.1 names.2.1 names.2.2).mp here
  have clear : Clear spans c.pos (close.skip 1).pos := clear
  have ended : close.rest ≠ [] := ne_nil_of_head? (beq_iff_eq.mpr bracket)
  have first : c.pos ≤ (c.skip m).pos := (c.leads_skip m).pos_le
  have second : (c.skip m).pos ≤ name.pos := (Cursor.leads_skipBlank _).pos_le
  have third : name.pos ≤ named.pos := (Cursor.leads_skipWhile _ _).pos_le
  have fourth : named.pos ≤ close.pos := (Cursor.leads_skipBlank _).pos_le
  have last : close.pos < (close.skip 1).pos := (Cursor.passes_skip Nat.one_pos ended).pos_lt
  have keptName : Erasure.holds spans name.pos = false := clear _ (by omega) (by omega)
  have keptClose : Erasure.holds spans close.pos = false := clear _ (by omega) last
  have inName : Clear spans name.pos named.pos := clear.mono (by omega) (by omega)
  have atName : ((c.erased spans).skip m).skipBlank = name.erased spans := by
    rw [Cursor.skip_erased inside (clear.mono (Nat.le_refl _) (by omega)),
      Cursor.skipBlank_erased_of_kept keptName]
  have behind : (name.erased spans).skipWhile isTagNamePart = named.erased spans :=
    Cursor.skipName_erased inName (by decide +kernel)
  refine (closeStart_iff atName behind (Cursor.skipBlank_erased_of_kept keptClose)).mpr ⟨?_, ?_, ?_, ?_⟩
  · rw [Cursor.skip_one_erased ended (clear.mono (by omega) (Nat.le_refl _))]
    rfl
  · rwa [Cursor.head?_erased keptClose]
  · rwa [Cursor.head?_erased keptName]
  · rw [Cursor.head?_erased keptName, Cursor.upTo_erased_of_clear (Cursor.leads_skipWhile _ _) inName, same]

theorem childStart_erased {parent : Option String} {c : Cursor} {start : ChildStart}
    (here : childStart parent c = .ok start)
    (ink : ∀ inner, start = .element inner → (inner.skip 1).skipBlank.rest ≠ [])
    (clear : Clear spans c.pos start.reach) :
    childStart parent (c.erased spans) = .ok (start.erased spans) := by
  cases ahead : c.rest with
  | nil =>
      rw [childStart, ahead] at here
      exact absurd here Cursor.fail_ne_ok
  | cons x s =>
      have some : c.rest ≠ [] := by simp [ahead]
      have opens : c.pos < (c.skip 1).pos := (Cursor.passes_skip Nat.one_pos some).pos_lt
      by_cases bracket : x = '<'
      · subst bracket
        obtain ⟨gap, y, t, rfl, inside, stop⟩ := exists_gap ahead here ink
        have first : (c.skip 1).rest = gap ++ y :: t ∧ (c.skip 1).pos = c.pos + 1 := by
          rw [Cursor.skip, ahead]
          exact ⟨rfl, rfl⟩
        -- the white space behind the bracket is the same, as the byte behind it is left
        have gap' (reaches : c.pos + 1 + byteLength gap < start.reach) : ∃ u,
            (c.erased spans).rest = '<' :: (gap ++ y :: u) := by
          have front : Clear spans (c.pos + 1) (c.pos + 1 + byteLength gap) :=
            clear.mono (Nat.le_succ _) (Nat.le_of_lt reaches)
          refine ⟨Erasure.imageOf spans (c.pos + 1 + byteLength gap + y.utf8Size) t, ?_⟩
          rw [Cursor.head_erased ahead (clear _ (Nat.le_refl _) (by omega)), Erasure.imageOf_append]
          change _ :: (Erasure.imageOf spans (c.pos + 1) gap ++
            Erasure.imageOf spans (c.pos + 1 + byteLength gap) (y :: t)) = _
          rw [Erasure.imageOf_outside front, Erasure.imageOf, Erasure.image,
            clear _ (by omega) reaches]
          rfl
        rw [childStart_of_gap ahead inside stop] at here
        split at here
        case isTrue slash =>
          have short : gap.length + 2 ≤ c.rest.length := by
            rw [ahead, List.length_cons, List.length_append, List.length_cons]
            omega
          have whole : '<' :: (gap ++ [y]) ++ t = c.rest := by simp [ahead]
          have behind := Cursor.past_of_append whole
          rw [Cursor.past, List.length_cons, List.length_append, List.length_singleton] at behind
          have reaches : c.pos + 1 + byteLength gap < start.reach := by
            have slashed := closeStart_reach here
            rw [behind] at slashed
            simp only [byteLength_cons, byteLength_append, byteLength_nil] at slashed
            have bracket : '<'.utf8Size = 1 := rfl
            have size := y.utf8Size_pos
            omega
          obtain ⟨u, ahead'⟩ := gap' reaches
          rw [childStart_of_gap ahead' inside stop, if_pos slash]
          exact closeStart_erased short here clear
        case isFalse slash =>
          cases here
          have blank : isGap gap = true :=
            List.all_eq_true.mpr fun x member => by rw [isBlank_of_isTagGap (inside x member), Bool.true_or]
          obtain ⟨u, ahead'⟩ := gap' (by
            rw [ChildStart.reach, Cursor.skipBlank_of_gap blank first.1, first.2]
            exact Nat.lt_succ_of_le (Cursor.leads_skipBlank ⟨_, y :: t⟩).pos_le)
          rw [childStart_of_gap ahead' inside stop, if_neg slash]
          rfl
      · rw [childStart, ahead] at here
        simp only at here
        split at here
        case isTrue brace =>
          cases here
          rw [childStart, Cursor.head_erased ahead (clear _ (Nat.le_refl _) opens)]
          simp only
          rw [if_pos brace, Cursor.skip_one_erased some clear]
          rfl
        case isFalse =>
          rw [if_neg (by simpa using bracket)] at here
          exact absurd here Cursor.fail_ne_ok

end JsxPreview.Source
