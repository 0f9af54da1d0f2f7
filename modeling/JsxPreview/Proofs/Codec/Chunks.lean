import JsxPreview.Codec.StreamDecoder
import JsxPreview.Proofs.Text.Utf8

/-! # Texts in chunks

What a call gives and what it holds back are parted (`parted_given`), so the texts of all calls are
together what the bytes say when they are read at once (`decodeAll_keeps`).  Each call that does not
keep marks drops one at the front of its own text (`decodeAll_drops`); together these give the text
without its leading mark just when no other mark stands where a chunk ends (`decodeAll_marks_iff`). -/
set_option autoImplicit false
namespace JsxPreview.Codec.StreamDecoder

open JsxPreview.Text

/-- The texts that a decoder gives when it is fed chunks, one for each and one for the end. -/
def decodeAll (d : StreamDecoder) : List (List UInt8) → List (List Char)
  | [] => [(d.decode [] false).1]
  | chunk :: rest => (d.decode chunk true).1 :: (d.decode chunk true).2.decodeAll rest

/-! ## What is held back -/

/-- How much of the bytes a call reads while more is to come. -/
def cut (bytes : List UInt8) : Nat := bytes.length - heldBack 0 bytes.reverse

/-- A start of a character at the end of bytes that lacks some of its bytes. -/
structure Unfinished (lead : UInt8) (tail : List UInt8) : Prop where
  starts : 0xC0 ≤ lead.toNat
  goesOn : ∀ b ∈ tail, isTail b = true
  short : tail.length + 1 < lengthFrom lead

theorem isTail_of_large {b : UInt8} (large : 0xC0 ≤ b.toNat) : isTail b = false := by
  rw [← Bool.not_eq_true, isTail_iff]
  omega

theorem lengthFrom_eq (b : UInt8) :
    lengthFrom b = if 0xF0 ≤ b.toNat then 4 else if 0xE0 ≤ b.toNat then 3 else 2 := rfl

theorem followers_lt (b : UInt8) : (followers b).1 < lengthFrom b := by
  rw [lengthFrom_eq]
  rcases followers_cases b with none | ⟨_, count, _⟩
  · repeat' split
    all_goals omega
  · exact count

/-- The bytes behind `before` go on with a character.  Either nothing is held back, and all bytes are
parted from what follows, or what is held back is an unfinished character. -/
theorem heldBack_cases (before : List UInt8) : ∀ behind : List UInt8,
    (∀ b ∈ behind, isTail b = true) →
    (heldBack behind.length before = 0 ∧ ∀ back, Parted (before.reverse ++ behind) back) ∨
    ∃ front lead tail, before.reverse ++ behind = front ++ lead :: tail ∧
      heldBack behind.length before = (lead :: tail).length ∧ Unfinished lead tail := by
  induction before with
  | nil =>
      intro behind tails
      exact .inl ⟨rfl, fun back => parted_tails tails⟩
  | cons b before ih =>
      intro behind tails
      have split : (b :: before).reverse ++ behind = before.reverse ++ b :: behind := by simp
      by_cases far : 3 ≤ behind.length
      · refine .inl ⟨?_, fun back => ?_⟩
        · rw [heldBack, if_pos far]
        · exact (parted_tails tails).behind (.inl far) _
      · by_cases lead : 0xc0 ≤ b
        · have large : 0xC0 ≤ b.toNat := UInt8.le_iff_toNat_le.mp lead
          have starts := isTail_of_large large
          by_cases short : behind.length + 1 < lengthFrom b
          · refine .inr ⟨before.reverse, b, behind, split, ?_, large, tails, short⟩
            rw [heldBack, if_neg far, if_pos lead, if_pos short, List.length_cons]
          · refine .inl ⟨?_, fun back => ?_⟩
            · rw [heldBack, if_neg far, if_pos lead, if_neg short]
            · have count := followers_lt b
              have here : Parted (b :: behind) back :=
                ⟨tailOf_append (.inl (by omega)), parted_tails tails⟩
              rw [split]
              exact here.behind (.inr ⟨b, List.mem_cons_self .., starts⟩) _
        · by_cases plain : b < 0x80
          · have small : b.toNat < 0x80 := UInt8.lt_iff_toNat_lt.mp plain
            have starts : isTail b = false := by
              rw [← Bool.not_eq_true, isTail_iff]
              omega
            have none : (followers b).1 = 0 := by
              rcases followers_cases b with none | ⟨large, _⟩
              · exact none
              · omega
            refine .inl ⟨?_, fun back => ?_⟩
            · rw [heldBack, if_neg far, if_neg lead, if_pos plain]
            · have here : Parted (b :: behind) back :=
                ⟨tailOf_append (.inl (none ▸ Nat.zero_le _)), parted_tails tails⟩
              rw [split]
              exact here.behind (.inr ⟨b, List.mem_cons_self .., starts⟩) _
          · have tail : isTail b = true := by
              rw [UInt8.le_iff_toNat_le] at lead
              rw [UInt8.lt_iff_toNat_lt] at plain
              change ¬ 0xC0 ≤ b.toNat at lead
              change ¬ b.toNat < 0x80 at plain
              rw [isTail_iff]
              omega
            rw [split, heldBack, if_neg far, if_neg lead, if_neg plain]
            exact ih (b :: behind) (List.forall_mem_cons.mpr ⟨tail, tails⟩)

theorem cut_cases (bytes : List UInt8) :
    (cut bytes = bytes.length ∧ ∀ back, Parted bytes back) ∨
    ∃ lead tail, bytes.drop (cut bytes) = lead :: tail ∧ Unfinished lead tail := by
  rcases heldBack_cases bytes.reverse [] (fun _ member => absurd member List.not_mem_nil) with
    ⟨none, parted⟩ | ⟨front, lead, tail, split, held, unfinished⟩
  · rw [List.reverse_reverse, List.append_nil] at parted
    rw [List.length_nil] at none
    exact .inl ⟨by rw [cut, none, Nat.sub_zero], parted⟩
  · rw [List.reverse_reverse, List.append_nil] at split
    rw [List.length_nil] at held
    refine .inr ⟨lead, tail, ?_, unfinished⟩
    rw [cut, held]
    conv => lhs; rw [split]
    rw [List.length_append, Nat.add_sub_cancel, List.drop_left]

/-- What is read is parted from what is held back and whatever follows. -/
theorem parted_given (bytes rest : List UInt8) :
    Parted (bytes.take (cut bytes)) (bytes.drop (cut bytes) ++ rest) := by
  rcases cut_cases bytes with ⟨all, parted⟩ | ⟨lead, tail, held, unfinished⟩
  · rw [all, List.take_length]
    exact parted _
  · refine parted_of_head fun b head => ?_
    rw [held] at head
    cases head
    exact isTail_of_large unfinished.starts

/-! ## Texts of all calls -/

theorem decode_more (d : StreamDecoder) (chunk : List UInt8) :
    d.decode chunk true =
      (if d.keepsMark then decodeUtf8 ((d.pending ++ chunk).take (cut (d.pending ++ chunk)))
        else dropMark (decodeUtf8 ((d.pending ++ chunk).take (cut (d.pending ++ chunk)))),
        { d with pending := (d.pending ++ chunk).drop (cut (d.pending ++ chunk)) }) := rfl

theorem decode_end (d : StreamDecoder) (chunk : List UInt8) :
    (d.decode chunk false).1 =
      if d.keepsMark then decodeUtf8 (d.pending ++ chunk)
        else dropMark (decodeUtf8 (d.pending ++ chunk)) := by
  simp only [decode, Bool.false_eq_true, if_false, List.take_length]

/-- A decoder that keeps marks gives what the bytes say, whatever the chunks are. -/
theorem decodeAll_keeps {d : StreamDecoder} (keeps : d.keepsMark = true) (chunks : List (List UInt8)) :
    (d.decodeAll chunks).flatten = decodeUtf8 (d.pending ++ chunks.flatten) := by
  induction chunks generalizing d with
  | nil => simp [decodeAll, decode_end, keeps]
  | cons chunk chunks ih =>
      rw [decodeAll, List.flatten_cons, decode_more, keeps, if_pos rfl, ih rfl, List.flatten_cons,
        ← List.append_assoc d.pending, ← decodeUtf8_append (parted_given _ _)]
      rw [← List.append_assoc, List.take_append_drop]

/-- A decoder that does not keep marks drops the one at the front of each text. -/
theorem decodeAll_drops (pending : List UInt8) (chunks : List (List UInt8)) :
    (⟨false, pending⟩ : StreamDecoder).decodeAll chunks =
      ((⟨true, pending⟩ : StreamDecoder).decodeAll chunks).map dropMark := by
  induction chunks generalizing pending with
  | nil => simp [decodeAll, decode_end]
  | cons chunk chunks ih => simp [decodeAll, decode_more, ih]

/-! ## Marks that are dropped -/

/-- Nothing, or an unfinished character. -/
def Held (pending : List UInt8) : Prop :=
  pending = [] ∨ ∃ lead tail, pending = lead :: tail ∧ Unfinished lead tail

/-- No chunk ends in front of a mark, or within one, that stands behind another character.  The text
starts `offset` bytes in front of the chunks. -/
def MarksWhole (offset : Nat) (chunks : List (List UInt8)) (s : List Char) : Prop :=
  ∀ front back, s = front ++ '\ufeff' :: back → front ≠ [] →
    ∀ before after, chunks = before ++ after →
      ¬ ((encodeUtf8 front).length ≤ offset + before.flatten.length ∧
        offset + before.flatten.length < (encodeUtf8 front).length + 3)

theorem held_drop (bytes : List UInt8) : Held (bytes.drop (cut bytes)) := by
  rcases cut_cases bytes with ⟨all, _⟩ | unfinished
  · exact .inl (by rw [all, List.drop_length])
  · exact .inr unfinished

theorem length_of_lead {c : Char} {lead : UInt8} {tail : List UInt8} (encoded : Encoded c lead tail)
    (large : 0xC0 ≤ lead.toNat) : lengthFrom lead = tail.length + 1 := by
  have some : (followers lead).1 ≠ 0 := by
    rw [encoded.count]
    intro none
    have := encoded.alone (List.length_eq_zero_iff.mp none)
    omega
  rw [← encoded.count, lengthFrom_eq]
  rw [followers_eq] at some ⊢
  repeat' split at some
  all_goals simp at some ⊢
  all_goals repeat' split
  all_goals omega

/-- What is held back is less than the first character of the text that it begins. -/
theorem Held.lt {pending rest : List UInt8} {c : Char} {s : List Char} (held : Held pending)
    (whole : pending ++ rest = encodeUtf8 (c :: s)) :
    pending.length < (String.utf8EncodeChar c).length := by
  obtain ⟨lead, tail, encoded⟩ := encoded c
  rcases held with rfl | ⟨first, others, rfl, unfinished⟩
  · rw [encoded.bytes]
    exact Nat.succ_pos _
  · rw [encodeUtf8_cons, encoded.bytes, List.cons_append, List.cons_append] at whole
    obtain ⟨rfl, _⟩ := List.cons.inj whole
    have short := unfinished.short
    rw [length_of_lead encoded unfinished.starts] at short
    rw [encoded.bytes]
    exact short

theorem Held.lt_front {pending rest : List UInt8} {front back : List Char} (held : Held pending)
    (whole : pending ++ rest = encodeUtf8 (front ++ back)) (some : front ≠ []) :
    pending.length < (encodeUtf8 front).length := by
  cases front with
  | nil => exact absurd rfl some
  | cons c front =>
      have first := held.lt whole
      rw [encodeUtf8_cons, List.length_append]
      omega

theorem Held.lt_mark {pending rest : List UInt8} {back : List Char} (held : Held pending)
    (whole : pending ++ rest = encodeUtf8 ('\ufeff' :: back)) : pending.length < 3 :=
  held.lt whole

/-- What a call gives is a front of the text, and what it holds back begins the rest. -/
theorem call_splits {pending chunk rest : List UInt8} {s : List Char}
    (whole : pending ++ (chunk ++ rest) = encodeUtf8 s) : ∃ t u, s = t ++ u ∧
      decodeUtf8 ((pending ++ chunk).take (cut (pending ++ chunk))) = t ∧
      (pending ++ chunk).drop (cut (pending ++ chunk)) ++ rest = encodeUtf8 u ∧
      pending.length + chunk.length = (encodeUtf8 t).length +
        ((pending ++ chunk).drop (cut (pending ++ chunk))).length := by
  have split := List.take_append_drop (cut (pending ++ chunk)) (pending ++ chunk)
  obtain ⟨t, u, rfl, given, left⟩ := split_of_parted s (parted_given (pending ++ chunk) rest) (by
    rw [← whole, ← List.append_assoc, ← List.append_assoc, split])
  refine ⟨t, u, rfl, ?_, left, ?_⟩
  · rw [given, decodeUtf8_encodeUtf8]
  · rw [← given, ← List.length_append, ← List.length_append, split]

theorem MarksWhole.nil {pending rest : List UInt8} {s : List Char} (held : Held pending)
    (whole : pending ++ rest = encodeUtf8 s) : MarksWhole pending.length [] s := by
  rintro front back rfl some before after none ⟨started, _⟩
  obtain ⟨rfl, rfl⟩ := List.append_eq_nil_iff.mp none.symm
  exact absurd started (Nat.not_le.mpr (held.lt_front whole some))

/-- Where a call gives `t` and holds back `left` of the rest `u`, what it adds is that no mark stands
right behind what it gives. -/
theorem marksWhole_cons {pending chunk left : List UInt8} {chunks : List (List UInt8)}
    {t u : List Char} (held : Held pending) (kept : Held left)
    (whole : pending ++ (chunk ++ chunks.flatten) = encodeUtf8 (t ++ u))
    (rest : left ++ chunks.flatten = encodeUtf8 u)
    (size : pending.length + chunk.length = (encodeUtf8 t).length + left.length) :
    MarksWhole pending.length (chunk :: chunks) (t ++ u) ↔
      (t ≠ [] → u.head? ≠ some '\ufeff') ∧ MarksWhole left.length chunks u := by
  constructor
  · refine fun marks => ⟨fun some head => ?_, fun front back split some before after cuts within => ?_⟩
    · cases u with
      | nil => cases head
      | cons c u =>
          cases head
          have short := kept.lt_mark rest
          refine marks t u rfl some [chunk] chunks rfl ⟨?_, ?_⟩
          all_goals simp only [List.flatten_singleton]; omega
    · refine marks (t ++ front) back (by rw [split, List.append_assoc])
        (List.append_ne_nil_of_right_ne_nil t some) (chunk :: before) after (by rw [cuts]; rfl) ?_
      rw [encodeUtf8_append, List.length_append, List.flatten_cons, List.length_append]
      omega
  · rintro ⟨behind, marks⟩ front back split some before after cuts ⟨started, open_⟩
    cases before with
    | nil =>
        rw [split] at whole
        exact absurd started (Nat.not_le.mpr (held.lt_front whole some))
    | cons first before =>
        obtain ⟨rfl, others⟩ := List.cons.inj cuts
        rw [List.flatten_cons, List.length_append] at started open_
        rcases List.append_eq_append_iff.mp split with ⟨f, rfl, next⟩ | ⟨f, rfl, next⟩
        · cases f with
          | nil =>
              rw [List.append_nil] at some
              exact behind some (by rw [next]; rfl)
          | cons c f =>
              refine marks (c :: f) back next (List.cons_ne_nil _ _) before after others ⟨?_, ?_⟩
              all_goals rw [encodeUtf8_append, List.length_append] at started open_; omega
        · cases f with
          | nil =>
              rw [List.append_nil] at behind
              exact behind some (by rw [← List.nil_append u, ← next]; rfl)
          | cons c f =>
              obtain ⟨rfl, _⟩ := List.cons.inj next
              rw [encodeUtf8_append, encodeUtf8_cons, List.length_append, List.length_append] at size
              have three : (String.utf8EncodeChar '\ufeff').length = 3 := rfl
              omega

theorem dropMark_length (t : List Char) : (dropMark t).length ≤ t.length := by
  unfold dropMark
  split
  · exact Nat.le_succ _
  · exact Nat.le_refl _

theorem dropMark_eq_self_iff (t : List Char) : dropMark t = t ↔ t.head? ≠ some '\ufeff' := by
  unfold dropMark
  split
  · next rest => simp
  · next other =>
      refine ⟨fun _ head => ?_, fun _ => rfl⟩
      obtain ⟨rest, rfl⟩ := List.head?_eq_some_iff.mp head
      exact other rest rfl

theorem dropMark_cons_append (c : Char) (t u : List Char) :
    dropMark (c :: t ++ u) = dropMark (c :: t) ++ u := by
  by_cases mark : c = '\ufeff'
  · rw [mark]
    rfl
  · rw [(dropMark_eq_self_iff _).mpr (by simpa using mark),
      (dropMark_eq_self_iff _).mpr (by simpa using mark)]

theorem flatten_dropMark_length (texts : List (List Char)) :
    (texts.map dropMark).flatten.length ≤ texts.flatten.length := by
  induction texts with
  | nil => exact Nat.le_refl _
  | cons t texts ih =>
      rw [List.map_cons, List.flatten_cons, List.flatten_cons, List.length_append, List.length_append]
      exact Nat.add_le_add (dropMark_length t) ih

/-- Texts lose nothing just when none of them has a mark at its front. -/
theorem flatten_dropMark_eq_iff (texts : List (List Char)) :
    (texts.map dropMark).flatten = texts.flatten ↔ ∀ t ∈ texts, t.head? ≠ some '\ufeff' := by
  induction texts with
  | nil => simp
  | cons t texts ih =>
      rw [List.map_cons, List.flatten_cons, List.flatten_cons, List.forall_mem_cons, ← ih,
        ← dropMark_eq_self_iff]
      refine ⟨fun same => ?_, fun ⟨first, others⟩ => by rw [first, others]⟩
      have sizes := congrArg List.length same
      rw [List.length_append, List.length_append] at sizes
      have front := dropMark_length t
      have back := flatten_dropMark_length texts
      exact List.append_inj same (by omega)

/-- No text of a decoder that keeps marks has one at its front just when no chunk ends in front of a
mark or within one, and the first text does not begin with one. -/
theorem heads_iff {pending : List UInt8} {chunks : List (List UInt8)} {s : List Char}
    (held : Held pending) (whole : pending ++ chunks.flatten = encodeUtf8 s) :
    (∀ t ∈ (⟨true, pending⟩ : StreamDecoder).decodeAll chunks, t.head? ≠ some '\ufeff') ↔
      s.head? ≠ some '\ufeff' ∧ MarksWhole pending.length chunks s := by
  induction chunks generalizing pending s with
  | nil =>
      have marks := MarksWhole.nil held whole
      rw [List.flatten_nil, List.append_nil] at whole
      simp only [decodeAll, decode_end, List.append_nil, whole, decodeUtf8_encodeUtf8, if_true]
      simp [← whole, marks]
  | cons chunk chunks ih =>
      rw [List.flatten_cons] at whole
      obtain ⟨t, u, rfl, given, rest, size⟩ := call_splits whole
      have kept := held_drop (pending ++ chunk)
      rw [decodeAll, decode_more, if_pos rfl, given, List.forall_mem_cons, ih kept rest,
        marksWhole_cons held kept whole rest size]
      cases t <;> simp

/-- What a decoder that does not keep marks gives in total. -/
theorem total_iff {pending : List UInt8} {chunks : List (List UInt8)} {s : List Char}
    (held : Held pending) (whole : pending ++ chunks.flatten = encodeUtf8 s) :
    (((⟨true, pending⟩ : StreamDecoder).decodeAll chunks).map dropMark).flatten = dropMark s ↔
      MarksWhole pending.length chunks s := by
  induction chunks generalizing pending s with
  | nil =>
      have marks := MarksWhole.nil held whole
      rw [List.flatten_nil, List.append_nil] at whole
      simp only [decodeAll, decode_end, List.append_nil, whole, decodeUtf8_encodeUtf8, if_true]
      simp [← whole, marks]
  | cons chunk chunks ih =>
      rw [List.flatten_cons] at whole
      obtain ⟨t, u, rfl, given, rest, size⟩ := call_splits whole
      have kept := held_drop (pending ++ chunk)
      rw [decodeAll, decode_more, if_pos rfl, given, List.map_cons, List.flatten_cons,
        marksWhole_cons held kept whole rest size]
      cases t with
      | nil => simpa [dropMark] using ih kept rest
      | cons c t =>
          have all := decodeAll_keeps (d := ⟨true, (pending ++ chunk).drop (cut (pending ++ chunk))⟩)
            rfl chunks
          rw [rest, decodeUtf8_encodeUtf8] at all
          rw [dropMark_cons_append, List.append_cancel_left_eq]
          have none := flatten_dropMark_eq_iff
            ((⟨true, (pending ++ chunk).drop (cut (pending ++ chunk))⟩ : StreamDecoder).decodeAll
              chunks)
          rw [all, heads_iff kept rest] at none
          rw [none]
          simp

/-- A decoder that does not keep marks gives a text without the mark that it begins with, and with all
others, just when no chunk ends in front of one of the others or within it. -/
theorem decodeAll_marks_iff {chunks : List (List UInt8)} {s : List Char}
    (whole : chunks.flatten = encodeUtf8 s) :
    ((⟨false, []⟩ : StreamDecoder).decodeAll chunks).flatten = dropMark s ↔ MarksWhole 0 chunks s := by
  rw [decodeAll_drops]
  exact total_iff (.inl rfl) whole

end JsxPreview.Codec.StreamDecoder
