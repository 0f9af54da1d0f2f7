import JsxPreview.Proofs.Text.Utf8

/-! # Reading bytes that stand for no text

The bytes of characters are read as these characters, and each longest start of a character that is not
completed, or else a single byte, as one replacement character (`Lossy`).  This says what any bytes are
read as, and nothing else (`lossy_iff`). -/
set_option autoImplicit false
namespace JsxPreview.Text

/-- Bytes with which the bytes of some character begin. -/
def BeginsCharacter (front : List UInt8) : Prop := ∃ c, front <+: String.utf8EncodeChar c

/-- A text that bytes are read as.  Where no character stands, a byte is passed over together with those
behind it with which it still begins a character. -/
inductive Lossy : List UInt8 → List Char → Prop
  | nil : Lossy [] []
  | character (c : Char) {rest : List UInt8} {s : List Char} (behind : Lossy rest s) :
      Lossy (String.utf8EncodeChar c ++ rest) (c :: s)
  | malformed (lead : UInt8) (tail : List UInt8) {rest : List UInt8} {s : List Char}
      (none : ∀ c, ¬ String.utf8EncodeChar c <+: lead :: (tail ++ rest))
      (begins : tail = [] ∨ BeginsCharacter (lead :: tail))
      (longest : ∀ b, rest.head? = some b → ¬ BeginsCharacter (lead :: (tail ++ [b])))
      (behind : Lossy rest s) : Lossy (lead :: (tail ++ rest)) (replacementChar :: s)

/-! ## What may follow a first byte -/

theorem continuation_length_le (count low high : Nat) (rest : List UInt8) :
    (continuation count low high rest).length ≤ count := by
  fun_induction continuation count low high rest with
  | case1 low high n b rest inside ih => exact Nat.succ_le_succ ih
  | case2 => exact Nat.zero_le _
  | case3 => exact Nat.zero_le _

theorem continuation_idem (count low high : Nat) (rest : List UInt8) :
    continuation count low high (continuation count low high rest) =
      continuation count low high rest := by
  fun_induction continuation count low high rest with
  | case1 low high n b rest inside ih => rw [continuation, if_pos inside, ih]
  | case2 low high n => cases n <;> rfl
  | case3 low high n => cases low <;> rfl

theorem tailOf_idem (lead : UInt8) (rest : List UInt8) :
    tailOf lead (tailOf lead rest) = tailOf lead rest :=
  continuation_idem ..

theorem tailOf_leads (lead : UInt8) (rest : List UInt8) : tailOf lead rest <+: rest :=
  continuation_leads ..

theorem tailOf_length_le (lead : UInt8) (rest : List UInt8) :
    (tailOf lead rest).length ≤ (followers lead).1 :=
  continuation_length_le ..

/-- Bytes that go on with a character still do so when others follow. -/
theorem prefix_continuation {count low high : Nat} {front : List UInt8} (back : List UInt8)
    (taken : continuation count low high front = front) :
    front <+: continuation count low high (front ++ back) := by
  induction front generalizing count low high with
  | nil => exact List.nil_prefix
  | cons b front ih =>
      cases count with
      | zero => simp [continuation] at taken
      | succ count =>
          rw [continuation] at taken
          split at taken
          case isTrue inside =>
            rw [List.cons_append, continuation, if_pos inside, List.prefix_cons_inj]
            exact ih (List.cons.inj taken).2
          case isFalse => cases taken

theorem continuation_of_prefix {count low high : Nat} {front back : List UInt8}
    (taken : continuation count low high (front ++ back) = front ++ back) :
    continuation count low high front = front := by
  induction front generalizing count low high with
  | nil => cases count <;> rfl
  | cons b front ih =>
      cases count with
      | zero => simp [continuation] at taken
      | succ count =>
          rw [List.cons_append, continuation] at taken
          split at taken
          case isTrue inside =>
            rw [continuation, if_pos inside, ih (List.cons.inj taken).2]
          case isFalse => cases taken

/-- What goes on with a character can be completed. -/
theorem exists_continuation {count low high : Nat} {front : List UInt8}
    (range : low ≤ high ∧ high ≤ 0xBF) (taken : continuation count low high front = front) :
    ∃ back, continuation count low high (front ++ back) = front ++ back ∧
      (front ++ back).length = count := by
  induction count generalizing low high front with
  | zero =>
      have none : front = [] := by simpa [continuation] using taken.symm
      exact ⟨[], by simp [none, continuation], by simp [none]⟩
  | succ count ih =>
      cases front with
      | nil =>
          obtain ⟨back, taken, size⟩ := @ih 0x80 0xBF [] (by omega) (by cases count <;> rfl)
          have inside : byteIn low high (UInt8.ofNat low) = true := by
            simp [byteIn]
            omega
          refine ⟨UInt8.ofNat low :: back, ?_, by simpa using size⟩
          rw [List.nil_append, continuation, if_pos inside]
          exact congrArg _ taken
      | cons b front =>
          rw [continuation] at taken
          split at taken
          case isTrue inside =>
            obtain ⟨back, taken, size⟩ := ih (by omega) (List.cons.inj taken).2
            refine ⟨back, ?_, by simpa using size⟩
            rw [List.cons_append, continuation, if_pos inside, taken]
          case isFalse => cases taken

/-! ## Characters from bytes -/

theorem exists_char {n : Nat} (valid : n.isValidChar) : ∃ c : Char, c.toNat = n := by
  refine ⟨Char.ofNat n, ?_⟩
  rw [Char.ofNat, dif_pos valid]
  rfl

theorem tails_of_continuation {count : Nat} {tail : List UInt8}
    (taken : continuation count 0x80 0xBF tail = tail) : ∀ b ∈ tail, isTail b = true := by
  induction tail generalizing count with
  | nil => exact fun b member => absurd member List.not_mem_nil
  | cons b tail ih =>
      cases count with
      | zero => cases taken
      | succ count =>
          rw [continuation] at taken
          split at taken
          case isTrue inside => exact List.forall_mem_cons.mpr ⟨inside, ih (List.cons.inj taken).2⟩
          case isFalse => cases taken

/-- The first bytes of characters of two, three and four bytes, and what may stand right behind them. -/
theorem followers_range {lead x : UInt8} {count low high : Nat}
    (follows : followers lead = (count + 1, low, high)) (inside : low ≤ x.toNat ∧ x.toNat ≤ high) :
    (count = 0 ∧ 0xC2 ≤ lead.toNat ∧ lead.toNat ≤ 0xDF) ∨
    (count = 1 ∧ 0xE0 ≤ lead.toNat ∧ lead.toNat ≤ 0xEF ∧ (lead.toNat = 0xE0 → 0xA0 ≤ x.toNat) ∧
      (lead.toNat = 0xED → x.toNat ≤ 0x9F)) ∨
    (count = 2 ∧ 0xF0 ≤ lead.toNat ∧ lead.toNat ≤ 0xF4 ∧ (lead.toNat = 0xF0 → 0x90 ≤ x.toNat) ∧
      (lead.toNat = 0xF4 → x.toNat ≤ 0x8F)) := by
  rw [followers_eq] at follows
  repeat' split at follows
  all_goals simp only [Prod.mk.injEq] at follows
  all_goals omega

/-- As many bytes as follow a first byte, with each in its range, complete a character. -/
theorem exists_of_tail {lead x : UInt8} {tail : List UInt8}
    (count : (followers lead).1 = (x :: tail).length) (taken : tailOf lead (x :: tail) = x :: tail) :
    ∃ c, String.utf8EncodeChar c = lead :: x :: tail := by
  obtain ⟨low, high, follows⟩ : ∃ low high, followers lead = (tail.length + 1, low, high) :=
    ⟨_, _, Prod.ext count rfl⟩
  rw [tailOf, follows, continuation] at taken
  split at taken
  case isFalse => cases taken
  case isTrue inside =>
    have others := tails_of_continuation (List.cons.inj taken).2
    replace inside : low ≤ x.toNat ∧ x.toNat ≤ high := by simpa [byteIn] using inside
    have second : 0x80 ≤ x.toNat ∧ x.toNat ≤ 0xBF := by
      have range := followers_cases lead
      rw [follows] at range
      simp only at range
      omega
    rcases followers_range follows inside with ⟨none, range⟩ | ⟨one, range⟩ | ⟨two, range⟩
    · obtain rfl := List.length_eq_zero_iff.mp none
      obtain ⟨c, value⟩ := exists_char (n := (lead.toNat - 0xC0) * 64 + (x.toNat - 0x80))
        (by unfold Nat.isValidChar; omega)
      rcases encodeChar_cases c with ⟨small, _⟩ | ⟨_, _, w, x', bytes, w_eq, x_eq⟩ | ⟨large, _⟩ |
        ⟨large, _⟩
      · omega
      · refine ⟨c, ?_⟩
        rw [bytes, UInt8.toNat_inj.mp (show w.toNat = lead.toNat by omega),
          UInt8.toNat_inj.mp (show x'.toNat = x.toNat by omega)]
      · omega
      · omega
    · obtain ⟨y, rfl⟩ := List.length_eq_one_iff.mp one
      have third := (isTail_iff y).mp (others y (List.mem_singleton.mpr rfl))
      obtain ⟨c, value⟩ := exists_char (n := ((lead.toNat - 0xE0) * 64 + (x.toNat - 0x80)) * 64 +
        (y.toNat - 0x80)) (by unfold Nat.isValidChar; omega)
      rcases encodeChar_cases c with ⟨small, _⟩ | ⟨_, small, _⟩ |
        ⟨_, _, w, x', y', bytes, w_eq, x_eq, y_eq⟩ | ⟨large, _⟩
      · omega
      · omega
      · refine ⟨c, ?_⟩
        rw [bytes, UInt8.toNat_inj.mp (show w.toNat = lead.toNat by omega),
          UInt8.toNat_inj.mp (show x'.toNat = x.toNat by omega),
          UInt8.toNat_inj.mp (show y'.toNat = y.toNat by omega)]
      · omega
    · obtain ⟨y, z, rfl⟩ : ∃ y z, tail = [y, z] :=
        ⟨_, _, List.eq_getElem_of_length_eq_two tail two⟩
      have third := (isTail_iff y).mp (others y (List.mem_cons_self ..))
      have fourth := (isTail_iff z).mp (others z (List.mem_cons_of_mem _ (List.mem_singleton.mpr rfl)))
      obtain ⟨c, value⟩ := exists_char (n := (((lead.toNat - 0xF0) * 64 + (x.toNat - 0x80)) * 64 +
        (y.toNat - 0x80)) * 64 + (z.toNat - 0x80)) (by unfold Nat.isValidChar; omega)
      rcases encodeChar_cases c with ⟨small, _⟩ | ⟨_, small, _⟩ | ⟨_, small, _⟩ |
        ⟨_, w, x', y', z', bytes, w_eq, x_eq, y_eq, z_eq⟩
      · omega
      · omega
      · omega
      · refine ⟨c, ?_⟩
        rw [bytes, UInt8.toNat_inj.mp (show w.toNat = lead.toNat by omega),
          UInt8.toNat_inj.mp (show x'.toNat = x.toNat by omega),
          UInt8.toNat_inj.mp (show y'.toNat = y.toNat by omega),
          UInt8.toNat_inj.mp (show z'.toNat = z.toNat by omega)]

theorem exists_of_small {lead : UInt8} (small : lead.toNat < 0x80) :
    ∃ c, String.utf8EncodeChar c = [lead] := by
  obtain ⟨c, value⟩ := exists_char (n := lead.toNat) (.inl (by omega))
  rcases encodeChar_cases c with ⟨_, w, bytes, first⟩ | ⟨low, _⟩ | ⟨low, _⟩ | ⟨low, _⟩
  · exact ⟨c, by rw [bytes, UInt8.toNat_inj.mp (first.trans value)]⟩
  all_goals omega

/-- The bytes with which a character begins: its first byte and what is taken behind it. -/
theorem beginsCharacter_iff (lead : UInt8) (tail : List UInt8) :
    BeginsCharacter (lead :: tail) ↔
      lead.toNat < 0x80 ∧ tail = [] ∨ (followers lead).1 ≠ 0 ∧ tailOf lead tail = tail := by
  constructor
  · rintro ⟨c, front⟩
    obtain ⟨first, whole, encoded⟩ := encoded c
    rw [encoded.bytes, List.cons_prefix_cons] at front
    obtain ⟨rfl, back, rfl⟩ := front
    by_cases none : tail ++ back = []
    · exact .inl ⟨encoded.alone none, (List.append_eq_nil_iff.mp none).1⟩
    · refine .inr ⟨?_, continuation_of_prefix encoded.taken⟩
      rw [encoded.count]
      exact fun empty => none (List.length_eq_zero_iff.mp empty)
  · rintro (⟨small, rfl⟩ | ⟨some, taken⟩)
    · obtain ⟨c, bytes⟩ := exists_of_small small
      exact ⟨c, bytes ▸ List.prefix_refl _⟩
    · obtain ⟨back, taken, size⟩ := exists_continuation (followers_ordered lead) taken
      cases whole : tail ++ back with
      | nil =>
          rw [whole] at size
          exact absurd size.symm some
      | cons x rest =>
          rw [whole] at taken size
          obtain ⟨c, bytes⟩ := exists_of_tail size.symm taken
          exact ⟨c, by rw [bytes, ← whole]; exact List.prefix_append (lead :: tail) back⟩

/-- A character stands at the front just when its first byte stands there with as many bytes taken
behind it as follow it. -/
theorem exists_prefix_iff (lead : UInt8) (rest : List UInt8) :
    (∃ c, String.utf8EncodeChar c <+: lead :: rest) ↔ lead.toNat < 0x80 ∨
      (followers lead).1 ≠ 0 ∧ (tailOf lead rest).length = (followers lead).1 := by
  constructor
  · rintro ⟨c, front⟩
    obtain ⟨first, whole, encoded⟩ := encoded c
    rw [encoded.bytes, List.cons_prefix_cons] at front
    obtain ⟨rfl, back, rfl⟩ := front
    by_cases none : whole = []
    · exact .inl (encoded.alone none)
    · refine .inr ⟨fun empty => none (List.length_eq_zero_iff.mp (encoded.count ▸ empty)), ?_⟩
      rw [(encoded.parted back).1, encoded.taken, encoded.count]
  · rintro (small | ⟨some, size⟩)
    · obtain ⟨c, bytes⟩ := exists_of_small small
      exact ⟨c, bytes ▸ List.prefix_append [lead] rest⟩
    · obtain ⟨back, split⟩ := tailOf_leads lead rest
      have taken := tailOf_idem lead rest
      cases whole : tailOf lead rest with
      | nil =>
          rw [whole] at size
          exact absurd size.symm some
      | cons x tail =>
          rw [whole] at taken size split
          obtain ⟨c, bytes⟩ := exists_of_tail size.symm taken
          exact ⟨c, by rw [bytes, ← split]; exact List.prefix_append (lead :: x :: tail) back⟩

/-! ## Reading -/

theorem decodeFrom_eq_drop (skip : Nat) (bytes : List UInt8) :
    decodeFrom skip bytes = decodeUtf8 (bytes.drop skip) := by
  induction bytes generalizing skip with
  | nil => rw [List.drop_nil]; rfl
  | cons b rest ih =>
      cases skip with
      | zero => rfl
      | succ skip => exact ih skip

/-- Where no character stands, what begins one is passed over. -/
theorem decodeUtf8_malformed {lead : UInt8} {rest : List UInt8}
    (none : ∀ c, ¬ String.utf8EncodeChar c <+: lead :: rest) :
    decodeUtf8 (lead :: rest) = replacementChar :: decodeUtf8 (rest.drop (tailOf lead rest).length) := by
  have refused := mt (exists_prefix_iff lead rest).mpr (not_exists.mpr none)
  have large : ¬ lead.toNat < 0x80 := fun small => refused (.inl small)
  have short : ¬ ((followers lead).1 ≠ 0 ∧ (tailOf lead rest).length = (followers lead).1) :=
    fun full => refused (.inr full)
  have read : decodeChar lead rest = (replacementChar, (tailOf lead rest).length) := by
    rw [decodeChar, if_neg large]
    exact if_neg short
  rw [decodeUtf8, decodeFrom, read]
  exact congrArg _ (decodeFrom_eq_drop _ rest)

/-- What begins a character and goes on no further is what is taken. -/
theorem tailOf_of_longest {lead : UInt8} {tail rest : List UInt8}
    (none : ∀ c, ¬ String.utf8EncodeChar c <+: lead :: (tail ++ rest))
    (begins : tail = [] ∨ BeginsCharacter (lead :: tail))
    (longest : ∀ b, rest.head? = some b → ¬ BeginsCharacter (lead :: (tail ++ [b]))) :
    tailOf lead (tail ++ rest) = tail := by
  have refused := mt (exists_prefix_iff lead (tail ++ rest)).mpr (not_exists.mpr none)
  have taken : tailOf lead tail = tail := by
    rcases begins with rfl | begins
    · rw [tailOf]
      cases (followers lead).1 <;> rfl
    · rcases (beginsCharacter_iff lead tail).mp begins with ⟨small, _⟩ | ⟨_, taken⟩
      · exact absurd (.inl small) refused
      · exact taken
  obtain ⟨more, split⟩ := prefix_continuation rest taken
  obtain ⟨back, whole⟩ := tailOf_leads lead (tail ++ rest)
  change tail ++ more = tailOf lead (tail ++ rest) at split
  cases more with
  | nil => rw [← split, List.append_nil]
  | cons b more =>
      -- one more byte than `tail` goes on with the character
      have further : tailOf lead (tail ++ [b]) = tail ++ [b] := by
        have idem := tailOf_idem lead (tail ++ rest)
        rw [← split, List.append_cons] at idem
        exact continuation_of_prefix idem
      rw [← split, List.append_assoc, List.append_cancel_left_eq] at whole
      refine absurd ((beginsCharacter_iff lead (tail ++ [b])).mpr (.inr ⟨fun empty => ?_, further⟩))
        (longest b (by rw [← whole]; rfl))
      have size := tailOf_length_le lead (tail ++ [b])
      rw [further, empty, List.length_append] at size
      exact absurd size (Nat.not_succ_le_zero _)

/-- What is taken is what is replaced. -/
theorem malformed_tailOf {lead : UInt8} {rest back : List UInt8} {s : List Char}
    (split : tailOf lead rest ++ back = rest) (none : ∀ c, ¬ String.utf8EncodeChar c <+: lead :: rest)
    (behind : Lossy back s) : Lossy (lead :: rest) (replacementChar :: s) := by
  have taken := tailOf_idem lead rest
  have stops : ∀ b, back.head? = some b → tailOf lead (tailOf lead rest ++ [b]) ≠
      tailOf lead rest ++ [b] := by
    intro b head further
    obtain ⟨back, rfl⟩ := List.head?_eq_some_iff.mp head
    have longer := (prefix_continuation back further).length_le
    change _ ≤ (tailOf lead (tailOf lead rest ++ [b] ++ back)).length at longer
    rw [← List.append_cons, split, List.length_append] at longer
    exact absurd longer (Nat.not_succ_le_self _)
  generalize whole : tailOf lead rest = tail at taken split stops
  subst split
  refine .malformed lead tail none ?_ (fun b head begins => ?_) behind
  · cases tail with
    | nil => exact .inl rfl
    | cons x tail =>
        refine .inr ((beginsCharacter_iff lead _).mpr (.inr ⟨fun empty => ?_, taken⟩))
        have size := tailOf_length_le lead (x :: tail)
        rw [taken, empty] at size
        exact Nat.not_succ_le_zero _ size
  · rcases (beginsCharacter_iff lead _).mp begins with ⟨_, empty⟩ | ⟨_, further⟩
    · exact List.append_ne_nil_of_right_ne_nil tail (List.cons_ne_nil b []) empty
    · exact stops b head further

theorem lossy_decodeUtf8 (bytes : List UInt8) : Lossy bytes (decodeUtf8 bytes) := by
  induction size : bytes.length using Nat.strongRecOn generalizing bytes with
  | ind n ih =>
      cases bytes with
      | nil => exact .nil
      | cons lead rest =>
          subst size
          by_cases stands : ∃ c, String.utf8EncodeChar c <+: lead :: rest
          · obtain ⟨c, back, split⟩ := stands
            obtain ⟨first, tail, encoded⟩ := encoded c
            have shorter : back.length < (lead :: rest).length := by
              rw [← split, encoded.bytes, List.length_append, List.length_cons]
              omega
            rw [← split, decodeUtf8_encodeChar]
            exact .character c (ih _ shorter back rfl)
          · have none := not_exists.mp stands
            obtain ⟨back, split⟩ := tailOf_leads lead rest
            have shorter : back.length < (lead :: rest).length := by
              rw [← split, List.length_cons, List.length_append]
              omega
            have left : rest.drop (tailOf lead rest).length = back :=
              (congrArg (List.drop _) split).symm.trans List.drop_left
            rw [decodeUtf8_malformed none, left]
            exact malformed_tailOf split none (ih _ shorter back rfl)

/-- Any bytes are read as the one text that replaces what stands for none. -/
theorem lossy_iff (bytes : List UInt8) (s : List Char) : Lossy bytes s ↔ decodeUtf8 bytes = s := by
  constructor
  · intro lossy
    induction lossy with
    | nil => rfl
    | character c behind ih => rw [decodeUtf8_encodeChar, ih]
    | malformed lead tail none begins longest behind ih =>
        rw [decodeUtf8_malformed none, tailOf_of_longest none begins longest, List.drop_left, ih]
  · rintro rfl
    exact lossy_decodeUtf8 bytes

end JsxPreview.Text
