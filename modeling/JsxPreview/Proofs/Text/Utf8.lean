import JsxPreview.Text.Bytes

/-! # Bytes that stand for characters

Where no character that starts in front of a border goes on behind it (`Parted`), the bytes on both
sides are read for themselves (`decodeUtf8_append`).  A text is read back from its bytes
(`decodeUtf8_encodeUtf8`), and a border between parted bytes of a text is one between two of its
characters (`split_of_parted`). -/
set_option autoImplicit false
namespace JsxPreview.Text

/-- A byte that goes on with a character and starts none. -/
def isTail (b : UInt8) : Bool := byteIn 0x80 0xBF b

/-- The bytes at the front of `rest` that go on with what `lead` starts. -/
def tailOf (lead : UInt8) (rest : List UInt8) : List UInt8 :=
  continuation (followers lead).1 (followers lead).2.1 (followers lead).2.2 rest

/-- No character that starts in `front` goes on in `back`. -/
def Parted : List UInt8 → List UInt8 → Prop
  | [], _ => True
  | lead :: tail, back => tailOf lead (tail ++ back) = tailOf lead tail ∧ Parted tail back

/-! ## What follows a first byte -/

theorem followers_eq (b : UInt8) : followers b =
    if 0xC2 ≤ b.toNat ∧ b.toNat ≤ 0xDF then (1, 0x80, 0xBF)
    else if b.toNat = 0xE0 then (2, 0xA0, 0xBF)
    else if b.toNat = 0xED then (2, 0x80, 0x9F)
    else if 0xE1 ≤ b.toNat ∧ b.toNat ≤ 0xEF then (2, 0x80, 0xBF)
    else if b.toNat = 0xF0 then (3, 0x90, 0xBF)
    else if b.toNat = 0xF4 then (3, 0x80, 0x8F)
    else if 0xF1 ≤ b.toNat ∧ b.toNat ≤ 0xF3 then (3, 0x80, 0xBF)
    else (0, 0, 0) := by
  simp [followers, byteIn, ← UInt8.toNat_inj]

/-- Only a byte above all that go on with a character has others behind it, and all these go on with a
character. -/
theorem followers_cases (b : UInt8) : (followers b).1 = 0 ∨ 0xC0 ≤ b.toNat ∧
    (followers b).1 < (if 0xF0 ≤ b.toNat then 4 else if 0xE0 ≤ b.toNat then 3 else 2) ∧
    0x80 ≤ (followers b).2.1 ∧ (followers b).2.2 ≤ 0xBF := by
  rw [followers_eq]
  repeat' split
  all_goals simp
  all_goals omega

theorem followers_ordered (b : UInt8) :
    (followers b).2.1 ≤ (followers b).2.2 ∧ (followers b).2.2 ≤ 0xBF := by
  rw [followers_eq]
  repeat' split
  all_goals simp

theorem followers_le (b : UInt8) : (followers b).1 ≤ 3 := by
  rcases followers_cases b with none | ⟨_, count, _⟩
  · omega
  · repeat' split at count
    all_goals omega

theorem isTail_iff (b : UInt8) : isTail b = true ↔ 0x80 ≤ b.toNat ∧ b.toNat ≤ 0xBF := by
  simp [isTail, byteIn]

theorem followers_tail {b : UInt8} (tail : isTail b = true) : (followers b).1 = 0 := by
  rcases followers_cases b with none | ⟨large, _⟩
  · exact none
  · have := (isTail_iff b).mp tail
    omega

theorem continuation_leads (count low high : Nat) (rest : List UInt8) :
    continuation count low high rest <+: rest := by
  fun_induction continuation count low high rest with
  | case1 low high n b rest inside ih => exact List.prefix_cons_inj b |>.mpr ih
  | case2 => exact List.nil_prefix
  | case3 => exact List.nil_prefix

theorem continuation_tails {tail : List UInt8} (tails : ∀ b ∈ tail, isTail b = true) :
    continuation tail.length 0x80 0xBF tail = tail := by
  induction tail with
  | nil => rfl
  | cons b tail ih =>
      obtain ⟨here, others⟩ := List.forall_mem_cons.mp tails
      rw [List.length_cons, continuation, ih others]
      exact if_pos here

theorem decodeChar_le (lead : UInt8) (tail : List UInt8) : (decodeChar lead tail).2 ≤ tail.length := by
  have all := (continuation_leads (followers lead).1 (followers lead).2.1 (followers lead).2.2
    tail).length_le
  simp only [decodeChar]
  split
  · exact Nat.zero_le _
  · split
    case isTrue whole => exact whole.2 ▸ all
    case isFalse => exact all

theorem decodeChar_congr {lead : UInt8} {rest rest' : List UInt8}
    (same : tailOf lead rest = tailOf lead rest') : decodeChar lead rest = decodeChar lead rest' := by
  simp only [tailOf] at same
  simp only [decodeChar, same]

/-! ## Parted bytes -/

theorem decodeFrom_append {front back : List UInt8} (parted : Parted front back) :
    ∀ skip ≤ front.length, decodeFrom skip (front ++ back) = decodeFrom skip front ++ decodeUtf8 back := by
  induction front with
  | nil =>
      intro skip within
      rw [List.length_nil, Nat.le_zero] at within
      subst within
      simp [decodeFrom, decodeUtf8]
  | cons lead tail ih =>
      obtain ⟨here, others⟩ := parted
      intro skip within
      cases skip with
      | succ skip =>
          rw [List.cons_append, decodeFrom, decodeFrom]
          exact ih others skip (Nat.le_of_succ_le_succ within)
      | zero =>
          rw [List.cons_append]
          simp only [decodeFrom, decodeChar_congr here]
          rw [ih others _ (decodeChar_le lead tail), List.cons_append]

/-- Parted bytes are read for themselves. -/
theorem decodeUtf8_append {front back : List UInt8} (parted : Parted front back) :
    decodeUtf8 (front ++ back) = decodeUtf8 front ++ decodeUtf8 back :=
  decodeFrom_append parted 0 (Nat.zero_le _)

/-- What goes on with a character ends with its last byte and at a byte that does not go on with
any. -/
theorem continuation_append {count low high : Nat} {tail back : List UInt8}
    (range : count = 0 ∨ 0x80 ≤ low ∧ high ≤ 0xBF)
    (stop : count ≤ tail.length ∨ (∃ b ∈ tail, isTail b = false) ∨
      ∀ b, back.head? = some b → isTail b = false) :
    continuation count low high (tail ++ back) = continuation count low high tail := by
  have refused {low high : Nat} {b : UInt8} (range : 0x80 ≤ low ∧ high ≤ 0xBF)
      (none : isTail b = false) : byteIn low high b = false := by
    rw [← Bool.not_eq_true, isTail_iff] at none
    simp only [byteIn, Bool.and_eq_false_iff, decide_eq_false_iff_not]
    omega
  induction tail generalizing count low high with
  | nil =>
      cases count with
      | zero => simp [continuation]
      | succ count =>
          rcases stop with short | ⟨b, member, _⟩ | stop
          · exact absurd short (Nat.not_succ_le_zero _)
          · exact absurd member List.not_mem_nil
          · cases back with
            | nil => rfl
            | cons b back =>
                have inside := range.resolve_left (Nat.succ_ne_zero _)
                simp [continuation, refused inside (stop b rfl)]
  | cons x tail ih =>
      cases count with
      | zero => simp [continuation]
      | succ count =>
          have inside := range.resolve_left (Nat.succ_ne_zero _)
          rw [List.cons_append, continuation, continuation]
          by_cases goesOn : byteIn low high x = true
          · rw [if_pos goesOn, if_pos goesOn, ih (.inr ⟨Nat.le_refl _, Nat.le_refl _⟩)]
            rcases stop with short | ⟨b, member, none⟩ | stop
            · exact .inl (Nat.le_of_succ_le_succ short)
            · rcases List.mem_cons.mp member with rfl | member
              · rw [refused inside none] at goesOn
                cases goesOn
              · exact .inr (.inl ⟨b, member, none⟩)
            · exact .inr (.inr stop)
          · rw [if_neg goesOn, if_neg goesOn]

theorem tailOf_append {lead : UInt8} {tail back : List UInt8}
    (stop : (followers lead).1 ≤ tail.length ∨ (∃ b ∈ tail, isTail b = false) ∨
      ∀ b, back.head? = some b → isTail b = false) :
    tailOf lead (tail ++ back) = tailOf lead tail := by
  refine continuation_append ?_ stop
  rcases followers_cases lead with none | ⟨_, _, range⟩
  · exact .inl none
  · exact .inr range

/-- A byte that goes on with no character parts what stands in front of it. -/
theorem parted_of_head {front back : List UInt8}
    (stop : ∀ b, back.head? = some b → isTail b = false) : Parted front back := by
  induction front with
  | nil => trivial
  | cons lead tail ih => exact ⟨tailOf_append (.inr (.inr stop)), ih⟩

theorem parted_tails {front back : List UInt8} (tails : ∀ b ∈ front, isTail b = true) :
    Parted front back := by
  induction front with
  | nil => trivial
  | cons lead tail ih =>
      obtain ⟨here, others⟩ := List.forall_mem_cons.mp tails
      refine ⟨tailOf_append (.inl ?_), ih others⟩
      rw [followers_tail here]
      exact Nat.zero_le _

/-- What stands in front of three bytes, or of one that goes on with no character, does not reach behind
them. -/
theorem Parted.behind {middle back : List UInt8} (parted : Parted middle back)
    (stop : 3 ≤ middle.length ∨ ∃ b ∈ middle, isTail b = false) (front : List UInt8) :
    Parted (front ++ middle) back := by
  induction front with
  | nil => exact parted
  | cons lead tail ih =>
      refine ⟨tailOf_append ?_, ih⟩
      change _ ≤ (tail ++ middle).length ∨ (∃ b ∈ tail ++ middle, _) ∨ _
      rcases stop with long | ⟨b, member, none⟩
      · have := followers_le lead
        rw [List.length_append]
        omega
      · exact .inr (.inl ⟨b, List.mem_append_right tail member, none⟩)

theorem Parted.drop {front middle back : List UInt8} (parted : Parted (front ++ middle) back) :
    Parted middle back := by
  induction front with
  | nil => exact parted
  | cons lead tail ih => exact ih parted.2

/-! ## The bytes of a character -/

/-- The first byte of a character and the bytes behind it. -/
structure Encoded (c : Char) (lead : UInt8) (tail : List UInt8) : Prop where
  bytes : String.utf8EncodeChar c = lead :: tail
  starts : isTail lead = false
  alone : tail = [] → lead.toNat < 0x80
  goesOn : ∀ b ∈ tail, isTail b = true
  count : (followers lead).1 = tail.length
  taken : tailOf lead tail = tail
  read : decodeChar lead tail = (c, tail.length)

/-- A first byte with as many bytes behind it as follow it, from which the character is computed. -/
theorem Encoded.of_followers {c : Char} {lead x : UInt8} {rest : List UInt8} {low high : Nat}
    (bytes : String.utf8EncodeChar c = lead :: x :: rest)
    (follows : followers lead = (rest.length + 1, low, high))
    (inside : low ≤ x.toNat ∧ x.toNat ≤ high) (goesOn : ∀ b ∈ x :: rest, isTail b = true)
    (value : (x :: rest).foldl (fun n b => n * 64 + b.toNat % 64) (leadValue (rest.length + 1) lead) =
      c.toNat) : Encoded c lead (x :: rest) := by
  have count : (followers lead).1 = rest.length + 1 := by rw [follows]
  have large : 0xC0 ≤ lead.toNat := by
    rcases followers_cases lead with none | ⟨large, _⟩
    · omega
    · exact large
  have taken : continuation (rest.length + 1) low high (x :: rest) = x :: rest := by
    rw [continuation, if_pos (by simpa [byteIn] using inside),
      continuation_tails (List.forall_mem_cons.mp goesOn).2]
  refine ⟨bytes, ?_, fun none => absurd none (List.cons_ne_nil x rest), goesOn, count, ?_, ?_⟩
  · rw [← Bool.not_eq_true, isTail_iff]
    omega
  · rw [tailOf, follows, taken]
  · rw [decodeChar, if_neg (by omega)]
    simp only [follows, taken]
    rw [if_pos ⟨Nat.succ_ne_zero _, rfl⟩, value, Char.ofNat_toNat]
    rfl

/-- One to four bytes, from the highest digits of the code point to base 64 on. -/
theorem encodeChar_cases (c : Char) :
    (c.toNat < 0x80 ∧ ∃ w, String.utf8EncodeChar c = [w] ∧ w.toNat = c.toNat) ∨
    (0x80 ≤ c.toNat ∧ c.toNat < 0x800 ∧ ∃ w x, String.utf8EncodeChar c = [w, x] ∧
      w.toNat = c.toNat / 64 + 0xC0 ∧ x.toNat = c.toNat % 64 + 0x80) ∨
    (0x800 ≤ c.toNat ∧ c.toNat < 0x10000 ∧ ∃ w x y, String.utf8EncodeChar c = [w, x, y] ∧
      w.toNat = c.toNat / 4096 + 0xE0 ∧ x.toNat = c.toNat / 64 % 64 + 0x80 ∧
      y.toNat = c.toNat % 64 + 0x80) ∨
    (0x10000 ≤ c.toNat ∧ ∃ w x y z, String.utf8EncodeChar c = [w, x, y, z] ∧
      w.toNat = c.toNat / 262144 + 0xF0 ∧ x.toNat = c.toNat / 4096 % 64 + 0x80 ∧
      y.toNat = c.toNat / 64 % 64 + 0x80 ∧ z.toNat = c.toNat % 64 + 0x80) := by
  have valid : c.toNat < 0xD800 ∨ 0xDFFF < c.toNat ∧ c.toNat < 0x110000 := c.valid
  have byte {n m : Nat} (small : n < 256) (same : n = m) : (UInt8.ofNat n).toNat = m :=
    (Nat.mod_eq_of_lt small).trans same
  have bytes : String.utf8EncodeChar c = String.utf8EncodeChar c := rfl
  conv at bytes => rhs; unfold String.utf8EncodeChar
  change _ = ite (c.toNat ≤ _) _ (ite (c.toNat ≤ _) _ (ite (c.toNat ≤ _) _ _)) at bytes
  change _ = ite _ [UInt8.ofNat c.toNat] (ite _ [UInt8.ofNat (c.toNat / 64 % 0x20 + 0xc0),
    UInt8.ofNat (c.toNat % 0x40 + 0x80)] (ite _ [UInt8.ofNat (c.toNat / 4096 % 0x10 + 0xe0),
    UInt8.ofNat (c.toNat / 64 % 0x40 + 0x80), UInt8.ofNat (c.toNat % 0x40 + 0x80)]
    [UInt8.ofNat (c.toNat / 262144 % 0x08 + 0xf0), UInt8.ofNat (c.toNat / 4096 % 0x40 + 0x80),
    UInt8.ofNat (c.toNat / 64 % 0x40 + 0x80), UInt8.ofNat (c.toNat % 0x40 + 0x80)])) at bytes
  split at bytes
  case isTrue one =>
    exact .inl ⟨by omega, _, bytes, byte (by omega) rfl⟩
  case isFalse moreThanOne =>
    split at bytes
    case isTrue two =>
      exact .inr (.inl ⟨by omega, by omega, _, _, bytes, byte (by omega) (by omega),
        byte (by omega) rfl⟩)
    case isFalse moreThanTwo =>
      split at bytes
      case isTrue three =>
        exact .inr (.inr (.inl ⟨by omega, by omega, _, _, _, bytes, byte (by omega) (by omega),
          byte (by omega) rfl, byte (by omega) rfl⟩))
      case isFalse moreThanThree =>
        exact .inr (.inr (.inr ⟨by omega, _, _, _, _, bytes, byte (by omega) (by omega),
          byte (by omega) rfl, byte (by omega) rfl, byte (by omega) rfl⟩))

theorem encoded (c : Char) : ∃ lead tail, Encoded c lead tail := by
  have valid : c.toNat < 0xD800 ∨ 0xDFFF < c.toNat ∧ c.toNat < 0x110000 := c.valid
  rcases encodeChar_cases c with ⟨small, w, bytes, first⟩ | ⟨low, high, w, x, bytes, first, second⟩ |
    ⟨low, high, w, x, y, bytes, first, second, third⟩ |
    ⟨low, w, x, y, z, bytes, first, second, third, fourth⟩
  · have none : (followers w).1 = 0 := by
      rcases followers_cases w with none | ⟨large, _⟩
      · exact none
      · omega
    refine ⟨w, [], bytes, ?_, fun _ => by omega, by simp, none, by rw [tailOf, none]; rfl, ?_⟩
    · rw [← Bool.not_eq_true, isTail_iff]
      omega
    · rw [decodeChar, if_pos (by omega), first, Char.ofNat_toNat]
      rfl
  · have follows : followers w = (1, 0x80, 0xBF) := by
      rw [followers_eq, first, if_pos (by omega)]
    refine ⟨w, [x], .of_followers bytes follows (by omega) ?_ ?_⟩
    · simp [isTail_iff, second]
      omega
    · simp [leadValue, first, second]
      omega
  · obtain ⟨least, greatest, follows, inside⟩ : ∃ least greatest,
        followers w = (2, least, greatest) ∧ least ≤ x.toNat ∧ x.toNat ≤ greatest := by
      rw [followers_eq, first]
      repeat' split
      all_goals first | omega | exact ⟨_, _, rfl, by omega, by omega⟩
    refine ⟨w, [x, y], .of_followers bytes follows inside ?_ ?_⟩
    · simp [isTail_iff, second, third]
      omega
    · simp [leadValue, first, second, third]
      omega
  · obtain ⟨least, greatest, follows, inside⟩ : ∃ least greatest,
        followers w = (3, least, greatest) ∧ least ≤ x.toNat ∧ x.toNat ≤ greatest := by
      rw [followers_eq, first]
      repeat' split
      all_goals first | omega | exact ⟨_, _, rfl, by omega, by omega⟩
    refine ⟨w, [x, y, z], .of_followers bytes follows inside ?_ ?_⟩
    · simp [isTail_iff, second, third, fourth]
      omega
    · simp [leadValue, first, second, third, fourth]
      omega

/-! ## The bytes of a text -/

theorem encodeUtf8_cons (c : Char) (s : List Char) :
    encodeUtf8 (c :: s) = String.utf8EncodeChar c ++ encodeUtf8 s := rfl

theorem encodeUtf8_append (s t : List Char) : encodeUtf8 (s ++ t) = encodeUtf8 s ++ encodeUtf8 t :=
  List.flatMap_append

/-- The bytes behind a character stand apart from it. -/
theorem Encoded.parted {c : Char} {lead : UInt8} {tail : List UInt8} (encoded : Encoded c lead tail)
    (back : List UInt8) : Parted (lead :: tail) back :=
  ⟨tailOf_append (.inl (Nat.le_of_eq encoded.count)), parted_tails encoded.goesOn⟩

theorem decodeUtf8_encodeChar (c : Char) (back : List UInt8) :
    decodeUtf8 (String.utf8EncodeChar c ++ back) = c :: decodeUtf8 back := by
  obtain ⟨lead, tail, encoded⟩ := encoded c
  have skipped (tail : List UInt8) : decodeFrom tail.length tail = [] := by
    induction tail with
    | nil => rfl
    | cons b tail ih => exact ih
  rw [encoded.bytes, decodeUtf8_append (encoded.parted back)]
  simp [decodeUtf8, decodeFrom, encoded.read, skipped]

/-- A text is read back from its bytes. -/
theorem decodeUtf8_encodeUtf8 (s : List Char) : decodeUtf8 (encodeUtf8 s) = s := by
  induction s with
  | nil => rfl
  | cons c s ih => rw [encodeUtf8_cons, decodeUtf8_encodeChar, ih]

/-- A border between parted bytes of a text is one between two of its characters. -/
theorem split_of_parted (s : List Char) {front back : List UInt8} (parted : Parted front back)
    (whole : encodeUtf8 s = front ++ back) :
    ∃ t u, s = t ++ u ∧ front = encodeUtf8 t ∧ back = encodeUtf8 u := by
  induction s generalizing front with
  | nil =>
      obtain ⟨rfl, rfl⟩ := List.append_eq_nil_iff.mp whole.symm
      exact ⟨[], [], rfl, rfl, rfl⟩
  | cons c s ih =>
      cases front with
      | nil => exact ⟨[], c :: s, rfl, rfl, whole.symm⟩
      | cons first front =>
          obtain ⟨lead, tail, encoded⟩ := encoded c
          obtain ⟨here, others⟩ := parted
          rw [encodeUtf8_cons, encoded.bytes, List.cons_append, List.cons_append] at whole
          obtain ⟨rfl, behind⟩ := List.cons.inj whole
          -- the character takes no more than what stands in front of the border
          have taken : tailOf lead front = tail := by
            rw [← here, ← behind, (encoded.parted _).1, encoded.taken]
          obtain ⟨front', split⟩ := continuation_leads (followers lead).1 (followers lead).2.1
            (followers lead).2.2 front
          rw [tailOf] at taken
          rw [taken] at split
          subst split
          rw [List.append_assoc, List.append_cancel_left_eq] at behind
          obtain ⟨t, u, rfl, rfl, rfl⟩ := ih others.drop behind
          refine ⟨c :: t, u, rfl, ?_, rfl⟩
          rw [encodeUtf8_cons, encoded.bytes, List.cons_append]

end JsxPreview.Text
