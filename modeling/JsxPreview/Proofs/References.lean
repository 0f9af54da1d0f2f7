import JsxPreview.Proofs.JsxText
import JsxPreview.Proofs.Text.Numerals

/-! # Character references

`IsCharReference` is the grammar of what stands between `&` and `;`, and `Decodes` the scan by this
grammar: from the left, each reference gives its character and every other character is copied.
Decoding agrees with it, but for numbers with a plus sign in front (`IsSigned`), which are decoded as
well (`decodeReferences_eq_iff`). -/
set_option autoImplicit false
namespace JsxPreview.Source

open JsxPreview.Text

/-- What stands for a character between `&` and `;`: one of the listed names, or the number of the
character with decimal or hexadecimal digits. -/
inductive IsCharReference : List Char → Char → Prop
  | named {name : List Char} {c : Char} (listed : namedReference (String.ofList name) = some c) :
      IsCharReference name c
  | decimal {digits : List Char} {c : Char} (number : IsNumeral 10 digits c.toNat) :
      IsCharReference ('#' :: digits) c
  | hexadecimal {x : Char} {digits : List Char} {c : Char} (mark : x = 'x' ∨ x = 'X')
      (number : IsNumeral 16 digits c.toNat) : IsCharReference ('#' :: x :: digits) c

/-- The number of a character behind a plus sign. -/
inductive IsSigned : List Char → Char → Prop
  | decimal {digits : List Char} {c : Char} (number : IsNumeral 10 digits c.toNat) :
      IsSigned ('#' :: '+' :: digits) c
  | hexadecimal {x : Char} {digits : List Char} {c : Char} (mark : x = 'x' ∨ x = 'X')
      (number : IsNumeral 16 digits c.toNat) : IsSigned ('#' :: x :: '+' :: digits) c

/-- What follows an `&` goes on with something of at most ten bytes that is known, and a semicolon. -/
def Continues (known : List Char → Char → Prop) (s : List Char) (c : Char) (rest : List Char) : Prop :=
  ∃ body, s = body ++ ';' :: rest ∧ known body c ∧ byteLength body ≤ 10

/-- A text, and what it is decoded to in one pass from the left. -/
inductive Decodes : List Char → List Char → Prop
  | nil : Decodes [] []
  | reference {s rest t : List Char} {c : Char} (here : Continues IsCharReference s c rest)
      (behind : Decodes rest t) : Decodes ('&' :: s) (c :: t)
  | copy {c : Char} {s t : List Char}
      (unread : c = '&' → ∀ d rest, ¬ Continues IsCharReference s d rest) (behind : Decodes s t) :
      Decodes (c :: s) (c :: t)

/-- At some `&` of the text the number of a character follows behind a plus sign. -/
def HasSigned (s : List Char) : Prop :=
  ∃ behind c rest, '&' :: behind <:+ s ∧ Continues IsSigned behind c rest

/-! ## The grammar -/

theorem namedReference_letters {name : String} {c : Char} (listed : namedReference name = some c) :
    name.toList ≠ [] ∧ ∀ x ∈ name.toList, x.isAlpha = true := by
  have checked : name.toList ≠ [] ∧ name.toList.all Char.isAlpha = true := by
    unfold namedReference at listed
    split at listed
    case h_25 => cases listed
    all_goals decide
  exact ⟨checked.1, List.all_eq_true.mp checked.2⟩

/-- No delimiter is part of a reference, and none is empty. -/
theorem IsCharReference.plain {body : List Char} {c : Char} (reference : IsCharReference body c) :
    body ≠ [] ∧ '&' ∉ body ∧ ';' ∉ body := by
  have digits {base n : Nat} {s : List Char} (number : IsNumeral base s n) : '&' ∉ s ∧ ';' ∉ s :=
    ⟨number.not_mem rfl, number.not_mem rfl⟩
  cases reference with
  | named listed =>
      obtain ⟨filled, letters⟩ := namedReference_letters listed
      rw [String.toList_ofList] at filled letters
      exact ⟨filled, fun member => absurd (letters _ member) (by decide),
        fun member => absurd (letters _ member) (by decide)⟩
  | decimal number =>
      have plain := digits number
      simp [plain]
  | hexadecimal mark number =>
      have plain := digits number
      rcases mark with rfl | rfl <;> simp [plain]

theorem IsSigned.plain {body : List Char} {c : Char} (signed : IsSigned body c) :
    body ≠ [] ∧ '&' ∉ body ∧ ';' ∉ body := by
  cases signed with
  | decimal number =>
      have plain := (IsCharReference.decimal number).plain
      simpa using plain
  | hexadecimal mark number =>
      have plain := (IsCharReference.hexadecimal mark number).plain
      simp_all

/-- A sign is in no reference. -/
theorem IsCharReference.unsigned {body : List Char} {c : Char} (reference : IsCharReference body c) :
    '+' ∉ body := by
  have digits {base n : Nat} {s : List Char} (number : IsNumeral base s n) : '+' ∉ s :=
    number.not_mem rfl
  cases reference with
  | named listed =>
      have letters := (namedReference_letters listed).2
      rw [String.toList_ofList] at letters
      exact fun member => absurd (letters _ member) (by decide)
  | decimal number => simp [digits number]
  | hexadecimal mark number => rcases mark with rfl | rfl <;> simp [digits number]

theorem IsSigned.sign {body : List Char} {c : Char} (signed : IsSigned body c) : '+' ∈ body := by
  cases signed <;> simp

/-! ## What is read -/

theorem charOfCode?_eq_some_iff {n : Nat} {c : Char} : charOfCode? n = some c ↔ n = c.toNat := by
  unfold charOfCode?
  constructor
  · intro found
    by_cases valid : n.isValidChar
    · rw [dif_pos valid] at found
      cases found
      rfl
    · rw [dif_neg valid] at found
      cases found
  · rintro rfl
    exact dif_pos c.valid

/-- The number of a character is read with a plus sign in front and without one. -/
theorem readCode_eq_some_iff {base : Nat} {s : List Char} {c : Char} :
    (readUnsigned base (Nat.pow 2 32) s >>= charOfCode?) = some c ↔
      IsNumeral base s c.toNat ∨ ∃ t, s = '+' :: t ∧ IsNumeral base t c.toNat := by
  have bound : c.toNat < Nat.pow 2 32 := c.val.toNat_lt
  simp only [Option.bind_eq_bind, Option.bind_eq_some_iff, charOfCode?_eq_some_iff,
    exists_eq_right, readUnsigned_eq_some_iff, bound, true_and]

theorem referenceValue_eq_some_iff {body : List Char} {c : Char} :
    referenceValue body = some c ↔ IsCharReference body c ∨ IsSigned body c := by
  -- a body with a number sign is no name
  have unnamed {s : List Char} : namedReference (String.ofList ('#' :: s)) ≠ some c := by
    intro listed
    have letters := (namedReference_letters listed).2
    rw [String.toList_ofList] at letters
    exact absurd (letters '#' (List.mem_cons_self ..)) (by decide)
  have marked {x : Char} (mark : x = 'x' ∨ x = 'X') (s : List Char) :
      (readUnsigned 16 (Nat.pow 2 32) s >>= charOfCode?) = some c ↔
        IsCharReference ('#' :: x :: s) c ∨ IsSigned ('#' :: x :: s) c := by
    rw [readCode_eq_some_iff]
    constructor
    · rintro (number | ⟨t, rfl, number⟩)
      · exact .inl (.hexadecimal mark number)
      · exact .inr (.hexadecimal mark number)
    · rintro (reference | signed)
      · cases reference with
        | named listed => exact absurd listed unnamed
        | hexadecimal _ number => exact .inl number
        | decimal number =>
            refine absurd (List.mem_cons_self ..) (number.not_mem ?_)
            rcases mark with rfl | rfl <;> rfl
      · cases signed with
        | hexadecimal _ number => exact .inr ⟨_, rfl, number⟩
        | decimal number => rcases mark with mark | mark <;> cases mark
  unfold referenceValue
  split
  case h_1 s => exact marked (.inl rfl) s
  case h_2 s => exact marked (.inr rfl) s
  case h_3 s lower upper =>
    rw [readCode_eq_some_iff]
    constructor
    · rintro (number | ⟨t, rfl, number⟩)
      · exact .inl (.decimal number)
      · exact .inr (.decimal number)
    · rintro (reference | signed)
      · cases reference with
        | named listed => exact absurd listed unnamed
        | decimal number => exact .inl number
        | hexadecimal mark _ =>
            rcases mark with rfl | rfl
            · exact absurd rfl (lower _)
            · exact absurd rfl (upper _)
      · cases signed with
        | decimal number => exact .inr ⟨_, rfl, number⟩
        | hexadecimal mark _ =>
            rcases mark with rfl | rfl
            · exact absurd rfl (lower _)
            · exact absurd rfl (upper _)
  case h_4 lower upper other =>
    constructor
    · exact fun listed => .inl (.named listed)
    · rintro (reference | signed)
      · cases reference with
        | named listed => exact listed
        | decimal _ => exact absurd rfl (other _)
        | hexadecimal _ _ => exact absurd rfl (other _)
      · cases signed with
        | decimal _ => exact absurd rfl (other _)
        | hexadecimal _ _ => exact absurd rfl (other _)

/-- The character of a reference is its own. -/
theorem IsCharReference.unique {body : List Char} {c d : Char} (first : IsCharReference body c)
    (second : IsCharReference body d) : c = d := by
  have same := (referenceValue_eq_some_iff.mpr (.inl first)).symm.trans
    (referenceValue_eq_some_iff.mpr (.inl second))
  exact Option.some.inj same

/-! ## What follows an `&` -/

/-- A reference of at most ten bytes is decoded, and one with a sign too. -/
theorem decodeFrom_continues {s rest : List Char} {c : Char}
    (here : Continues IsCharReference s c rest ∨ Continues IsSigned s c rest) :
    decodeFrom 0 ('&' :: s) = c :: decodeFrom 0 rest := by
  have decoded {body : List Char} (plain : body ≠ [] ∧ '&' ∉ body ∧ ';' ∉ body)
      (short : byteLength body ≤ 10) (value : referenceValue body = some c) :
      decodeFrom 0 ('&' :: (body ++ ';' :: rest)) = c :: decodeFrom 0 rest := by
    refine decodeFrom_reference plain.2.2 ⟨?_, short⟩ value rest
    cases body with
    | nil => exact absurd rfl plain.1
    | cons x body => exact Nat.add_pos_left x.utf8Size_pos _
  rcases here with ⟨body, rfl, reference, short⟩ | ⟨body, rfl, signed, short⟩
  · exact decoded reference.plain short (referenceValue_eq_some_iff.mpr (.inl reference))
  · exact decoded signed.plain short (referenceValue_eq_some_iff.mpr (.inr signed))

/-- Any other `&` is copied. -/
theorem decodeFrom_ampersand {s : List Char}
    (noReference : ∀ c rest, ¬ Continues IsCharReference s c rest)
    (noSigned : ∀ c rest, ¬ Continues IsSigned s c rest) :
    decodeFrom 0 ('&' :: s) = '&' :: decodeFrom 0 s := by
  have nothing : referenceAt s = none := by
    simp only [referenceAt]
    split
    case isFalse => rfl
    case isTrue ends =>
      obtain ⟨before, -, short⟩ := ends
      rw [Option.map_eq_none_iff, ← Option.not_isSome_iff_eq_none, Option.isSome_iff_exists]
      rintro ⟨c, value⟩
      -- what is left behind the body starts with its semicolon
      obtain ⟨rest, split⟩ : ∃ rest, s = s.takeWhile (· != ';') ++ ';' :: rest := by
        have whole := List.takeWhile_append_dropWhile (p := (· != ';')) (l := s)
        cases behind : s.dropWhile (· != ';') with
        | nil =>
            rw [behind, List.append_nil] at whole
            rw [whole] at before
            exact absurd before (Nat.lt_irrefl _)
        | cons x rest =>
            have first := List.head?_dropWhile_not (· != ';') s
            rw [behind] at first
            have semicolon : x = ';' := by simpa using first
            rw [semicolon] at behind
            exact ⟨rest, by rw [← behind, whole]⟩
      rcases referenceValue_eq_some_iff.mp value with reference | signed
      · exact noReference c rest ⟨_, split, reference, short⟩
      · exact noSigned c rest ⟨_, split, signed, short⟩
  rw [decodeFrom, nothing]

/-! ## The scan -/

/-- Every text is decoded to one text. -/
theorem Decodes.exists_of (s : List Char) : ∃ t, Decodes s t := by
  induction length : s.length using Nat.strongRecOn generalizing s with
  | ind n ih =>
      cases s with
      | nil => exact ⟨[], .nil⟩
      | cons c s =>
          by_cases read : c = '&' ∧ ∃ d rest, Continues IsCharReference s d rest
          · obtain ⟨rfl, d, rest, here⟩ := read
            obtain ⟨body, rfl, -⟩ := id here
            rw [List.length_cons, List.length_append, List.length_cons] at length
            obtain ⟨t, behind⟩ := ih rest.length (by omega) rest rfl
            exact ⟨d :: t, .reference here behind⟩
          · rw [List.length_cons] at length
            obtain ⟨t, behind⟩ := ih s.length (by omega) s rfl
            exact ⟨c :: t, .copy (fun same d rest here => read ⟨same, d, rest, here⟩) behind⟩

theorem Decodes.unique {s t : List Char} (first : Decodes s t) :
    ∀ {t' : List Char}, Decodes s t' → t = t' := by
  induction first with
  | nil =>
      intro t' second
      cases second
      rfl
  | @reference s rest t c here _ ih =>
      intro t' second
      cases second with
      | copy unread _ => exact absurd here (unread rfl c rest)
      | reference here' behind =>
          obtain ⟨body, rfl, known, -⟩ := here
          obtain ⟨body', same, known', -⟩ := here'
          obtain ⟨rfl, rfl⟩ := append_sep_unique known.plain.2.2 known'.plain.2.2 same
          rw [known.unique known', ih behind]
  | @copy c s t unread _ ih =>
      intro t' second
      cases second with
      | reference here _ => exact absurd here (unread rfl _ _)
      | copy _ behind => rw [ih behind]

/-- Characters other than `&` are copied one by one. -/
theorem Decodes.behind {plain rest : List Char} (noStart : '&' ∉ plain) :
    ∀ {t : List Char}, Decodes (plain ++ rest) t → ∃ t', t = plain ++ t' ∧ Decodes rest t' := by
  induction plain with
  | nil => exact fun decodes => ⟨_, rfl, decodes⟩
  | cons c plain ih =>
      intro t decodes
      rw [List.mem_cons, not_or] at noStart
      cases decodes with
      | reference _ _ => exact absurd rfl noStart.1
      | copy _ behind =>
          obtain ⟨t', rfl, rest⟩ := ih noStart.2 behind
          exact ⟨t', rfl, rest⟩

/-! ## Signs -/

theorem hasSigned_cons {c : Char} {s : List Char} : HasSigned (c :: s) ↔
    (c = '&' ∧ ∃ d rest, Continues IsSigned s d rest) ∨ HasSigned s := by
  constructor
  · rintro ⟨behind, d, rest, within, here⟩
    rcases List.suffix_cons_iff.mp within with same | within
    · cases same
      exact .inl ⟨rfl, d, rest, here⟩
    · exact .inr ⟨behind, d, rest, within, here⟩
  · rintro (⟨rfl, d, rest, here⟩ | ⟨behind, d, rest, within, here⟩)
    · exact ⟨s, d, rest, List.suffix_rfl, here⟩
    · exact ⟨behind, d, rest, within.trans (List.suffix_cons ..), here⟩

/-- No sign counts in front of the first `&`. -/
theorem hasSigned_append {plain : List Char} (noStart : '&' ∉ plain) (s : List Char) :
    HasSigned (plain ++ s) ↔ HasSigned s := by
  induction plain with
  | nil => exact Iff.rfl
  | cons c plain ih =>
      rw [List.mem_cons, not_or] at noStart
      rw [List.cons_append, hasSigned_cons, ih noStart.2, or_iff_right]
      exact fun start => noStart.1 start.1.symm

theorem hasSigned_behind {body rest : List Char} (plain : '&' ∉ body) :
    HasSigned (body ++ ';' :: rest) ↔ HasSigned rest := by
  have noStart : '&' ∉ body ++ [';'] := by
    rw [List.mem_append, not_or]
    exact ⟨plain, by decide⟩
  rw [← hasSigned_append noStart rest, List.append_assoc]
  rfl

/-- Where a reference stands no signed number does. -/
theorem Continues.unsigned {s rest rest' : List Char} {c d : Char}
    (here : Continues IsCharReference s c rest) : ¬ Continues IsSigned s d rest' := by
  rintro ⟨body', same, signed, -⟩
  obtain ⟨body, rfl, reference, -⟩ := here
  obtain ⟨rfl, -⟩ := append_sep_unique reference.plain.2.2 signed.plain.2.2 same
  exact reference.unsigned signed.sign

/-- Without a sign a text is decoded by the grammar. -/
theorem Decodes.decodeReferences_eq {s t : List Char} (decodes : Decodes s t)
    (unsigned : ¬ HasSigned s) : decodeReferences s = t := by
  rw [decodeReferences]
  induction decodes with
  | nil => rfl
  | @reference s rest t c here _ ih =>
      rw [decodeFrom_continues (.inl here), ih]
      intro signed
      obtain ⟨body, rfl, known, -⟩ := here
      exact unsigned (hasSigned_cons.mpr (.inr ((hasSigned_behind known.plain.2.1).mpr signed)))
  | @copy c s t unread _ ih =>
      rw [hasSigned_cons, not_or] at unsigned
      by_cases start : c = '&'
      · subst start
        rw [decodeFrom_ampersand (unread rfl) fun d rest here => unsigned.1 ⟨rfl, d, rest, here⟩,
          ih unsigned.2]
      · rw [decodeFrom, ih unsigned.2]
        exact start

/-- Each sign makes what is decoded shorter. -/
theorem Decodes.length_decodeReferences {s t : List Char} (decodes : Decodes s t) :
    (decodeReferences s).length ≤ t.length ∧
      (HasSigned s → (decodeReferences s).length < t.length) := by
  induction length : s.length using Nat.strongRecOn generalizing s t with
  | ind n ih =>
      rw [decodeReferences]
      cases decodes with
      | nil =>
          refine ⟨Nat.le_refl _, ?_⟩
          rintro ⟨behind, _, _, within, _⟩
          exact absurd (List.suffix_nil.mp within) (List.cons_ne_nil _ _)
      | @reference s rest t c here behind =>
          have decoded := decodeFrom_continues (.inl here)
          have unsigned (d : Char) (rest' : List Char) : ¬ Continues IsSigned s d rest' := here.unsigned
          obtain ⟨body, rfl, known, -⟩ := here
          rw [List.length_cons, List.length_append, List.length_cons] at length
          obtain ⟨le, lt⟩ := ih rest.length (by omega) behind rfl
          rw [decodeReferences] at le lt
          rw [decoded, hasSigned_cons, hasSigned_behind known.plain.2.1, List.length_cons,
            List.length_cons]
          refine ⟨Nat.succ_le_succ le, ?_⟩
          rintro (⟨-, d, rest', signed⟩ | signed)
          · exact absurd signed (unsigned d rest')
          · exact Nat.succ_lt_succ (lt signed)
      | @copy c s t unread behind =>
          rw [List.length_cons] at length
          by_cases signed : c = '&' ∧ ∃ d rest, Continues IsSigned s d rest
          · obtain ⟨rfl, d, rest, here⟩ := signed
            have decoded := decodeFrom_continues (.inr here)
            obtain ⟨body, rfl, known, -⟩ := here
            -- the grammar copies the signed number and its semicolon
            have noStart : '&' ∉ body ++ [';'] := by
              rw [List.mem_append, not_or]
              exact ⟨known.plain.2.1, by decide⟩
            rw [show body ++ ';' :: rest = (body ++ [';']) ++ rest by simp] at behind
            obtain ⟨t', rfl, later⟩ := behind.behind noStart
            rw [List.length_append, List.length_cons] at length
            obtain ⟨le, -⟩ := ih rest.length (by omega) later rfl
            rw [decodeReferences] at le
            rw [decoded]
            simp only [List.length_cons, List.length_append, List.length_nil]
            exact ⟨by omega, fun _ => by omega⟩
          · obtain ⟨le, lt⟩ := ih s.length (by omega) behind rfl
            rw [decodeReferences] at le lt
            have copied : decodeFrom 0 (c :: s) = c :: decodeFrom 0 s := by
              by_cases start : c = '&'
              · subst start
                exact decodeFrom_ampersand (unread rfl) fun d rest here => signed ⟨rfl, d, rest, here⟩
              · rw [decodeFrom]
                exact start
            rw [copied, hasSigned_cons, or_iff_right signed, List.length_cons, List.length_cons]
            exact ⟨Nat.succ_le_succ le, fun has => Nat.succ_lt_succ (lt has)⟩

/-! ## Texts written with references -/

/-- A character is written as its named reference, or as itself unless it is an `&`. -/
def IsWritten (c : Char) (part : List Char) : Prop :=
  (∃ name, namedReference (String.ofList name) = some c ∧ part = '&' :: (name ++ [';'])) ∨
    c ≠ '&' ∧ part = [c]

theorem namedReference_short {name : String} {c : Char} (listed : namedReference name = some c) :
    byteLength name.toList ≤ 10 := by
  unfold namedReference at listed
  split at listed
  case h_25 => cases listed
  all_goals decide

theorem IsWritten.decodeFrom {c : Char} {part : List Char} (written : IsWritten c part)
    (rest : List Char) : decodeFrom 0 (part ++ rest) = c :: decodeFrom 0 rest := by
  rcases written with ⟨name, listed, rfl⟩ | ⟨plain, rfl⟩
  · have short := namedReference_short listed
    rw [String.toList_ofList] at short
    rw [List.cons_append, List.append_assoc]
    exact decodeFrom_continues (.inl ⟨name, rfl, .named listed, short⟩)
  · rw [List.singleton_append, Source.decodeFrom]
    exact plain

/-- What is written character by character is decoded to what was written. -/
theorem decodeReferences_parts {s : List Char} {parts : List (List Char)}
    (written : List.Forall₂ IsWritten s parts) : decodeReferences parts.flatten = s := by
  rw [decodeReferences]
  induction written with
  | nil => rfl
  | cons here _ ih => rw [List.flatten_cons, here.decodeFrom, ih]

/-! ## What is decoded -/

/-- Decoding gives the one text that the grammar gives if and only if there is no signed number, and
what is written with named references is decoded to what was written. -/
theorem decodeReferences_eq_iff (s : List Char) :
    (∃ t, (∀ t', Decodes s t' ↔ t' = t) ∧ (decodeReferences s = t ↔ ¬ HasSigned s)) ∧
      ∀ parts, List.Forall₂ IsWritten s parts → decodeReferences parts.flatten = s := by
  obtain ⟨t, decodes⟩ := Decodes.exists_of s
  refine ⟨⟨t, fun t' => ⟨fun other => (decodes.unique other).symm, fun same => same ▸ decodes⟩, ?_⟩,
    fun parts written => decodeReferences_parts written⟩
  refine ⟨fun same signed => ?_, decodes.decodeReferences_eq⟩
  have shorter := decodes.length_decodeReferences.2 signed
  rw [same] at shorter
  exact absurd shorter (Nat.lt_irrefl _)

/-- A plus sign in front of the digits is no reason to copy the reference. -/
theorem decodeReferences_plus :
    Decodes "&#+65;".toList "&#+65;".toList ∧ decodeReferences "&#+65;".toList = ['A'] := by
  have number : IsNumeral 10 ['6', '5'] 'A'.toNat :=
    ⟨by decide, [6, 5], .cons ⟨rfl, by decide⟩ (.cons ⟨rfl, by decide⟩ .nil), by decide⟩
  have here : Continues IsSigned ['#', '+', '6', '5', ';'] 'A' [] :=
    ⟨['#', '+', '6', '5'], rfl, .decimal number, by decide⟩
  refine ⟨.copy (fun _ d rest reference => reference.unsigned here) ?_, by decide⟩
  have copied {c : Char} {s t : List Char} (plain : c ≠ '&') (behind : Decodes s t) :
      Decodes (c :: s) (c :: t) := .copy (fun same => absurd same plain) behind
  exact copied (by decide) (copied (by decide) (copied (by decide) (copied (by decide)
    (copied (by decide) .nil))))

end JsxPreview.Source
