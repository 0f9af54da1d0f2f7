import Mathlib
import JsxPreview.Proofs.SourceMap.Lookup
import JsxPreview.Report.Translation

/-! # Numbers of any length

`IsSpelledText` says which digits a text of mappings consists of, and every other text is refused
(`decodeMappings_eq_ok_iff`).  A number is what its digits add up to in a word (`wordNumber`); where the
digits from the fourteenth on are zero it is, as far as the mappings keep it, what they add up to
without a bound (`wordNumber_modEq`).  The mappings keep their fields modulo two to the
thirty-second, so all that counts of the numbers are the residues of their sums (`marksOf_eq_iff`). -/
set_option autoImplicit false
namespace JsxPreview.SourceMap.Vlq

open JsxPreview.Text

/-! ## Digits -/

/-- Digits as characters, the lowest first; all but the last say that a digit follows. -/
def spell : List Nat → List Char
  | [] => []
  | [d] => [digitChar d]
  | d :: e :: digits => digitChar (d + 32) :: spell (e :: digits)

/-- Digits of five bits, at least one. -/
def IsNumber (digits : List Nat) : Prop := digits ≠ [] ∧ ∀ d ∈ digits, d < 32

/-- The number that has its sign as the lowest bit. -/
def signed (n : Nat) : Int := if n % 2 = 1 then -((n / 2 : Nat) : Int) else (n / 2 : Nat)

/-- The number that digits stand for. -/
def exactNumber (digits : List Nat) : Int := signed (Nat.ofDigits 32 digits)

/-- The sum of digits of which the first is shifted by `shift`, each as far as a word allows. -/
def shiftedSum (shift : Nat) : List Nat → Nat
  | [] => 0
  | d :: digits => d * 2 ^ (shift % 64) + shiftedSum (shift + 5) digits

/-- The number that digits stand for in words of sixty-four bits. -/
def wordNumber (digits : List Nat) : Int := unfoldSign (shiftedSum 0 digits % 2 ^ 64)

/-- A segment consists of the digits of one, four or five numbers. -/
def IsSpelled (segment : List Char) (numbers : List (List Nat)) : Prop :=
  segment = numbers.flatMap spell ∧ (∀ digits ∈ numbers, IsNumber digits) ∧
    numbers.length ∈ [1, 4, 5]

/-- The digits of a text of mappings: rows between semicolons, segments between commas. -/
def IsSpelledText (text : String) (rows : List (List (List (List Nat)))) : Prop :=
  List.Forall₂ (fun line row => List.Forall₂ IsSpelled (segmentsOf line) row)
    (splitOn ';' text.toList) rows

/-- The numbers of rows, each as `value` has it. -/
def numbersOf (value : List Nat → Int) (rows : List (List (List (List Nat)))) :
    List (List (List Int)) :=
  rows.map (List.map (List.map value))

theorem digitValue_eq_ok {c : Char} {n : Nat} (value : digitValue c = .ok n) :
    n < 64 ∧ c = digitChar n := by
  have ascii : c.toNat < 128 := by
    by_contra beyond
    have past {last : Char} (low : last.toNat < 128) : ¬ c ≤ last := fun le =>
      beyond (Nat.lt_of_le_of_lt (UInt32.le_iff_toNat_le.mp le) low)
    have other {x : Char} (low : x.toNat < 128) : c ≠ x := fun same => beyond (same ▸ low)
    rw [digitValue, if_neg fun range => past (by decide) range.2,
      if_neg fun range => past (by decide) range.2, if_neg fun range => past (by decide) range.2,
      if_neg (other (by decide)), if_neg (other (by decide))] at value
    cases value
  have all : ∀ k < 128, (digitValue (Char.ofNat k)).toOption.all fun n =>
      decide (n < 64 ∧ Char.ofNat k = digitChar n) := by decide
  have here := all c.toNat ascii
  rw [Char.ofNat_toNat, value] at here
  exact of_decide_eq_true here

/-- A number is read up to its last digit, whatever stands behind it. -/
theorem decodeDigits_spell (digits : List Nat) : ∀ (value shift : Nat) (pending : Bool)
    (rest : List Char), IsNumber digits →
    decodeDigits value shift pending (spell digits ++ rest) = do
      let values ← decodeDigits 0 0 false rest
      return unfoldSign ((value + shiftedSum shift digits) % 2 ^ 64) :: values := by
  induction digits with
  | nil => exact fun _ _ _ _ number => absurd rfl number.1
  | cons d digits ih =>
      intro value shift pending rest ⟨_, small⟩
      have below : d < 32 := small d (List.mem_cons_self ..)
      cases digits with
      | nil =>
          rw [spell, List.singleton_append, decodeDigits,
            bind_of_ok (digitValue_digitChar (by omega : d < 64))]
          simp only [if_pos below, Nat.mod_eq_of_lt below, Nat.pow_eq, shiftedSum, Nat.add_zero]
      | cons e digits =>
          have behind : IsNumber (e :: digits) :=
            ⟨List.cons_ne_nil _ _, fun d' member => small d' (List.mem_cons_of_mem _ member)⟩
          rw [spell, List.cons_append, decodeDigits,
            bind_of_ok (digitValue_digitChar (by omega : d + 32 < 64)), shiftedSum]
          simp only [if_neg (by omega : ¬ d + 32 < 32), Nat.add_mod_right, Nat.mod_eq_of_lt below,
            Nat.pow_eq]
          rw [ih _ _ _ _ behind, Nat.mod_add_mod, Nat.add_assoc]

/-- What is read consists of numbers; a number that is pending has its end there. -/
theorem spelled_of_decodeDigits (s : List Char) : ∀ {value shift : Nat} {pending : Bool}
    {values : List Int}, decodeDigits value shift pending s = .ok values →
    ∃ numbers, s = numbers.flatMap spell ∧ (∀ digits ∈ numbers, IsNumber digits) ∧
      (pending = true → numbers ≠ []) := by
  induction s with
  | nil =>
      intro value shift pending values read
      cases pending with
      | true => cases read
      | false => exact ⟨[], rfl, nofun, nofun⟩
  | cons c s ih =>
      intro value shift pending values read
      rw [decodeDigits] at read
      obtain ⟨n, digit, rest⟩ := ok_of_bind read
      obtain ⟨below, rfl⟩ := digitValue_eq_ok digit
      by_cases last : n < 32
      · simp only [if_pos last] at rest
        obtain ⟨_, behind, -⟩ := ok_of_bind rest
        obtain ⟨numbers, rfl, all, -⟩ := ih behind
        refine ⟨[n] :: numbers, rfl, List.forall_mem_cons.mpr ⟨⟨List.cons_ne_nil _ _, ?_⟩, all⟩,
          fun _ => List.cons_ne_nil _ _⟩
        exact List.forall_mem_singleton.mpr last
      · simp only [if_neg last] at rest
        obtain ⟨numbers, rfl, all, more⟩ := ih rest
        obtain ⟨digits, others, rfl⟩ := List.exists_cons_of_ne_nil (more rfl)
        obtain ⟨⟨nonempty, small⟩, behind⟩ := List.forall_mem_cons.mp all
        obtain ⟨e, digits, rfl⟩ := List.exists_cons_of_ne_nil nonempty
        refine ⟨((n - 32) :: e :: digits) :: others, ?_,
          List.forall_mem_cons.mpr ⟨⟨List.cons_ne_nil _ _, ?_⟩, behind⟩, fun _ => List.cons_ne_nil _ _⟩
        · rw [List.flatMap_cons, List.flatMap_cons, spell, List.cons_append,
            Nat.sub_add_cancel (by omega)]
        · exact List.forall_mem_cons.mpr ⟨by omega, small⟩

/-! ## Segments and texts -/

theorem decodeSegment_spelled {numbers : List (List Nat)}
    (all : ∀ digits ∈ numbers, IsNumber digits) :
    decodeSegment (numbers.flatMap spell) = .ok (numbers.map wordNumber) := by
  induction numbers with
  | nil => rfl
  | cons digits numbers ih =>
      obtain ⟨first, all⟩ := List.forall_mem_cons.mp all
      have rest := ih all
      rw [decodeSegment] at rest
      rw [decodeSegment, List.flatMap_cons, decodeDigits_spell _ _ _ _ _ first, bind_of_ok rest,
        Nat.zero_add]
      rfl

theorem isSegment_iff (segment : List Char) (fields : List Int) :
    IsSegment segment fields ↔
      ∃ numbers, IsSpelled segment numbers ∧ numbers.map wordNumber = fields := by
  constructor
  · rintro ⟨read, count⟩
    obtain ⟨numbers, rfl, all, -⟩ := spelled_of_decodeDigits segment read
    obtain rfl := Except.ok.inj ((decodeSegment_spelled all).symm.trans read)
    rw [List.length_map] at count
    exact ⟨numbers, ⟨rfl, all, count⟩, rfl⟩
  · rintro ⟨numbers, ⟨rfl, all, count⟩, rfl⟩
    refine ⟨decodeSegment_spelled all, ?_⟩
    rwa [List.length_map]

/-- A list of images stands in a relation to a list just where the images of one do. -/
theorem forall₂_image_iff {α β γ : Type} {r : α → γ → Prop} {q : α → β → Prop} {f : β → γ}
    (image : ∀ a c, r a c ↔ ∃ b, q a b ∧ f b = c) {as : List α} {cs : List γ} :
    List.Forall₂ r as cs ↔ ∃ bs, List.Forall₂ q as bs ∧ bs.map f = cs := by
  constructor
  · intro all
    induction all with
    | nil => exact ⟨[], .nil, rfl⟩
    | cons first _ ih =>
        obtain ⟨b, here, rfl⟩ := (image _ _).mp first
        obtain ⟨bs, behind, rfl⟩ := ih
        exact ⟨b :: bs, .cons here behind, rfl⟩
  · rintro ⟨bs, all, rfl⟩
    induction all with
    | nil => exact .nil
    | cons first _ ih => exact .cons ((image _ _).mpr ⟨_, first, rfl⟩) ih

theorem isRows_iff {text : String} {rows : List (List (List Int))} :
    IsRows text rows ↔
      ∃ spelled, IsSpelledText text spelled ∧ numbersOf wordNumber spelled = rows := by
  have row (segments : List (List Char)) (fields : List (List Int)) :
      List.Forall₂ IsSegment segments fields ↔
        ∃ numbers, List.Forall₂ IsSpelled segments numbers ∧
          numbers.map (List.map wordNumber) = fields :=
    forall₂_image_iff isSegment_iff
  exact forall₂_image_iff fun line fields => row (segmentsOf line) fields

/-! ## Success -/

/-- The mappings of rows of numbers, with the sums of these numbers modulo a word. -/
def mappingsOf (rows : List (List (List Int))) : Mappings :=
  ⟨(List.range rows.length).map fun i => byColumn (marksOf rows i)⟩

theorem decodeLine_ok {segments : List (List Char)} {row : List (List Int)}
    (read : List.Forall₂ IsSegment segments row) :
    ∀ (line : UInt32) (st : State), ∃ result, decodeLine line st segments = .ok result := by
  induction read with
  | nil => exact fun line st => ⟨_, rfl⟩
  | @cons segment fields segments row first _ ih =>
      intro line st
      obtain ⟨decoded, count⟩ := first
      rw [decodeLine, bind_of_ok decoded]
      rcases fields with _ | ⟨column, _ | ⟨source, _ | ⟨original, _ | ⟨originalColumn, more⟩⟩⟩⟩
      · simp at count
      · exact ih _ _
      · simp at count
      · simp at count
      · rcases more with _ | ⟨name, _ | ⟨another, more⟩⟩
        · obtain ⟨result, behind⟩ := ih line ⟨st.column + column, st.source + source,
            st.line + original, st.originalColumn + originalColumn, st.name + 0⟩
          exact ⟨_, bind_of_ok behind⟩
        · obtain ⟨result, behind⟩ := ih line ⟨st.column + column, st.source + source,
            st.line + original, st.originalColumn + originalColumn, st.name + name⟩
          exact ⟨_, bind_of_ok behind⟩
        · simp at count

theorem decodeLines_ok {lines : List (List (List Char))} {rows : List (List (List Int))}
    (read : List.Forall₂ (fun segments row => List.Forall₂ IsSegment segments row) lines rows) :
    ∀ (current : Nat) (st : State), ∃ result, decodeLines current st lines = .ok result := by
  induction read with
  | nil => exact fun current st => ⟨_, rfl⟩
  | cons first _ ih =>
      intro current st
      obtain ⟨⟨ms, final⟩, here⟩ := decodeLine_ok first (UInt32.ofNat current) { st with column := 0 }
      obtain ⟨lines, behind⟩ := ih (current + 1) final
      rw [decodeLines, bind_of_ok here]
      exact ⟨_, bind_of_ok behind⟩

/-- A text is read just where it consists of numbers. -/
theorem decodeMappings_eq_ok_iff {text : String} {mappings : Mappings} :
    decodeMappings text = .ok mappings ↔
      ∃ rows, IsSpelledText text rows ∧ mappings = mappingsOf (numbersOf wordNumber rows) := by
  have marks {mappings : Mappings} (read : decodeMappings text = .ok mappings) :
      ∃ rows, IsRows text rows ∧ mappings = mappingsOf rows := by
    obtain ⟨rows, isRows, lines⟩ := decodeMappings_marks read
    exact ⟨rows, isRows, congrArg Mappings.mk lines⟩
  constructor
  · intro read
    obtain ⟨_, isRows, same⟩ := marks read
    obtain ⟨rows, spelled, rfl⟩ := isRows_iff.mp isRows
    exact ⟨rows, spelled, same⟩
  · rintro ⟨rows, spelled, rfl⟩
    have isRows := isRows_iff.mpr ⟨rows, spelled, rfl⟩
    obtain ⟨lines, read⟩ := decodeLines_ok (List.forall₂_map_left_iff.mpr isRows) 0 {}
    have read : decodeMappings text = .ok ⟨lines⟩ := bind_of_ok read
    obtain ⟨rows', isRows', same⟩ := marks read
    rw [read, same, isRows'.unique isRows]

/-! ## Residues -/

/-- The sign and the half of a number do not depend on what lies above a word. -/
theorem unfoldSign_modEq (n : Nat) : unfoldSign (n % 2 ^ 64) ≡ signed n [ZMOD 2 ^ 32] := by
  have half : Int.bmod (n % 2 ^ 64 : Nat) (Nat.pow 2 64) / 2 ≡ (n / 2 : Nat) [ZMOD 2 ^ 32] := by
    unfold Int.ModEq
    rw [Nat.pow_eq, Int.bmod_def]
    split <;> omega
  have sign : n % 2 ^ 64 % 2 = n % 2 := Nat.mod_mod_of_dvd n (by decide)
  unfold unfoldSign signed
  simp only [sign]
  split
  · exact half.neg
  · exact half

/-- Where no digit counts that is shifted by a word or more, words add up what the digits do. -/
theorem shiftedSum_eq {digits : List Nat} : ∀ k : Nat, (∀ d ∈ digits.drop (13 - k), d = 0) →
    shiftedSum (5 * k) digits = 2 ^ (5 * k) * Nat.ofDigits 32 digits := by
  induction digits with
  | nil => exact fun k _ => rfl
  | cons d digits ih =>
      intro k zeros
      have here : d * 2 ^ (5 * k % 64) = d * 2 ^ (5 * k) ∧ ∀ e ∈ digits.drop (13 - (k + 1)), e = 0 := by
        by_cases early : k < 13
        · rw [show 13 - k = 13 - (k + 1) + 1 by omega, List.drop_succ_cons] at zeros
          exact ⟨by rw [Nat.mod_eq_of_lt (by omega)], zeros⟩
        · rw [show 13 - k = 0 by omega, List.drop_zero] at zeros
          obtain ⟨zero, behind⟩ := List.forall_mem_cons.mp zeros
          rw [show 13 - (k + 1) = 0 by omega, List.drop_zero, zero]
          exact ⟨by rw [Nat.zero_mul, Nat.zero_mul], behind⟩
      rw [shiftedSum, here.1, show 5 * k + 5 = 5 * (k + 1) by ring, ih (k + 1) here.2,
        Nat.ofDigits_cons]
      ring

theorem wordNumber_modEq {digits : List Nat} (zeros : ∀ d ∈ digits.drop 13, d = 0) :
    wordNumber digits ≡ exactNumber digits [ZMOD 2 ^ 32] := by
  have sum := shiftedSum_eq 0 zeros
  rw [Nat.mul_zero, Nat.pow_zero, Nat.one_mul] at sum
  rw [wordNumber, exactNumber, ← sum]
  exact unfoldSign_modEq _

/-- A field keeps the residue of a number. -/
theorem ofInt_eq_iff {a b : Int} : UInt32.ofInt a = UInt32.ofInt b ↔ a ≡ b [ZMOD 2 ^ 32] := by
  rw [← UInt32.toNat_inj, UInt32.ofInt, UInt32.ofInt, UInt32.toNat_ofNat', UInt32.toNat_ofNat',
    Int.ModEq]
  omega

/-- The sum of the numbers in one place, kept as a signed word of sixty-four bits. -/
def wordTotal (place : Nat) (segments : List (List Int)) : Int :=
  segments.foldl (fun sum fields => Int.bmod (sum + fields.getD place 0) (2 ^ 64)) 0

/-- A sum that overflows keeps its residue. -/
theorem wordTotal_modEq (place : Nat) (segments : List (List Int)) :
    wordTotal place segments ≡ total place segments [ZMOD 2 ^ 32] := by
  induction segments using List.reverseRecOn with
  | nil => rfl
  | append_singleton segments fields ih =>
      have word (a : Int) : Int.bmod a (2 ^ 64) ≡ a [ZMOD 2 ^ 32] := by
        have whole : Int.bmod a (2 ^ 64) ≡ a [ZMOD ((2 ^ 64 : Nat) : Int)] := Int.bmod_emod
        exact whole.of_dvd (by decide)
      rw [total_concat, wordTotal, List.foldl_append]
      exact (word _).trans (ih.add_right _)

/-- Three of the largest numbers that fit are too much. -/
example : wordTotal 0 (List.replicate 3 [2 ^ 62 - 1]) < 0 := by decide

/-! ## Exact fields -/

/-- The numbers in one place of segments have the same residue as a sum, in words and without a
bound. -/
def SumsAgree (place : Nat) (segments : List (List (List Nat))) : Prop :=
  total place (segments.map (List.map wordNumber)) ≡
    total place (segments.map (List.map exactNumber)) [ZMOD 2 ^ 32]

/-- The sums agree that make up the mapping of the last segment of `here`, the beginning of a line
behind the segments `before`. -/
def IsExactMark (before here : List (List (List Nat))) : Prop :=
  (4 ≤ (here.getLastD []).length →
    SumsAgree 0 here ∧ ∀ place ∈ [1, 2, 3], SumsAgree place (before ++ here)) ∧
  (5 ≤ (here.getLastD []).length → SumsAgree 4 (before ++ here))

/-- The sums agree that make up the mappings of rows. -/
def IsExact (rows : List (List (List (List Nat)))) : Prop :=
  ∀ line i, i < (rows.getD line []).length →
    IsExactMark (rows.take line).flatten ((rows.getD line []).take (i + 1))

theorem total_cons (place : Nat) (fields : List Int) (segments : List (List Int)) :
    total place (fields :: segments) = fields.getD place 0 + total place segments := rfl

theorem sumsAgree_of_numbers {segments : List (List (List Nat))}
    (agree : ∀ digits ∈ segments.flatten, wordNumber digits ≡ exactNumber digits [ZMOD 2 ^ 32])
    (place : Nat) : SumsAgree place segments := by
  induction segments with
  | nil => rw [SumsAgree, List.map_nil, List.map_nil]
  | cons numbers segments ih =>
      rw [List.flatten_cons] at agree
      have here : (numbers.map wordNumber).getD place 0 ≡
          (numbers.map exactNumber).getD place 0 [ZMOD 2 ^ 32] := by
        rw [List.getD_eq_getElem?_getD, List.getD_eq_getElem?_getD, List.getElem?_map,
          List.getElem?_map]
        cases found : numbers[place]? with
        | none => rw [Option.map_none, Option.map_none]
        | some digits =>
            rw [Option.map_some, Option.map_some, Option.getD_some, Option.getD_some]
            exact agree digits (List.mem_append_left _ (List.mem_of_getElem? found))
      have behind := ih fun digits member => agree digits (List.mem_append_right _ member)
      rw [SumsAgree, List.map_cons, List.map_cons, total_cons, total_cons]
      exact here.add behind

theorem isExactMark_of_numbers {before here : List (List (List Nat))}
    (agree : ∀ digits ∈ (before ++ here).flatten,
      wordNumber digits ≡ exactNumber digits [ZMOD 2 ^ 32]) : IsExactMark before here := by
  have own : ∀ digits ∈ here.flatten, wordNumber digits ≡ exactNumber digits [ZMOD 2 ^ 32] := by
    rw [List.flatten_append] at agree
    exact fun digits member => agree digits (List.mem_append_right _ member)
  exact ⟨fun _ => ⟨sumsAgree_of_numbers own 0, fun place _ => sumsAgree_of_numbers agree place⟩,
    fun _ => sumsAgree_of_numbers agree 4⟩

/-- Rows of numbers that words keep are exact. -/
theorem isExact_of_numbers {rows : List (List (List (List Nat)))}
    (agree : ∀ digits ∈ rows.flatten.flatten,
      wordNumber digits ≡ exactNumber digits [ZMOD 2 ^ 32]) : IsExact rows := by
  intro line i _
  refine isExactMark_of_numbers fun digits member => agree digits ?_
  -- the segments up to a place of a line are segments of the text
  obtain ⟨numbers, inside, member⟩ := List.mem_flatten.mp member
  refine List.mem_flatten.mpr ⟨numbers, ?_, member⟩
  rcases List.mem_append.mp inside with before | here
  · obtain ⟨row, taken, segment⟩ := List.mem_flatten.mp before
    exact List.mem_flatten.mpr ⟨row, List.mem_of_mem_take taken, segment⟩
  · have here := List.mem_of_mem_take here
    rw [List.getD_eq_getElem?_getD] at here
    cases found : rows[line]? with
    | none =>
        rw [found] at here
        exact absurd here List.not_mem_nil
    | some row =>
        rw [found] at here
        exact List.mem_flatten.mpr ⟨row, List.mem_of_getElem? found, here⟩

theorem length_getLastD_map (value : List Nat → Int) (here : List (List (List Nat))) :
    ((here.map (List.map value)).getLastD []).length = (here.getLastD []).length := by
  rw [List.getLastD_eq_getLast?, List.getLastD_eq_getLast?, List.getLast?_map]
  cases here.getLast? with
  | none => rfl
  | some numbers => exact List.length_map _

theorem markOf_eq_iff {before here : List (List (List Nat))} (line : UInt32) :
    markOf line (before.map (List.map wordNumber)) (here.map (List.map wordNumber)) =
      markOf line (before.map (List.map exactNumber)) (here.map (List.map exactNumber)) ↔
        IsExactMark before here := by
  simp only [markOf, length_getLastD_map, ← List.map_append]
  unfold IsExactMark SumsAgree
  by_cases short : (here.getLastD []).length < 4
  · rw [if_pos short, if_pos short]
    exact iff_of_true rfl ⟨fun long => by omega, fun long => by omega⟩
  · rw [if_neg short, if_neg short]
    simp only [Option.some.injEq, Mapping.mk.injEq, ofInt_eq_iff, List.forall_mem_cons,
      List.not_mem_nil, false_imp_iff, implies_true, and_true, true_and,
      imp_iff_right (Nat.not_lt.mp short)]
    by_cases named : (here.getLastD []).length < 5
    · simp only [if_pos named, show ¬ 5 ≤ (here.getLastD []).length by omega, false_imp_iff,
        and_true]
    · simp only [if_neg named, Nat.not_lt.mp named, true_imp_iff, Option.some.injEq, ofInt_eq_iff,
        and_assoc]

theorem filterMap_eq_iff {α β : Type} {f g : α → Option β} {l : List α}
    (shown : ∀ a ∈ l, (f a).isSome = (g a).isSome) :
    l.filterMap f = l.filterMap g ↔ ∀ a ∈ l, f a = g a := by
  refine ⟨fun same => ?_, List.filterMap_congr⟩
  induction l with
  | nil => exact nofun
  | cons a l ih =>
      obtain ⟨here, behind⟩ := List.forall_mem_cons.mp shown
      rw [List.filterMap_cons, List.filterMap_cons] at same
      refine List.forall_mem_cons.mpr ?_
      cases first : f a with
      | none =>
          cases second : g a with
          | none =>
              rw [first, second] at same
              exact ⟨rfl, ih behind same⟩
          | some c =>
              rw [first, second] at here
              cases here
      | some b =>
          cases second : g a with
          | none =>
              rw [first, second] at here
              cases here
          | some c =>
              rw [first, second] at same
              exact ⟨congrArg some (List.cons.inj same).1, ih behind (List.cons.inj same).2⟩

/-- The mappings have the fields of unbounded numbers just where the sums agree. -/
theorem marksOf_eq_iff {rows : List (List (List (List Nat)))} :
    (∀ line, marksOf (numbersOf wordNumber rows) line = marksOf (numbersOf exactNumber rows) line) ↔
      IsExact rows := by
  have marks (value : List Nat → Int) (line : Nat) : marksOf (numbersOf value rows) line =
      (List.range (rows.getD line []).length).filterMap fun i =>
        markOf (UInt32.ofNat line) ((rows.take line).flatten.map (List.map value))
          (((rows.getD line []).take (i + 1)).map (List.map value)) := by
    have row : (numbersOf value rows).getD line [] = (rows.getD line []).map (List.map value) := by
      rw [numbersOf, List.getD_eq_getElem?_getD, List.getD_eq_getElem?_getD, List.getElem?_map]
      cases rows[line]? <;> rfl
    have front : ((numbersOf value rows).take line).flatten =
        (rows.take line).flatten.map (List.map value) := by
      rw [numbersOf, ← List.map_take, List.map_flatten]
    simp only [marksOf, front, row, marksOfRow, List.length_map, List.map_take]
  refine forall_congr' fun line => ?_
  rw [marks, marks, filterMap_eq_iff]
  · simp only [List.mem_range, markOf_eq_iff]
  · intro i _
    simp only [markOf, length_getLastD_map]
    split
    · rfl
    · rw [Option.isSome_some, Option.isSome_some]

theorem mappingsOf_exact {rows : List (List (List (List Nat)))} (exact : IsExact rows) :
    mappingsOf (numbersOf wordNumber rows) = mappingsOf (numbersOf exactNumber rows) := by
  have lines : (numbersOf wordNumber rows).length = (numbersOf exactNumber rows).length := by
    rw [numbersOf, numbersOf, List.length_map, List.length_map]
  simp only [mappingsOf, lines, marksOf_eq_iff.mpr exact]

/-! ## Every text -/

/-- Of a map that is not read every frame of a stack is kept as it is. -/
theorem translateLine_refused {m : SourceMap} (refused : ¬ ∃ rows, IsSpelledText m.mappings rows)
    (mapPath entry : Path) (line : List Char) :
    (Report.Translator.ofMap m mapPath entry).translateLine line =
      (Report.StackFrame.parse (String.ofList line)).map fun _ =>
        "    " ++ String.ofList (trim line) := by
  have undecoded : (Report.Translator.ofMap m mapPath entry).decoded = none := by
    change (DecodedMap.ofMap (m.rebase mapPath)).toOption = none
    cases decoded : DecodedMap.ofMap (m.rebase mapPath) with
    | error cause => rfl
    | ok d =>
        obtain ⟨rows, spelled, -⟩ :=
          decodeMappings_eq_ok_iff.mp (DecodedMap.mappings_ofMap decoded).2
        exact absurd ⟨rows, spelled⟩ refused
  have unmapped (f : Report.StackFrame) :
      (Report.Translator.ofMap m mapPath entry).mapFrame f = none := by
    rw [Report.Translator.mapFrame, undecoded]
    split <;> rfl
  rw [Report.Translator.translateLine]
  cases Report.StackFrame.parse (String.ofList line) with
  | none => rfl
  | some f =>
      simp only [Option.bind_eq_bind, Option.bind_some, unmapped]
      rfl

/-- A text is read just where its segments are digits of one, four or five numbers, and then as the
numbers that these digits make in words.  The fields of its mappings are those of the numbers without a
bound just where the sums agree, which they do where all digits from the fourteenth on are zero; a digit
there is shifted by less than its place asks for.  A sum that overflows a word leaves the same field
behind.  Of a map that is not read every frame of a stack is kept as it is. -/
theorem decodeMappings_exact_iff (text : String) :
    (∀ mappings, decodeMappings text = .ok mappings ↔
      ∃ rows, IsSpelledText text rows ∧ mappings = mappingsOf (numbersOf wordNumber rows)) ∧
    (∀ rows, IsSpelledText text rows →
      ((∀ line, marksOf (numbersOf wordNumber rows) line =
          marksOf (numbersOf exactNumber rows) line) ↔ IsExact rows) ∧
      (IsExact rows → decodeMappings text = .ok (mappingsOf (numbersOf exactNumber rows))) ∧
      ((∀ digits ∈ rows.flatten.flatten, ∀ d ∈ digits.drop 13, d = 0) → IsExact rows)) ∧
    (∀ place segments,
      UInt32.ofInt (wordTotal place segments) = UInt32.ofInt (total place segments)) ∧
    ∀ m : SourceMap, m.mappings = text → (¬ ∃ rows, IsSpelledText text rows) →
      ∀ (mapPath entry : Path) (line : List Char),
        (Report.Translator.ofMap m mapPath entry).translateLine line =
          (Report.StackFrame.parse (String.ofList line)).map fun _ =>
            "    " ++ String.ofList (trim line) := by
  refine ⟨fun mappings => decodeMappings_eq_ok_iff,
    fun rows spelled => ⟨marksOf_eq_iff, fun exact => ?_, fun zeros => ?_⟩,
    fun place segments => ofInt_eq_iff.mpr (wordTotal_modEq place segments), ?_⟩
  · rw [← mappingsOf_exact exact]
    exact decodeMappings_eq_ok_iff.mpr ⟨rows, spelled, rfl⟩
  · exact isExact_of_numbers fun digits member => wordNumber_modEq (zeros digits member)
  · rintro m rfl refused mapPath entry line
    exact translateLine_refused refused mapPath entry line

/-- A column of thirteen zero digits and a two stands for two to the sixty-fifth, which leaves zero;
it is read as two. -/
theorem decodeMappings_fourteenth :
    decodeMappings "gggggggggggggCAAA" = .ok ⟨[[⟨0, 2, 0, 0, 0, none⟩]]⟩ ∧
      ∃ rows, IsSpelledText "gggggggggggggCAAA" rows ∧
        mappingsOf (numbersOf exactNumber rows) = ⟨[[⟨0, 0, 0, 0, 0, none⟩]]⟩ := by
  refine ⟨by decide +kernel,
    [[[List.replicate 13 0 ++ [2], [0], [0], [0]]]], ?_, by decide +kernel⟩
  unfold IsSpelledText IsSpelled IsNumber
  decide +kernel

end JsxPreview.SourceMap.Vlq
