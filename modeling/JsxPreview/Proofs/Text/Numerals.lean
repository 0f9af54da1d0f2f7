import JsxPreview.Text.Characters
import Mathlib.Data.List.Forall2
import Mathlib.Data.Nat.Digits.Defs
import Mathlib.Tactic.Ring

/-! # Numerals

`IsNumeral` says which digits of a base stand for a number.  Reading an unsigned numeral takes these,
and takes them behind a plus sign as well (`readUnsigned_eq_some_iff`). -/
set_option autoImplicit false
namespace JsxPreview.Text

/-- A character is a digit of a base and has a value there. -/
def IsDigit (base : Nat) (c : Char) (d : Nat) : Prop := digitValue c = some d ∧ d < base

/-- Digits of a base, at least one and the highest first, and the number they stand for. -/
def IsNumeral (base : Nat) (s : List Char) (n : Nat) : Prop :=
  s ≠ [] ∧ ∃ digits, List.Forall₂ (IsDigit base) s digits ∧ n = Nat.ofDigits base digits.reverse

theorem IsDigit.range {base d : Nat} {c : Char} (digit : IsDigit base c d) :
    (0x30 ≤ c.toNat ∧ c.toNat ≤ 0x39) ∨ (0x41 ≤ c.toNat ∧ c.toNat ≤ 0x46) ∨
      (0x61 ≤ c.toNat ∧ c.toNat ≤ 0x66) := by
  obtain ⟨value, -⟩ := digit
  have range {low high : Char} (within : low ≤ c ∧ c ≤ high) :
      low.toNat ≤ c.toNat ∧ c.toNat ≤ high.toNat :=
    ⟨UInt32.le_iff_toNat_le.mp within.1, UInt32.le_iff_toNat_le.mp within.2⟩
  unfold digitValue at value
  split at value
  case isTrue decimal => exact .inl (range decimal)
  split at value
  case isTrue lower => exact .inr (.inr (range lower))
  split at value
  case isTrue upper => exact .inr (.inl (range upper))
  cases value

theorem IsDigit.ne {base d : Nat} {c x : Char} (digit : IsDigit base c d)
    (foreign : digitValue x = none) : c ≠ x := by
  rintro rfl
  rw [digit.1] at foreign
  cases foreign

theorem IsNumeral.unique {base n m : Nat} {s : List Char} (first : IsNumeral base s n)
    (second : IsNumeral base s m) : n = m := by
  obtain ⟨-, digits, all, rfl⟩ := first
  obtain ⟨-, digits', all', rfl⟩ := second
  have functional : Relator.RightUnique (IsDigit base) := fun c d d' one other =>
    Option.some.inj (one.1.symm.trans other.1)
  rw [List.right_unique_forall₂' functional all all']

theorem IsNumeral.digits {base n : Nat} {s : List Char} (numeral : IsNumeral base s n) :
    ∀ c ∈ s, ∃ d, IsDigit base c d := by
  obtain ⟨-, digits, all, -⟩ := numeral
  clear * - all
  induction all with
  | nil => exact nofun
  | cons digit _ ih => exact List.forall_mem_cons.mpr ⟨⟨_, digit⟩, ih⟩

/-- No other character is in a numeral. -/
theorem IsNumeral.not_mem {base n : Nat} {s : List Char} {x : Char} (numeral : IsNumeral base s n)
    (foreign : digitValue x = none) : x ∉ s := by
  intro member
  obtain ⟨d, digit⟩ := numeral.digits x member
  exact digit.ne foreign rfl

/-- Digits that follow a number put their places behind it. -/
theorem readDigits_eq_some_iff {base : Nat} {s : List Char} : ∀ {n m : Nat},
    readDigits base n s = some m ↔ ∃ digits, List.Forall₂ (IsDigit base) s digits ∧
      m = n * base ^ s.length + Nat.ofDigits base digits.reverse := by
  induction s with
  | nil =>
      intro n m
      simp only [readDigits, Option.some.injEq, List.forall₂_nil_left_iff, exists_eq_left,
        List.length_nil, Nat.pow_zero, Nat.mul_one, List.reverse_nil, Nat.ofDigits_nil, Nat.add_zero,
        eq_comm]
  | cons c s ih =>
      intro n m
      have step : readDigits base n (c :: s) = some m ↔
          ∃ d, IsDigit base c d ∧ readDigits base (n * base + d) s = some m := by
        rw [readDigits]
        simp only [Option.bind_eq_bind, Option.bind_eq_some_iff, IsDigit]
        refine exists_congr fun d => ?_
        by_cases small : d < base <;> simp [small]
      have places {d : Nat} {digits : List Nat} (length : digits.length = s.length) :
          (n * base + d) * base ^ s.length + Nat.ofDigits base digits.reverse =
            n * base ^ (c :: s).length + Nat.ofDigits base (d :: digits).reverse := by
        rw [List.reverse_cons, Nat.ofDigits_append, Nat.ofDigits_singleton, List.length_reverse,
          length, List.length_cons, Nat.pow_succ]
        ring
      rw [step]
      constructor
      · rintro ⟨d, digit, read⟩
        obtain ⟨digits, all, rfl⟩ := ih.mp read
        exact ⟨d :: digits, .cons digit all, places all.length_eq.symm⟩
      · rintro ⟨_, all, value⟩
        obtain _ | ⟨digit, all⟩ := all
        exact ⟨_, digit, ih.mpr ⟨_, all, value.trans (places all.length_eq.symm).symm⟩⟩

/-- The digits of a numeral are read as its number. -/
theorem readDigits_numeral {base n : Nat} {s : List Char} (filled : s ≠ []) :
    readDigits base 0 s = some n ↔ IsNumeral base s n := by
  rw [readDigits_eq_some_iff, IsNumeral, and_iff_right filled]
  simp only [Nat.zero_mul, Nat.zero_add]

/-- An unsigned numeral is read with a plus sign in front and without one. -/
theorem readUnsigned_eq_some_iff {base bound n : Nat} {s : List Char} :
    readUnsigned base bound s = some n ↔
      n < bound ∧ (IsNumeral base s n ∨ ∃ t, s = '+' :: t ∧ IsNumeral base t n) := by
  have read (t : List Char) :
      (if t.isEmpty then none else (readDigits base 0 t).filter (· < bound)) = some n ↔
        n < bound ∧ IsNumeral base t n := by
    by_cases empty : t = []
    · subst empty
      exact iff_of_false nofun fun numeral => numeral.2.1 rfl
    · rw [if_neg (by rwa [List.isEmpty_iff]), Option.filter_eq_some_iff, decide_eq_true_eq,
        readDigits_numeral empty, and_comm]
  unfold readUnsigned
  split
  case h_1 t =>
    have signed : ¬ IsNumeral base ('+' :: t) n := fun numeral =>
      numeral.not_mem rfl (List.mem_cons_self ..)
    refine (read t).trans (and_congr_right fun _ => ?_)
    rw [or_iff_right signed]
    exact ⟨fun numeral => ⟨t, rfl, numeral⟩, fun ⟨_, same, numeral⟩ => (List.cons.inj same).2 ▸ numeral⟩
  case h_2 unsigned =>
    refine (read s).trans (and_congr_right fun _ => ?_)
    rw [or_iff_left]
    rintro ⟨t, rfl, -⟩
    exact unsigned t rfl

end JsxPreview.Text
