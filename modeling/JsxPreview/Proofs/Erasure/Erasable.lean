import JsxPreview.Proofs.Analysis.Rows
import JsxPreview.Source.Erasure.Declaration

/-! # What can be erased of a row

Whatever the walk erases starts with a token of the row, and ends with one or between the `>` of one
(`TokenRow.Erasable`).  What it records of an import are runs of tokens between the words `import` and
`from`, one behind the other (`TokenRow.Imports`). -/
set_option autoImplicit false
namespace JsxPreview.Source

namespace TokenRow

variable {row : TokenRow} {i j k stop : Nat}

/-- A byte up to which something can be erased. -/
inductive ErasedTo (row : TokenRow) : Nat → Prop
  | stop (i : Nat) : ErasedTo row (row.stop i)
  | closers {i depth : Nat} (punct : row.isAnyPunct i = true) (within : depth ≤ row.closers i) :
      ErasedTo row (row.start i + depth)

/-- A span from the start of a token on that can be erased. -/
def Erasable (row : TokenRow) (s : Span) : Prop := (∃ i, s.start = row.start i) ∧ row.ErasedTo s.stop

/-! ## Types -/

theorem angleFrom_ends {n depth close place : Nat}
    (found : row.angleFrom stop n depth j = some (close, place)) : row.ErasedTo place := by
  induction n generalizing depth j with
  | zero => exact absurd found (by simp [angleFrom])
  | succ n ih =>
      unfold angleFrom at found
      split at found
      · exact absurd found (by simp)
      · split at found
        case isTrue punct =>
          split at found
          · exact ih found
          · split at found
            · split at found
              case isTrue within =>
                cases found
                exact .closers punct within
              case isFalse => exact ih found
            · split at found
              · split at found
                · exact ih found
                · exact absurd found (by simp)
              · split at found
                · exact ih found
                · exact absurd found (by simp)
        case isFalse =>
          split at found
          · exact ih found
          · exact absurd found (by simp)

theorem angleClose_ends {close place : Nat} (found : row.angleClose i stop = some (close, place)) :
    row.ErasedTo place :=
  angleFrom_ends found

theorem typeOperand_stays {conditional next place : Nat} :
    row.typeOperand stop conditional j ≠ .leaveAt next place := by
  unfold typeOperand
  repeat' split
  all_goals simp

theorem typeSuffix_ends {stopAtArrow : Bool} {conditional next place : Nat}
    (left : row.typeSuffix stop stopAtArrow conditional j = .leaveAt next place) : row.ErasedTo place := by
  unfold typeSuffix at left
  split at left
  · cases left
  · split at left
    · split at left <;> cases left
    · split at left
      · split at left
        case h_1 found =>
          split at left
          · cases left
          · cases left
            exact angleClose_ends found
        case h_2 => cases left
      · repeat' split at left
        all_goals cases left

theorem typeFrom_ends {stopAtArrow operand : Bool} {n conditional last : Nat} (ends : row.ErasedTo last) :
    row.ErasedTo (row.typeFrom stop stopAtArrow n operand conditional j last).2 := by
  induction n generalizing operand conditional j last with
  | zero => exact ends
  | succ n ih =>
      unfold typeFrom
      split
      · exact ends
      · split
        case h_1 => exact ends
        case h_2 left =>
          split at left
          · exact absurd left typeOperand_stays
          · exact typeSuffix_ends left
        case h_3 => exact ih (.stop _)

theorem skipType_ends (row : TokenRow) (i stop : Nat) (stopAtArrow : Bool) :
    row.ErasedTo (row.skipType (i + 1) stop stopAtArrow).2 :=
  typeFrom_ends (.stop i)

theorem declarationStart_eq (row : TokenRow) (i : Nat) : ∃ k, row.declarationStart i = row.start k := by
  unfold declarationStart
  split
  · exact ⟨_, rfl⟩
  · split
    · exact ⟨_, rfl⟩
    · exact ⟨_, rfl⟩

/-! ## Specifiers -/

/-- A closing bracket answers as one of the three. -/
theorem any_of_closesBracket {known : Token → Bool} {b : Bool} (closes : row.closesBracket i = true)
    (same : ∀ p ∈ [")", "]", "\x7d"], ∀ start stop, known ⟨.punct, start, stop, p⟩ = b) :
    (row.get? i).any known = b := by
  rcases isPunct_of_closesBracket closes with punct | punct | punct
  · exact any_of_isPunct punct (same _ (by decide))
  · exact any_of_isPunct punct (same _ (by decide))
  · exact any_of_isPunct punct (same _ (by decide))

/-- A specifier that binds a name, from token `first` to token `last`: the name stands last, but for a
comma.  In braces it does not start with a `type` that stands in front of a name. -/
structure Specifies (row : TokenRow) (b : ImportBinding) (first last : Nat) : Prop where
  span : b.span = ⟨row.start first, row.stop last⟩
  ofValue : b.inBraces = true → (row.isWord first "type" &&
    ((row.isAnyWord (first + 1) && !row.isWord (first + 1) "as") || row.isStr (first + 1))) = false
  name : ∃ m, first ≤ m ∧ b.name = row.text m ∧ (last = m ∨ last = m + 1 ∧ row.isPunct last "," = true)

/-- Specifiers one behind the other, among the tokens from `i` up to `j`. -/
inductive SpecifiesAll (row : TokenRow) (j : Nat) : Nat → List ImportBinding → Prop
  | nil {i : Nat} (le : i ≤ j) : SpecifiesAll row j i []
  | cons {i first last : Nat} {b : ImportBinding} {bs : List ImportBinding} (begins : i ≤ first)
      (grows : first ≤ last) (binds : row.Specifies b first last) (others : SpecifiesAll row j (last + 1) bs) :
      SpecifiesAll row j i (b :: bs)

/-- A statement of import: a word `import` that stands in front of no type, specifiers, and a `from` with
the name of a module. -/
structure ImportsAt (row : TokenRow) (s : ImportStatement) (first from_ last : Nat) : Prop where
  opens : row.isWord first "import" = true
  ofValues : (row.isWord (first + 1) "type" && !row.isPunct (first + 2) "," &&
    !row.isWord (first + 2) "from") = false
  binds : row.SpecifiesAll from_ (first + 1) s.bindings
  clause : row.isWord from_ "from" = true
  name : row.isStr (from_ + 1) = true
  behind : from_ < last
  span : s.span = ⟨row.start first, row.stop last⟩

def Imports (row : TokenRow) (s : ImportStatement) : Prop :=
  ∃ first from_ last, row.ImportsAt s first from_ last

namespace SpecifiesAll

variable {bs cs : List ImportBinding}

theorem le (binds : row.SpecifiesAll j i bs) : i ≤ j := by
  induction binds with
  | nil le => exact le
  | cons begins grows _ _ ih => omega

theorem earlier (binds : row.SpecifiesAll j i bs) (le : k ≤ i) : row.SpecifiesAll j k bs := by
  cases binds with
  | nil le' => exact .nil (Nat.le_trans le le')
  | cons begins grows binds others => exact .cons (Nat.le_trans le begins) grows binds others

theorem append (first : row.SpecifiesAll j i bs) (second : row.SpecifiesAll k j cs) :
    row.SpecifiesAll k i (bs ++ cs) := by
  induction first with
  | nil le => exact second.earlier le
  | cons begins grows binds _ ih => exact .cons begins grows binds ih

end SpecifiesAll

end TokenRow

namespace Erase

open TokenRow (Erasable SpecifiesAll)

variable {row : TokenRow} {close : Nat}

theorem defaultBinding_binds (row : TokenRow) (j : Nat) :
    row.SpecifiesAll (defaultBinding row j).2 j (defaultBinding row j).1 := by
  unfold defaultBinding
  split
  · simp only
    split
    case isTrue comma =>
      exact .cons (Nat.le_refl j) (Nat.le_succ j)
        ⟨rfl, nofun, j, Nat.le_refl j, rfl, .inr ⟨rfl, comma⟩⟩ (.nil (Nat.le_refl _))
    case isFalse =>
      exact .cons (Nat.le_refl j) (Nat.le_refl j) ⟨rfl, nofun, j, Nat.le_refl j, rfl, .inl rfl⟩
        (.nil (Nat.le_refl _))
  · exact .nil (Nat.le_refl j)

theorem namespaceBinding_binds (row : TokenRow) (j : Nat) :
    row.SpecifiesAll (namespaceBinding row j).2 j (namespaceBinding row j).1 := by
  unfold namespaceBinding
  split
  · exact .cons (Nat.le_refl j) (Nat.le_add_right j 2)
      ⟨rfl, nofun, j + 2, Nat.le_add_right j 2, rfl, .inl rfl⟩ (.nil (Nat.le_refl _))
  · exact .nil (Nat.le_refl j)

/-- What one specifier is read as: its name, and the token behind it with its comma. -/
theorem specifier_ends {first k : Nat} (closes : row.closesBracket close = true)
    (from_ : row.isWord (close + 1) "from" = true) (begins : first ≤ k) (inside : k < close) :
    ∃ name last, (if row.isWord (k + 1) "as" then (row.text (k + 2), k + 3)
        else (row.text k, k + 1) : String × Nat) = name ∧
      (if row.isPunct name.2 "," then (row.stop name.2, name.2 + 1)
        else (row.stop (name.2 - 1), name.2) : Nat × Nat) = (row.stop last, last + 1) ∧
      first ≤ last ∧ last ≤ close ∧
      ∃ m, first ≤ m ∧ name.1 = row.text m ∧ (last = m ∨ last = m + 1 ∧ row.isPunct last "," = true) := by
  have noAs : row.isWord close "as" = false :=
    TokenRow.any_of_closesBracket closes fun _ _ _ _ => rfl
  have noComma : row.isPunct (close + 1) "," = false := TokenRow.isPunct_of_isWord from_ ","
  obtain ⟨m, name, read, begins', before, before', same⟩ : ∃ m name,
      (if row.isWord (k + 1) "as" then (row.text (k + 2), k + 3)
        else (row.text k, k + 1) : String × Nat) = name ∧
      first ≤ m ∧ m ≤ close ∧ name.2 = m + 1 ∧ name.1 = row.text m := by
    split
    case isTrue renamed =>
      have other : k + 1 ≠ close := by
        intro same
        rw [same, noAs] at renamed
        exact Bool.false_ne_true renamed
      exact ⟨k + 2, _, rfl, by omega, by omega, rfl, rfl⟩
    case isFalse => exact ⟨k, _, rfl, begins, by omega, rfl, rfl⟩
  refine ⟨name, if row.isPunct (m + 1) "," then m + 1 else m, read, ?_, ?_⟩
  · rw [before']
    split
    · rfl
    · rw [Nat.add_sub_cancel]
  · split
    case isTrue comma =>
      have inside : m + 1 ≤ close := by
        rcases Nat.lt_or_ge m close with less | ge
        · exact less
        · rw [Nat.le_antisymm before ge, noComma] at comma
          exact absurd comma Bool.false_ne_true
      exact ⟨by omega, inside, m, begins', same, .inr ⟨rfl, comma⟩⟩
    case isFalse => exact ⟨begins', before, m, begins', same, .inl rfl⟩

theorem specifier_erasable (row : TokenRow) (k : Nat) :
    row.ErasedTo (if row.isPunct k "," then (row.stop k, k + 1) else (row.stop (k - 1), k) : Nat × Nat).1 := by
  split
  · exact .stop _
  · exact .stop _

theorem importSpecifiers_erasable {typeOnly : Bool} (n : Nat) : ∀ {first : Nat},
    ∀ s ∈ (importSpecifiers row typeOnly close n first).2, row.Erasable s := by
  induction n with
  | zero => exact fun s member => absurd member List.not_mem_nil
  | succ n ih =>
      intro first
      unfold importSpecifiers
      split
      · exact fun s member => absurd member List.not_mem_nil
      · extract_lets ofType k
        simp only
        split
        · exact List.forall_mem_cons.mpr ⟨⟨⟨first, rfl⟩, specifier_erasable row _⟩, ih⟩
        · exact ih

theorem exportSpecifiers_erasable (n : Nat) : ∀ {first : Nat},
    (∀ x ∈ (exportSpecifiers row close n first).1, row.Erasable x.span) ∧
      ∀ s ∈ (exportSpecifiers row close n first).2, row.Erasable s := by
  induction n with
  | zero => exact ⟨fun x member => absurd member List.not_mem_nil,
      fun s member => absurd member List.not_mem_nil⟩
  | succ n ih =>
      intro first
      unfold exportSpecifiers
      split
      · exact ⟨fun x member => absurd member List.not_mem_nil,
          fun s member => absurd member List.not_mem_nil⟩
      · extract_lets ofType k name k'
        have ends := specifier_erasable row k'
        simp only
        split
        · exact ⟨ih.1, List.forall_mem_cons.mpr ⟨⟨⟨first, rfl⟩, ends⟩, ih.2⟩⟩
        · exact ⟨List.forall_mem_cons.mpr ⟨⟨⟨first, rfl⟩, ends⟩, ih.1⟩, ih.2⟩

theorem importSpecifiers_binds {typeOnly : Bool} (closes : row.closesBracket close = true)
    (from_ : row.isWord (close + 1) "from" = true) (n : Nat) : ∀ {first : Nat}, first ≤ close + 1 →
      row.SpecifiesAll (close + 1) first (importSpecifiers row typeOnly close n first).1 := by
  induction n with
  | zero => exact fun le => .nil le
  | succ n ih =>
      intro first le
      unfold importSpecifiers
      split
      case isTrue => exact .nil le
      case isFalse before =>
        extract_lets ofType k
        have begins : first ≤ k ∧ k < close := by
          unfold k
          split
          case isTrue typed =>
            refine ⟨Nat.le_succ first, ?_⟩
            rcases Nat.lt_or_ge (first + 1) close with less | ge
            · exact less
            · have same : first + 1 = close := by omega
              have noWord : row.isAnyWord close = false :=
                TokenRow.any_of_closesBracket closes fun _ _ _ _ => rfl
              have noStr : row.isStr close = false :=
                TokenRow.any_of_closesBracket closes fun _ _ _ _ => rfl
              simp only [ofType, same, noWord, noStr, Bool.false_and, Bool.or_false, Bool.and_false,
                Bool.false_eq_true] at typed
          case isFalse => exact ⟨Nat.le_refl first, by omega⟩
        obtain ⟨name, last, read, stop, grows, inside, named⟩ :=
          specifier_ends closes from_ begins.1 begins.2
        simp only [read, stop]
        have others := @ih (last + 1) (Nat.succ_le_succ inside)
        split
        case isTrue => exact others.earlier (Nat.le_succ_of_le grows)
        case isFalse ofValue =>
          rw [Bool.not_eq_true, Bool.or_eq_false_iff] at ofValue
          exact .cons (Nat.le_refl first) grows ⟨rfl, fun _ => ofValue.2, named⟩ others

/-- An import reaches over the name of its module at least. -/
theorem le_importEnd (row : TokenRow) (j stop : Nat) : j + 2 ≤ importEnd row j stop := by
  unfold importEnd
  extract_lets attributes next
  have behind : j + 2 ≤ next := by
    unfold next
    split
    case h_1 close found =>
      split at found
      · have := (TokenRow.matching_spec found).1
        exact Nat.le_succ_of_le (by omega)
      · exact absurd found (by simp)
    case h_2 => exact Nat.le_refl _
  split
  · exact Nat.le_succ_of_le behind
  · exact behind

end Erase

end JsxPreview.Source
