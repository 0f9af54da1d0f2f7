import JsxPreview.Proofs.Scanner.Leaves
import JsxPreview.Proofs.Scanner.Printing

/-! # Leaves in their place

What a leaf of the scan is does not depend on where it stands: put behind other text, and in front of
what closes (`Closes`), it is read as the same (`lexLeaf_within`), as long as it is no comment of a line
that goes on. -/
set_option autoImplicit false
namespace JsxPreview.Source

open JsxPreview.Text

/-- What can stand behind an operand and is no part of it, or nothing. -/
def Closes (rest : List Char) : Prop := ∀ c, rest.head? = some c → c ∈ closingChars

theorem Closes.nil : Closes [] := fun _ head => absurd head (by simp)

theorem Closes.cons {c : Char} (closing : c ∈ closingChars) (rest : List Char) :
    Closes (c :: rest) := by
  intro x head
  cases head
  exact closing

/-- A property that no closing character has ends where the text does. -/
theorem Closes.stops {rest : List Char} (closes : Closes rest) {p : Char → Bool}
    (refused : closingChars.all (fun c => !p c) = true) :
    ∀ c, rest.head? = some c → p c = false := by
  intro c head
  have := List.all_eq_true.mp refused c (closes c head)
  simpa using this

/-! ## Longer texts -/

theorem takeWhile_append_of_stop {p : Char → Bool} {rest : List Char}
    (stop : ∀ c, rest.head? = some c → p c = false) (s : List Char) :
    (s ++ rest).takeWhile p = s.takeWhile p := by
  induction s with
  | nil =>
      cases rest with
      | nil => rfl
      | cons c rest => simp [stop c rfl]
  | cons c s ih =>
      rw [List.cons_append, List.takeWhile_cons, List.takeWhile_cons, ih]

namespace Cursor

variable {k n : Nat} {rest : List Char} {c d : Cursor}

/-- A cursor of a text that stands at byte `k` in front of `rest`. -/
def within (k : Nat) (rest : List Char) (c : Cursor) : Cursor := ⟨k + c.pos, c.rest ++ rest⟩

theorem skip_within (inside : n ≤ c.rest.length) :
    (c.within k rest).skip n = (c.skip n).within k rest := by
  simp only [skip, within, List.take_append_of_le_length inside,
    List.drop_append_of_le_length inside, Nat.add_assoc]

theorem past_within {taken : List Char} (inside : taken.length ≤ c.rest.length) :
    (c.within k rest).past taken = (c.past taken).within k rest :=
  skip_within inside

theorem skipWhile_within {p : Char → Bool}
    (stop : (c.skipWhile p).rest ≠ [] ∨ ∀ x, rest.head? = some x → p x = false) :
    (c.within k rest).skipWhile p = (c.skipWhile p).within k rest := by
  have same : (c.rest ++ rest).takeWhile p = c.rest.takeWhile p := by
    rcases stop with goesOn | stop
    · obtain ⟨s, split, _, inside, stop⟩ := c.skipWhile_split p
      obtain ⟨x, t, ahead⟩ := List.exists_cons_of_ne_nil goesOn
      rw [ahead] at split stop
      rw [split, List.append_assoc, List.takeWhile_append_of_pos inside,
        List.takeWhile_append_of_pos inside]
      simp [stop x rfl]
    · exact takeWhile_append_of_stop stop _
  change (c.within k rest).past ((c.rest ++ rest).takeWhile p) = _
  rw [same]
  exact past_within (List.takeWhile_prefix p).length_le

theorem past_of_append {s rest : List Char} (whole : s ++ rest = c.rest) :
    c.past s = ⟨c.pos + byteLength s, rest⟩ := by
  obtain ⟨pos, text⟩ := c
  subst whole
  exact past_append pos s rest

theorem skipBlank_append (pos : Nat) {gap : List Char} (blank : isGap gap = true)
    (rest : List Char) :
    (⟨pos, gap ++ rest⟩ : Cursor).skipBlank =
      (⟨pos + byteLength gap, rest⟩ : Cursor).skipBlank := by
  let isSkipped : Char → Bool := fun x => isBlank x || x == '\ufeff'
  obtain ⟨taken, behind, split, more⟩ : ∃ taken behind, rest = taken ++ behind ∧
      rest.takeWhile isSkipped = taken :=
    ⟨_, _, List.takeWhile_append_dropWhile.symm, rfl⟩
  have all : (gap ++ rest).takeWhile isSkipped = gap ++ taken := by
    rw [List.takeWhile_append_of_pos (List.all_eq_true.mp blank), more]
  change (⟨pos, gap ++ rest⟩ : Cursor).past ((gap ++ rest).takeWhile isSkipped) =
    (⟨pos + byteLength gap, rest⟩ : Cursor).past (rest.takeWhile isSkipped)
  rw [all, more, split, ← List.append_assoc, past_append, past_append, byteLength_append,
    Nat.add_assoc]

theorem skipBlank_within (c : Cursor) :
    (c.within k rest).skipBlank = (c.skipBlank.within k rest).skipBlank := by
  obtain ⟨gap, split, pos, blank, _⟩ := c.skipWhile_split fun x => isBlank x || x == '\ufeff'
  have here : c.within k rest = ⟨k + c.pos, gap ++ (c.skipBlank.rest ++ rest)⟩ := by
    rw [within, ← List.append_assoc]
    exact congrArg (fun s => (⟨k + c.pos, s ++ rest⟩ : Cursor)) split
  rw [here, skipBlank_append _ (List.all_eq_true.mpr blank), Nat.add_assoc]
  exact congrArg (fun n => (⟨k + n, c.skipBlank.rest ++ rest⟩ : Cursor).skipBlank) pos.symm

theorem skipBlank_within_of_ne (goesOn : c.skipBlank.rest ≠ []) :
    (c.within k rest).skipBlank = c.skipBlank.within k rest :=
  skipWhile_within (.inl goesOn)

theorem upTo_within (leads : c.Leads d) :
    (c.within k rest).upTo (d.within k rest) = c.upTo d := by
  obtain ⟨s, split, pos⟩ := leads
  have length : k + d.pos - (k + c.pos) = byteLength s := by omega
  have length' : d.pos - c.pos = byteLength s := by omega
  simp only [upTo, within, length, length', split, List.append_assoc, takeBytes_byteLength]

end Cursor

/-! ## Leaves -/

theorem head_extends {p : Char → Bool} {rest : List Char} (closes : Closes rest)
    (refused : closingChars.all (fun c => !p c) = true) (s : List Char) :
    (s ++ rest).head?.any p = s.head?.any p := by
  cases s with
  | nil =>
      cases rest with
      | nil => rfl
      | cons c rest => simp [closes.stops refused c rfl]
  | cons c s => rfl

/-- What closes is no part of what it stands behind. -/
theorem Closes.alike {rest : List Char} (closes : Closes rest) : (s : List Char) → Alike s (s ++ rest)
  | c :: s => .keep c (closes.alike s)
  | [] => by
      cases rest with
      | nil => exact .nil
      | cons c rest =>
          have closing : c ∈ closingChars := closes c rfl
          exact .parts _ _ (by simp [isParting, closing])

theorem EndsLine.nil : EndsLine [] := fun _ head => absurd head (by simp)

theorem EndsLine.newline (rest : List Char) : EndsLine ('\n' :: rest) := by
  intro c head
  cases head
  rfl

/-- A leaf is read in its place, unless it is a comment that the text leaves open. -/
theorem lexLeaf_within {operand : Bool} {c after : Cursor} {shape : Shape} {rest : List Char}
    (closes : Closes rest) (read : lexLeaf operand c = .ok (shape, after))
    (inLine : after.rest = [] → "//".toList.isPrefixOf c.rest = true → EndsLine rest) (k : Nat) :
    lexLeaf operand (c.within k rest) = .ok (shape, after.within k rest) := by
  obtain ⟨s, whole, pos, leaf⟩ := leaf_of_read read
  have behind : "//".toList <+: s → EndsLine after.rest → EndsLine (after.rest ++ rest) := by
    intro line ends
    cases ended : after.rest with
    | nil =>
        refine inLine ended (List.isPrefixOf_iff_prefix.mpr ?_)
        rw [whole]
        exact line.trans (List.prefix_append _ _)
    | cons x t =>
        rw [ended] at ends
        exact fun y head => ends y head
  have read := (leaf.alike (closes.alike after.rest) behind).read (k + c.pos)
  rw [Nat.add_assoc, ← pos, ← List.append_assoc, ← whole] at read
  exact read

end JsxPreview.Source
