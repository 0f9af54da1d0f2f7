import JsxPreview.Text.Split
import JsxPreview.Text.Lines

/-! # Parts of texts, and their order

No part of a text holds the separator (`not_mem_splitOn`), and parts without it are the parts of their
join (`splitOn_joinWith`).  What stands behind a separator adds parts, and what stands in front of the
next one adds to a part.  Sorting is stable (`filter_mergeSort`), and the order of texts is the one of the
lists of their UTF-16 units (`Text.comesBefore_iff`). -/
set_option autoImplicit false
namespace JsxPreview.Text

variable {sep : Char}

theorem splitOn_sep (sep : Char) (s : List Char) : splitOn sep (sep :: s) = [] :: splitOn sep s := by
  rw [splitOn, beq_self_eq_true]

theorem splitOn_append {s t part : List Char} {parts : List (List Char)}
    (absent : sep ∉ s) (split : splitOn sep t = part :: parts) :
    splitOn sep (s ++ t) = (s ++ part) :: parts := by
  induction s with
  | nil => exact split
  | cons c s ih =>
      rw [List.mem_cons, not_or] at absent
      have other : (c == sep) = false := beq_eq_false_iff_ne.mpr (Ne.symm absent.1)
      rw [List.cons_append, splitOn, other, ih absent.2]
      rfl

theorem not_mem_splitOn {s : List Char} :
    ∀ part ∈ splitOn sep s, sep ∉ part := by
  induction s with
  | nil =>
      intro part member
      rw [splitOn, List.mem_singleton] at member
      rw [member]
      exact List.not_mem_nil
  | cons c s ih =>
      intro part member
      rw [splitOn] at member
      split at member
      case h_1 =>
        rcases List.mem_cons.mp member with rfl | member
        · exact List.not_mem_nil
        · exact ih part member
      case h_2 first parts other split =>
        rw [split] at ih
        rcases List.mem_cons.mp member with rfl | member
        · rw [List.mem_cons, not_or]
          exact ⟨Ne.symm (beq_eq_false_iff_ne.mp other), ih first (List.mem_cons_self ..)⟩
        · exact ih part (List.mem_cons_of_mem _ member)
      case h_3 split => exact absurd split (splitOn_ne_nil _ _)

/-- A separator ends a part. -/
theorem splitOn_append_sep (s t : List Char) :
    splitOn sep (s ++ sep :: t) = splitOn sep s ++ splitOn sep t := by
  induction s with
  | nil => exact splitOn_sep sep t
  | cons c s ih =>
      by_cases here : c = sep
      · subst here
        rw [List.cons_append, splitOn_sep, splitOn_sep, ih]
        rfl
      · have other : (c == sep) = false := beq_eq_false_iff_ne.mpr here
        rw [List.cons_append, splitOn, other, ih, splitOn, other]
        cases split : splitOn sep s with
        | nil => exact absurd split (splitOn_ne_nil _ _)
        | cons part parts => rfl

/-- A text without separators is one part. -/
theorem splitOn_plain {s : List Char} (absent : sep ∉ s) : splitOn sep s = [s] := by
  have alone := splitOn_append (t := []) absent (show splitOn sep [] = [] :: [] from rfl)
  rw [List.append_nil] at alone
  exact alone

/-- Such a text behind another one adds to its last part. -/
theorem splitOn_append_plain {t : List Char} (absent : sep ∉ t) (s : List Char) :
    ∀ (front : List (List Char)) {last : List Char}, splitOn sep s = front ++ [last] →
      splitOn sep (s ++ t) = front ++ [last ++ t] := by
  induction s with
  | nil =>
      intro front last split
      cases front with
      | nil =>
          cases split
          exact splitOn_plain absent
      | cons part front =>
          have := congrArg List.length split
          simp [splitOn] at this
  | cons c s ih =>
      intro front last split
      by_cases here : c = sep
      · subst here
        rw [splitOn_sep] at split
        rw [List.cons_append, splitOn_sep]
        cases front with
        | nil =>
            rw [List.nil_append, List.cons.injEq] at split
            exact absurd split.2 (splitOn_ne_nil c s)
        | cons part front =>
            rw [List.cons_append, List.cons.injEq] at split
            rw [ih front split.2, ← split.1]
            rfl
      · have other : (c == sep) = false := beq_eq_false_iff_ne.mpr here
        rw [splitOn, other] at split
        rw [List.cons_append, splitOn, other]
        cases parts : splitOn sep s with
        | nil => exact absurd parts (splitOn_ne_nil _ _)
        | cons part parts' =>
            rw [parts] at split
            cases front with
            | nil =>
                obtain ⟨rfl, rfl⟩ : c :: part = last ∧ parts' = [] := by
                  simpa using split
                rw [ih [] parts]
                rfl
            | cons first front =>
                obtain ⟨rfl, rfl⟩ : c :: part = first ∧ parts' = front ++ [last] := by
                  simpa using split
                rw [ih (part :: front) parts]
                rfl

theorem splitOn_joinWith {parts : List (List Char)} (some : parts ≠ [])
    (absent : ∀ part ∈ parts, sep ∉ part) : splitOn sep (joinWith [sep] parts) = parts := by
  induction parts with
  | nil => exact absurd rfl some
  | cons part rest ih =>
      have here : sep ∉ part := absent part (List.mem_cons_self ..)
      cases rest with
      | nil => exact splitOn_plain here
      | cons next rest =>
          have later := ih (List.cons_ne_nil _ _) fun p member =>
            absent p (List.mem_cons_of_mem _ member)
          rw [joinWith_cons _ _ (List.cons_ne_nil _ _), List.append_assoc, List.singleton_append,
            splitOn_append_sep, later, splitOn_plain here]
          rfl

theorem mem_joinWith {sep : List Char} {parts : List (List Char)} {c : Char}
    (member : c ∈ joinWith sep parts) : c ∈ sep ∨ ∃ part ∈ parts, c ∈ part := by
  induction parts with
  | nil => exact absurd member List.not_mem_nil
  | cons part rest ih =>
      by_cases last : rest = []
      · subst last
        exact .inr ⟨part, List.mem_singleton_self part, member⟩
      · rw [joinWith_cons _ _ last, List.mem_append, List.mem_append] at member
        rcases member with (here | here) | later
        · exact .inr ⟨part, List.mem_cons_self .., here⟩
        · exact .inl here
        · rcases ih later with here | ⟨part', member, here⟩
          · exact .inl here
          · exact .inr ⟨part', List.mem_cons_of_mem _ member, here⟩

/-- A part holds characters of the text alone. -/
theorem mem_of_mem_splitOn {s part : List Char} {c : Char} (member : part ∈ splitOn sep s)
    (here : c ∈ part) : c ∈ s := by
  have holds : ∀ parts : List (List Char), part ∈ parts → c ∈ joinWith [sep] parts := by
    intro parts member
    induction parts with
    | nil => exact absurd member List.not_mem_nil
    | cons first rest ih =>
        by_cases last : rest = []
        · subst last
          rw [List.mem_singleton.mp member] at here
          exact here
        · rw [joinWith_cons _ _ last]
          rcases List.mem_cons.mp member with rfl | member
          · exact List.mem_append_left _ (List.mem_append_left _ here)
          · exact List.mem_append_right _ (ih member)
  have joined := holds _ member
  rwa [join_splitOn] at joined

theorem joinWith_append (sep : List Char) {first second : List (List Char)} (some : first ≠ [])
    (more : second ≠ []) :
    joinWith sep (first ++ second) = joinWith sep first ++ sep ++ joinWith sep second := by
  induction first with
  | nil => exact absurd rfl some
  | cons part rest ih =>
      by_cases last : rest = []
      · subst last
        exact joinWith_cons sep part more
      · have longer : rest ++ second ≠ [] := List.append_ne_nil_of_left_ne_nil last _
        rw [List.cons_append, joinWith_cons _ _ longer, ih last, joinWith_cons _ _ last]
        simp only [List.append_assoc]

/-! ## The first separator -/

theorem takeWhile_ne_sep {s : List Char} (absent : sep ∉ s) (t : List Char) :
    (s ++ sep :: t).takeWhile (· != sep) = s := by
  rw [List.takeWhile_append_of_pos, List.takeWhile_cons_of_neg (by simp), List.append_nil]
  intro x member
  refine bne_iff_ne.mpr ?_
  rintro rfl
  exact absent member

/-- What ends at a separator ends at the first one. -/
theorem append_sep_unique {s s' t t' : List Char} (absent : sep ∉ s) (absent' : sep ∉ s')
    (same : s ++ sep :: t = s' ++ sep :: t') : s = s' ∧ t = t' := by
  have fronts : s = s' := by
    rw [← takeWhile_ne_sep absent t, same, takeWhile_ne_sep absent']
  subst fronts
  exact ⟨rfl, (List.cons.inj (List.append_cancel_left same)).2⟩

end JsxPreview.Text

/-! ## Texts in order -/
namespace JsxPreview

/-- Sorting keeps the order of elements none of which has to stand before another. -/
theorem filter_mergeSort {α : Type} {le : α → α → Bool} {p : α → Bool}
    (trans : ∀ a b c, le a b = true → le b c = true → le a c = true)
    (total : ∀ a b, (le a b || le b a) = true)
    (ties : ∀ a b, p a = true → p b = true → le a b = true) (l : List α) :
    (l.mergeSort le).filter p = l.filter p := by
  have alike : (l.filter p).Pairwise fun a b => le a b = true := by
    refine List.pairwise_of_forall_mem_list ?_
    intro a first b second
    exact ties a b (List.mem_filter.mp first).2 (List.mem_filter.mp second).2
  have kept : (l.filter p).Sublist (l.mergeSort le) :=
    List.sublist_mergeSort trans total alike List.filter_sublist
  have filtered : (l.filter p).Sublist ((l.mergeSort le).filter p) := by
    have := kept.filter p
    rwa [List.filter_filter, show (fun a => p a && p a) = p from funext fun a => Bool.and_self _]
      at this
  have length : (l.filter p).length = ((l.mergeSort le).filter p).length :=
    (((List.mergeSort_perm l le).filter p).length_eq).symm
  exact (filtered.eq_of_length length).symm

namespace Text

theorem unitsLe_iff (s t : List UInt16) : unitsLe s t = true ↔ s ≤ t := by
  induction s generalizing t with
  | nil => simp [unitsLe]
  | cons u s ih =>
      cases t with
      | nil => simp [unitsLe]
      | cons v t =>
          rw [List.cons_le_cons_iff]
          simp [unitsLe, ih]

theorem comesBefore_iff (a b : String) :
    comesBefore a b = true ↔ toUnits a.toList ≤ toUnits b.toList :=
  unitsLe_iff _ _

theorem comesBefore_trans {a b c : String} (first : comesBefore a b = true)
    (second : comesBefore b c = true) : comesBefore a c = true := by
  rw [comesBefore_iff] at *
  exact List.le_trans first second

theorem comesBefore_total (a b : String) : (comesBefore a b || comesBefore b a) = true := by
  rw [Bool.or_eq_true, comesBefore_iff, comesBefore_iff]
  exact List.le_total _ _

end Text

end JsxPreview
