import JsxPreview.Proofs.Scanner.Termination
import JsxPreview.Proofs.Scanner.Tiling
import JsxPreview.Source.Erasure.Walk
import JsxPreview.Text.Lines
import Mathlib.Data.List.Sort

/-! # Erasure keeps every place

The spans to be erased come in any order and may overlap, nest or touch.  `joined` makes of them
spans that lie apart and hold the same bytes (`joined_holds`), and `sweep`, which looks at one
span at a time, blanks exactly the characters whose first byte is in one of them
(`sweep_joined`).  What stands for a blanked character is white space of as many bytes and of as
many UTF-16 units, so a text and its erased form have the same places. -/
set_option autoImplicit false
namespace JsxPreview.Source.Erasure

open JsxPreview.Text

/-! ## Joining spans -/

/-- Whether some span of a list holds a byte. -/
def holds (spans : List Span) (n : Nat) : Bool := spans.any (·.contains n)

theorem holds_iff (spans : List Span) (n : Nat) :
    holds spans n = true ↔ ∃ s ∈ spans, s.start ≤ n ∧ n < s.stop := by
  simp [holds, Span.contains]

/-- Joined spans, the latest first: each starts behind the stop of the next one. -/
def Descending (spans : List Span) : Prop := spans.Pairwise fun s t => t.stop < s.start

theorem joinSpan_descending {above : List Span} {s : Span} (apart : Descending above)
    (behind : ∀ a ∈ above, a.start ≤ s.start) : Descending (joinSpan above s) := by
  cases above with
  | nil => simp [joinSpan, Descending]
  | cons last above =>
      obtain ⟨lastBehind, restApart⟩ := List.pairwise_cons.mp apart
      simp only [joinSpan]
      split
      case isTrue meets =>
        exact List.pairwise_cons.mpr ⟨lastBehind, restApart⟩
      case isFalse apartHere =>
        refine List.pairwise_cons.mpr ⟨?_, apart⟩
        intro t member
        have lastStart := behind last (List.mem_cons_self ..)
        rcases List.mem_cons.mp member with rfl | member
        · omega
        · have := lastBehind t member
          omega

theorem joinSpan_holds {above : List Span} {s : Span}
    (behind : ∀ a ∈ above, a.start ≤ s.start) (n : Nat) :
    holds (joinSpan above s) n = (holds above n || s.contains n) := by
  cases above with
  | nil => simp [joinSpan, holds]
  | cons last above =>
      have lastStart := behind last (List.mem_cons_self ..)
      simp only [joinSpan]
      split
      case isTrue meets =>
        have union : Span.contains ⟨last.start, max last.stop s.stop⟩ n =
            (last.contains n || s.contains n) := by
          rw [Bool.eq_iff_iff]
          simp only [Span.contains, Bool.or_eq_true, Bool.and_eq_true, decide_eq_true_eq]
          omega
        simp only [holds, List.any_cons, union]
        cases last.contains n <;> cases s.contains n <;> simp
      case isFalse => simp [holds, Bool.or_comm]

theorem joinSpan_start {above : List Span} {s t : Span}
    (behind : ∀ a ∈ above, a.start ≤ t.start) (order : s.start ≤ t.start) :
    ∀ a ∈ joinSpan above s, a.start ≤ t.start := by
  intro a member
  cases above with
  | nil =>
      rw [List.mem_singleton.mp member]
      exact order
  | cons last above =>
      simp only [joinSpan] at member
      split at member
      case isTrue =>
        rcases List.mem_cons.mp member with rfl | member
        · exact behind last (List.mem_cons_self ..)
        · exact behind a (List.mem_cons_of_mem _ member)
      case isFalse =>
        rcases List.mem_cons.mp member with rfl | member
        · exact order
        · exact behind a member

/-- Joining the spans of an ascending list to spans in front keeps the bytes of both. -/
theorem foldl_joinSpan (spans : List Span) : ∀ above : List Span,
    spans.Pairwise (·.start ≤ ·.start) → Descending above →
    (∀ a ∈ above, ∀ s ∈ spans, a.start ≤ s.start) →
    Descending (spans.foldl joinSpan above) ∧
      ∀ n, holds (spans.foldl joinSpan above) n = (holds above n || holds spans n) := by
  induction spans with
  | nil =>
      intro above _ apart _
      exact ⟨apart, fun n => by simp [holds]⟩
  | cons s spans ih =>
      intro above ascending apart behind
      obtain ⟨sFirst, ascending⟩ := List.pairwise_cons.mp ascending
      have sBehind : ∀ a ∈ above, a.start ≤ s.start :=
        fun a member => behind a member s (List.mem_cons_self ..)
      have stillBehind : ∀ a ∈ joinSpan above s, ∀ t ∈ spans, a.start ≤ t.start := by
        intro a member t later
        exact joinSpan_start (fun b earlier => behind b earlier t (List.mem_cons_of_mem _ later))
          (sFirst t later) a member
      obtain ⟨apartLater, holdsLater⟩ :=
        ih (joinSpan above s) ascending (joinSpan_descending apart sBehind) stillBehind
      refine ⟨apartLater, ?_⟩
      intro n
      rw [List.foldl_cons, holdsLater n, joinSpan_holds sBehind n]
      simp [holds, Bool.or_assoc]

theorem isNotBehind_trans (s t u : Span) (first : s.isNotBehind t = true)
    (second : t.isNotBehind u = true) : s.isNotBehind u = true := by
  simp only [Span.isNotBehind, Bool.or_eq_true, Bool.and_eq_true, decide_eq_true_eq,
    beq_iff_eq] at *
  omega

theorem isNotBehind_total (s t : Span) : (s.isNotBehind t || t.isNotBehind s) = true := by
  simp only [Span.isNotBehind, Bool.or_eq_true, Bool.and_eq_true, decide_eq_true_eq, beq_iff_eq]
  omega

theorem mergeSort_ascending (spans : List Span) :
    (spans.mergeSort Span.isNotBehind).Pairwise (·.start ≤ ·.start) := by
  refine (List.pairwise_mergeSort isNotBehind_trans isNotBehind_total spans).imp ?_
  intro s t order
  simp only [Span.isNotBehind, Bool.or_eq_true, Bool.and_eq_true, decide_eq_true_eq,
    beq_iff_eq] at order
  omega

/-- Joined spans lie apart in ascending order. -/
theorem joined_ascending (spans : List Span) :
    (joined spans).Pairwise fun s t => s.stop < t.start := by
  rw [joined, List.pairwise_reverse]
  exact (foldl_joinSpan _ [] (mergeSort_ascending spans) List.Pairwise.nil (by simp)).1

/-- Joining neither loses nor adds a byte. -/
theorem joined_holds (spans : List Span) (n : Nat) : holds (joined spans) n = holds spans n := by
  have kept :=
    (foldl_joinSpan _ [] (mergeSort_ascending spans) List.Pairwise.nil (by simp)).2 n
  have reversed : holds (joined spans) n =
      holds ((spans.mergeSort Span.isNotBehind).foldl joinSpan []) n := by
    simp [holds, joined]
  rw [reversed, kept, Bool.eq_iff_iff]
  simp [holds]

/-! ## The sweep -/

/-- What stands in the erased text for the character at byte `n`. -/
def image (spans : List Span) (n : Nat) (c : Char) : List Char :=
  if holds spans n && !endsLine c then blankFor c else [c]

/-- The text, which starts at byte `n`, with every character by its image. -/
def imageOf (spans : List Span) (n : Nat) : List Char → List Char
  | [] => []
  | c :: s => image spans n c ++ imageOf spans (n + c.utf8Size) s

theorem imageOf_append (spans : List Span) (n : Nat) (s t : List Char) :
    imageOf spans n (s ++ t) = imageOf spans n s ++ imageOf spans (n + byteLength s) t := by
  induction s generalizing n with
  | nil => simp [imageOf]
  | cons c s ih => simp [imageOf, ih, Nat.add_assoc]

theorem imageOf_congr {spans spans' : List Span} {n : Nat}
    (same : ∀ m, n ≤ m → holds spans m = holds spans' m) (s : List Char) :
    imageOf spans n s = imageOf spans' n s := by
  induction s generalizing n with
  | nil => rfl
  | cons c s ih =>
      have later : ∀ m, n + c.utf8Size ≤ m → holds spans m = holds spans' m :=
        fun m order => same m (by omega)
      simp only [imageOf, image, same n (Nat.le_refl n), ih later]

/-- The spans that a sweep leaves behind at byte `n` hold nothing from there on. -/
theorem holds_dropWhile (spans : List Span) {n m : Nat} (order : n ≤ m) :
    holds (spans.dropWhile (·.stop ≤ n)) m = holds spans m := by
  induction spans with
  | nil => rfl
  | cons s spans ih =>
      rw [List.dropWhile_cons]
      split
      case isTrue passed =>
        have passed : s.stop ≤ n := by simpa using passed
        have outside : s.contains m = false := by
          simp only [Span.contains, Bool.and_eq_false_iff, decide_eq_false_iff_not]
          omega
        rw [ih]
        simp [holds, outside]
      case isFalse => rfl

/-- Of ascending spans that have not been passed, only the first can hold the byte. -/
theorem head_holds {spans : List Span} {n : Nat}
    (apart : spans.Pairwise fun s t => s.stop < t.start) :
    ((spans.dropWhile (·.stop ≤ n)).head?.any (·.start ≤ n)) = holds spans n := by
  rw [← holds_dropWhile spans (Nat.le_refl n)]
  have apart := apart.sublist (List.dropWhile_sublist (fun s : Span => decide (s.stop ≤ n)))
  cases ahead : spans.dropWhile (fun s : Span => decide (s.stop ≤ n)) with
  | nil => rfl
  | cons first rest =>
      have notPassed : n < first.stop := by
        have := List.head?_dropWhile_not (fun s : Span => decide (s.stop ≤ n)) spans
        simpa [ahead] using this
      rw [ahead] at apart
      have firstApart := (List.pairwise_cons.mp apart).1
      rw [Bool.eq_iff_iff, holds_iff]
      simp only [List.head?_cons, Option.any_some, decide_eq_true_eq]
      constructor
      · intro begun
        exact ⟨first, List.mem_cons_self .., begun, notPassed⟩
      · rintro ⟨s, member, begun, _⟩
        rcases List.mem_cons.mp member with rfl | member
        · exact begun
        · have := firstApart s member
          omega

theorem sweep_eq_imageOf (s : List Char) : ∀ (spans : List Span) (n : Nat),
    spans.Pairwise (fun s t => s.stop < t.start) → sweep spans n s = imageOf spans n s := by
  induction s with
  | nil => intro spans n _; rfl
  | cons c s ih =>
      intro spans n apart
      have apartAhead := apart.sublist (List.dropWhile_sublist (fun t : Span => decide (t.stop ≤ n)))
      have rest : imageOf (spans.dropWhile (·.stop ≤ n)) (n + c.utf8Size) s =
          imageOf spans (n + c.utf8Size) s :=
        imageOf_congr (fun m order => holds_dropWhile spans (by omega)) s
      simp only [sweep, imageOf, image]
      rw [head_holds apart, ih _ _ apartAhead, rest]

/-- The sweep over the joined spans blanks by plain membership in the given ones. -/
theorem sweep_joined (spans : List Span) (n : Nat) (s : List Char) :
    sweep (joined spans) n s = imageOf spans n s := by
  rw [sweep_eq_imageOf s _ _ (joined_ascending spans)]
  exact imageOf_congr (fun m _ => joined_holds spans m) s

/-! ## White space as long as a character -/

theorem utf8Size_cases (c : Char) :
    (c.utf8Size = 1 ∨ c.utf8Size = 2 ∨ c.utf8Size = 3) ∧ units c = 1 ∨
      c.utf8Size = 4 ∧ units c = 2 := by
  have size : c.utf8Size = if c.toNat ≤ 0x7F then 1 else if c.toNat ≤ 0x7FF then 2
      else if c.toNat ≤ 0xFFFF then 3 else 4 := by
    simp only [Char.utf8Size, UInt32.le_iff_toNat_le]
    rfl
  rw [size, units]
  split
  · simp
    omega
  · split
    · simp
      omega
    · split
      · simp
        omega
      · simp
        omega

/-- What stands for a blanked character is a piece of a line of the same length by both measures. -/
theorem blankFor_measures (c : Char) :
    byteLength (blankFor c) = c.utf8Size ∧ unitLength (blankFor c) = units c ∧
      ∀ x ∈ blankFor c, Text.isBlank x = true ∧ endsLine x = false := by
  have blank : (blankFor c).all (fun x => Text.isBlank x && !endsLine x) = true := by
    rcases utf8Size_cases c with ⟨size | size | size, _⟩ | ⟨size, _⟩ <;>
      simp only [blankFor, size] <;> decide
  refine ⟨?_, ?_, ?_⟩
  · rcases utf8Size_cases c with ⟨size | size | size, _⟩ | ⟨size, _⟩ <;>
      simp only [blankFor, size] <;> decide
  · rcases utf8Size_cases c with ⟨size | size | size, unit⟩ | ⟨size, unit⟩ <;>
      simp only [blankFor, size, unit] <;> decide
  · intro x member
    have here := List.all_eq_true.mp blank x member
    rw [Bool.and_eq_true, Bool.not_eq_true'] at here
    exact here

theorem byteLength_image (spans : List Span) (n : Nat) (c : Char) :
    byteLength (image spans n c) = c.utf8Size := by
  simp only [image]
  split
  · exact (blankFor_measures c).1
  · simp

theorem unitLength_image (spans : List Span) (n : Nat) (c : Char) :
    unitLength (image spans n c) = units c := by
  simp only [image]
  split
  · exact (blankFor_measures c).2.1
  · simp [unitLength]

theorem byteLength_imageOf (spans : List Span) (n : Nat) (s : List Char) :
    byteLength (imageOf spans n s) = byteLength s := by
  induction s generalizing n with
  | nil => rfl
  | cons c s ih => simp [imageOf, ih, byteLength_image]

theorem endsLine_lineFeed : endsLine '\n' = true := by decide

/-- Behind a stretch without line ends the column has grown by its units. -/
theorem advance_inLine (p : Position) (s : List Char) (inLine : ∀ x ∈ s, endsLine x = false) :
    p.advance s = ⟨p.line, p.column + unitLength s⟩ := by
  induction s generalizing p with
  | nil => rfl
  | cons c s ih =>
      have notFeed : c ≠ '\n' := by
        intro feed
        have := inLine c (List.mem_cons_self ..)
        rw [feed, endsLine_lineFeed] at this
        exact absurd this (by decide)
      rw [Position.advance_cons, ih _ fun x member => inLine x (List.mem_cons_of_mem _ member)]
      simp [Position.after, notFeed, unitLength, Nat.add_assoc]

theorem advance_image (spans : List Span) (n : Nat) (p : Position) (c : Char) :
    p.advance (image spans n c) = p.after c := by
  simp only [image]
  split
  case isTrue blanked =>
    simp only [Bool.and_eq_true, Bool.not_eq_true'] at blanked
    have notFeed : c ≠ '\n' := by
      intro feed
      rw [feed, endsLine_lineFeed] at blanked
      exact absurd blanked.2 (by decide)
    obtain ⟨_, sameUnits, blank⟩ := blankFor_measures c
    rw [advance_inLine p _ fun x member => (blank x member).2, sameUnits]
    simp [Position.after, notFeed]
  case isFalse => rfl

/-- Between two characters of a text its erased form is at the same place. -/
theorem positionFrom_imageOf (spans : List Span) (s : List Char) : ∀ (p : Position) (n m : Nat),
    isBoundary m s = true → positionFrom p m (imageOf spans n s) = positionFrom p m s := by
  induction s with
  | nil => intro p n m _; rfl
  | cons c s ih =>
      intro p n m boundary
      by_cases start : m = 0
      · subst start
        have := positionFrom_byteLength p [] (imageOf spans n (c :: s))
        simpa [positionFrom] using this
      · obtain ⟨k, rfl⟩ : ∃ k, m = c.utf8Size + k := by
          simp only [isBoundary, Bool.or_eq_true, Bool.and_eq_true, decide_eq_true_eq] at boundary
          exact ⟨m - c.utf8Size, by omega⟩
        have boundaryBehind : isBoundary k s = true := by
          have positive : c.utf8Size ≠ 0 := Nat.pos_iff_ne_zero.mp c.utf8Size_pos
          simpa [isBoundary, positive] using boundary
        have shorter := positionFrom_append p k (image spans n c) (imageOf spans (n + c.utf8Size) s)
        rw [byteLength_image, advance_image] at shorter
        have original := positionFrom_append p k [c] s
        simp only [byteLength_cons, byteLength_nil, Nat.add_zero, Position.advance_cons,
          Position.advance_nil, List.cons_append, List.nil_append] at original
        rw [imageOf, shorter, original, ih (p.after c) _ k boundaryBehind]

/-- A character that is no blank is the image of itself. -/
theorem image_split {spans : List Span} {n : Nat} {x c : Char} {front back : List Char}
    (kept : Text.isBlank c = false ∨ endsLine c = true)
    (split : image spans n x = front ++ c :: back) : x = c ∧ front = [] := by
  unfold image at split
  split at split
  case isTrue =>
    have blank := (blankFor_measures x).2.2 c (split ▸ List.mem_append_right _ List.mem_cons_self)
    rcases kept with ink | ends
    · rw [blank.1] at ink
      exact absurd ink (by decide)
    · rw [blank.2] at ends
      exact absurd ends (by decide)
  case isFalse =>
    cases front with
    | nil =>
        cases split
        exact ⟨rfl, rfl⟩
    | cons y front => exact absurd (congrArg List.length split) (by simp)

theorem imageOf_split {spans : List Span} {c : Char} {back : List Char}
    (kept : Text.isBlank c = false ∨ endsLine c = true) (s : List Char) :
    ∀ (n : Nat) (front : List Char), imageOf spans n s = front ++ c :: back →
      ∃ front' back', s = front' ++ c :: back' ∧ byteLength front' = byteLength front := by
  induction s with
  | nil =>
      intro n front split
      exact absurd split (by simp [imageOf])
  | cons x s ih =>
      intro n front split
      -- a character whose image lies in front
      have behind (more : List Char) (same : front = image spans n x ++ more)
          (rest : imageOf spans (n + x.utf8Size) s = more ++ c :: back) :
          ∃ front' back', x :: s = front' ++ c :: back' ∧
            byteLength front' = byteLength front := by
        obtain ⟨front', back', whole, length⟩ := ih _ more rest
        refine ⟨x :: front', back', by rw [whole]; rfl, ?_⟩
        rw [same, byteLength_cons, byteLength_append, byteLength_image, length]
      rw [imageOf] at split
      rcases List.append_eq_append_iff.mp split with ⟨more, same, rest⟩ | ⟨more, same, rest⟩
      · exact behind more same rest
      · cases more with
        | nil => exact behind [] (by simpa using same.symm) rest.symm
        | cons y more =>
            cases rest
            obtain ⟨rfl, rfl⟩ := image_split kept same
            exact ⟨[], s, rfl, rfl⟩

theorem endsLine_of_ink {c : Char} (ink : Text.isBlank c = false) : endsLine c = false := by
  rw [← Bool.not_eq_true]
  intro ends
  simp only [endsLine, Bool.or_eq_true, beq_iff_eq] at ends
  rcases ends with ((rfl | rfl) | rfl) | rfl <;> exact absurd ink (by decide)

/-- A character that is no blank stands in the source, where it is not to be blanked. -/
theorem imageOf_kept {spans : List Span} {s front back : List Char} {c : Char}
    (ink : Text.isBlank c = false) (split : imageOf spans 0 s = front ++ c :: back) :
    ∃ front' back', s = front' ++ c :: back' ∧ byteLength front' = byteLength front ∧
      holds spans (byteLength front) = false := by
  obtain ⟨front', back', rfl, length⟩ := imageOf_split (.inl ink) s 0 front split
  refine ⟨front', back', rfl, length, ?_⟩
  have behind := congrArg (dropBytes (byteLength front)) split
  rw [dropBytes_byteLength, imageOf_append, ← length, ← byteLength_imageOf spans 0 front',
    dropBytes_byteLength, byteLength_imageOf, Nat.zero_add, length, imageOf] at behind
  rw [← Bool.not_eq_true]
  intro held
  have blanked : image spans (byteLength front) c = blankFor c := by
    rw [image, held, endsLine_of_ink ink]
    rfl
  obtain ⟨size, _, blank⟩ := blankFor_measures c
  rw [blanked] at behind
  cases made : blankFor c with
  | nil =>
      rw [made, byteLength_nil] at size
      exact absurd c.utf8Size_pos (by omega)
  | cons x rest =>
      rw [made, List.cons_append] at behind
      have isBlank := (blank x (made ▸ List.mem_cons_self ..)).1
      rw [(List.cons.inj behind).1, ink] at isBlank
      cases isBlank

/-- A character that is not to be blanked is left. -/
theorem imageOf_unblanked {spans : List Span} {front back : List Char} {c : Char}
    (kept : holds spans (byteLength front) = false) : imageOf spans 0 (front ++ c :: back) =
      imageOf spans 0 front ++ c :: imageOf spans (byteLength front + c.utf8Size) back := by
  rw [imageOf_append, Nat.zero_add, imageOf, image, kept]
  rfl

/-- A text of which nothing is to be blanked stays. -/
theorem imageOf_outside {spans : List Span} {n : Nat} {s : List Char}
    (outside : ∀ m, n ≤ m → m < n + byteLength s → holds spans m = false) :
    imageOf spans n s = s := by
  induction s generalizing n with
  | nil => rfl
  | cons c s ih =>
      have size := c.utf8Size_pos
      rw [byteLength_cons] at outside
      rw [imageOf, image, outside n (Nat.le_refl n) (by omega),
        ih fun m behind before => outside m (by omega) (by omega)]
      rfl

/-- White space stays white space, and what is blanked becomes it. -/
theorem isGap_image {spans : List Span} {n : Nat} {c : Char}
    (goes : (Text.isBlank c || c == '\ufeff') = true ∨ holds spans n = true) : isGap (image spans n c) = true := by
  rw [image]
  split
  case isTrue =>
    refine List.all_eq_true.mpr fun x member => ?_
    rw [((blankFor_measures c).2.2 x member).1, Bool.true_or]
  case isFalse kept =>
    have blank : (Text.isBlank c || c == '\ufeff') = true := by
      rcases goes with blank | held
      · exact blank
      · -- what ends a line is white space as well
        rw [held, Bool.true_and, Bool.not_eq_true', ← Bool.not_eq_true] at kept
        cases ink : Text.isBlank c with
        | true => rfl
        | false => exact absurd (by rw [endsLine_of_ink ink]; decide) kept
    rw [isGap, List.all_cons, List.all_nil, Bool.and_true]
    exact blank

/-- All that is blanked becomes white space. -/
theorem isGap_imageOf {spans : List Span} {n : Nat} {s : List Char}
    (held : ∀ m, n ≤ m → m < n + byteLength s → holds spans m = true) :
    isGap (imageOf spans n s) = true := by
  induction s generalizing n with
  | nil => rfl
  | cons c s ih =>
      have size := c.utf8Size_pos
      rw [byteLength_cons] at held
      rw [imageOf, isGap, List.all_append, Bool.and_eq_true]
      exact ⟨isGap_image (.inr (held n (Nat.le_refl n) (by omega))),
        ih fun m behind before => held m (by omega) (by omega)⟩

/-! ## Erased texts -/

end JsxPreview.Source.Erasure

namespace JsxPreview.Source

open JsxPreview.Text

/-- Erasure looks at each character alone. -/
theorem eraseTypes_eq (jsx : Bool) (source : String) :
    eraseTypes jsx source = do
      let tokens ← tokenize ⟨jsx, true⟩ source
      let e ← erasureOf source.toList tokens
      return String.ofList (Erasure.imageOf e.blanks 0 source.toList) := by
  simp only [eraseTypes, Erasure.sweep_joined]

theorem eraseTypes_cases {jsx : Bool} {source out : String}
    (success : eraseTypes jsx source = .ok out) :
    ∃ (tokens : List Token) (e : Erasure),
      tokenize ⟨jsx, true⟩ source = .ok tokens ∧ erasureOf source.toList tokens = .ok e ∧
        out.toList = Erasure.imageOf e.blanks 0 source.toList := by
  rw [eraseTypes_eq] at success
  obtain ⟨tokens, lexed, success⟩ := ok_of_bind success
  obtain ⟨e, walked, success⟩ := ok_of_bind success
  refine ⟨tokens, e, lexed, walked, ?_⟩
  rw [← ok_of_pure success, String.toList_ofList]

/-- The erased text has the bytes, the lines and the columns of the source, and differs from it
exactly in the characters that start inside a recorded span and do not end a line: for each of them
stands white space of as many bytes and of as many UTF-16 units. -/
theorem eraseTypes_keeps_places (jsx : Bool) (source out : String)
    (success : eraseTypes jsx source = .ok out) :
    ∃ (tokens : List Token) (e : Erasure),
      tokenize ⟨jsx, true⟩ source = .ok tokens ∧ erasureOf source.toList tokens = .ok e ∧
      byteLength out.toList = byteLength source.toList ∧
      (∀ (front : List Char) (c : Char) (back : List Char), source.toList = front ++ c :: back →
        ∃ front' image back', out.toList = front' ++ image ++ back' ∧
          byteLength front' = byteLength front ∧ byteLength image = c.utf8Size ∧
          unitLength image = units c ∧
          if e.isBlank (byteLength front) = true ∧ c ∉ ['\n', '\r', '\u2028', '\u2029'] then
            ∀ x ∈ image, isBlank x = true ∧ x ∉ ['\n', '\r', '\u2028', '\u2029']
          else image = [c]) ∧
      ∀ n, isBoundary n source.toList = true →
        position n out.toList = position n source.toList := by
  obtain ⟨tokens, e, lexed, walked, outEq⟩ := eraseTypes_cases success
  have endsLine_iff : ∀ x : Char,
      Erasure.endsLine x = true ↔ x ∈ ['\n', '\r', '\u2028', '\u2029'] := by
    intro x
    simp [Erasure.endsLine, or_assoc]
  refine ⟨tokens, e, lexed, walked, ?_, ?_, ?_⟩
  · rw [outEq, Erasure.byteLength_imageOf]
  · intro front c back split
    refine ⟨Erasure.imageOf e.blanks 0 front, Erasure.image e.blanks (byteLength front) c,
      Erasure.imageOf e.blanks (byteLength front + c.utf8Size) back, ?_,
      Erasure.byteLength_imageOf .., Erasure.byteLength_image .., Erasure.unitLength_image .., ?_⟩
    · rw [outEq, split, Erasure.imageOf_append]
      simp [Erasure.imageOf]
    · have held : Erasure.holds e.blanks (byteLength front) = e.isBlank (byteLength front) := rfl
      split
      case isTrue blanked =>
        have notEnd : Erasure.endsLine c = false := by
          rw [← Bool.not_eq_true, endsLine_iff]
          exact blanked.2
        simp only [Erasure.image, held, blanked.1, notEnd, Bool.not_false, Bool.and_self, if_true]
        intro x member
        have blank := (Erasure.blankFor_measures c).2.2 x member
        refine ⟨blank.1, ?_⟩
        rw [← endsLine_iff, blank.2]
        exact Bool.false_ne_true
      case isFalse kept =>
        have notBoth :
            (Erasure.holds e.blanks (byteLength front) && !Erasure.endsLine c) = false := by
          rw [← Bool.not_eq_true, Bool.and_eq_true, Bool.not_eq_true', ← Bool.not_eq_true,
            endsLine_iff, held]
          exact kept
        simp [Erasure.image, notBoth]
  · intro n boundary
    rw [outEq]
    exact Erasure.positionFrom_imageOf e.blanks source.toList .origin 0 n boundary

/-- A character that is kept, and what follows it, are at their places in the source. -/
theorem eraseTypes_places {jsx : Bool} {source out : String}
    (success : eraseTypes jsx source = .ok out) {front back : List Char} {c : Char}
    (split : out.toList = front ++ c :: back) (kept : isBlank c = false ∨ c = '\n') :
    position (byteLength front) out.toList = position (byteLength front) source.toList ∧
      position (byteLength (front ++ [c])) out.toList =
        position (byteLength (front ++ [c])) source.toList := by
  obtain ⟨_, e, _, _, image⟩ := eraseTypes_cases success
  have inSource : isBlank c = false ∨ Erasure.endsLine c = true := by
    rcases kept with ink | rfl
    · exact .inl ink
    · exact .inr Erasure.endsLine_lineFeed
  rw [image] at split
  obtain ⟨front', back', whole, length⟩ := Erasure.imageOf_split inSource _ _ _ split
  have same (n : Nat) (boundary : isBoundary n source.toList = true) :
      position n out.toList = position n source.toList := by
    rw [image]
    exact Erasure.positionFrom_imageOf e.blanks source.toList .origin 0 n boundary
  refine ⟨same _ ?_, same _ ?_⟩
  · rw [whole, ← length]
    exact isBoundary_append front' _
  · have behind := isBoundary_append (front' ++ [c]) back'
    rw [byteLength_append, length, ← byteLength_append] at behind
    simpa [whole] using behind

/-- An erased annotation of three bytes leaves one ideographic space. -/
theorem eraseTypes_wide_annotation :
    eraseTypes false "let n:名 = 1" = .ok "let n \u3000 = 1" ∧
      byteLength "let n \u3000 = 1".toList = byteLength "let n:名 = 1".toList ∧
      position 10 "let n \u3000 = 1".toList = position 10 "let n:名 = 1".toList := by
  have success : eraseTypes false "let n:名 = 1" = .ok "let n \u3000 = 1" := by
    rw [eraseTypes_eq, tokenize_of_not_mem (by decide)]
    decide +kernel
  obtain ⟨_, _, _, _, length, _, places⟩ := eraseTypes_keeps_places false _ _ success
  exact ⟨success, length, places 10 (by decide)⟩

end JsxPreview.Source
