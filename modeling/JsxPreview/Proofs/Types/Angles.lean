import JsxPreview.Proofs.Analysis.Rows
import JsxPreview.Proofs.Types.Grammar
import JsxPreview.Text.Utf8

/-! # Angles around types

A place in a row is a token with a number of `>` in front of it, where the token is a run of them; a
list of parts leads from one place to another (`TokenRow.Between`).  The search for the `>` that closes
an angle takes runs as a whole.  Part by part it would go the same way (`TokenRow.angleAt`), so that
it passes over what closes its own angles (`IsClosed.angleAt_eq`), however the runs are made up, and
ends with the `>` behind it (`IsClosed.angleClose_eq`). -/
set_option autoImplicit false
namespace JsxPreview.Source

open JsxPreview.Text

namespace TokenRow

/-! ## Parts of a row -/

/-- The parts from place `i`, `k` up to place `j`, `l`. -/
inductive Between (row : TokenRow) : Nat → Nat → List TypePart → Nat → Nat → Prop
  | refl (i k : Nat) : Between row i k [] i k
  | token {i j l : Nat} {t : Token} {ps : List TypePart} (found : row.get? i = some t)
      (noRun : t.isRun = false) (others : Between row (i + 1) 0 ps j l) :
      Between row i 0 (.token t (row.breakBefore i) :: ps) j l
  | inside {i k j l : Nat} {t : Token} {ps : List TypePart} (found : row.get? i = some t)
      (run : t.isRun = true) (more : k + 1 < t.text.toList.length)
      (others : Between row i (k + 1) ps j l) : Between row i k (.closer :: ps) j l
  | last {i k j l : Nat} {t : Token} {ps : List TypePart} (found : row.get? i = some t)
      (run : t.isRun = true) (ends : k + 1 = t.text.toList.length)
      (others : Between row (i + 1) 0 ps j l) : Between row i k (.closer :: ps) j l

variable {row : TokenRow} {i k j l m n stop depth : Nat} {p : TypePart} {ps qs : List TypePart}
  {t : Token}

namespace Between

theorem split (between : row.Between i k (ps ++ qs) j l) :
    ∃ m n, row.Between i k ps m n ∧ row.Between m n qs j l := by
  induction ps generalizing i k with
  | nil => exact ⟨i, k, .refl i k, between⟩
  | cons p ps ih =>
      cases between with
      | token found noRun others =>
          obtain ⟨m, n, first, second⟩ := ih others
          exact ⟨m, n, .token found noRun first, second⟩
      | inside found run more others =>
          obtain ⟨m, n, first, second⟩ := ih others
          exact ⟨m, n, .inside found run more first, second⟩
      | last found run ends others =>
          obtain ⟨m, n, first, second⟩ := ih others
          exact ⟨m, n, .last found run ends first, second⟩

theorem le (between : row.Between i k ps j l) : i ≤ j := by
  induction between with
  | refl => exact Nat.le_refl _
  | token _ _ _ ih => exact Nat.le_of_succ_le ih
  | inside _ _ _ _ ih => exact ih
  | last _ _ _ _ ih => exact Nat.le_of_succ_le ih

/-- The first part is a token of which something is known. -/
theorem head {known : Token → Bool} (between : row.Between i k (p :: ps) j l)
    (holds : p.any known = true) : k = 0 ∧ (row.get? i).any known = true ∧
      (p.isTight = true → row.breakBefore i = false) ∧ row.Between (i + 1) 0 ps j l := by
  cases between with
  | inside => cases holds
  | last => cases holds
  | token found _ others =>
      refine ⟨rfl, ?_, fun tight => ?_, others⟩
      · rw [found]
        exact holds
      · exact (Bool.not_eq_true' _).mp tight

/-- A bracket does not stand inside a run. -/
theorem plain_of_isRun (found : row.get? i = some t) (run : t.isRun = true) :
    row.opensBracket i = false ∧ row.closesBracket i = false := by
  have ends : t.text.toList.all (· == '>') = true := ((Bool.and_eq_true ..).mp run).2
  have other (text : String) (c : Char) (mem : c ∈ text.toList) (ne : (c == '>') = false) :
      (t.text == text) = false := by
    refine beq_eq_false_iff_ne.mpr fun same => ?_
    have := List.all_eq_true.mp ends c (same ▸ mem)
    rw [ne] at this
    cases this
  rw [opensBracket, closesBracket, found]
  simp only [Option.any_some]
  rw [other "(" '(' (by decide) (by decide), other "[" '[' (by decide) (by decide),
    other "\x7b" '\x7b' (by decide) (by decide), other ")" ')' (by decide) (by decide),
    other "]" ']' (by decide) (by decide), other "\x7d" '\x7d' (by decide) (by decide)]
  simp

/-- Balanced parts stand on tokens with matched brackets. -/
theorem level (between : row.Between i k ps j l) (balanced : IsBalanced ps) : row.Level i j := by
  induction balanced generalizing i k j l with
  | nil =>
      cases between
      exact .refl row _
  | plain plain _ ih =>
      cases between with
      | token found _ others =>
          refine .trans (.token ?_) (ih others)
          rw [opensBracket, closesBracket, found]
          exact plain
      | inside _ _ _ others => exact ih others
      | last found run _ others => exact .trans (.token (plain_of_isRun found run)) (ih others)
  | group opens _ closes _ inner ih =>
      obtain ⟨_, opens, _, between⟩ := between.head opens
      obtain ⟨m, n, inside, behind⟩ := between.split
      obtain ⟨_, closes, _, others⟩ := behind.head closes
      have group := Level.group opens (inner inside) (opensBracket_of_closes closes) closes
      exact group.trans (ih others)

end Between

/-! ## The search part by part -/

theorem angleFrom_end (ends : stop ≤ i) : row.angleFrom stop n depth i = none := by
  cases n with
  | zero => rfl
  | succ n => rw [angleFrom, if_pos ends]

/-- The allowance of the search does not matter. -/
theorem angleFrom_enough (enough : stop ≤ i + m) (enough' : stop ≤ i + n) :
    row.angleFrom stop m depth i = row.angleFrom stop n depth i := by
  induction m generalizing n i depth with
  | zero =>
      have ends : stop ≤ i := enough
      rw [angleFrom_end ends, angleFrom_end ends]
  | succ m ih =>
      cases n with
      | zero =>
          have ends : stop ≤ i := enough'
          rw [angleFrom_end ends, angleFrom_end ends]
      | succ n =>
          have next (depth : Nat) {k : Nat} (behind : i < k) :
              row.angleFrom stop m depth k = row.angleFrom stop n depth k :=
            ih (by omega) (by omega)
          have one (depth : Nat) := next depth (Nat.lt_succ_self i)
          unfold angleFrom
          simp only [one]
          cases found : row.matching i stop with
          | none => rfl
          | some close =>
              dsimp only
              rw [next _ (Nat.lt_succ_of_le (matching_spec found).1)]

/-- One step of the search. -/
theorem angleFrom_step (before : i < stop) : row.angleFrom stop (stop - i) depth i =
    if row.isAnyPunct i then
      if row.text i == "<" then row.angleFrom stop (stop - (i + 1)) (depth + 1) (i + 1)
      else if 0 < row.closers i then
        if depth ≤ row.closers i then some (i, row.start i + depth)
        else row.angleFrom stop (stop - (i + 1)) (depth - row.closers i) (i + 1)
      else if row.opensBracket i then
        match row.matching i stop with
        | some close => row.angleFrom stop (stop - (close + 1)) depth (close + 1)
        | none => none
      else if angleListPuncts.contains (row.text i) then
        row.angleFrom stop (stop - (i + 1)) depth (i + 1)
      else none
    else if row.isTypeAtom i then row.angleFrom stop (stop - (i + 1)) depth (i + 1)
    else none := by
  obtain ⟨n, enough⟩ : ∃ n, stop - i = n + 1 := ⟨stop - i - 1, by omega⟩
  have next : stop - (i + 1) = n := by omega
  rw [enough, angleFrom, if_neg (Nat.not_le_of_lt before), next]
  cases found : row.matching i stop with
  | none => rfl
  | some close =>
      have behind := (matching_spec found).1
      have same : row.angleFrom stop (stop - (close + 1)) depth (close + 1) =
          row.angleFrom stop n depth (close + 1) := angleFrom_enough (by omega) (by omega)
      dsimp only
      rw [same]

/-- What the search finds from a place on. -/
def angleAt (row : TokenRow) (stop depth i : Nat) : Nat → Option (Nat × Nat)
  | 0 => row.angleFrom stop (stop - i) depth i
  | k + 1 =>
      if depth ≤ row.closers i - (k + 1) then some (i, row.start i + (k + 1) + depth)
      else row.angleFrom stop (stop - (i + 1)) (depth - (row.closers i - (k + 1))) (i + 1)

/-- Of a run every character is a `>`, and so takes one byte. -/
theorem byteLength_of_isRun (run : t.isRun = true) :
    byteLength t.text.toList = t.text.toList.length := by
  have whole := List.all_eq_true.mp ((Bool.and_eq_true _ _).mp run).2
  generalize t.text.toList = text at whole
  induction text with
  | nil => rfl
  | cons c text ih =>
      obtain ⟨here, others⟩ := List.forall_mem_cons.mp whole
      rw [beq_iff_eq.mp here, byteLength_cons, ih others, List.length_cons, Nat.add_comm]
      rfl

theorem closers_of_isRun (found : row.get? i = some t) (run : t.isRun = true) :
    row.closers i = t.text.toList.length := by
  obtain ⟨_, ends⟩ := (Bool.and_eq_true _ _).mp run
  have whole := List.all_eq_true.mp ends
  rw [closers, text_of_get? found]
  generalize t.text.toList = text at whole
  induction text with
  | nil => rfl
  | cons c text ih =>
      obtain ⟨here, others⟩ := List.forall_mem_cons.mp whole
      rw [List.takeWhile_cons, if_pos here, List.length_cons, List.length_cons, ih others]

/-- From inside of a run the search takes what is left of it as a whole. -/
theorem angleAt_run (found : row.get? i = some t) (run : t.isRun = true)
    (inside : k < t.text.toList.length) (before : i < stop) : row.angleAt stop depth i k =
      if depth ≤ t.text.toList.length - k then some (i, row.start i + k + depth)
      else row.angleFrom stop (stop - (i + 1)) (depth - (t.text.toList.length - k)) (i + 1) := by
  have closers := closers_of_isRun found run
  cases k with
  | succ k => rw [angleAt, closers]
  | zero =>
      obtain ⟨isPunct, ends⟩ := (Bool.and_eq_true _ _).mp run
      have punct : row.isAnyPunct i = true := by
        rw [isAnyPunct, found]
        exact isPunct
      have noAngle : (row.text i == "<") = false := by
        rw [text_of_get? found]
        refine beq_eq_false_iff_ne.mpr fun same => ?_
        rw [same] at ends
        cases ends
      rw [angleAt, angleFrom_step before, if_pos punct, noAngle, closers, if_neg Bool.false_ne_true,
        if_pos inside]
      rfl

/-- Behind a `>` that does not close the outermost angle, one angle less is open. -/
theorem Between.closer (between : row.Between i k (.closer :: ps) j l) (before : i < stop) :
    ∃ m n, row.Between m n ps j l ∧
      ∀ depth, row.angleAt stop (depth + 2) i k = row.angleAt stop (depth + 1) m n := by
  cases between with
  | @inside _ _ _ _ t _ found run more others =>
      refine ⟨i, k + 1, others, fun depth => ?_⟩
      rw [angleAt_run found run (Nat.lt_of_succ_lt more) before, angleAt_run found run more before]
      have left : t.text.toList.length - k = t.text.toList.length - (k + 1) + 1 := by omega
      have place : row.start i + k + (depth + 2) = row.start i + (k + 1) + (depth + 1) := by omega
      rw [left, place]
      by_cases closes : depth + 1 ≤ t.text.toList.length - (k + 1)
      · rw [if_pos (Nat.succ_le_succ closes), if_pos closes]
      · rw [if_neg (fun le => closes (Nat.le_of_succ_le_succ le)), if_neg closes,
          Nat.succ_sub_succ_eq_sub]
  | @last _ _ _ _ t _ found run ends others =>
      refine ⟨i + 1, 0, others, fun depth => ?_⟩
      rw [angleAt_run found run (by omega) before, if_neg (by omega), angleAt]
      have open' : depth + 2 - (t.text.toList.length - k) = depth + 1 := by omega
      rw [open']

theorem not_angle : ∀ text ∈ angleListPuncts,
    (text == "<") = false ∧ (text.toList.takeWhile (· == '>')).length = 0 := by
  decide

theorem Between.listed (between : row.Between i k (p :: ps) j l) (listed : p.isListed = true)
    (before : i < stop) : row.Between (i + 1) 0 ps j l ∧
      ∀ depth, row.angleAt stop depth i k = row.angleAt stop depth (i + 1) 0 := by
  obtain ⟨rfl, known, _, others⟩ := between.head listed
  obtain ⟨t, found, known⟩ := get?_of_any known
  refine ⟨others, fun depth => ?_⟩
  rw [angleAt, angleAt, angleFrom_step before]
  obtain ⟨shape, start, stop, text⟩ := t
  cases shape
  case punct =>
    have among : text ∈ angleListPuncts := List.contains_iff_mem.mp known
    obtain ⟨noAngle, noRun⟩ := not_angle text among
    have punct : row.isAnyPunct i = true := by
      rw [isAnyPunct, found]
      rfl
    have noBracket : row.opensBracket i = false := by
      rw [opensBracket, found]
      exact (TypePart.plain_of_isListed (p := .token ⟨.punct, start, stop, text⟩ false) known).1
    have listed' : angleListPuncts.contains text = true := known
    rw [if_pos punct, noBracket, closers, text_of_get? found]
    dsimp only
    rw [noAngle, noRun, if_pos listed']
    rfl
  all_goals
    have noPunct : row.isAnyPunct i = false := by
      rw [isAnyPunct, found]
      rfl
    have atom : row.isTypeAtom i = true := by
      rw [isTypeAtom, found]
      exact known
    rw [noPunct, atom]
    rfl

/-- The search passes over brackets. -/
theorem angleAt_group (opens : row.opensBracket i = true) (matched : row.matching i stop = some m)
    (before : i < stop) : row.angleAt stop depth i 0 = row.angleAt stop depth (m + 1) 0 := by
  obtain ⟨t, found, known⟩ := get?_of_any opens
  have punct : row.isAnyPunct i = true := by
    rw [isAnyPunct, found]
    exact ((Bool.and_eq_true _ _).mp known).1
  have brackets : (row.text i == "<") = false ∧ row.closers i = 0 := by
    rw [closers, text_of_get? found]
    simp only [Bool.and_eq_true, Bool.or_eq_true, beq_iff_eq] at known
    rcases known with ⟨_, (same | same) | same⟩ <;> rw [same] <;> decide
  rw [angleAt, angleFrom_step before, if_pos punct, brackets.1, brackets.2, if_pos opens, matched]
  rfl

theorem angleAt_angle (angle : row.isPunct i "<" = true) (before : i < stop) :
    row.angleAt stop depth i 0 = row.angleAt stop (depth + 1) (i + 1) 0 := by
  have punct : row.isAnyPunct i = true := by
    obtain ⟨t, found, isPunct, _⟩ := isPunct_iff.mp angle
    rw [isAnyPunct, found]
    exact isPunct
  rw [angleAt, angleFrom_step before, if_pos punct, text_of_isPunct angle]
  rfl

end TokenRow

/-- The search passes over parts that close their own angles. -/
theorem IsClosed.angleAt_eq {row : TokenRow} {i k j l stop depth : Nat} {ps : List TypePart}
    (closed : IsClosed ps) (within : stop ≤ row.size) (between : row.Between i k ps j l)
    (before : j < stop) : row.angleAt stop (depth + 1) i k = row.angleAt stop (depth + 1) j l := by
  induction closed generalizing i k j l depth with
  | nil =>
      cases between
      rfl
  | listed listed _ ih =>
      have here := Nat.lt_of_le_of_lt between.le before
      obtain ⟨others, same⟩ := between.listed listed here
      rw [same, ih others before]
  | @group p q inside ps opens inner closes _ ih =>
      have here := Nat.lt_of_le_of_lt between.le before
      obtain ⟨rfl, opens, _, between⟩ := between.head opens
      obtain ⟨m, n, held, behind⟩ := between.split
      obtain ⟨rfl, closes, _, others⟩ := behind.head closes
      have level := held.level inner
      have matched : row.matching i stop = some m :=
        level.matching opens (TokenRow.opensBracket_of_closes closes) closes
          (Nat.lt_of_le_of_lt (Nat.le_of_succ_le others.le) before) within
      rw [TokenRow.angleAt_group opens matched here, ih others before]
  | @angles p inside ps opens _ _ inner ih =>
      have here := Nat.lt_of_le_of_lt between.le before
      obtain ⟨rfl, opens, _, between⟩ := between.head opens
      obtain ⟨m, n, held, behind⟩ := between.split
      have behind' := Nat.lt_of_le_of_lt behind.le before
      obtain ⟨m', n', others, same⟩ := behind.closer behind'
      rw [TokenRow.angleAt_angle opens here, inner held behind', same, ih others before]

/-- The `>` behind parts that close their own angles closes the one in front of them. -/
theorem IsClosed.angleClose_eq {row : TokenRow} {i j stop : Nat} {p : TypePart}
    {inside : List TypePart} (closed : IsClosed inside) (within : stop ≤ row.size)
    (angle : p.isPunct "<" = true) (between : row.Between i 0 (p :: (inside ++ [.closer])) j 0)
    (before : j ≤ stop)
    (sized : ∀ k t, row.get? k = some t → t.stop = t.start + byteLength t.text.toList) :
    ∃ close, j = close + 1 ∧ i < close ∧ row.angleClose i stop = some (close, row.stop close) := by
  obtain ⟨_, angle, _, between⟩ := between.head angle
  obtain ⟨m, n, held, behind⟩ := between.split
  cases behind with
  | inside _ _ _ others => cases others
  | @last _ _ _ _ t _ found run ends others =>
      cases others
      have begins : i < m := held.le
      have here : i < stop := Nat.lt_trans begins before
      refine ⟨m, rfl, begins, ?_⟩
      change row.angleAt stop 0 i 0 = _
      rw [TokenRow.angleAt_angle angle here, closed.angleAt_eq within held before,
        TokenRow.angleAt_run found run (by omega) before, if_pos (by omega),
        TokenRow.start_of_get? found, TokenRow.stop_of_get? found, sized m t found,
        TokenRow.byteLength_of_isRun run, ← ends, Nat.zero_add, Nat.add_assoc]

end JsxPreview.Source
