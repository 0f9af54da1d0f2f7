import JsxPreview.Proofs.Outcome
import JsxPreview.Proofs.Text.Split
import JsxPreview.SourceMap.Vlq
import Mathlib.Algebra.Group.Int.Defs
import Mathlib.Algebra.Group.Nat.Defs

/-! # Mappings are read as they are written

A number comes back from its digits when it fits a word with its sign (`decodeDigits_encodeNat`,
`unfoldSign_foldSign`), a segment from its differences (`decodeLine_segment`), and a text of mappings
line by line (`decodeMappings_encodeMappings`).  `decodeRest` is reading from inside a line; the
induction over the mappings goes along with it. -/
set_option autoImplicit false
namespace JsxPreview.SourceMap.Vlq

open JsxPreview.Text

/-! ## Numbers -/

theorem digitValue_digitChar {n : Nat} (below : n < 64) : digitValue (digitChar n) = .ok n := by
  have all : ∀ n < 64, (digitValue (digitChar n)).toOption = some n := by decide
  exact ok_of_toOption (all n below)

theorem digitChar_ne {n : Nat} (below : n < 64) : digitChar n ≠ ';' ∧ digitChar n ≠ ',' := by
  have all : ∀ n < 64, digitChar n ≠ ';' ∧ digitChar n ≠ ',' := by decide
  exact all n below

theorem encodeNat_ne_nil (n : Nat) : encodeNat n ≠ [] := by
  rw [encodeNat]
  split
  · exact List.cons_ne_nil _ _
  · exact List.cons_ne_nil _ _

/-- No digit is a separator. -/
theorem encodeNat_ne (n : Nat) : ∀ c ∈ encodeNat n, c ≠ ';' ∧ c ≠ ',' := by
  induction n using Nat.strongRecOn with
  | ind n ih =>
      intro c member
      rw [encodeNat] at member
      split at member
      case isTrue small =>
        rw [List.mem_singleton.mp member]
        exact digitChar_ne (by omega)
      case isFalse big =>
        rcases List.mem_cons.mp member with rfl | member
        · exact digitChar_ne (by omega)
        · exact ih (n / 32) (by omega) c member

/-- The digits of a number, from behind digits of the value `value`. -/
theorem decodeDigits_encodeNat (n : Nat) : ∀ (value shift : Nat) (pending : Bool)
    (rest : List Char), value + n * 2 ^ shift < 2 ^ 64 →
    decodeDigits value shift pending (encodeNat n ++ rest) = do
      let values ← decodeDigits 0 0 false rest
      return unfoldSign (value + n * 2 ^ shift) :: values := by
  induction n using Nat.strongRecOn with
  | ind n ih =>
      intro value shift pending rest fits
      -- a digit that counts is shifted by less than a word
      have shifted : n = 0 ∨ shift % 64 = shift := by
        by_cases zero : n = 0
        · exact .inl zero
        · refine .inr (Nat.mod_eq_of_lt ?_)
          have : 2 ^ shift ≤ n * 2 ^ shift := Nat.le_mul_of_pos_left _ (by omega)
          exact (Nat.pow_lt_pow_iff_right (by decide : 1 < 2)).mp (by omega)
      rw [encodeNat]
      split
      case isTrue small =>
        have sum : (value + n % 32 * Nat.pow 2 (shift % 64)) % Nat.pow 2 64 =
            value + n * 2 ^ shift := by
          rw [Nat.pow_eq, Nat.pow_eq, Nat.mod_eq_of_lt small]
          rcases shifted with rfl | shifted
          · rw [Nat.zero_mul, Nat.zero_mul] at *
            exact Nat.mod_eq_of_lt fits
          · rw [shifted]
            exact Nat.mod_eq_of_lt fits
        rw [List.singleton_append, decodeDigits, bind_of_ok (digitValue_digitChar (by omega))]
        simp only [sum, small, if_true]
      case isFalse big =>
        have split : n * 2 ^ shift = n % 32 * 2 ^ shift + n / 32 * 2 ^ (shift + 5) := by
          have whole : n % 32 + 32 * (n / 32) = n := Nat.mod_add_div n 32
          calc n * 2 ^ shift = (n % 32 + 32 * (n / 32)) * 2 ^ shift := by rw [whole]
            _ = n % 32 * 2 ^ shift + n / 32 * 2 ^ (shift + 5) := by
              rw [Nat.add_mul, Nat.pow_add, Nat.mul_comm 32, Nat.mul_assoc, Nat.mul_comm 32]
        have sum : (value + (n % 32 + 32) % 32 * Nat.pow 2 (shift % 64)) % Nat.pow 2 64 =
            value + n % 32 * 2 ^ shift := by
          rw [Nat.pow_eq, Nat.pow_eq, Nat.add_mod_right, Nat.mod_mod,
            shifted.resolve_left (by omega)]
          exact Nat.mod_eq_of_lt (by omega)
        rw [List.cons_append, decodeDigits, bind_of_ok (digitValue_digitChar (by omega))]
        simp only [sum]
        rw [if_neg (by omega), ih (n / 32) (by omega) _ _ _ _ (by omega), split, Nat.add_assoc]

/-- A number is found again from its value with the sign as the lowest bit. -/
theorem unfoldSign_foldSign {v : Int} (fits : v.natAbs < 2 ^ 62) :
    unfoldSign (foldSign v) = v := by
  have word : Int.bmod (foldSign v) (Nat.pow 2 64) = foldSign v := by
    rw [Nat.pow_eq]
    unfold foldSign
    split <;> exact Int.bmod_eq_of_le (by omega) (by omega)
  unfold unfoldSign
  simp only [word]
  unfold foldSign
  split <;> split <;> omega

theorem decodeDigits_encode {v : Int} (fits : v.natAbs < 2 ^ 62) (rest : List Char) :
    decodeDigits 0 0 false (encode v ++ rest) = do
      let values ← decodeDigits 0 0 false rest
      return v :: values := by
  have small : 0 + foldSign v * 2 ^ 0 < 2 ^ 64 := by
    unfold foldSign
    split <;> omega
  rw [encode, decodeDigits_encodeNat _ _ _ _ _ small]
  simp only [Nat.zero_add, Nat.pow_zero, Nat.mul_one, unfoldSign_foldSign fits]

/-! ## Segments -/

theorem encode_ne_nil (v : Int) : encode v ≠ [] := encodeNat_ne_nil _

/-- The numbers of a segment. -/
def differences (st : State) (m : Mapping) : List Int :=
  [ofWord m.generatedColumn - st.column, ofWord m.source - st.source, ofWord m.line - st.line,
    ofWord m.column - st.originalColumn] ++ (m.name.map (ofWord · - st.name)).toList

theorem encodeSegment_eq (st : State) (m : Mapping) :
    encodeSegment st m = (differences st m).flatMap encode := by
  unfold encodeSegment differences
  cases m.name <;> simp

theorem encodeSegment_ne_nil (st : State) (m : Mapping) : encodeSegment st m ≠ [] := by
  rw [encodeSegment_eq]
  intro nothing
  have := List.flatMap_eq_nil_iff.mp nothing _ (List.mem_cons_self ..)
  exact encode_ne_nil _ this

theorem encodeSegment_ne (st : State) (m : Mapping) :
    ∀ c ∈ encodeSegment st m, c ≠ ';' ∧ c ≠ ',' := by
  intro c member
  rw [encodeSegment_eq] at member
  obtain ⟨v, _, member⟩ := List.mem_flatMap.mp member
  exact encodeNat_ne _ c member

theorem decodeSegment_encode {values : List Int} (fits : ∀ v ∈ values, v.natAbs < 2 ^ 62) :
    decodeSegment (values.flatMap encode) = .ok values := by
  induction values with
  | nil => rfl
  | cons v values ih =>
      have rest := ih fun v' member => fits v' (List.mem_cons_of_mem _ member)
      rw [decodeSegment] at rest
      rw [decodeSegment, List.flatMap_cons, decodeDigits_encode (fits v (List.mem_cons_self ..)),
        bind_of_ok rest]
      rfl

/-- A state holds words. -/
structure State.IsWord (st : State) : Prop where
  column : 0 ≤ st.column ∧ st.column < 2 ^ 32
  source : 0 ≤ st.source ∧ st.source < 2 ^ 32
  line : 0 ≤ st.line ∧ st.line < 2 ^ 32
  originalColumn : 0 ≤ st.originalColumn ∧ st.originalColumn < 2 ^ 32
  name : 0 ≤ st.name ∧ st.name < 2 ^ 32

theorem ofWord_range (w : UInt32) : 0 ≤ ofWord w ∧ ofWord w < 2 ^ 32 := by
  have := w.toNat_lt
  unfold ofWord
  omega

theorem ofInt_ofWord (w : UInt32) : UInt32.ofInt (ofWord w) = w := by
  have := w.toNat_lt
  rw [ofWord, UInt32.ofInt, Int.emod_eq_of_lt (by omega) (by omega), Int.toNat_natCast,
    UInt32.ofNat_toNat]

theorem State.IsWord.after {st : State} (words : st.IsWord) (m : Mapping) :
    (st.after m).IsWord where
  column := ofWord_range _
  source := ofWord_range _
  line := ofWord_range _
  originalColumn := ofWord_range _
  name := by
    rw [State.after]
    cases m.name with
    | none => exact words.name
    | some name => exact ofWord_range name

theorem State.IsWord.nextLine {st : State} (words : st.IsWord) :
    State.IsWord { st with column := 0 } :=
  { words with column := ⟨Int.le_refl 0, Int.pow_pos (by decide)⟩ }

theorem State.isWord_start : State.IsWord {} := by
  constructor <;> exact ⟨Int.le_refl 0, Int.pow_pos (by decide)⟩

theorem differences_fit {st : State} (words : st.IsWord) (m : Mapping) :
    ∀ v ∈ differences st m, v.natAbs < 2 ^ 62 := by
  have near {a b : Int} (first : 0 ≤ a ∧ a < 2 ^ 32) (second : 0 ≤ b ∧ b < 2 ^ 32) :
      (a - b).natAbs < 2 ^ 62 := by
    omega
  intro v member
  simp only [differences, List.cons_append, List.nil_append, List.mem_cons, Option.mem_toList,
    Option.map_eq_some_iff] at member
  rcases member with rfl | rfl | rfl | rfl | ⟨name, _, rfl⟩
  · exact near (ofWord_range _) words.column
  · exact near (ofWord_range _) words.source
  · exact near (ofWord_range _) words.line
  · exact near (ofWord_range _) words.originalColumn
  · exact near (ofWord_range _) words.name

/-- A segment is read as its mapping. -/
theorem decodeLine_segment {st : State} (words : st.IsWord) (m : Mapping)
    (segments : List (List Char)) :
    decodeLine m.generatedLine st (encodeSegment st m :: segments) = do
      let (ms, final) ← decodeLine m.generatedLine (st.after m) segments
      return (m :: ms, final) := by
  have numbers : decodeSegment (encodeSegment st m) = .ok (differences st m) := by
    rw [encodeSegment_eq]
    exact decodeSegment_encode (differences_fit words m)
  have sum (a b : Int) : a + (b - a) = b := by omega
  rw [decodeLine, bind_of_ok numbers]
  cases m with
  | mk generatedLine generatedColumn source line column name =>
      cases name with
      | none => simp [differences, State.after, sum, ofInt_ofWord, pure, Except.pure, bind,
          Except.bind]
      | some name => simp [differences, State.after, sum, ofInt_ofWord, pure, Except.pure, bind,
          Except.bind]

/-! ## Lines -/

/-- The segments of the text of a line. -/
def segmentsOf (line : List Char) : List (List Char) := (splitOn ',' line).filter (!·.isEmpty)

def byColumn (ms : List Mapping) : List Mapping :=
  ms.mergeSort (·.generatedColumn ≤ ·.generatedColumn)

/-- Reads a text from inside line `current`: the mappings on the rest of that line as they come, and
the lines behind it. -/
def decodeRest (current : Nat) (st : State) (text : List Char) :
    Except VlqError (List Mapping × List (List Mapping)) :=
  match splitOn ';' text with
  | [] => .ok ([], [])
  | line :: others => do
      let (ms, st) ← decodeLine (UInt32.ofNat current) st (segmentsOf line)
      let lines ← decodeLines (current + 1) st (others.map segmentsOf)
      return (ms, lines)

theorem decodeMappings_of_rest {text : List Char} {ms : List Mapping} {lines : List (List Mapping)}
    (reads : decodeRest 0 {} text = .ok (ms, lines)) :
    decodeMappings (String.ofList text) = .ok ⟨byColumn ms :: lines⟩ := by
  unfold decodeRest at reads
  rw [decodeMappings, String.toList_ofList]
  change (decodeLines 0 {} ((splitOn ';' text).map segmentsOf) >>= _) = _
  cases split : splitOn ';' text with
  | nil => exact absurd split (splitOn_ne_nil _ _)
  | cons line others =>
      rw [split] at reads
      obtain ⟨⟨ms', st⟩, first, reads⟩ := ok_of_bind reads
      obtain ⟨lines', behind, reads⟩ := ok_of_bind reads
      cases ok_of_pure reads
      rw [List.map_cons, decodeLines]
      change (decodeLine (UInt32.ofNat 0) {} (segmentsOf line) >>= _) >>= _ = _
      rw [bind_of_ok first]
      change (decodeLines (0 + 1) st (others.map segmentsOf) >>= _) >>= _ = _
      rw [bind_of_ok behind]
      rfl

/-- A new line takes its columns from zero. -/
theorem decodeRest_line (current : Nat) (st : State) (text : List Char) :
    decodeRest current st (';' :: text) = do
      let (ms, lines) ← decodeRest (current + 1) { st with column := 0 } text
      return ([], byColumn ms :: lines) := by
  unfold decodeRest
  rw [splitOn_sep]
  cases split : splitOn ';' text with
  | nil => exact absurd split (splitOn_ne_nil _ _)
  | cons line others =>
      dsimp only
      change decodeLines (current + 1) st (segmentsOf line :: others.map segmentsOf) >>= _ = _
      rw [decodeLines]
      cases decodeLine (UInt32.ofNat (current + 1)) { st with column := 0 } (segmentsOf line) with
      | error cause => rfl
      | ok read =>
          change (decodeLines (current + 1 + 1) read.2 _ >>= _) >>= _ =
            (decodeLines (current + 1 + 1) read.2 _ >>= _) >>= _
          cases decodeLines (current + 1 + 1) read.2 (others.map segmentsOf) <;> rfl

theorem decodeRest_comma (current : Nat) (st : State) (text : List Char) :
    decodeRest current st (',' :: text) = decodeRest current st text := by
  unfold decodeRest
  cases split : splitOn ';' text with
  | nil => exact absurd split (splitOn_ne_nil _ _)
  | cons line others =>
      have behind : splitOn ';' (',' :: text) = (',' :: line) :: others :=
        splitOn_append (s := [',']) (by decide) split
      have same : segmentsOf (',' :: line) = segmentsOf line := by
        rw [segmentsOf, splitOn_sep]
        rfl
      rw [behind]
      simp only [same]

/-- What can stand behind a segment. -/
def EndsSegment (text : List Char) : Prop :=
  text = [] ∨ (∃ rest, text = ',' :: rest) ∨ ∃ rest, text = ';' :: rest

/-- Up to the end of its line, what stands behind a segment is nothing or starts with a comma. -/
theorem EndsSegment.line {text line : List Char} {others : List (List Char)}
    (ends : EndsSegment text) (split : splitOn ';' text = line :: others) :
    ∃ parts, splitOn ',' line = [] :: parts := by
  rcases ends with rfl | ⟨rest, rfl⟩ | ⟨rest, rfl⟩
  · cases split
    exact ⟨[], rfl⟩
  · cases behind : splitOn ';' rest with
    | nil => exact absurd behind (splitOn_ne_nil _ _)
    | cons part parts =>
        have whole : splitOn ';' (',' :: rest) = (',' :: part) :: parts :=
          splitOn_append (s := [',']) (by decide) behind
        rw [whole] at split
        cases split
        exact ⟨_, splitOn_sep _ _⟩
  · rw [splitOn_sep] at split
    cases split
    exact ⟨[], rfl⟩

theorem decodeRest_segment {current : Nat} {st : State} (words : st.IsWord) {m : Mapping}
    (here : UInt32.ofNat current = m.generatedLine) {text : List Char} (ends : EndsSegment text) :
    decodeRest current st (encodeSegment st m ++ text) = do
      let (ms, lines) ← decodeRest current (st.after m) text
      return (m :: ms, lines) := by
  unfold decodeRest
  cases split : splitOn ';' text with
  | nil => exact absurd split (splitOn_ne_nil _ _)
  | cons line others =>
      obtain ⟨parts, behind⟩ := ends.line split
      have noSemicolon : ';' ∉ encodeSegment st m := fun member =>
        (encodeSegment_ne st m _ member).1 rfl
      have noComma : ',' ∉ encodeSegment st m := fun member => (encodeSegment_ne st m _ member).2 rfl
      have nonempty : (encodeSegment st m).isEmpty = false := by
        rw [List.isEmpty_eq_false_iff]
        exact encodeSegment_ne_nil st m
      have segments : segmentsOf (encodeSegment st m ++ line) =
          encodeSegment st m :: segmentsOf line := by
        rw [segmentsOf, segmentsOf, splitOn_append noComma behind, behind, List.append_nil]
        simp [nonempty]
      rw [splitOn_append noSemicolon split]
      simp only [segments, here, decodeLine_segment words]
      cases decodeLine m.generatedLine (st.after m) (segmentsOf line) with
      | error cause => rfl
      | ok read =>
          change (decodeLines (current + 1) read.2 (others.map segmentsOf) >>= _) =
            (decodeLines (current + 1) read.2 (others.map segmentsOf) >>= _) >>= _
          cases decodeLines (current + 1) read.2 (others.map segmentsOf) <;> rfl

/-! ## Texts -/

/-- The mappings of a generated line. -/
def lineOf (ms : List Mapping) (line : Nat) : List Mapping :=
  ms.filter (·.generatedLine.toNat == line)

/-- Lines that are read in order, of which the first is still to be put in order. -/
def linesOf (ms : List Mapping) (first count : Nat) : List Mapping × List (List Mapping) :=
  (lineOf ms first, (List.range' (first + 1) count).map fun line => byColumn (lineOf ms line))

theorem lineOf_eq_nil {ms : List Mapping} {line : Nat}
    (behind : ∀ m ∈ ms, line < m.generatedLine.toNat) : lineOf ms line = [] := by
  refine List.filter_eq_nil_iff.mpr ?_
  intro m member
  have := behind m member
  simp only [beq_iff_eq]
  omega

/-- Semicolons lead to later lines. -/
theorem decodeRest_skip {ms : List Mapping} {text : List Char} {count : Nat} (skipped : Nat) :
    ∀ (current : Nat) (st : State), (∀ m ∈ ms, current + skipped ≤ m.generatedLine.toNat) →
      decodeRest (current + skipped) (if skipped = 0 then st else { st with column := 0 }) text =
        .ok (linesOf ms (current + skipped) count) →
      decodeRest current st (List.replicate skipped ';' ++ text) =
        .ok (linesOf ms current (skipped + count)) := by
  induction skipped with
  | zero =>
      intro current st _ reads
      rw [Nat.zero_add]
      exact reads
  | succ skipped ih =>
      intro current st behind reads
      have next : decodeRest (current + 1) { st with column := 0 }
          (List.replicate skipped ';' ++ text) =
            .ok (linesOf ms (current + 1) (skipped + count)) := by
        refine ih (current + 1) { st with column := 0 } ?_ ?_
        · intro m member
          have := behind m member
          omega
        · rw [Nat.add_right_comm, Nat.add_assoc, ite_self]
          exact reads
      have nothing : lineOf ms current = [] := by
        refine lineOf_eq_nil ?_
        intro m member
        have := behind m member
        omega
      rw [List.replicate_succ, List.cons_append, decodeRest_line, next, linesOf, linesOf, nothing,
        Nat.add_right_comm skipped 1, List.range'_succ]
      rfl

/-- Of the lines from `first` on, a mapping belongs to the first. -/
theorem linesOf_cons {m : Mapping} {ms : List Mapping} {count : Nat} :
    linesOf (m :: ms) m.generatedLine.toNat count =
      (m :: lineOf ms m.generatedLine.toNat, (linesOf ms m.generatedLine.toNat count).2) := by
  unfold linesOf
  refine Prod.ext ?_ (List.map_congr_left ?_)
  · rw [lineOf, List.filter_cons, if_pos (beq_self_eq_true _)]
    rfl
  · intro line member
    have other : ¬ (m.generatedLine.toNat == line) = true := by
      have := (List.mem_range'_1.mp member).1
      rw [beq_iff_eq]
      omega
    rw [lineOf, List.filter_cons, if_neg other]
    rfl

/-- Behind a segment a text of mappings goes on with a separator. -/
theorem encodeFrom_ends (current : Nat) (st : State) (ms : List Mapping) :
    EndsSegment (encodeFrom current false st ms) := by
  cases ms with
  | nil => exact .inl rfl
  | cons m ms =>
      rw [encodeFrom]
      cases skipped : m.generatedLine.toNat - current with
      | zero => exact .inr (.inl ⟨_, rfl⟩)
      | succ n => exact .inr (.inr ⟨_, rfl⟩)

/-- Mappings in the order of their lines are read line by line. -/
theorem decodeRest_encodeFrom (ms : List Mapping) : ∀ (current : Nat) (fresh : Bool) (st : State),
    st.IsWord → (∀ m ∈ ms, current ≤ m.generatedLine.toNat) →
    ms.Pairwise (·.generatedLine.toNat ≤ ·.generatedLine.toNat) →
    ∃ count, decodeRest current st (encodeFrom current fresh st ms) =
      .ok (linesOf ms current count) ∧ (∀ m ∈ ms, m.generatedLine.toNat ≤ current + count) ∧
        (count = 0 ∨ ∃ m ∈ ms, m.generatedLine.toNat = current + count) := by
  induction ms with
  | nil =>
      intro current fresh st _ _ _
      exact ⟨0, rfl, fun _ member => absurd member List.not_mem_nil, .inl rfl⟩
  | cons m ms ih =>
      intro current fresh st words behind ascending
      rw [List.pairwise_cons] at ascending
      obtain ⟨skipped, here⟩ : ∃ skipped, m.generatedLine.toNat = current + skipped :=
        ⟨_, (Nat.add_sub_cancel' (behind m (List.mem_cons_self ..))).symm⟩
      let st' := if skipped = 0 then st else { st with column := 0 }
      have words' : st'.IsWord := by
        simp only [st']
        split
        · exact words
        · exact words.nextLine
      obtain ⟨count, reads, bound, last⟩ := ih m.generatedLine.toNat false (st'.after m)
        (words'.after m) ascending.1 ascending.2
      -- the segment and what follows it, from the line of the mapping on
      have segment : decodeRest m.generatedLine.toNat st' (encodeSegment st' m ++
          encodeFrom m.generatedLine.toNat false (st'.after m) ms) =
            .ok (linesOf (m :: ms) m.generatedLine.toNat count) := by
        rw [decodeRest_segment words' (UInt32.ofNat_toNat) (encodeFrom_ends ..), reads, linesOf_cons]
        rfl
      refine ⟨skipped + count, ?_, ?_, .inr ?_⟩
      · rw [encodeFrom]
        simp only [here, Nat.add_sub_cancel_left]
        rw [List.append_assoc, List.append_assoc]
        refine decodeRest_skip skipped current st ?_ ?_
        · intro m' member
          rcases List.mem_cons.mp member with rfl | member
          · exact Nat.le_of_eq here.symm
          · exact here ▸ ascending.1 m' member
        · rw [here] at segment
          cases separated : (fresh || skipped != 0) with
          | true => exact segment
          | false =>
              rw [if_neg Bool.false_ne_true, List.singleton_append, decodeRest_comma]
              exact segment
      · intro m' member
        rcases List.mem_cons.mp member with rfl | member
        · omega
        · have := bound m' member
          omega
      · rcases last with rfl | ⟨m', member, there⟩
        · exact ⟨m, List.mem_cons_self .., here⟩
        · exact ⟨m', List.mem_cons_of_mem _ member, by omega⟩

theorem decodeMappings_encodeMappings {ms : List Mapping}
    (ascending : ms.Pairwise (·.generatedLine.toNat ≤ ·.generatedLine.toNat)) :
    ∃ count, decodeMappings (encodeMappings ms) =
        .ok ⟨(List.range (count + 1)).map fun line => byColumn (lineOf ms line)⟩ ∧
      (∀ m ∈ ms, m.generatedLine.toNat < count + 1) ∧
      (count = 0 ∨ ∃ m ∈ ms, m.generatedLine.toNat = count) := by
  obtain ⟨count, reads, bound, last⟩ := decodeRest_encodeFrom ms 0 true {} State.isWord_start
    (fun _ _ => Nat.zero_le _) ascending
  refine ⟨count, ?_, ?_, ?_⟩
  · rw [encodeMappings, decodeMappings_of_rest reads, List.range_eq_range', List.range'_succ]
    rfl
  · intro m member
    have := bound m member
    omega
  · simpa only [Nat.zero_add] using last

end JsxPreview.SourceMap.Vlq
