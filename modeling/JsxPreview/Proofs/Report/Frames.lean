import JsxPreview.Report.Translation

/-! # Stack frames are read as they are written

The file of a frame may hold anything that the place behind it is made of.  It is still known where it ends:
a place holds two colons at most (`count_of_readPlace`), and one that starts within the file would hold
three.  A method ends at the first blank before a bracket, as it holds none itself
(`readMethod_written`); so a written frame is read as itself (`parse_render`). -/
set_option autoImplicit false
namespace JsxPreview

namespace Text

/-! ## Numerals -/

theorem digit_range {c : Char} (digit : c.isDigit = true) : 0x30 ≤ c.toNat ∧ c.toNat ≤ 0x39 := by
  rw [Char.isDigit, Bool.and_eq_true, decide_eq_true_eq, decide_eq_true_eq] at digit
  exact ⟨UInt32.le_iff_toNat_le.mp digit.1, UInt32.le_iff_toNat_le.mp digit.2⟩

theorem isDecimal_of_isDigit {c : Char} (digit : c.isDigit = true) : isDecimal c = true := by
  obtain ⟨low, high⟩ := digit_range digit
  refine List.any_eq_true.mpr ⟨0x30, List.mem_cons_self .., ?_⟩
  rw [Bool.and_eq_true, decide_eq_true_eq, decide_eq_true_eq]
  omega

theorem digitValue_of_isDigit {c : Char} (digit : c.isDigit = true) :
    digitValue c = some (c.toNat - '0'.toNat) ∧ c.toNat - '0'.toNat < 10 := by
  obtain ⟨low, high⟩ := digit_range digit
  have zero : '0'.toNat = 0x30 := rfl
  rw [Char.isDigit, Bool.and_eq_true, decide_eq_true_eq, decide_eq_true_eq] at digit
  exact ⟨if_pos digit, by omega⟩

theorem readDigits_decimal {digits : List Char} (decimal : ∀ c ∈ digits, c.isDigit = true) :
    ∀ n : Nat, readDigits 10 n digits = some (Nat.ofDigitChars 10 digits n) := by
  induction digits with
  | nil => exact fun n => rfl
  | cons c digits ih =>
      intro n
      obtain ⟨value, small⟩ := digitValue_of_isDigit (decimal c (List.mem_cons_self ..))
      rw [readDigits, value, Option.bind_eq_bind, Option.bind_some, if_pos small,
        ih fun c' member => decimal c' (List.mem_cons_of_mem _ member), Nat.ofDigitChars_cons,
        Nat.mul_comm]

/-- A number below the bound is read back from its decimal digits. -/
theorem readUnsigned_toDigits {n bound : Nat} (small : n < bound) :
    readUnsigned 10 bound (Nat.toDigits 10 n) = some n := by
  have decimal : ∀ c ∈ Nat.toDigits 10 n, c.isDigit = true := fun c member =>
    Nat.isDigit_of_mem_toDigits (by decide) (by decide) member
  have read := readDigits_decimal decimal 0
  rw [Nat.ofDigitChars_ten_toDigits] at read
  unfold readUnsigned
  split
  case h_1 t plus =>
    rw [plus] at decimal
    exact absurd (decimal '+' (List.mem_cons_self ..)) (by decide)
  case h_2 =>
    rw [if_neg (by simp), read]
    exact Option.filter_some_pos (decide_eq_true small)

end Text

namespace Report.StackFrame

open JsxPreview.Text

/-- Decimal digits, one at least. -/
structure IsNumeral (digits : List Char) : Prop where
  nonempty : digits ≠ []
  decimal : ∀ c ∈ digits, isDecimal c = true

theorem toString_word (n : UInt32) : (toString n).toList = Nat.toDigits 10 n.toNat := by
  change (toString n.toNat).toList = _
  rw [Nat.toString_eq_ofList_toDigits, String.toList_ofList]

theorem isNumeral_word (n : UInt32) : IsNumeral (toString n).toList := by
  rw [toString_word]
  exact ⟨Nat.toDigits_ne_nil, fun c member =>
    isDecimal_of_isDigit (Nat.isDigit_of_mem_toDigits (by decide) (by decide) member)⟩

theorem readWord_word (n : UInt32) : readWord (toString n).toList = some n := by
  rw [toString_word, readWord, readUnsigned_toDigits n.toNat_lt]
  exact congrArg some UInt32.ofNat_toNat

/-! ## Places -/

theorem colonDigits_written {digits rest : List Char} (numeral : IsNumeral digits)
    (ends : ∀ c ∈ rest.head?, isDecimal c = false) :
    colonDigits (':' :: (digits ++ rest)) = some (digits, rest) := by
  have taken : (digits ++ rest).takeWhile isDecimal = digits := by
    rw [List.takeWhile_append_of_pos numeral.decimal]
    cases rest with
    | nil => simp
    | cons c rest => rw [List.takeWhile_cons_of_neg (by simp [ends c rfl]), List.append_nil]
  have left : (digits ++ rest).dropWhile isDecimal = rest := by
    rw [List.dropWhile_append_of_pos numeral.decimal]
    cases rest with
    | nil => rfl
    | cons c rest => rw [List.dropWhile_cons_of_neg (by simp [ends c rfl])]
  rw [colonDigits, taken, left, if_neg (by simpa using numeral.nonempty)]

/-- A line and a column, and the bracket that may follow, are read as they are. -/
theorem readPlace_written {line column close : List Char} (isLine : IsNumeral line)
    (isColumn : IsNumeral column) (ends : isEnd close = true) :
    readPlace (':' :: (line ++ ':' :: (column ++ close))) = some (line, some column) := by
  have starts {c : Char} (other : isDecimal c = false) (t : List Char) :
      ∀ d ∈ (c :: t).head?, isDecimal d = false := by
    intro d same
    rwa [← Option.some.inj same]
  have behind : ∀ c ∈ close.head?, isDecimal c = false := by
    rw [isEnd, Bool.or_eq_true, beq_iff_eq, beq_iff_eq] at ends
    rcases ends with rfl | rfl
    · exact fun c none => nomatch none
    · exact starts (by decide) []
  rw [readPlace, colonDigits_written isLine (starts (by decide) _)]
  simp only [Option.bind_eq_bind, Option.bind_some]
  rw [colonDigits_written isColumn behind]
  exact if_pos ends

theorem count_of_colonDigits {s digits rest : List Char} (reads : colonDigits s = some (digits, rest)) :
    s.head? = some ':' ∧ s.count ':' = rest.count ':' + 1 := by
  unfold colonDigits at reads
  split at reads
  case h_2 => exact nomatch reads
  case h_1 t =>
    split at reads
    · exact nomatch reads
    · cases reads
      have none : ':' ∉ t.takeWhile isDecimal := by
        intro member
        exact absurd (List.all_eq_true.mp List.all_takeWhile _ member) (by decide)
      have split := congrArg (List.count ':') (List.takeWhile_append_dropWhile (p := isDecimal) (l := t))
      rw [List.count_append, List.count_eq_zero_of_not_mem none, Nat.zero_add] at split
      rw [List.count_cons_self, ← split]
      exact ⟨rfl, rfl⟩

/-- What is read as a place starts with a colon and holds one more at most. -/
theorem count_of_readPlace {s : List Char} {place : List Char × Option (List Char)}
    (reads : readPlace s = some place) : s.head? = some ':' ∧ s.count ':' ≤ 2 := by
  have noColon {close : List Char} (ends : isEnd close = true) : close.count ':' = 0 := by
    rw [isEnd, Bool.or_eq_true, beq_iff_eq, beq_iff_eq] at ends
    rcases ends with rfl | rfl <;> decide
  unfold readPlace at reads
  obtain ⟨⟨line, rest⟩, first, reads⟩ := Option.bind_eq_some_iff.mp reads
  obtain ⟨starts, count⟩ := count_of_colonDigits first
  refine ⟨starts, ?_⟩
  simp only at reads
  split at reads
  case h_1 column close second =>
    split at reads
    · have ends := noColon ‹_›
      have := (count_of_colonDigits second).2
      omega
    · exact nomatch reads
  case h_2 =>
    split at reads
    · have ends := noColon ‹_›
      omega
    · exact nomatch reads

/-! ## Files and methods -/

/-- A file is read up to the place behind it, when no place starts within the file. -/
theorem readFile_written {file rest line : List Char} {column : Option (List Char)}
    (oneLine : '\n' ∉ file) (reads : readPlace rest = some (line, column))
    (alone : ∀ t, t <:+ file → t ≠ [] → readPlace (t ++ rest) = none) :
    ∀ read : List Char, read ≠ [] ∨ file ≠ [] →
      readFile read (file ++ rest) = some (read.reverse ++ file, line, column) := by
  induction file with
  | nil =>
      intro read some
      have some := some.resolve_right fun none => none rfl
      cases rest with
      | nil => exact nomatch reads
      | cons c rest =>
          rw [List.nil_append, readFile, if_neg (by simpa using some), reads, List.append_nil]
  | cons c file ih =>
      intro read _
      rw [List.mem_cons, not_or] at oneLine
      have within : (if read.isEmpty then none else readPlace (c :: (file ++ rest))) = none := by
        split
        · rfl
        · exact alone (c :: file) (List.suffix_refl _) (List.cons_ne_nil _ _)
      have later := ih oneLine.2 (fun t within => alone t (within.trans (List.suffix_cons _ _)))
        (c :: read) (.inl (List.cons_ne_nil _ _))
      rw [List.cons_append, readFile, within]
      simp only
      rw [if_neg (Ne.symm oneLine.1), later, List.reverse_cons, List.append_assoc, List.singleton_append]

/-- Where no blank stands before a bracket a method goes on. -/
theorem readMethod_cons {c : Char} {s : List Char} (goesOn : ¬ [' ', '('] <+: c :: s) (read : List Char) :
    readMethod read (c :: s) = if c = '\n' then none else readMethod (c :: read) s := by
  rw [readMethod]
  split
  case h_1 found =>
    split at found
    case h_1 inside same => exact absurd ⟨inside, same.symm⟩ goesOn
    case h_2 => exact nomatch found
  case h_2 => rfl

/-- A method is read up to the first blank before a bracket, when a file and a place stand there. -/
theorem readMethod_written {method inside : List Char} {place : List Char × List Char × Option (List Char)}
    (oneLine : '\n' ∉ method) (plain : ¬ [' ', '('] <:+: method)
    (reads : readFile [] inside = some place) : ∀ read : List Char, read ≠ [] ∨ method ≠ [] →
      readMethod read (method ++ ' ' :: '(' :: inside) = some (read.reverse ++ method, place) := by
  induction method with
  | nil =>
      intro read some
      have some := some.resolve_right fun none => none rfl
      rw [List.nil_append, readMethod]
      simp only
      rw [if_neg (by simpa using some), reads, List.append_nil]
  | cons c method ih =>
      intro read _
      rw [List.mem_cons, not_or] at oneLine
      have later := ih oneLine.2 (fun within => plain (within.trans (List.suffix_cons _ _).isInfix))
        (c :: read) (.inl (List.cons_ne_nil _ _))
      -- the blank and the bracket would both be the method's, or the blank stand before a blank
      have goesOn : ¬ [' ', '('] <+: c :: (method ++ ' ' :: '(' :: inside) := by
        rintro ⟨behind, same⟩
        obtain ⟨rfl, next⟩ := List.cons.inj same
        cases method with
        | nil => exact absurd (List.cons.inj next).1 (by decide)
        | cons c' method =>
            obtain ⟨rfl, -⟩ := List.cons.inj next
            exact plain (List.prefix_append [' ', '('] method).isInfix
      rw [List.cons_append, readMethod_cons goesOn, if_neg (Ne.symm oneLine.1), later,
        List.reverse_cons, List.append_assoc, List.singleton_append]

/-- Without a blank before a bracket there is no method. -/
theorem readMethod_eq_none {s : List Char} (plain : ¬ [' ', '('] <:+: s) :
    ∀ read : List Char, readMethod read s = none := by
  induction s with
  | nil => exact fun _ => rfl
  | cons c s ih =>
      intro read
      rw [readMethod_cons (fun starts => plain starts.isInfix),
        ih fun within => plain (within.trans (List.suffix_cons _ _).isInfix), ite_self]

/-! ## Frames -/

/-- A file and a place of two words behind it. -/
theorem readFile_place {file close : List Char} (nonempty : file ≠ []) (oneLine : '\n' ∉ file)
    (line column : UInt32) (ends : isEnd close = true) :
    readFile [] (file ++ ':' :: ((toString line).toList ++ ':' :: ((toString column).toList ++ close))) =
      some (file, (toString line).toList, some (toString column).toList) := by
  have reads := readPlace_written (isNumeral_word line) (isNumeral_word column) ends
  refine readFile_written oneLine reads ?_ [] (.inr nonempty)
  intro t _ some
  refine Option.eq_none_iff_forall_ne_some.mpr fun place earlier => ?_
  obtain ⟨starts, count⟩ := count_of_readPlace earlier
  cases t with
  | nil => exact some rfl
  | cons c t =>
      rw [List.cons_append, List.head?_cons, Option.some.injEq] at starts
      subst starts
      simp only [List.cons_append, List.count_cons_self, List.count_append] at count
      omega

/-- A text without a bracket behind another one adds no blank before a bracket. -/
theorem not_infix_append {s t : List Char} (plain : ¬ [' ', '('] <:+: s) (absent : '(' ∉ t) :
    ¬ [' ', '('] <:+: s ++ t := by
  rintro ⟨before, behind, same⟩
  rcases List.append_eq_append_iff.mp same with ⟨more, rfl, rfl⟩ | ⟨more, found, rfl⟩
  · exact plain ⟨before, more, rfl⟩
  · rcases List.eq_nil_or_concat more with rfl | ⟨front, c, rfl⟩
    · rw [List.append_nil] at found
      exact plain ⟨before, [], by rw [List.append_nil, found]⟩
    · rw [List.concat_eq_append, ← List.append_assoc] at found
      have last := congrArg List.getLast? found
      rw [List.getLast?_concat, List.getLast?_append] at last
      obtain rfl : '(' = c := Option.some.inj last
      simp at absent

theorem parse_of_text {text : String} {rest : List Char}
    (same : text.toList = ' ' :: ' ' :: ' ' :: ' ' :: 'a' :: 't' :: ' ' :: rest) :
    parse text = do
      let (method, file, digits, column) ← match readMethod [] rest with
        | some (method, place) => some (some method, place)
        | none => (readFile [] rest).map (none, ·)
      let n ← readWord digits
      return ⟨method.map String.ofList, String.ofList file, n, column >>= readWord⟩ := by
  have trimmed : trimStart text.toList = 'a' :: 't' :: ' ' :: rest := by
    rw [same]
    rfl
  rw [parse, trimmed]
  rfl

theorem place_toList (method : Option String) (file : String) (line column : UInt32) :
    (place ⟨method, file, line, some column⟩).toList =
      file.toList ++ ':' :: ((toString line).toList ++ ':' :: (toString column).toList) := by
  simp [place]

/-- A frame with a column is read back from its text, whatever stands in its file but a line feed: with a
method, when this is not the one for functions without a name and holds neither a line feed nor a blank
before a bracket; and without one, when the file holds no blank before a bracket. -/
theorem parse_render {file : String} (nonempty : file ≠ "") (oneLine : '\n' ∉ file.toList)
    (line column : UInt32) :
    (∀ method : String, method ≠ "" → method ≠ "<anonymous>" → '\n' ∉ method.toList →
      ¬ [' ', '('] <:+: method.toList →
        parse (render ⟨some method, file, line, some column⟩) =
          some ⟨some method, file, line, some column⟩) ∧
    (¬ [' ', '('] <:+: file.toList →
      parse (render ⟨none, file, line, some column⟩) = some ⟨none, file, line, some column⟩) := by
  have some' : file.toList ≠ [] := by simpa using nonempty
  constructor
  · intro method named known oneLineToo plain
    have text : (render ⟨some method, file, line, some column⟩).toList =
        ' ' :: ' ' :: ' ' :: ' ' :: 'a' :: 't' :: ' ' :: (method.toList ++ ' ' :: '(' ::
          (file.toList ++ ':' :: ((toString line).toList ++ ':' :: ((toString column).toList ++ [')'])))) := by
      simp [render, place_toList]
    have inside := readFile_place some' oneLine line column (show isEnd [')'] = true from rfl)
    have read := readMethod_written oneLineToo plain inside [] (.inr (by simpa using named))
    rw [parse_of_text text, read]
    simp [readWord_word]
  · intro plain
    have text : (render ⟨none, file, line, some column⟩).toList =
        ' ' :: ' ' :: ' ' :: ' ' :: 'a' :: 't' :: ' ' :: (file.toList ++ ':' :: ((toString line).toList ++
          ':' :: ((toString column).toList ++ []))) := by
      simp [render, place_toList]
    have bracket (n : UInt32) : '(' ∉ (toString n).toList := fun member =>
      absurd ((isNumeral_word n).decimal '(' member) (by decide)
    have read := readFile_place some' oneLine line column (show isEnd [] = true from rfl)
    have noMethod := readMethod_eq_none (not_infix_append plain (t := ':' :: ((toString line).toList ++
      ':' :: ((toString column).toList ++ []))) (by simp [bracket])) []
    rw [parse_of_text text, noMethod, read]
    simp [readWord_word]

/-- A file that could be a frame itself, and a method with a bracket in front. -/
theorem parse_render_lookalike :
    parse (render ⟨some "(f) g", "x.js:1:2 (y.js:3:4)", 4294967295, some 0⟩) =
        some ⟨some "(f) g", "x.js:1:2 (y.js:3:4)", 4294967295, some 0⟩ ∧
      parse (render ⟨none, "(x.js:1:2)", 3, some 4⟩) = some ⟨none, "(x.js:1:2)", 3, some 4⟩ := by
  have first := @parse_render "x.js:1:2 (y.js:3:4)" (by decide) (by decide) 4294967295 0
  have second := @parse_render "(x.js:1:2)" (by decide) (by decide) 3 4
  exact ⟨first.1 "(f) g" (by decide) (by decide) (by decide) (by decide +kernel),
    second.2 (by decide +kernel)⟩

end Report.StackFrame

end JsxPreview
