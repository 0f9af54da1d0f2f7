import JsxPreview.Proofs.Erasure.Growth
import JsxPreview.Proofs.Guarded.Expression

/-! # Imports in order

The walk records imports one behind the other.  It can come upon one inside of another that it has
recorded only where a range of tokens ends in the middle of a statement: behind that end the statement
goes on with no braces, so what starts there brings no names (`TokenRow.Idle`).  What was recorded is
behind the walk (`Erasure.Ordered`) at the place where a range of tokens ends, whatever stands there. -/
set_option autoImplicit false
namespace JsxPreview.Source

open JsxPreview.Text

namespace TokenRow

variable {row : TokenRow} {source : List Char} {low high i j k stop : Nat} {ts us : List Token}

/-! ## Places of a row -/

/-- Where the tokens in front of token `k` end; the row starts at byte `low`. -/
def reach (row : TokenRow) (low : Nat) : Nat → Nat
  | 0 => low
  | k + 1 => row.stop k

namespace Lies

theorem reach_le_start (lies : row.Lies source low high) (inRow : i < row.size) :
    row.reach low i ≤ row.start i := by
  cases i with
  | zero =>
      obtain ⟨t, found⟩ := get?_of_lt inRow
      rw [start_of_get? found]
      exact (lies.token found).1
  | succ i => exact lies.stop_le_start (Nat.lt_succ_self i) inRow

theorem start_lt_stop (lies : row.Lies source low high) (inRow : i < row.size) :
    row.start i < row.stop i := by
  obtain ⟨t, found⟩ := get?_of_lt inRow
  rw [start_of_get? found, stop_of_get? found]
  exact (lies.token found).2.1

theorem reach_mono (lies : row.Lies source low high) (le : i ≤ j) (inRow : j ≤ row.size) :
    row.reach low i ≤ row.reach low j := by
  induction le with
  | refl => exact Nat.le_refl _
  | @step j _ ih =>
      exact Nat.le_trans (ih (Nat.le_of_lt inRow)) (Nat.le_trans (lies.reach_le_start inRow)
        (Nat.le_of_lt (lies.start_lt_stop inRow)))

theorem reach_le (lies : row.Lies source low high) (inRow : i ≤ row.size) :
    row.reach low i ≤ high := by
  cases i with
  | zero =>
      obtain ⟨_, _, tiles, _⟩ := lies
      exact tiles.le
  | succ i =>
      obtain ⟨t, found⟩ := get?_of_lt inRow
      rw [reach, stop_of_get? found]
      exact (lies.token found).2.2.1

end Lies

theorem matching_getD_le (row : TokenRow) (i stop : Nat) : (row.matching i stop).getD stop ≤ stop := by
  cases found : row.matching i stop with
  | none => exact Nat.le_refl stop
  | some close => exact Nat.le_of_lt (matching_spec found).2.1

/-! ## Imports without names -/

/-- An import at token `k` would bring no names. -/
def Idle (row : TokenRow) (k : Nat) : Prop :=
  row.isPunct (k + 1) "," = true ∨ row.isWord (k + 1) "from" = true ∧ row.isStr (k + 2) = true

/-- Token `k` holds no others, and no names are imported there. -/
structure Spent (row : TokenRow) (k : Nat) : Prop where
  leaf : ∃ t, row.get? k = some t ∧ t.shape.isLeaf = true
  idle : row.isWord k "import" = true → row.Idle k

namespace Spent

theorem of_anyWord (word : row.isAnyWord k = true) (idle : row.isWord k "import" = true → row.Idle k) :
    row.Spent k := by
  obtain ⟨⟨shape, _, _, _⟩, found, kind⟩ := get?_of_any word
  refine ⟨⟨_, found, ?_⟩, idle⟩
  cases shape <;> first | rfl | cases kind

theorem of_word {w : String} (word : row.isWord k w = true) (other : "import" ≠ w) : row.Spent k := by
  refine of_anyWord (any_of_isWord word fun _ _ => rfl) fun opens => ?_
  rw [isWord_unique word other] at opens
  exact absurd opens Bool.false_ne_true

theorem of_punct {p : String} (punct : row.isPunct k p = true) : row.Spent k := by
  obtain ⟨⟨shape, _, _, _⟩, found, kind, _⟩ := isPunct_iff.mp punct
  refine ⟨⟨_, found, ?_⟩, fun opens => ?_⟩
  · cases shape <;> first | rfl | cases kind
  · rw [isWord_of_isPunct punct] at opens
    exact absurd opens Bool.false_ne_true

theorem of_str (literal : row.isStr k = true) : row.Spent k := by
  obtain ⟨⟨shape, _, _, _⟩, found, kind⟩ := get?_of_any literal
  refine ⟨⟨_, found, ?_⟩, fun opens => ?_⟩
  · cases shape <;> first | rfl | cases kind
  · rw [isWord_of_isStr literal] at opens
    exact absurd opens Bool.false_ne_true

end Spent

end TokenRow

namespace Erase

open TokenRow (Spent)

variable {row : TokenRow} {i j k stop : Nat}

/-- The names in front of the braces are spent when a module follows them. -/
theorem namespaceBinding_spent (from_ : row.isWord (namespaceBinding row j).2 "from" = true)
    (literal : row.isStr ((namespaceBinding row j).2 + 1) = true) (behind : j ≤ k)
    (before : k < (namespaceBinding row j).2) : row.Spent k := by
  unfold namespaceBinding at *
  split at before
  case isTrue here =>
    simp only [Bool.and_eq_true] at here
    rw [if_pos (by simpa using here)] at from_ literal
    obtain rfl | rfl | rfl : k = j ∨ k = j + 1 ∨ k = j + 2 := by
      simp only at before
      omega
    · exact .of_punct here.1.1
    · exact .of_word here.1.2 (by decide)
    · exact .of_anyWord here.2 fun _ => .inr ⟨from_, literal⟩
  case isFalse => exact absurd behind (Nat.not_le.mpr before)

theorem defaultBinding_spent
    (from_ : row.isWord (namespaceBinding row (defaultBinding row j).2).2 "from" = true)
    (literal : row.isStr ((namespaceBinding row (defaultBinding row j).2).2 + 1) = true) (behind : j ≤ k)
    (before : k < (namespaceBinding row (defaultBinding row j).2).2) : row.Spent k := by
  rcases Nat.lt_or_ge k (defaultBinding row j).2 with first | second
  · unfold defaultBinding at *
    split at first
    case isTrue here =>
      rw [if_pos here] at from_ literal
      rw [Bool.and_eq_true, Bool.or_eq_true] at here
      simp only at first from_ literal
      split at first
      case isTrue comma =>
        obtain rfl | rfl : k = j ∨ k = j + 1 := by omega
        · exact .of_anyWord here.1 fun _ => .inl comma
        · exact .of_punct comma
      case isFalse noComma =>
        have next := here.2.resolve_left noComma
        have same : namespaceBinding row (j + 1) = ([], j + 1) := by
          rw [namespaceBinding, TokenRow.isPunct_of_isWord next]
          rfl
        rw [if_neg noComma, same] at literal
        obtain rfl : k = j := by omega
        exact .of_anyWord here.1 fun _ => .inr ⟨next, literal⟩
    case isFalse => exact absurd behind (Nat.not_le.mpr first)
  · exact namespaceBinding_spent from_ literal second before

/-- Behind the names, too, all is spent that does not lie in the range of the walk. -/
theorem importEnd_spent (from_ : row.isWord j "from" = true) (literal : row.isStr (j + 1) = true)
    (behind : j ≤ k) (outside : stop ≤ k) (before : k < importEnd row j stop) : row.Spent k := by
  unfold importEnd at before
  extract_lets attributes next at before
  have ends : next ≤ j + 2 ∨ next ≤ stop := by
    unfold next
    split
    case h_1 close found =>
      split at found
      · exact .inr (TokenRow.matching_spec found).2.1
      · exact absurd found (by simp)
    case h_2 => exact .inl (Nat.le_refl _)
  obtain rfl | rfl | last : k = j ∨ k = j + 1 ∨ row.isPunct next ";" = true ∧ k = next := by
    split at before
    case isTrue semicolon =>
      rcases Nat.lt_or_ge k next with less | ge
      · omega
      · exact .inr (.inr ⟨semicolon, by omega⟩)
    case isFalse => omega
  · exact .of_word from_ (by decide)
  · exact .of_str literal
  · rw [last.2]
    exact .of_punct last.1

theorem bindings_of_idle (idle : row.Idle i) : defaultBinding row (i + 1) = ([], i + 1) ∧
    namespaceBinding row (i + 1) = ([], i + 1) ∧ row.isPunct (i + 1) "\x7b" = false := by
  rcases idle with comma | ⟨from_, literal⟩
  · have noWord : row.isAnyWord (i + 1) = false := TokenRow.any_of_isPunct comma fun _ _ => rfl
    refine ⟨?_, ?_, TokenRow.isPunct_unique comma (by decide)⟩
    · rw [defaultBinding, noWord]
      rfl
    · rw [namespaceBinding, TokenRow.isPunct_unique comma (by decide)]
      rfl
  · refine ⟨?_, ?_, TokenRow.isPunct_of_isWord from_ _⟩
    · rw [defaultBinding, TokenRow.isWord_of_isStr literal, TokenRow.isPunct_of_isStr literal]
      simp
    · rw [namespaceBinding, TokenRow.isPunct_of_isWord from_]
      rfl

end Erase

/-! ## What is behind the walk -/

/-- An import statement that brings no names. -/
def ImportStatement.Bare (i : ImportStatement) : Prop := i.hasSpecifiers = false ∧ i.bindings = []

variable {source : List Char} {ts us : List Token} {m n low high : Nat}

/-- Where the word `import` stands at `n` or behind, it stands behind the statement, or brings no names. -/
def ImportStatement.Behind (source : List Char) (ts : List Token) (n : Nat) (i : ImportStatement) : Prop :=
  ∀ us, Nested us ts → ∀ k, (TokenRow.ofTokens source us).isWord k "import" = true →
    n ≤ (TokenRow.ofTokens source us).start k →
      i.span.stop ≤ (TokenRow.ofTokens source us).start k ∨ (TokenRow.ofTokens source us).Idle k

/-- The imports stand one behind the other, and what was recorded is behind the walk at `n`. -/
structure Erasure.Ordered (source : List Char) (ts : List Token) (n : Nat) (e : Erasure) : Prop where
  inOrder : e.imports.Pairwise fun i j => i.span.stop ≤ j.span.start ∨ j.Bare
  behind : ∀ i ∈ e.imports, i.Behind source ts n

namespace Erasure.Ordered

theorem later {e : Erasure} (ordered : e.Ordered source ts m) (le : m ≤ n) : e.Ordered source ts n :=
  ⟨ordered.inOrder, fun i member us nested k word behind =>
    ordered.behind i member us nested k word (Nat.le_trans le behind)⟩

theorem of_imports_eq {e e' : Erasure} (ordered : e.Ordered source ts n) (same : e'.imports = e.imports) :
    e'.Ordered source ts n :=
  ⟨same ▸ ordered.inOrder, same ▸ ordered.behind⟩

end Erasure.Ordered

/-- A row of the text: it holds tokens that are nested in its tokens, between two places. -/
structure TokenRow.Among (row : TokenRow) (source : List Char) (ts : List Token) (low high : Nat) :
    Prop where
  nested : ∃ us, Nested us ts ∧ row = .ofTokens source us
  lies : row.Lies source low high

namespace TokenRow.Among

variable {row : TokenRow}

theorem inside (among : row.Among source ts low high) {i : Nat} {t : Token} {b : Body}
    (found : row.get? i = some t) (container : b ∈ t.shape.bodies) :
    (row.nested b.tokens).Among source ts b.start b.stop := by
  have lies := among.lies.nested found container
  obtain ⟨us, nested, rfl⟩ := among.nested
  exact ⟨⟨b.tokens, nested.deeper (mem_of_get? found) container, rfl⟩, lies⟩

/-- What starts where spent tokens stand is one of them. -/
theorem behind (among : row.Among source ts low high) {first last : Nat} (spanned : Spanned first last ts)
    {a b : Nat} (positive : 0 < a) (le : a ≤ b) (spent : ∀ k, a ≤ k → k < b → row.Spent k)
    {i : ImportStatement} (ends : i.span.stop = row.reach low b) :
    i.Behind source ts (row.reach low a) := by
  intro us' nested' k word starts
  refine (Nat.lt_or_ge _ _).symm.imp id fun before => ?_
  obtain ⟨a, rfl⟩ := Nat.exists_eq_succ_of_ne_zero (Nat.ne_of_gt positive)
  obtain ⟨b, rfl⟩ := Nat.exists_eq_succ_of_ne_zero (Nat.ne_of_gt (Nat.lt_of_lt_of_le positive le))
  obtain ⟨v, found, isWord, -⟩ := isWord_iff.mp word
  rw [start_of_get? found] at starts before
  rw [ends] at before
  change row.stop a ≤ v.start at starts
  change v.start < row.stop b at before
  have less : a < b := by
    refine Nat.lt_of_le_of_ne (Nat.le_of_succ_le_succ le) fun same => ?_
    rw [same] at starts
    exact absurd before (Nat.not_lt.mpr starts)
  obtain ⟨us, nested, rfl⟩ := among.nested
  obtain ⟨low', high', inner, -, -, back⟩ := spanned.nested nested
  obtain ⟨w, foundLast, -⟩ := (spent b less (Nat.lt_succ_self b)).leaf
  obtain ⟨u, foundFirst⟩ := get?_of_lt (Nat.lt_trans less (lt_of_get? foundLast))
  -- what covers the start of the word is one of the spent tokens
  have between {j : Nat} {t : Token} (found : (ofTokens source us).get? j = some t)
      (begins : t.start ≤ v.start) (stops : v.start < t.stop) : a < j ∧ j ≤ b := by
    rw [← start_of_get? found] at begins
    rw [← stop_of_get? found] at stops
    constructor
    · refine Nat.lt_of_not_le fun le => ?_
      have := among.lies.reach_mono (Nat.succ_le_succ le) (lt_of_get? foundFirst)
      exact absurd stops (Nat.not_lt.mpr (Nat.le_trans this starts))
    · refine Nat.le_of_not_lt fun less => ?_
      have := among.lies.stop_le_start less (lt_of_get? found)
      exact absurd before (Nat.not_lt.mpr (Nat.le_trans this begins))
  have grows := (spanned.span_within (nested'.within (mem_of_get? found))).2.1
  have lowest : low' ≤ v.start := by
    have := inner.span_within (.here (mem_of_get? foundFirst))
    rw [stop_of_get? foundFirst] at starts
    omega
  have highest : v.start < high' := by
    have := inner.span_within (.here (mem_of_get? foundLast))
    rw [stop_of_get? foundLast] at before
    omega
  -- these hold no others, so the word is one of them
  obtain ⟨t, member, begins, stops, deeper⟩ :=
    inner.within_cases (back v (nested'.within (mem_of_get? found)) lowest highest)
  have leaf : t.shape.isLeaf = true := by
    cases comment : t.isComment with
    | true =>
        obtain ⟨shape, _, _, _⟩ := t
        cases shape <;> first | rfl | cases comment
    | false =>
        have kept : t ∈ us.filter (!·.isComment) := List.mem_filter.mpr ⟨member, by simp [comment]⟩
        obtain ⟨j, at_⟩ := List.mem_iff_getElem?.mp kept
        rw [← get?_ofTokens source us j] at at_
        obtain ⟨behind, before⟩ := between at_ begins (Nat.lt_of_lt_of_le grows stops)
        obtain ⟨t', found', leaf⟩ := (spent j behind (Nat.lt_succ_of_le before)).leaf
        cases at_.symm.trans found'
        exact leaf
  have among' : v ∈ us := by
    rcases deeper with rfl | ⟨b, container, -⟩
    · exact member
    · rw [(containers_leaf leaf).1] at container
      exact absurd container List.not_mem_nil
  cases spanned.same_list nested' nested (mem_of_get? found) among' rfl
  obtain ⟨behind, before⟩ := between found (Nat.le_refl _) grows
  exact (spent k behind (Nat.lt_succ_of_le before)).idle word

end TokenRow.Among

variable {row : TokenRow} {i stop : Nat}

/-- A recorded statement is behind the walk where it ends, and where the range ends when that comes
first. -/
theorem Erasure.Ordered.record (among : row.Among source ts low high) {first last : Nat}
    (spanned : Spanned first last ts) (inRow : stop ≤ row.size) (starts : i < stop) {e : Erasure}
    (ordered : e.Ordered source ts (row.reach low i)) (word : row.isWord i "import" = true) {next : Nat}
    (moves : i < next) {s : ImportStatement} (span : s.span = ⟨row.start i, row.stop (next - 1)⟩)
    (bare : row.Idle i → s.Bare) (spent : ∀ k, i < k → stop ≤ k → k < next → row.Spent k) :
    Erasure.Ordered source ts (row.reach low (min next stop)) { e with imports := e.imports ++ [s] } := by
  have onward : row.reach low i ≤ row.reach low (min next stop) :=
    among.lies.reach_mono (by omega) (by omega)
  have here := among.lies.reach_le_start (TokenRow.lt_of_isWord word)
  have own : s.Behind source ts (row.reach low (min next stop)) := by
    refine among.behind spanned (by omega) (Nat.min_le_left ..) (b := next) (fun k behind before => ?_) ?_
    · exact spent k (by omega) (by omega) before
    · rw [span]
      obtain ⟨next, rfl⟩ := Nat.exists_eq_succ_of_ne_zero (Nat.ne_of_gt (Nat.zero_lt_of_lt moves))
      rfl
  obtain ⟨us, nested, rfl⟩ := among.nested
  refine ⟨List.pairwise_append.mpr ⟨ordered.inOrder, List.pairwise_singleton .., fun j member => ?_⟩,
    List.forall_mem_append.mpr ⟨(ordered.later onward).behind, List.forall_mem_singleton.mpr own⟩⟩
  refine List.forall_mem_singleton.mpr ?_
  rw [span]
  exact (ordered.behind j member us nested i word here).imp id bare

namespace Erase

/-- A step of the walk takes it from one place in the text to a later one. -/
structure Moves {α : Type} (source : List Char) (ts : List Token) (n : Nat) (m : Erase α)
    (reached : α → Nat) : Prop where
  moved (e e' : Erasure) (a : α) : m.run e = .ok (a, e') → e.Ordered source ts n →
    e'.Ordered source ts (reached a)

theorem ordered_steady (source : List Char) (ts : List Token) (n : Nat) :
    Steady (fun _ => True) (Erasure.Ordered source ts n) where
  blank _ _ ordered := ordered.of_imports_eq (Erasure.imports_blank ..)
  typeNames _ ordered := ordered.of_imports_eq rfl
  exported _ _ ordered := ordered.of_imports_eq rfl

namespace Moves

variable {α β : Type} {x y : Erase α} {reached : α → Nat} {reached' : β → Nat}

theorem pure {a : α} (le : n ≤ reached a) : Moves source ts n (Pure.pure a : Erase α) reached := by
  refine ⟨?_⟩
  rintro e e' b ⟨⟩ ordered
  exact ordered.later le

theorem bind {k : α → Erase β} (first : Moves source ts n x reached)
    (rest : ∀ a, Moves source ts (reached a) (k a) reached') : Moves source ts n (x >>= k) reached' := by
  refine ⟨fun e e' b success ordered => ?_⟩
  obtain ⟨⟨a, middle⟩, ran, success⟩ := ok_of_bind success
  exact (rest a).moved middle e' b success (first.moved e middle a ran ordered)

theorem state {k : Erasure → Erase β} (rest : ∀ e, Moves source ts n (k e) reached') :
    Moves source ts n (get >>= k) reached' :=
  ⟨fun e e' b success ordered => (rest e).moved e e' b success ordered⟩

theorem update {f : Erasure → Erasure} {n' : Nat}
    (moves : ∀ e, e.Ordered source ts n → (f e).Ordered source ts n') :
    Moves source ts n (modify f : Erase Unit) fun _ => n' := by
  refine ⟨?_⟩
  rintro e e' b ⟨⟩ ordered
  exact moves e ordered

theorem blank (start stop : Nat) : Moves source ts n (Erase.blank start stop) fun _ => n :=
  .update fun _ ordered => ordered.of_imports_eq (Erasure.imports_blank ..)

theorem blankAll (spans : List Span) :
    Moves source ts n (modify (·.blankAll spans) : Erase Unit) fun _ => n :=
  .update fun _ ordered => ordered.of_imports_eq (Erasure.imports_blankAll ..)

theorem fail (row : TokenRow) (i : Nat) (cause : SyntaxError.Cause) :
    Moves source ts n (Erase.fail row i cause : Erase α) reached := by
  refine ⟨?_⟩
  rintro e e' b ⟨⟩

theorem branch {c : Prop} [Decidable c] (yes : c → Moves source ts n x reached)
    (no : ¬ c → Moves source ts n y reached) : Moves source ts n (if c then x else y) reached := by
  split
  case isTrue holds => exact yes holds
  case isFalse fails => exact no fails

theorem ite {c : Prop} [Decidable c] (yes : Moves source ts n x reached)
    (no : Moves source ts n y reached) : Moves source ts n (if c then x else y) reached :=
  .branch (fun _ => yes) fun _ => no

theorem given {a : α} {k : α → Erase β} (rest : Moves source ts n (k a) reached') :
    Moves source ts n (Pure.pure a >>= k) reached' := by
  rw [pure_bind]
  exact rest

theorem bracket {what : String} {k : Nat → Erase β}
    (rest : ∀ close, row.matching i stop = some close → Moves source ts n (k close) reached') :
    Moves source ts n (matching row i stop what >>= k) reached' := by
  refine ⟨fun e e' b success ordered => ?_⟩
  obtain ⟨⟨close, middle⟩, ran, success⟩ := ok_of_bind success
  cases found : row.matching i stop with
  | none =>
      rw [matching, found] at ran
      cases ran
  | some close' =>
      rw [matching, found] at ran
      cases ran
      exact (rest close found).moved e e' b success ordered

theorem weaken {reached' : α → Nat} (moves : Moves source ts n x reached) (from_ : m ≤ n)
    (le : ∀ a, reached a ≤ reached' a) : Moves source ts m x reached' :=
  ⟨fun e e' a ran ordered => (moves.moved e e' a ran (ordered.later from_)).later (le a)⟩

theorem earlier (moves : Moves source ts n x reached) (le : m ≤ n) : Moves source ts m x reached :=
  moves.weaken le fun _ => Nat.le_refl _

theorem since {j : Nat} (moves : Moves source ts (row.reach low j) x reached)
    (lies : row.Lies source low high) (le : i ≤ j) (inRow : j ≤ row.size) :
    Moves source ts (row.reach low i) x reached :=
  moves.earlier (lies.reach_mono le inRow)

/-- A step that records no import moves on when what it gives is behind. -/
theorem of_keeps {g : GuardedErase α} {holds : α → Prop}
    (keeps : Keeps (fun _ => True) (Erasure.Ordered source ts n) x) (runs : Runs g x holds)
    (le : ∀ a, holds a → n ≤ reached a) : Moves source ts n x reached := by
  refine ⟨fun e e' a ran ordered => (keeps.kept e e' a ran ordered).later (le a ?_)⟩
  have ends := (runs e).ends
  rw [ran] at ends
  exact ends

end Moves

theorem importStatement_moves (among : row.Among source ts low high) {first last : Nat}
    (spanned : Spanned first last ts) (inRow : stop ≤ row.size) (starts : i < stop)
    (word : row.isWord i "import" = true) :
    Moves source ts (row.reach low i) (importStatement row i stop)
      fun next => row.reach low (min next stop) := by
  have onward {k : Nat} (le : i ≤ k) : row.reach low i ≤ row.reach low (min k stop) :=
    among.lies.reach_mono (by omega) (by omega)
  unfold importStatement
  refine .ite (.pure (onward (by omega))) ?_
  extract_lets typeOnly
  have begins := defaultBinding_le row (if typeOnly then i + 2 else i + 1)
  have spent := @defaultBinding_spent row (i + 1)
  have bare := @bindings_of_idle row i
  split
  case h_1 default j first =>
    have begins' := namespaceBinding_le row j
    split
    case h_1 space k second =>
      rw [first] at begins
      rw [second] at begins'
      simp only at begins begins'
      have behind : i < k := by
        split at begins <;> omega
      extract_lets rest
      have restMoves (named : List ImportBinding) (hasSpecifiers : Bool) (j : Nat) (le : i < j)
          (spent : ¬ typeOnly = true → row.isWord j "from" = true → row.isStr (j + 1) = true →
            ∀ k, i < k → stop ≤ k → k < j → row.Spent k)
          (bare : ¬ typeOnly = true → row.Idle i → hasSpecifiers = false ∧ default ++ space ++ named = []) :
          Moves source ts (row.reach low i) (rest (named, hasSpecifiers, j))
            fun next => row.reach low (min next stop) := by
        have ends := le_importEnd row j stop
        refine .branch (fun _ => .pure (onward (Nat.le_of_lt le))) fun complete => ?_
        simp only [Bool.or_eq_true, Bool.not_eq_true', not_or, Bool.not_eq_false] at complete
        refine .branch (fun _ => .bind (.blank ..) fun _ => .pure (onward (by omega)))
          fun ofValues => .bind (.update fun e ordered => ordered.record among spanned inRow starts word
            (by omega) rfl (bare ofValues) fun k behind outside before => ?_) fun _ =>
              .pure (Nat.le_refl _)
        rcases Nat.lt_or_ge k j with name | module
        · exact spent ofValues complete.1 complete.2 k behind outside name
        · exact importEnd_spent complete.1 complete.2 module outside before
      refine .branch (fun opens => .bracket fun close matched => ?_)
        fun _ => .given (restMoves _ _ _ behind (fun ofValues from_ literal k' behind _ before => ?_) ?_)
      · obtain ⟨inside, within, -, -⟩ := TokenRow.matching_spec matched
        refine .bind (.blankAll _) fun _ => .given (restMoves _ _ _ (by omega)
          (fun _ _ _ k' _ outside before => by omega) fun ofValues idle => ?_)
        rw [if_neg ofValues, (bare idle).1] at first
        cases first
        rw [(bare idle).2.1] at second
        cases second
        rw [(bare idle).2.2] at opens
        exact absurd opens Bool.false_ne_true
      · rw [if_neg ofValues] at first
        rw [first] at spent
        simp only [second] at spent
        exact spent from_ literal behind before
      · intro ofValues idle
        rw [if_neg ofValues, (bare idle).1] at first
        cases first
        rw [(bare idle).2.1] at second
        cases second
        exact ⟨rfl, rfl⟩

end Erase

end JsxPreview.Source
