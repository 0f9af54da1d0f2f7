import JsxPreview.Proofs.Analysis.Rows
import JsxPreview.Proofs.Scanner.Termination
import JsxPreview.Source.Module

/-! # Names that an exported declaration binds

`Binds` and `Declares` are the grammar of binding targets and of declarators over the tokens of a row,
each with the names it binds.  What they derive is read with just these names
(`Binds.reads`, `Declares.reads`), so a declaration exports what it binds when it ends where the search for
its end finds it (`exports_declared`): at a semicolon, at the end, or, behind an initializer, at a
word on a new line.  Right behind a declarator without an initializer no such word is seen
(`export_overruns`). -/
set_option autoImplicit false
namespace JsxPreview.Source

namespace TokenRow

variable {row : TokenRow} {ends : Nat → Bool} {i j k n stop : Nat}

/-! ## Runs of tokens -/

/-- Tokens from one index up to another whose brackets are matched, and none of which, outside of
brackets, is one that ends the run. -/
inductive Balanced (row : TokenRow) : (Nat → Bool) → Nat → Nat → Prop
  | nil {ends : Nat → Bool} (i : Nat) : Balanced row ends i i
  | token {ends : Nat → Bool} {i j : Nat} (there : i < row.size) (opens : row.opensBracket i = false)
      (closes : row.closesBracket i = false) (goesOn : ends i = false) (others : Balanced row ends (i + 1) j) :
      Balanced row ends i j
  | group {ends : Nat → Bool} {i j k : Nat} (opens : row.opensBracket i = true)
      (inside : Balanced row (fun _ => false) (i + 1) j) (closes : row.closesBracket j = true)
      (others : Balanced row ends (j + 1) k) : Balanced row ends i k

theorem Balanced.level (run : row.Balanced ends i j) : row.Level i j := by
  induction run with
  | nil i => exact .refl row i
  | token _ opens closes _ _ ih => exact (Level.token ⟨opens, closes⟩).trans ih
  | group opens _ closes _ inside others =>
      exact (Level.group opens inside (opensBracket_of_closes closes) closes).trans others

theorem Balanced.le (run : row.Balanced ends i j) : i ≤ j := run.level.1

theorem lt_of_closesBracket (closes : row.closesBracket i = true) : i < row.size := by
  obtain ⟨t, found, -⟩ := get?_of_any closes
  exact lt_of_get? found

/-- Inside brackets the search for the end of a default goes over a run. -/
theorem commaFrom_inside {bounded : Bool} (run : row.Balanced ends i j) (depth : Nat) :
    row.commaFrom bounded (j - i + n) (depth + 1) i = row.commaFrom bounded n (depth + 1) j := by
  induction run generalizing n depth with
  | nil i => rw [Nat.sub_self, Nat.zero_add]
  | @token _ i j _ opens closes _ others ih =>
      have behind := others.le
      rw [show j - i + n = (j - (i + 1) + n) + 1 by omega, commaFrom, opens, closes]
      exact ih depth
  | @group _ i j k opens inside closes others ih ih' =>
      have before := inside.le
      have behind := others.le
      rw [show k - i + n = (j - (i + 1) + ((k - (j + 1) + n) + 1)) + 1 by omega, commaFrom, if_pos opens,
        ih, commaFrom, if_neg (by rw [opensBracket_of_closes closes]; exact Bool.false_ne_true),
        if_pos closes]
      simp only [Nat.succ_ne_zero, Nat.add_sub_cancel, beq_iff_eq, Bool.and_eq_true, and_false, if_false,
        ih']

/-- The search for the end of a default stops at a comma and at a bracket that was opened before. -/
theorem commaFrom_run {bounded : Bool} (run : row.Balanced (row.isPunct · ",") i j) :
    row.commaFrom bounded (j - i + n) 0 i = row.commaFrom bounded n 0 j := by
  generalize same : (row.isPunct · ",") = ends at run
  induction run generalizing n with
  | nil i => rw [Nat.sub_self, Nat.zero_add]
  | @token _ i j _ opens closes goesOn others ih =>
      subst same
      have noComma : row.isPunct i "," = false := goesOn
      have behind := others.le
      rw [show j - i + n = (j - (i + 1) + n) + 1 by omega, commaFrom, opens, closes, noComma]
      exact ih rfl
  | @group _ i j k opens inside closes others _ ih =>
      have before := inside.le
      have behind := others.le
      rw [show k - i + n = (j - (i + 1) + ((k - (j + 1) + n) + 1)) + 1 by omega, commaFrom, if_pos opens,
        commaFrom_inside inside, commaFrom,
        if_neg (by rw [opensBracket_of_closes closes]; exact Bool.false_ne_true), if_pos closes, if_neg]
      · exact ih same
      · simp

theorem commaFrom_stop (here : row.isPunct j "," = true ∨ row.closesBracket j = true) :
    row.commaFrom true (n + 1) 0 j = j := by
  rcases here with comma | closes
  · have noOpening : row.opensBracket j = false := any_of_isPunct comma fun _ _ => rfl
    have noClosing : row.closesBracket j = false := any_of_isPunct comma fun _ _ => rfl
    rw [commaFrom, noOpening, noClosing, comma]
    rfl
  · rw [commaFrom, if_neg (by rw [opensBracket_of_closes closes]; exact Bool.false_ne_true),
      if_pos closes]
    rfl

/-- Inside brackets the search for the end of an initializer goes over a run. -/
theorem initializerEnd_inside {first : Nat} (run : row.Balanced ends i j) (depth : Nat) :
    row.initializerEnd first (j - i + n) (depth + 1) i = row.initializerEnd first n (depth + 1) j := by
  induction run generalizing n depth with
  | nil i => rw [Nat.sub_self, Nat.zero_add]
  | @token _ i j _ opens closes _ others ih =>
      have behind := others.le
      rw [show j - i + n = (j - (i + 1) + n) + 1 by omega, initializerEnd, opens, closes]
      exact ih depth
  | @group _ i j k opens inside closes others ih ih' =>
      have before := inside.le
      have behind := others.le
      rw [show k - i + n = (j - (i + 1) + ((k - (j + 1) + n) + 1)) + 1 by omega, initializerEnd,
        if_pos opens, ih, initializerEnd,
        if_neg (by rw [opensBracket_of_closes closes]; exact Bool.false_ne_true), if_pos closes]
      exact ih' depth

/-- Tokens that end a declarator.  Right behind what it binds, at `first`, a statement that starts is not
seen. -/
def endsDeclarator (row : TokenRow) (first k : Nat) : Bool :=
  row.isPunct k "," || row.isPunct k ";" || (decide (first < k) && row.startsStatement k)

theorem initializerEnd_run {first : Nat} (run : row.Balanced (row.endsDeclarator first) i j) :
    row.initializerEnd first (j - i + n) 0 i = row.initializerEnd first n 0 j := by
  generalize same : row.endsDeclarator first = ends at run
  induction run generalizing n with
  | nil i => rw [Nat.sub_self, Nat.zero_add]
  | @token _ i j _ opens closes goesOn others ih =>
      subst same
      have behind := others.le
      rw [endsDeclarator, Bool.or_eq_false_iff, Bool.or_eq_false_iff] at goesOn
      have goesOn' : (decide (first < i) && !row.isAnyPunct i && row.startsStatement i) = false := by
        rw [Bool.and_right_comm, goesOn.2, Bool.false_and]
      rw [show j - i + n = (j - (i + 1) + n) + 1 by omega, initializerEnd, opens, closes, goesOn.1.1,
        goesOn.1.2]
      simp only [Bool.and_false, Bool.false_eq_true, if_false, decide_true,
        Bool.true_and, goesOn', ih rfl]
  | @group _ i j k opens inside closes others _ ih =>
      have before := inside.le
      have behind := others.le
      rw [show k - i + n = (j - (i + 1) + ((k - (j + 1) + n) + 1)) + 1 by omega, initializerEnd,
        if_pos opens, initializerEnd_inside inside, initializerEnd,
        if_neg (by rw [opensBracket_of_closes closes]; exact Bool.false_ne_true), if_pos closes]
      exact ih same

/-! ## Binding targets -/

/-- What a pattern is made of: targets, the properties of an object, and the items up to the bracket
that closes it. -/
inductive Part where
  | target
  | property
  | items (object : Bool)

/-- What an object or an array is made of. -/
def Part.item (object : Bool) : Part := if object then .property else .target

/-- How many tokens a part takes at least. -/
def Part.least : Part → Nat
  | .target | .property => 1
  | .items _ => 0

theorem Part.least_item (object : Bool) : (Part.item object).least = 1 := by
  cases object <;> rfl

def opener (object : Bool) : String := if object then "\x7b" else "["

def closer (object : Bool) : String := if object then "\x7d" else "]"

/-- The default of an item, if it has one. -/
inductive Defaults (row : TokenRow) : Nat → Nat → Prop
  | none (k : Nat) : Defaults row k k
  | some {k stop : Nat} (equals : row.isPunct k "=" = true)
      (value : row.Balanced (row.isPunct · ",") (k + 1) stop) : Defaults row k stop

/-- The tokens from one index to another are a part of a binding pattern, which binds the names. -/
inductive Binds (row : TokenRow) : Part → Nat → List String → Nat → Prop
  | name {k : Nat} (word : row.isAnyWord k = true) : Binds row .target k [row.text k] (k + 1)
  | pattern {object : Bool} {k close : Nat} {names : List String}
      (opens : row.isPunct k (opener object) = true) (inside : Binds row (.items object) (k + 1) names close)
      (closes : row.isPunct close (closer object) = true) : Binds row .target k names (close + 1)
  | shorthand {k : Nat} (word : row.isAnyWord k = true) (noColon : row.isPunct (k + 1) ":" = false) :
      Binds row .property k [row.text k] (k + 1)
  | keyed {k next : Nat} {names : List String}
      (key : row.isAnyWord k = true ∨ row.isStr k = true ∨ row.isNumber k = true)
      (colon : row.isPunct (k + 1) ":" = true) (target : Binds row .target (k + 2) names next) :
      Binds row .property k names next
  | computed {k close next : Nat} {names : List String} (opens : row.isPunct k "[" = true)
      (key : row.Balanced (fun _ => false) (k + 1) close) (closes : row.isPunct close "]" = true)
      (colon : row.isPunct (close + 1) ":" = true) (target : Binds row .target (close + 2) names next) :
      Binds row .property k names next
  | nothing {object : Bool} (k : Nat) : Binds row (.items object) k [] k
  | hole {k close : Nat} {names : List String} (comma : row.isPunct k "," = true)
      (others : Binds row (.items false) (k + 1) names close) : Binds row (.items false) k names close
  | rest {object : Bool} {k close : Nat} {names : List String} (dots : row.isPunct k "..." = true)
      (target : Binds row .target (k + 1) names close) : Binds row (.items object) k names close
  | last {object : Bool} {k next close : Nat} {names : List String}
      (item : Binds row (.item object) k names next)
      (default : row.Defaults next close) : Binds row (.items object) k names close
  | more {object : Bool} {k next stop close : Nat} {names others : List String}
      (item : Binds row (.item object) k names next)
      (default : row.Defaults next stop) (comma : row.isPunct stop "," = true)
      (behind : Binds row (.items object) (stop + 1) others close) :
      Binds row (.items object) k (names ++ others) close

theorem isPunct_of_shape {p : String}
    (plain : row.isAnyWord i = true ∨ row.isStr i = true ∨ row.isNumber i = true) :
    row.isPunct i p = false := by
  have apart {t : Token} (known : t.isWord = true ∨ t.isStr = true ∨ t.isNumber = true) :
      t.isPunct = false := by
    obtain ⟨shape, _, _, _⟩ := t
    cases shape <;> first | rfl | simp [Token.isWord, Token.isStr, Token.isNumber] at known
  have there : ∃ t, row.get? i = some t ∧ (t.isWord = true ∨ t.isStr = true ∨ t.isNumber = true) := by
    rcases plain with known | known | known
    · obtain ⟨t, found, known⟩ := get?_of_any known
      exact ⟨t, found, .inl known⟩
    · obtain ⟨t, found, known⟩ := get?_of_any known
      exact ⟨t, found, .inr (.inl known)⟩
    · obtain ⟨t, found, known⟩ := get?_of_any known
      exact ⟨t, found, .inr (.inr known)⟩
  obtain ⟨t, found, known⟩ := there
  rw [isPunct, found]
  simp [apart known]

theorem Defaults.le (default : row.Defaults i j) : i ≤ j := by
  cases default with
  | none => exact Nat.le_refl i
  | some _ value => exact Nat.le_of_succ_le value.le

theorem Binds.le {part : Part} {names : List String} {next : Nat}
    (binds : row.Binds part k names next) : k + part.least ≤ next := by
  induction binds with
  | name _ | shorthand _ _ | nothing => exact Nat.le_refl _
  | pattern _ _ _ ih =>
      simp only [Part.least] at ih ⊢
      omega
  | keyed _ _ _ ih =>
      simp only [Part.least] at ih ⊢
      omega
  | computed _ key _ _ _ ih =>
      have before := key.le
      simp only [Part.least] at ih ⊢
      omega
  | hole _ _ ih | rest _ _ ih =>
      simp only [Part.least] at ih ⊢
      omega
  | last _ default ih =>
      have behind := default.le
      rw [Part.least_item] at ih
      simp only [Part.least]
      omega
  | more _ default _ _ ih ih' =>
      have behind := default.le
      rw [Part.least_item] at ih
      simp only [Part.least] at ih' ⊢
      omega

/-- Where a target or a property starts, no other punctuator than a bracket stands. -/
theorem Binds.starts {part : Part} {names : List String} {next : Nat}
    (binds : row.Binds part k names next) (taken : part.least = 1) :
    k < row.size ∧ ∀ p, p ≠ "\x7b" → p ≠ "[" → row.isPunct k p = false := by
  cases binds with
  | name word | shorthand word =>
      exact ⟨lt_of_isAnyWord word, fun p _ _ => isPunct_of_shape (.inl word)⟩
  | keyed key colon =>
      have behind := lt_of_isPunct colon
      exact ⟨by omega, fun p _ _ => isPunct_of_shape key⟩
  | @pattern object _ _ _ opens =>
      refine ⟨lt_of_isPunct opens, fun p noBrace noBracket => isPunct_unique opens ?_⟩
      cases object
      · exact noBracket
      · exact noBrace
  | computed opens => exact ⟨lt_of_isPunct opens, fun p _ noBracket => isPunct_unique opens noBracket⟩
  | nothing | hole | rest | last | more => cases taken

/-- Where the search goes on behind an item. -/
theorem Defaults.skipped (default : row.Defaults i j)
    (ends : row.isPunct j "," = true ∨ row.closesBracket j = true) :
    (if row.isPunct i "=" then row.commaFrom true (row.size - (i + 1)) 0 (i + 1) else i) = j := by
  have there : j < row.size := ends.elim lt_of_isPunct lt_of_closesBracket
  cases default with
  | none =>
      rw [if_neg]
      rcases ends with comma | closes
      · rw [isPunct_unique comma (by decide)]
        exact Bool.false_ne_true
      · rcases isPunct_of_closesBracket closes with same | same | same <;>
          (rw [isPunct_unique same (by decide)]; exact Bool.false_ne_true)
  | some equals value =>
      have before := value.le
      rw [if_pos equals, show row.size - (i + 1) = j - (i + 1) + ((row.size - j - 1) + 1) by omega,
        commaFrom_run value, commaFrom_stop ends]

theorem closesBracket_of_isPunct (object : Bool) (closes : row.isPunct j (closer object) = true) :
    row.closesBracket j = true :=
  any_of_isPunct closes fun _ _ => by cases object <;> rfl

theorem opensBracket_of_isPunct (object : Bool) (opens : row.isPunct j (opener object) = true) :
    row.opensBracket j = true :=
  any_of_isPunct opens fun _ _ => by cases object <;> rfl

theorem not_closer {object : Bool} {p : String} (punct : row.isPunct k p = true)
    (other : p ≠ "\x7d" ∧ p ≠ "]") : row.isPunct k (if object then "\x7d" else "]") = false := by
  cases object
  · exact isPunct_unique punct (Ne.symm other.2)
  · exact isPunct_unique punct (Ne.symm other.1)

/-- Reading a pattern goes on behind an item and its default. -/
theorem patternItems_item {object : Bool} {fuel opening next : Nat} {names : List String}
    (item : row.Binds (.item object) k names next)
    (read : (if object then row.patternProperty fuel k else row.bindingTarget fuel k) = .ok (names, next))
    (default : row.Defaults next stop)
    (ends : row.isPunct stop "," = true ∨ row.isPunct stop (closer object) = true) :
    row.patternItems (fuel + 1) opening object k = (do
      let (more, final) ← row.patternItems fuel opening object stop
      .ok (names ++ more, final)) := by
  obtain ⟨there, plain⟩ := item.starts (Part.least_item object)
  have open' : row.isPunct k (if object then "\x7d" else "]") = false := by
    cases object
    · exact plain _ (by decide) (by decide)
    · exact plain _ (by decide) (by decide)
  have skipped := default.skipped (ends.imp_right (closesBracket_of_isPunct object))
  rw [patternItems, if_neg (by omega), open', plain "," (by decide) (by decide),
    plain "..." (by decide) (by decide)]
  cases object with
  | true =>
      rw [if_pos rfl] at read
      simp only [read, bind, Except.bind, if_true, Bool.false_eq_true, if_false, skipped]
  | false =>
      rw [if_neg Bool.false_ne_true] at read
      simp only [read, bind, Except.bind, Bool.false_eq_true, if_false, skipped]

theorem patternItems_close {object : Bool} {fuel opening : Nat}
    (closes : row.isPunct k (closer object) = true) :
    row.patternItems (fuel + 1) opening object k = .ok ([], k + 1) := by
  have there := lt_of_isPunct closes
  rw [closer] at closes
  rw [patternItems, if_neg (by omega), if_pos closes]

/-- What a derivation says is read. -/
theorem Binds.reads {part : Part} {names : List String} {next : Nat}
    (binds : row.Binds part k names next) {fuel : Nat} :
    match part with
    | .target => 3 * (next - k) ≤ fuel → row.bindingTarget fuel k = .ok (names, next)
    | .property => 3 * (next - k) ≤ fuel → row.patternProperty fuel k = .ok (names, next)
    | .items object => row.isPunct next (closer object) = true → 3 * (next + 1 - k) ≤ fuel →
        ∀ opening, row.patternItems fuel opening object k = .ok (names, next + 1) := by
  induction binds generalizing fuel with
  | @name k word =>
      intro enough
      obtain ⟨fuel, rfl⟩ := Nat.exists_eq_add_of_le' (show 1 ≤ fuel by omega)
      rw [bindingTarget, isPunct_of_shape (.inl word), isPunct_of_shape (.inl word), word]
      rfl
  | @pattern object k close names opens inside closes ih =>
      intro enough
      have within := inside.le
      obtain ⟨fuel, rfl⟩ := Nat.exists_eq_add_of_le' (show 1 ≤ fuel by omega)
      have read : row.patternItems fuel k object (k + 1) = .ok (names, close + 1) :=
        ih closes (by omega) k
      cases object with
      | true =>
          rw [opener, if_pos rfl] at opens
          rw [bindingTarget, opens]
          exact read
      | false =>
          rw [opener, if_neg Bool.false_ne_true] at opens
          rw [bindingTarget, isPunct_unique opens (by decide), opens]
          exact read
  | @shorthand k word noColon =>
      intro enough
      obtain ⟨fuel, rfl⟩ := Nat.exists_eq_add_of_le' (show 1 ≤ fuel by omega)
      rw [patternProperty, isPunct_of_shape (.inl word), noColon, word]
      rfl
  | @keyed k next names key colon target ih =>
      intro enough
      have within := target.le
      simp only [Part.least] at within
      obtain ⟨fuel, rfl⟩ := Nat.exists_eq_add_of_le' (show 1 ≤ fuel by omega)
      rw [patternProperty, isPunct_of_shape key, colon]
      exact ih (by omega)
  | @computed k close next names opens key closes colon target ih =>
      intro enough
      have before := key.le
      have within := target.le
      simp only [Part.least] at within
      obtain ⟨fuel, rfl⟩ := Nat.exists_eq_add_of_le' (show 1 ≤ fuel by omega)
      have closes : row.closesBracket close = true := closesBracket_of_isPunct false closes
      have matched : row.matching k row.size = some close := key.level.matching
        (opensBracket_of_isPunct false opens) (opensBracket_of_closes closes) closes
        (lt_of_closesBracket closes) (Nat.le_refl _)
      rw [patternProperty, opens, if_pos rfl, matched]
      simp only [colon, if_true]
      exact ih (by omega)
  | @nothing object k =>
      intro closes enough opening
      obtain ⟨fuel, rfl⟩ := Nat.exists_eq_add_of_le' (show 1 ≤ fuel by omega)
      exact patternItems_close closes
  | @hole k close names comma others ih =>
      intro closes enough opening
      have there := lt_of_isPunct comma
      have within := others.le
      obtain ⟨fuel, rfl⟩ := Nat.exists_eq_add_of_le' (show 1 ≤ fuel by omega)
      rw [patternItems, if_neg (by omega), if_neg, comma, if_pos rfl]
      · exact ih closes (by simp only [Part.least] at within; omega) opening
      · rw [isPunct_unique comma (by decide)]
        exact Bool.false_ne_true
  | @rest object k close names dots target ih =>
      intro closes enough opening
      have there := lt_of_isPunct dots
      have within := target.le
      simp only [Part.least] at within
      obtain ⟨fuel, rfl⟩ := Nat.exists_eq_add_of_le' (show 1 ≤ fuel by omega)
      obtain ⟨fuel, rfl⟩ := Nat.exists_eq_add_of_le' (show 1 ≤ fuel by omega)
      have read : row.bindingTarget (fuel + 1) (k + 1) = .ok (names, close) := ih (by omega)
      rw [patternItems, if_neg (by omega), not_closer dots (by decide),
        isPunct_unique dots (by decide), dots]
      simp only [Bool.false_eq_true, if_false, if_true, read, patternItems_close closes, bind,
        Except.bind, List.append_nil]
  | @last object k next close names item default ih =>
      intro closes enough opening
      have within := item.le
      have behind := default.le
      rw [Part.least_item] at within
      obtain ⟨fuel, rfl⟩ := Nat.exists_eq_add_of_le' (show 1 ≤ fuel by omega)
      obtain ⟨fuel, rfl⟩ := Nat.exists_eq_add_of_le' (show 1 ≤ fuel by omega)
      rw [patternItems_item item ?_ default (.inr closes), patternItems_close closes]
      · simp only [bind, Except.bind, List.append_nil]
      · cases object
        · exact ih (by omega)
        · exact ih (by omega)
  | @more object k next stop close names others item default comma behind ih ih' =>
      intro closes enough opening
      have within := item.le
      have before := default.le
      have after := behind.le
      rw [Part.least_item] at within
      simp only [Part.least] at after
      obtain ⟨fuel, rfl⟩ := Nat.exists_eq_add_of_le' (show 1 ≤ fuel by omega)
      obtain ⟨fuel, rfl⟩ := Nat.exists_eq_add_of_le' (show 1 ≤ fuel by omega)
      have there := lt_of_isPunct comma
      have read : row.patternItems fuel opening object (stop + 1) = .ok (others, close + 1) :=
        ih' closes (by omega) opening
      have comma' : row.patternItems (fuel + 1) opening object stop = .ok (others, close + 1) := by
        rw [patternItems, if_neg (by omega), not_closer comma (by decide), comma]
        exact read
      rw [patternItems_item item ?_ default (.inl comma), comma']
      · rfl
      · cases object
        · exact ih (by omega)
        · exact ih (by omega)

/-! ## Declarators -/

/-- What stands behind a target in a declarator: an initializer, or nothing. -/
inductive Initializes (row : TokenRow) : Nat → Nat → Prop
  | none (first : Nat) : Initializes row first first
  | some {first stop : Nat} (equals : row.isPunct first "=" = true)
      (value : row.Balanced (row.endsDeclarator first) (first + 1) stop) : Initializes row first stop

/-- The tokens from one index to another are declarators, which bind the names; what the last one binds
ends at `first`. -/
inductive Declares (row : TokenRow) : Nat → List String → Nat → Nat → Prop
  | last {k first stop : Nat} {names : List String} (target : row.Binds .target k names first)
      (value : row.Initializes first stop) : Declares row k names first stop
  | more {k next stop first final : Nat} {names others : List String}
      (target : row.Binds .target k names next) (value : row.Initializes next stop)
      (comma : row.isPunct stop "," = true) (behind : Declares row (stop + 1) others first final) :
      Declares row k (names ++ others) first final

theorem Initializes.le (value : row.Initializes i j) : i ≤ j := by
  cases value with
  | none => exact Nat.le_refl i
  | some _ value => exact Nat.le_of_succ_le value.le

theorem plain_of_isPunct {p : String} (punct : row.isPunct j p = true)
    (plain : p = "," ∨ p = ";" ∨ p = "=") :
    row.opensBracket j = false ∧ row.closesBracket j = false := by
  constructor <;> refine any_of_isPunct punct fun _ _ => ?_
  · rcases plain with rfl | rfl | rfl <;> rfl
  · rcases plain with rfl | rfl | rfl <;> rfl

/-- The search for the end of a declarator goes over its initializer. -/
theorem Initializes.skipped (value : row.Initializes i j) :
    row.initializerEnd i (j - i + n) 0 i = row.initializerEnd i n 0 j := by
  cases value with
  | none => rw [Nat.sub_self, Nat.zero_add]
  | some equals value =>
      have before := value.le
      obtain ⟨opens, closes⟩ := plain_of_isPunct equals (.inr (.inr rfl))
      rw [show j - i + n = (j - (i + 1) + n) + 1 by omega, initializerEnd, opens, closes,
        isPunct_unique equals (by decide), isPunct_unique equals (by decide),
        isAnyPunct_of_isPunct equals]
      simp only [Bool.and_false, Bool.not_true, Bool.false_and, Bool.false_eq_true, if_false,
        initializerEnd_run value]

/-- Where declarators are seen to end: from there no comma stands outside of brackets in front of the
end of the row, of a semicolon, or of a statement that starts on a new line and not at `first`. -/
def EndsAt (row : TokenRow) (first stop : Nat) : Prop :=
  ∃ final, row.Balanced (row.endsDeclarator first) stop final ∧
    (final = row.size ∨ row.isPunct final ";" = true ∨
      first < final ∧ row.startsStatement final = true)

theorem word_of_startsStatement (starts : row.startsStatement j = true) :
    row.isAnyWord j = true ∧ row.isAnyPunct j = false ∧ row.opensBracket j = false ∧
      row.closesBracket j = false := by
  simp only [startsStatement, Bool.and_eq_true] at starts
  have word := starts.1.1.2
  obtain ⟨⟨shape, _, _, _⟩, found, known⟩ := get?_of_any word
  rw [isAnyPunct, opensBracket, closesBracket, found]
  cases shape <;> first | exact ⟨word, rfl, rfl, rfl⟩ | cases known

theorem EndsAt.le {first : Nat} (ends : row.EndsAt first j) : j ≤ row.size := by
  obtain ⟨final, run, outside | semicolon | ⟨-, starts⟩⟩ := ends
  · exact Nat.le_trans run.le (Nat.le_of_eq outside)
  · exact Nat.le_trans run.le (Nat.le_of_lt (lt_of_isPunct semicolon))
  · exact Nat.le_trans run.le (Nat.le_of_lt (lt_of_isAnyWord (word_of_startsStatement starts).1))

theorem initializerEnd_comma {first : Nat} (comma : row.isPunct j "," = true) :
    row.initializerEnd first (n + 1) 0 j = (j, true) := by
  obtain ⟨opens, closes⟩ := plain_of_isPunct comma (.inl rfl)
  rw [initializerEnd, opens, closes, comma]
  rfl

/-- The search stops, and not at a comma. -/
theorem initializerEnd_ends {first : Nat} (ends : row.EndsAt first j) :
    (row.initializerEnd first (row.size - j) 0 j).2 = false := by
  have within := ends.le
  obtain ⟨final, run, stops⟩ := ends
  have behind := run.le
  rcases stops with outside | semicolon | ⟨later, starts⟩
  · rw [show row.size - j = final - j + 0 by omega, initializerEnd_run run, initializerEnd]
  · have there := lt_of_isPunct semicolon
    obtain ⟨opens, closes⟩ := plain_of_isPunct semicolon (.inr (.inl rfl))
    rw [show row.size - j = final - j + ((row.size - final - 1) + 1) by omega, initializerEnd_run run,
      initializerEnd, opens, closes, isPunct_unique semicolon (by decide), semicolon]
    rfl
  · obtain ⟨word, noPunct, opens, closes⟩ := word_of_startsStatement starts
    have there := lt_of_isAnyWord word
    rw [show row.size - j = final - j + ((row.size - final - 1) + 1) by omega, initializerEnd_run run,
      initializerEnd, opens, closes, isPunct_of_shape (.inl word), isPunct_of_shape (.inl word), noPunct,
      starts]
    simp [later]

theorem Declares.lt {names : List String} {first : Nat} (declares : row.Declares k names first stop) :
    k < stop := by
  induction declares with
  | last target value =>
      have within := target.le
      have behind := value.le
      simp only [Part.least] at within
      omega
  | more target value _ _ ih =>
      have within := target.le
      have behind := value.le
      simp only [Part.least] at within
      omega

theorem Binds.reads_target {names : List String} {next : Nat} (target : row.Binds .target k names next)
    (there : next ≤ row.size) : row.bindingTarget row.patternAllowance k = .ok (names, next) :=
  target.reads (by rw [patternAllowance]; omega)

theorem Declares.reads {names : List String} {first : Nat} (declares : row.Declares k names first stop)
    (ends : row.EndsAt first stop) {fuel : Nat} (enough : stop - k ≤ fuel) :
    row.declarators fuel k = .ok names := by
  have taken := declares.lt
  have within := ends.le
  obtain ⟨fuel, rfl⟩ := Nat.exists_eq_add_of_le' (show 1 ≤ fuel by omega)
  induction declares generalizing fuel with
  | @last k first stop names target value =>
      have before := value.le
      have stops := initializerEnd_ends ends
      rw [declarators, target.reads_target (by omega)]
      show (if (row.initializerEnd first (row.size - first) 0 first).2 then _ else _) = _
      rw [show row.size - first = stop - first + (row.size - stop) by omega, value.skipped, stops]
      rfl
  | @more k next stop first final names others target value comma behind ih =>
      have before := value.le
      have after := behind.lt
      have taken := target.le
      simp only [Part.least] at taken
      obtain ⟨fuel, rfl⟩ := Nat.exists_eq_add_of_le' (show 1 ≤ fuel by omega)
      rw [declarators, target.reads_target (by omega)]
      have stops : row.initializerEnd next (row.size - next) 0 next = (stop, true) := by
        rw [show row.size - next = stop - next + ((row.size - stop - 1) + 1) by omega, value.skipped,
          initializerEnd_comma comma]
      have later : row.declarators (fuel + 1) (stop + 1) = .ok others :=
        ih ends (by omega) within fuel (by omega)
      simp only [bind, Except.bind, stops, if_true, later]

end TokenRow

/-- An exported declaration offers the names that its declarators bind, in their order, and nothing
else. -/
theorem exports_declared {row : TokenRow} {i first stop : Nat} {names : List String} (a : Analysis)
    (keyword : ∃ w ∈ ["var", "let", "const"], row.isWord (i + 1) w = true)
    (declares : row.Declares (i + 2) names first stop) (ends : row.EndsAt first stop) :
    ∃ a', a.exportDeclaration row i = .ok (a', i + 1) ∧
      a'.exported = a.exported ++ names.map fun n => (n, n) := by
  have read : row.declarators (row.size + 1) (i + 1 + 1) = .ok names := by
    have within := ends.le
    exact declares.reads ends (by omega)
  refine ⟨((a.rewrite (row.start i) (row.stop i) []).offer (names.map fun n => (n, n))), ?_, rfl⟩
  obtain ⟨w, listed, word⟩ := keyword
  have noDefault : row.isWord (i + 1) "default" = false := by
    refine TokenRow.isWord_unique word ?_
    rintro rfl
    exact absurd listed (by decide)
  have declared : (row.isWord (i + 1) "var" || row.isWord (i + 1) "let" ||
      row.isWord (i + 1) "const") = true := by
    rcases List.mem_cons.mp listed with rfl | listed
    · rw [word]; rfl
    · rcases List.mem_cons.mp listed with rfl | listed
      · rw [word]; simp
      · rw [List.mem_singleton.mp listed] at word
        rw [word]; simp
  rw [Analysis.exportDeclaration, noDefault, declared, read]
  rfl

/-- The row of `export let a = 1, [b] = c`, a line end and `d(e, f)`. -/
def listRow : TokenRow where
  tokens := #[⟨.word, 0, 6, "export"⟩, ⟨.word, 7, 10, "let"⟩, ⟨.word, 11, 12, "a"⟩,
    ⟨.punct, 13, 14, "="⟩, ⟨.number, 15, 16, "1"⟩, ⟨.punct, 16, 17, ","⟩, ⟨.punct, 18, 19, "["⟩,
    ⟨.word, 19, 20, "b"⟩, ⟨.punct, 20, 21, "]"⟩, ⟨.punct, 22, 23, "="⟩, ⟨.word, 24, 25, "c"⟩,
    ⟨.word, 26, 27, "d"⟩, ⟨.punct, 27, 28, "("⟩, ⟨.word, 28, 29, "e"⟩, ⟨.punct, 29, 30, ","⟩,
    ⟨.word, 31, 32, "f"⟩, ⟨.punct, 32, 33, ")"⟩]
  lineFeeds := [25]
  length := 33

theorem listRow_declares : listRow.Declares 2 ["a", "b"] 9 11 :=
  .more (.name (by decide))
    (.some (by decide) (.token (by decide) (by decide) (by decide) (by decide) (.nil 5)))
    (by decide)
    (.last (@TokenRow.Binds.pattern _ false _ _ _ (by decide) (.last (.name (by decide)) (.none 8))
        (by decide))
      (.some (by decide) (.token (by decide) (by decide) (by decide) (by decide) (.nil 11))))

theorem exports_declared_list : ∃ a', ({} : Analysis).exportDeclaration listRow 0 = .ok (a', 1) ∧
    a'.exported = [("a", "a"), ("b", "b")] :=
  exports_declared {} ⟨"let", by decide, by decide⟩ listRow_declares
    ⟨11, .nil 11, .inr (.inr ⟨by decide, by decide⟩)⟩

/-- Right behind a name without an initializer a statement on the next line is taken for a part of the
declarator, and what stands behind its comma for another one. -/
theorem export_overruns : ∃ tokens a,
    tokenize ⟨false, false⟩ "export let a\nf(b), c\n" = .ok tokens ∧
    analyze "export let a\nf(b), c\n".toList tokens ⟨"react/jsx-runtime", none, ""⟩ = .ok a ∧
    a.exported = [("a", "a"), ("c", "c")] := by
  have offered : ((tokenizeWithin (allowance "export let a\nf(b), c\n".toList) ⟨false, false⟩
      "export let a\nf(b), c\n").toOption.bind fun tokens =>
        (analyze "export let a\nf(b), c\n".toList tokens ⟨"react/jsx-runtime", none, ""⟩).toOption.map
          (·.exported)) = some [("a", "a"), ("c", "c")] := by decide +kernel
  obtain ⟨tokens, scanned, offered⟩ := tokenize_of_read offered
  obtain ⟨a, analyzed, offered⟩ := Option.map_eq_some_iff.mp offered
  exact ⟨tokens, a, scanned, ok_of_toOption analyzed, offered⟩

end JsxPreview.Source
