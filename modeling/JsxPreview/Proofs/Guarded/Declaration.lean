import JsxPreview.Proofs.Erasure.Erasable
import JsxPreview.Proofs.Guarded.Search

/-! # Guarded readers of declarations

Declarations of types, imports and exports are read by loops that move on and stay in the row.  Each
reader of the walk agrees with its guarded copy, and gives a token behind the one at which it
starts. -/
set_option autoImplicit false
namespace JsxPreview.Source

open JsxPreview.Text

namespace Guarded

variable {source : List Char} {row : TokenRow} {low high stop : Nat}

/-! ## Declarations of types -/

open GuardedErase (pass fail)

def blank (start stop : Nat) : GuardedErase Unit := modify (·.blank start stop)

def blankTokens (row : TokenRow) (first last : Nat) : GuardedErase Unit :=
  blank (row.start first) (row.stop last)

def expected {α : Type} (row : TokenRow) (i : Nat) (what : String) : GuardedErase α :=
  fail row i (.expected what (row.found i))

/-- The bracket that closes the one at token `i`; `what` is missing if there is none. -/
def bracket (row : TokenRow) (i stop : Nat) (what : String) : GuardedErase Nat := do
  match ← pass (matching row i stop) with
  | some close => pure close
  | none => expected row i what

/-- Erases the type annotation that the colon at token `i` starts, if there is one there. -/
def annotation (source : List Char) (row : TokenRow) (i stop : Nat) : GuardedErase Nat :=
  if row.isPunct i ":" then do
    let (next, place) ← pass (skipType source row (i + 1) stop false)
    blank (row.start i) place
    pure next
  else pure i

def typeParameters (row : TokenRow) (i stop : Nat) : GuardedErase Nat := do
  match ← pass (angleClose row i stop) with
  | some (close, place) =>
      blank (row.start i) place
      pure (close + 1)
  | none => expected row i ">"

def typeParameters? (row : TokenRow) (i stop : Nat) : GuardedErase Nat :=
  if row.isPunct i "<" then typeParameters row i stop else pure i

def typeAlias (source : List Char) (row : TokenRow) (i stop : Nat) : GuardedErase Nat := do
  modify fun e => { e with typeNames := row.text (i + 1) :: e.typeNames }
  let j ←
    if row.isPunct (i + 2) "<" then
      match ← pass (angleClose row (i + 2) stop) with
      | some (close, _) => pure (close + 1)
      | none => expected row (i + 2) ">"
    else pure (i + 2)
  if !row.isPunct j "=" then expected row j "="
  else
    let (next, place) ← pass (skipType source row (j + 1) stop false)
    if row.isPunct next ";" then
      blank (row.declarationStart i) (row.stop next)
      pure (next + 1)
    else
      blank (row.declarationStart i) place
      pure next

def interface (row : TokenRow) (i stop : Nat) : GuardedErase Nat := do
  modify fun e => { e with typeNames := row.text (i + 1) :: e.typeNames }
  let j ← pass (braceFrom row stop (stop - (i + 2)) (i + 2))
  match ← pass (blockEnd row j stop) with
  | some close =>
      blank (row.declarationStart i) (row.stop close)
      pure (close + 1)
  | none => expected row j "\x7b"

/-- A declaration of what exists elsewhere: the whole statement goes. -/
def ambient (source : List Char) (row : TokenRow) (i stop : Nat) : GuardedErase Nat := do
  let hasBody := ["module", "namespace", "global", "class", "enum", "interface", "abstract"]
  let j ←
    if hasBody.contains (row.text (i + 1)) then
      let brace ← pass (plainBraceFrom row stop (stop - (i + 1)) (i + 1))
      match ← pass (blockEnd row brace stop) with
      | some close => pure (close + 1)
      | none => expected row brace "\x7b"
    else pass (statementEnd source row stop (stop - (i + 2)) 0 (i + 2))
  let next := if row.isPunct j ";" then j + 1 else j
  let last ← pass (before next)
  blank (row.declarationStart i) (row.stop last)
  pure next

section Runs

variable (lies : row.Lies source low high) (inRow : stop ≤ row.size) (i : Nat)
include inRow

omit inRow in
theorem expected_runs {α : Type} {holds : α → Prop} (what : String) :
    Runs (expected row i what) (Erase.expected row i what) holds :=
  .fail row i (by simp)

omit inRow in
theorem blank_runs {α : Type} {holds : α → Prop} {k : Unit → GuardedErase α} {h : Unit → Erase α}
    (first last : Nat) (rest : Runs (k ()) (h ()) holds) :
    Runs (blank first last >>= k) (Erase.blank first last >>= h) holds :=
  .update _ rest

omit inRow in
theorem bracket_runs (what : String) :
    Runs (bracket row i stop what) (Erase.matching row i stop what) fun close =>
      i < close ∧ close < stop ∧ close < row.size ∧ row.closesBracket close = true := by
  unfold bracket Erase.matching
  refine .pass (matching_same row i stop) ?_
  cases found : row.matching i stop with
  | none => exact expected_runs i what
  | some close => exact .pure ⟨TokenRow.matching_lt found, (TokenRow.matching_spec found).2⟩

include lies

theorem annotation_runs : Runs ( annotation source row i stop) ( Erase.annotation row i stop)
    fun next => i ≤ next :=
  .ite (fun _ => .pass (skipType_same lies inRow (i + 1) false) (blank_runs _ _
      (.pure (Nat.le_of_succ_le (row.skipType_le (i + 1) stop false)))))
    fun _ => .pure (Nat.le_refl i)

omit lies in
theorem typeParameters_runs : Runs (typeParameters row i stop) (Erase.typeParameters row i stop)
    fun next => i < next := by
  unfold typeParameters Erase.typeParameters
  refine .pass (angleClose_same inRow i) ?_
  cases found : row.angleClose i stop with
  | none => exact expected_runs i ">"
  | some angle =>
      exact blank_runs _ _ (.pure (Nat.lt_succ_of_le (TokenRow.angleClose_spec found).1))

omit lies in
theorem maybeTypeParameters_runs :
    Runs (typeParameters? row i stop) (Erase.typeParameters? row i stop) fun next => i ≤ next :=
  .ite (fun _ => (typeParameters_runs inRow i).mono fun _ => Nat.le_of_lt)
    fun _ => .pure (Nat.le_refl i)

theorem typeAlias_runs : Runs (typeAlias source row i stop) (Erase.typeAlias row i stop)
    fun next => i < next := by
  unfold typeAlias Erase.typeAlias
  extract_lets guardedRest rest
  have restRuns (j : Nat) (behind : i < j) : Runs (guardedRest j) (rest j) fun next => i < next := by
    refine .ite (fun _ => expected_runs j "=") fun _ =>
      .pass (skipType_same lies inRow (j + 1) false) ?_
    have ends : i < (row.skipType (j + 1) stop false).1 :=
      Nat.lt_of_lt_of_le (Nat.lt_succ_of_lt behind) (row.skipType_le (j + 1) stop false)
    exact .ite (fun _ => blank_runs _ _ (.pure (Nat.lt_succ_of_lt ends)))
      fun _ => blank_runs _ _ (.pure ends)
  refine .update _ (.ite (fun _ => .pass (angleClose_same inRow (i + 2)) ?_)
    fun _ => .bind (.pure (by omega)) restRuns)
  cases found : row.angleClose (i + 2) stop with
  | none => exact .bind (expected_runs _ ">") restRuns
  | some angle =>
      have begins := (TokenRow.angleClose_spec found).1
      exact .bind (.pure (by omega)) restRuns

omit lies in
theorem interface_runs : Runs (interface row i stop) (Erase.interface row i stop)
    fun next => i < next := by
  unfold interface Erase.interface
  extract_lets j
  have begins : i + 2 ≤ j := TokenRow.braceFrom_le
  refine .update _ (.pass (braceFrom_same inRow (by omega)) (.pass (blockEnd_same row j stop) ?_))
  cases found : if row.isPunct j "\x7b" then row.matching j stop else none with
  | none => exact expected_runs _ "\x7b"
  | some close =>
      have ends := TokenRow.lt_of_blockEnd found
      exact blank_runs _ _ (.pure (by omega))

theorem ambient_runs : Runs (ambient source row i stop) (Erase.ambient row i stop)
    fun next => i < next := by
  unfold ambient Erase.ambient
  extract_lets hasBody guardedRest rest brace
  have restRuns (j : Nat) (behind : i < j) : Runs (guardedRest j) (rest j) fun next => i < next := by
    have ends : i < if row.isPunct j ";" then j + 1 else j := by
      split
      · exact Nat.lt_succ_of_lt behind
      · exact behind
    exact .pass (before_same (by omega)) (blank_runs _ _ (.pure ends))
  have begins : i + 1 ≤ brace := Erase.plainBraceFrom_le
  refine .ite (fun _ => .pass (plainBraceFrom_same (by omega)) ?_) fun _ => ?_
  · refine .pass (blockEnd_same row brace stop) ?_
    cases found : if row.isPunct brace "\x7b" then row.matching brace stop else none with
    | none => exact .bind (expected_runs _ "\x7b") restRuns
    | some close =>
        have ends := TokenRow.lt_of_blockEnd found
        exact .bind (.pure (by omega)) restRuns
  · refine .pass (statementEnd_same lies inRow (by omega) (by omega)) (restRuns _ ?_)
    exact Nat.lt_of_lt_of_le (by omega) Erase.statementEnd_le

end Runs

/-! ## Imports -/

/-- The specifiers of an import from token `k` on to the brace at `close`. -/
def importSpecifiers (row : TokenRow) (typeOnly : Bool) (close : Nat) :
    Nat → Nat → Guarded (List ImportBinding × List Span)
  | 0, first => do
      ensure (close ≤ first) .depth
      .ok ([], [])
  | n + 1, first =>
      if close ≤ first then .ok ([], [])
      else do
        let ofType := row.isWord first "type" &&
          ((row.isAnyWord (first + 1) && !row.isWord (first + 1) "as") || row.isStr (first + 1))
        let k := if ofType then first + 1 else first
        let (name, k) :=
          if row.isWord (k + 1) "as" then (row.text (k + 2), k + 3) else (row.text k, k + 1)
        let last ← before k
        let (stop, next) :=
          if row.isPunct k "," then (row.stop k, k + 1) else (row.stop last, k)
        ensure (first < next) .still
        let (bindings, types) ← importSpecifiers row typeOnly close n next
        .ok (if typeOnly || ofType then (bindings, ⟨row.start first, stop⟩ :: types)
          else (⟨name, ⟨row.start first, stop⟩, true⟩ :: bindings, types))

/-- The token behind the module name, attributes and semicolon of an import. -/
def importEnd (source : List Char) (row : TokenRow) (j stop : Nat) : Guarded Nat := do
  let broken ← breakBefore source row (j + 2)
  let attributes :=
    (row.isWord (j + 2) "with" || row.isWord (j + 2) "assert") && row.isPunct (j + 3) "\x7b" &&
      !broken
  let close? ← (if attributes then matching row (j + 3) stop else .ok none : Guarded (Option Nat))
  let j := match close? with
    | some close => close + 1
    | none => j + 2
  .ok (if row.isPunct j ";" then j + 1 else j)

def importStatement (source : List Char) (row : TokenRow) (i stop : Nat) : GuardedErase Nat := do
  if row.isStr (i + 1) then return i + 2
  let typeOnly :=
    row.isWord (i + 1) "type" && !row.isPunct (i + 2) "," && !row.isWord (i + 2) "from"
  let (default, j) := Erase.defaultBinding row (if typeOnly then i + 2 else i + 1)
  let (space, j) := Erase.namespaceBinding row j
  let (named, hasSpecifiers, j) ←
    if row.isPunct j "\x7b" then do
      let close ← bracket row j stop "\x7d"
      let (named, types) ← pass (importSpecifiers row typeOnly close (close - j) (j + 1))
      modify (·.blankAll types)
      pure (named, decide (j + 1 < close), close + 1)
    else pure ([], false, j)
  if !row.isWord j "from" || !row.isStr (j + 1) then return j
  let next ← pass (importEnd source row j stop)
  let last ← pass (before next)
  let span : Span := ⟨row.start i, row.stop last⟩
  if typeOnly then blank span.start span.stop
  else
    let statement : ImportStatement := ⟨span, default ++ space ++ named, hasSpecifiers⟩
    modify fun e => { e with imports := e.imports ++ [statement] }
  return next

theorem importSpecifiers_same {typeOnly : Bool} {close n first : Nat}
    (enough : close ≤ first + n) : importSpecifiers row typeOnly close n first =
      .ok (Erase.importSpecifiers row typeOnly close n first) := by
  induction n generalizing first with
  | zero => exact ensure_bind enough _
  | succ n ih =>
      unfold importSpecifiers Erase.importSpecifiers
      split
      case isTrue => rfl
      case isFalse =>
        extract_lets ofType k
        have begins : first ≤ k := by
          unfold k
          split
          · exact Nat.le_succ first
          · exact Nat.le_refl first
        generalize named : (if row.isWord (k + 1) "as" = true then (row.text (k + 2), k + 3)
          else (row.text k, k + 1)) = name
        have behind : first < name.2 := by
          rw [← named]
          split
          · exact Nat.lt_of_le_of_lt begins (by omega)
          · exact Nat.lt_succ_of_le begins
        obtain ⟨name, k⟩ := name
        simp only at behind ⊢
        rw [before_same (by omega), ok_bind]
        generalize ended : (if row.isPunct k "," = true then (row.stop k, k + 1)
          else (row.stop (k - 1), k)) = ends
        have next : first < ends.2 := by
          rw [← ended]
          split
          · exact Nat.lt_succ_of_lt behind
          · exact behind
        obtain ⟨stop, next⟩ := ends
        simp only at next ⊢
        rw [ensure_bind next, ih (by omega)]
        rfl

end Guarded

namespace Erase

variable (row : TokenRow)

theorem defaultBinding_le (j : Nat) : j ≤ (defaultBinding row j).2 := by
  unfold defaultBinding
  split
  · simp only
    split
    · omega
    · omega
  · exact Nat.le_refl j

theorem namespaceBinding_le (j : Nat) : j ≤ (namespaceBinding row j).2 := by
  unfold namespaceBinding
  split
  · exact Nat.le_add_right j 3
  · exact Nat.le_refl j

end Erase

namespace Guarded

variable {source : List Char} {row : TokenRow} {low high stop : Nat}

open GuardedErase (pass fail)

theorem importEnd_same (lies : row.Lies source low high) (j stop : Nat) :
    importEnd source row j stop = .ok (Erase.importEnd row j stop) := by
  unfold importEnd Erase.importEnd
  rw [breakBefore_same lies, ok_bind]
  extract_lets attributes
  have search : (if attributes then matching row (j + 3) stop else .ok none :
      Guarded (Option Nat)) = .ok (if attributes then row.matching (j + 3) stop else none) := by
    split
    · exact matching_same row (j + 3) stop
    · rfl
  exact congrArg (· >>= _) search

/-! ## Exports -/

/-- The specifiers of an export from token `k` on to the brace at `close`. -/
def exportSpecifiers (row : TokenRow) (close : Nat) :
    Nat → Nat → Guarded (List ExportSpecifier × List Span)
  | 0, first => do
      ensure (close ≤ first) .depth
      .ok ([], [])
  | n + 1, first =>
      if close ≤ first then .ok ([], [])
      else do
        let ofType :=
          row.isWord first "type" && row.isAnyWord (first + 1) && !row.isWord (first + 1) "as"
        let k := if ofType then first + 1 else first
        let name := row.text k
        let k := if row.isWord (k + 1) "as" then k + 3 else k + 1
        let last ← before k
        let (stop, next) :=
          if row.isPunct k "," then (row.stop k, k + 1) else (row.stop last, k)
        ensure (first < next) .still
        let (values, types) ← exportSpecifiers row close n next
        .ok (if ofType then (values, ⟨row.start first, stop⟩ :: types)
          else (⟨name, ⟨row.start first, stop⟩⟩ :: values, types))

/-- The last token of a list of exports that starts at token `j`. -/
def exportEnd (row : TokenRow) (j stop : Nat) : GuardedErase Nat := do
  let k ←
    if row.isPunct j "\x7b" then bracket row j stop "\x7d"
    else if row.isWord (j + 1) "as" then pure (j + 2)
    else pure j
  let k := if row.isWord (k + 1) "from" && row.isStr (k + 2) then k + 2 else k
  pure (if row.isPunct (k + 1) ";" then k + 1 else k)

def exportStatement (row : TokenRow) (i stop : Nat) : GuardedErase Nat := do
  let j := i + 1
  if row.isWord j "type" && (row.isPunct (j + 1) "\x7b" || row.isPunct (j + 1) "*") then
    let last ← exportEnd row (j + 1) stop
    blankTokens row i last
    pure (last + 1)
  else if row.isPunct j "\x7b" then
    let close ← bracket row j stop "\x7d"
    let (values, types) ← pass (exportSpecifiers row close (close - j) (j + 1))
    let isLocal := !row.isWord (close + 1) "from"
    modify fun e =>
      let e := e.blankAll types
      if isLocal then { e with exported := e.exported ++ values } else e
    let last ← exportEnd row j stop
    pure (last + 1)
  else if row.isPunct j "*" then
    let last ← exportEnd row j stop
    pure (last + 1)
  else if row.isPunct j "=" then fail row j .exportAssignment
  else pure (i + 1)

theorem exportSpecifiers_same {close n first : Nat} (enough : close ≤ first + n) :
    exportSpecifiers row close n first = .ok (Erase.exportSpecifiers row close n first) := by
  induction n generalizing first with
  | zero => exact ensure_bind enough _
  | succ n ih =>
      unfold exportSpecifiers Erase.exportSpecifiers
      split
      case isTrue => rfl
      case isFalse =>
        extract_lets ofType k name next
        have begins : first ≤ k := by
          unfold k
          split
          · exact Nat.le_succ first
          · exact Nat.le_refl first
        have behind : first < next := by
          unfold next
          split
          · exact Nat.lt_of_le_of_lt begins (by omega)
          · exact Nat.lt_succ_of_le begins
        rw [before_same (by omega), ok_bind]
        generalize ended : (if row.isPunct next "," = true then (row.stop next, next + 1)
          else (row.stop (next - 1), next)) = ends
        have moves : first < ends.2 := by
          rw [← ended]
          split
          · exact Nat.lt_succ_of_lt behind
          · exact behind
        obtain ⟨stop, after⟩ := ends
        simp only at moves ⊢
        rw [ensure_bind moves, ih (by omega)]
        rfl

section Runs

variable (lies : row.Lies source low high) (i : Nat)

theorem exportEnd_runs (j stop : Nat) : Runs (exportEnd row j stop) (Erase.exportEnd row j stop)
    fun last => j ≤ last := by
  unfold exportEnd Erase.exportEnd
  extract_lets guardedRest rest
  have restRuns (k : Nat) (behind : j ≤ k) :
      Runs (guardedRest k) (rest k) fun last => j ≤ last := by
    refine .pure ?_
    split <;> split <;> omega
  exact .ite (fun _ => .bind (bracket_runs j "\x7d") fun k ends => restRuns k (Nat.le_of_lt ends.1))
    fun _ => .ite (fun _ => .bind (.pure (Nat.le_add_right j 2)) restRuns)
      fun _ => .bind (.pure (Nat.le_refl j)) restRuns

theorem exportStatement_runs (stop : Nat) :
    Runs (exportStatement row i stop) (Erase.exportStatement row i stop) fun next => i < next := by
  unfold exportStatement Erase.exportStatement
  refine .ite (fun _ => ?_) fun _ => .ite (fun _ => ?_) fun _ => .ite (fun _ => ?_)
    fun _ => .ite (fun _ => .fail row _ (by simp)) fun _ => .pure (Nat.lt_succ_self i)
  · exact .bind (exportEnd_runs _ stop) fun last ends => blank_runs _ _ (.pure (by omega))
  · refine .bind (bracket_runs _ "\x7d") fun close ends =>
      .pass (exportSpecifiers_same (by omega)) (.update _ ?_)
    exact .bind (exportEnd_runs _ stop) fun last ends => .pure (by omega)
  · exact .bind (exportEnd_runs _ stop) fun last ends => .pure (by omega)

include lies

theorem importStatement_runs (stop : Nat) :
    Runs (importStatement source row i stop) (Erase.importStatement row i stop)
      fun next => i < next := by
  unfold importStatement Erase.importStatement
  refine .ite (fun _ => .pure (by omega)) fun _ => ?_
  extract_lets typeOnly
  have first := Erase.defaultBinding_le row (if typeOnly then i + 2 else i + 1)
  generalize Erase.defaultBinding row (if typeOnly then i + 2 else i + 1) = default at first
  obtain ⟨default, j⟩ := default
  have second := Erase.namespaceBinding_le row j
  dsimp -zeta only at first ⊢
  generalize Erase.namespaceBinding row j = space at second
  obtain ⟨space, j'⟩ := space
  dsimp -zeta only at second ⊢
  have behind : i < j' := by
    refine Nat.lt_of_lt_of_le ?_ (Nat.le_trans first second)
    split
    · omega
    · omega
  extract_lets guardedRest rest
  have restRuns (read : List ImportBinding × Bool × Nat) (behind : i < read.2.2) :
      Runs (guardedRest read) (rest read) fun next => i < next := by
    obtain ⟨named, hasSpecifiers, j⟩ := read
    have ends : j < Erase.importEnd row j stop := Nat.lt_of_succ_lt (Erase.le_importEnd row j stop)
    refine .ite (fun _ => .pure behind) fun _ => .pass (importEnd_same lies j stop)
      (.pass (before_same (by omega)) (.ite (fun _ => ?_) fun _ => ?_))
    · exact blank_runs _ _ (.pure (Nat.lt_trans behind ends))
    · exact .update _ (.pure (Nat.lt_trans behind ends))
  refine .ite (fun _ => .bind (bracket_runs j' "\x7d") fun close ends => ?_)
    fun _ => .bind (.pure behind) restRuns
  have closes : i < close + 1 := Nat.lt_succ_of_lt (Nat.lt_trans behind ends.1)
  exact .pass (importSpecifiers_same (by omega)) (.update _ (.bind (.pure closes) restRuns))

end Runs

end Guarded

end JsxPreview.Source
