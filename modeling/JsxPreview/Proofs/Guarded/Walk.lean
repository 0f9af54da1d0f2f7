import JsxPreview.Proofs.Guarded.Expression

/-! # The guarded walk

The walk over a row, and over the rows that are nested in its tokens.  Each reader is given a range
that ends in the row and as much of an allowance as the range has room for; it agrees with its
guarded copy, and where it gives a token that token is behind the one at which it starts. -/
set_option autoImplicit false
namespace JsxPreview.Source

open JsxPreview.Text

namespace Guarded

open GuardedErase (pass fail)

/-- Makes sure that a range of tokens lies in another one. -/
def within (i stop i' stop' : Nat) : Guarded Unit := ensure (Within i stop i' stop') .range

/-- Makes sure that a range of tokens lies in another one and is shorter. -/
def narrower (i stop i' stop' : Nat) : Guarded Unit := ensure (Narrower i stop i' stop') .range

mutual

/-- Walks over the tokens from `i` up to `stop`; `declaring` is the bracket depth of the list of
declarators that the walk is in. -/
def scan (source : List Char) (row : TokenRow) (stop : Nat) :
    Nat → Nat → Option Nat → Nat → GuardedErase Unit
  | 0, _, _, _ => pass (.error .depth)
  | fuel + 1, depth, declaring, i =>
      if stop ≤ i then pure ()
      else do
        pass (subscript row i)
        if row.isAnyWord i && Erase.declarationWords.contains (row.text i) then
          if row.isWord (i + 1) "enum" then fail row (i + 1) .enumDeclaration
          else do
            let next ← binding source row stop fuel (i + 1)
            pass (ensure (i < next) .still)
            scan source row stop fuel depth (some depth) next
        else if declaring == some depth && row.isPunct i "," then do
          let next ← binding source row stop fuel (i + 1)
          pass (ensure (i < next) .still)
          scan source row stop fuel depth declaring next
        else do
          let next ← step source row stop fuel i
          pass (ensure (i < next) .still)
          if next == i + 1 && row.opensBracket i then
            scan source row stop fuel (depth + 1) declaring next
          else if next == i + 1 && row.closesBracket i then
            let declaring := declaring.filter (· ≤ depth - 1)
            scan source row stop fuel (depth - 1) declaring next
          else if next == i + 1 && row.isPunct i ";" && declaring == some depth then
            scan source row stop fuel depth none next
          else scan source row stop fuel depth declaring next
termination_by structural fuel => fuel

/-- Reads the token at `i` with what belongs to it. -/
def step (source : List Char) (row : TokenRow) (stop : Nat) : Nat → Nat → GuardedErase Nat
  | 0, _ => pass (.error .depth)
  | fuel + 1, i => do
      pass (subscript row i)
      match row.shape? i with
      | some (.template parts) => do
          templateParts source row fuel parts
          pure (i + 1)
      | some (.jsx element) => do
          bodies source row fuel element.bodies
          pure (i + 1)
      | some .word => word source row stop fuel i
      | some .punct =>
          if row.isPunct i "(" then parenthesis source row stop fuel i
          else if row.isPunct i "<" then typeArguments source row i stop
          else if row.isPunct i "!" then nonNullAssertion row i
          else pure (i + 1)
      | _ => pure (i + 1)
termination_by structural fuel => fuel

def templateParts (source : List Char) (row : TokenRow) :
    Nat → List TemplatePart → GuardedErase Unit
  | 0, _ => pass (.error .depth)
  | _ + 1, [] => pure ()
  | fuel + 1, .raw _ _ :: rest => templateParts source row fuel rest
  | fuel + 1, .subst body :: rest => do
      let inner := row.nested body.tokens
      scan source inner inner.size fuel 0 none 0
      templateParts source row fuel rest
termination_by structural fuel => fuel

def bodies (source : List Char) (row : TokenRow) : Nat → List Body → GuardedErase Unit
  | 0, _ => pass (.error .depth)
  | _ + 1, [] => pure ()
  | fuel + 1, body :: rest => do
      let inner := row.nested body.tokens
      scan source inner inner.size fuel 0 none 0
      bodies source row fuel rest
termination_by structural fuel => fuel

/-- Reads the word at `i` with what belongs to it. -/
def word (source : List Char) (row : TokenRow) (stop : Nat) : Nat → Nat → GuardedErase Nat
  | 0, _ => pass (.error .depth)
  | fuel + 1, i => do
      let text := row.text i
      let atStart ← pass (isStatementStart source row (← get) i)
      let broken ← pass (breakBefore source row (i + 1))
      if text == "type" && atStart && row.isAnyWord (i + 1) &&
          (row.isPunct (i + 2) "=" || row.isPunct (i + 2) "<") then typeAlias source row i stop
      else if text == "interface" && atStart && row.isAnyWord (i + 1) then interface row i stop
      else if text == "declare" && atStart && row.isAnyWord (i + 1) && !broken then
        ambient source row i stop
      else if text == "abstract" && row.isWord (i + 1) "class" then do
        blankTokens row i i
        pure (i + 1)
      else if text == "enum" && atStart && row.isAnyWord (i + 1) then fail row i .enumDeclaration
      else if (text == "namespace" || text == "module") && atStart &&
          (row.isAnyWord (i + 1) || row.isStr (i + 1)) && row.isPunct (i + 2) "\x7b" then
        fail row i .namespaceDeclaration
      else if text == "import" && atStart && !row.isPunct (i + 1) "(" &&
          !row.isPunct (i + 1) "." then importStatement source row i stop
      else if text == "export" && atStart then exportStatement row i stop
      else if text == "function" then functionHead source row stop fuel i
      else if text == "class" then do
        let brace ← classHead row i stop
        if !row.isPunct brace "\x7b" then pure brace
        else
          let close ← bracket row brace stop "\x7d"
          pass (narrower i stop (brace + 1) close)
          members source row close fuel (brace + 1)
          pure (close + 1)
      else if text == "as" || text == "satisfies" then assertion source row i stop
      else pure (i + 1)
termination_by structural fuel => fuel

/-- Reads a declared name or pattern at token `j`, with its annotation. -/
def binding (source : List Char) (row : TokenRow) (stop : Nat) : Nat → Nat → GuardedErase Nat
  | 0, _ => pass (.error .depth)
  | fuel + 1, j => do
      let target ←
        if row.isAnyWord j then pure (some (j + 1))
        else if row.isPunct j "\x7b" || row.isPunct j "[" then
          match ← pass (matching row j stop) with
          | none => pure none
          | some close => do
              pass (narrower j stop (j + 1) close)
              scan source row close fuel 0 none (j + 1)
              pure (some (close + 1))
        else pure none
      match target with
      | none => pure j
      | some k =>
          if row.isPunct k "!" && row.isPunct (k + 1) ":" then
            blankTokens row k k
            annotation source row (k + 1) stop
          else annotation source row k stop
termination_by structural fuel => fuel

/-- Reads the head of the function at `i`; one without a body goes as a whole. -/
def functionHead (source : List Char) (row : TokenRow) (stop : Nat) : Nat → Nat → GuardedErase Nat
  | 0, _ => pass (.error .depth)
  | fuel + 1, i => do
      let j := if row.isPunct (i + 1) "*" then i + 2 else i + 1
      let j ← typeParameters? row (if row.isAnyWord j then j + 1 else j) stop
      if !row.isPunct j "(" then pure j
      else
        pass (narrower i stop j stop)
        let close ← parameters source row stop fuel j
        let k ← annotation source row (close + 1) stop
        if row.isPunct k "\x7b" then pure k
        else
          let next := if row.isPunct k ";" then k + 1 else k
          let last ← pass (before next)
          blank (row.declarationStart i) (row.stop last)
          pure next
termination_by structural fuel => fuel

/-- Reads the parameters that the parenthesis at `i` opens, and gives the one that closes it. -/
def parameters (source : List Char) (row : TokenRow) (stop : Nat) : Nat → Nat → GuardedErase Nat
  | 0, _ => pass (.error .depth)
  | fuel + 1, i => do
      let close ← bracket row i stop ")"
      if i + 1 < close && row.isWord (i + 1) "this" && row.isPunct (i + 2) ":" then
        -- the type of the receiver is no parameter
        let (next, place) ← pass (skipType source row (i + 3) close false)
        pass (ensure (i + 1 < next) .still)
        if next < close && row.isPunct next "," then
          blank (row.start (i + 1)) (row.stop next)
          pass (narrower i stop (next + 1) close)
          parametersFrom source row close fuel (next + 1)
        else
          blank (row.start (i + 1)) place
          pass (narrower i stop next close)
          parametersFrom source row close fuel next
      else
        pass (narrower i stop (i + 1) close)
        parametersFrom source row close fuel (i + 1)
      pure close
termination_by structural fuel => fuel

/-- Reads the parameters from token `j` on to the parenthesis at `close`. -/
def parametersFrom (source : List Char) (row : TokenRow) (close : Nat) :
    Nat → Nat → GuardedErase Unit
  | 0, _ => pass (.error .depth)
  | fuel + 1, first =>
      if close ≤ first then pure ()
      else if row.isAnyWord first && Erase.erasedModifiers.contains (row.text first) &&
          (row.isAnyWord (first + 1) || row.isPunct (first + 1) "\x7b" ||
            row.isPunct (first + 1) "[") then
        fail row first .parameterProperty
      else do
        let j := if row.isPunct first "..." then first + 1 else first
        let target ←
          if row.isAnyWord j then pure (some (j + 1))
          else if row.isPunct j "\x7b" || row.isPunct j "[" then
            match ← pass (matching row j close) with
            | none => pure none
            | some patternEnd => do
                pass (narrower first close (j + 1) patternEnd)
                scan source row patternEnd fuel 0 none (j + 1)
                pure (some (patternEnd + 1))
          else pure (some j)
        match target with
        | none => pure ()
        | some j =>
            let isOptional := row.isPunct j "?" &&
              (j + 1 == close || row.isPunct (j + 1) ":" || row.isPunct (j + 1) "," ||
                row.isPunct (j + 1) "=")
            if isOptional then blankTokens row j j
            let j ← annotation source row (if isOptional then j + 1 else j) close
            let comma ← pass (commaFrom row false (close - j) 0 j)
            if j < comma then do
              pass (within first close j comma)
              scan source row comma fuel 0 none j
            pass (ensure (first < comma + 1) .still)
            parametersFrom source row close fuel (comma + 1)
termination_by structural fuel => fuel

/-- Reads the parenthesis at `i`, with the parameters that it may hold. -/
def parenthesis (source : List Char) (row : TokenRow) (stop : Nat) : Nat → Nat → GuardedErase Nat
  | 0, _ => pass (.error .depth)
  | fuel + 1, i => do
      match ← pass (matching row i stop) with
      | none => pure (i + 1)
      | some close => do
          let after := close + 1
          let broken ← pass (breakBefore source row after)
          if row.isPunct after "=>" && !broken then
            let _ ← parameters source row stop fuel i
            pure after
          else
            let (next, place) ← pass (skipType source row (after + 1) stop true)
            if row.isPunct after ":" && after + 1 < next && row.isPunct next "=>" then
              let _ ← parameters source row stop fuel i
              blank (row.start after) place
              pure next
            else
              let before ← pass (lastKept row (← get) i)
              if before.any (row.isWord · "catch") then
                let _ ← parameters source row stop fuel i
                pure after
              else if before.any row.isName && row.isPunct after "\x7b" then
                let _ ← parameters source row stop fuel i
                pure after
              else if before.any row.isName && row.isPunct after ":" then
                let (next, place) ← pass (skipType source row (after + 1) stop false)
                if row.isPunct next "\x7b" then
                  let _ ← parameters source row stop fuel i
                  blank (row.start after) place
                  pure next
                else pure (i + 1)
              else pure (i + 1)
termination_by structural fuel => fuel

/-- Reads the members of a class from token `j` on to the brace at `close`. -/
def members (source : List Char) (row : TokenRow) (close : Nat) : Nat → Nat → GuardedErase Unit
  | 0, _ => pass (.error .depth)
  | fuel + 1, member =>
      if close ≤ member then pure ()
      else if row.isPunct member ";" then members source row close fuel (member + 1)
      else if row.isWord member "static" && row.isPunct (member + 1) "\x7b" then do
        let block ← bracket row (member + 1) close "\x7d"
        pass (narrower member close (member + 2) block)
        scan source row block fuel 0 none (member + 2)
        pass (ensure (member < block + 1) .still)
        members source row close fuel (block + 1)
      else do
        let (j, dropped) ← modifiers row (close - member) member false
        if row.isPunct j "[" && row.isAnyWord (j + 1) && row.isPunct (j + 2) ":" then
          let next ← indexSignature source row member j close
          pass (ensure (member < next) .still)
          members source row close fuel next
        else
          let j := if row.isPunct j "*" then j + 1 else j
          let j := if row.isPunct j "#" then j + 1 else j
          let named ←
            if row.isPunct j "[" then
              match ← pass (matching row j close) with
              | none => pure none
              | some computed => do
                  pass (narrower member close (j + 1) computed)
                  scan source row computed fuel 0 none (j + 1)
                  pure (some (computed + 1))
            else if row.isAnyWord j || row.isStr j || row.isNumber j then pure (some (j + 1))
            else pure (some j)
          match named with
          | none => pure ()
          | some j =>
              let j ← memberMark source row j close
              let j ← typeParameters? row j close
              pass (within member close j close)
              let next ←
                if row.isPunct j "(" then method source row close fuel member dropped j
                else field source row close fuel member dropped j
              pass (ensure (member < next) .still)
              members source row close fuel next
termination_by structural fuel => fuel

def method (source : List Char) (row : TokenRow) (close : Nat) :
    Nat → Nat → Bool → Nat → GuardedErase Nat
  | 0, _, _, _ => pass (.error .depth)
  | fuel + 1, member, dropped, j => do
      let paren ← parameters source row close fuel j
      let k ← annotation source row (paren + 1) close
      if row.isPunct k "\x7b" then
        let body ← bracket row k close "\x7d"
        if dropped then blank (row.start member) (row.stop body)
        else do
          pass (narrower j close (k + 1) body)
          scan source row body fuel 0 none (k + 1)
        pure (body + 1)
      else
        let next := if row.isPunct k ";" then k + 1 else k
        let last ← pass (before next)
        blank (row.start member) (row.stop last)
        pure next
termination_by structural fuel => fuel

def field (source : List Char) (row : TokenRow) (close : Nat) :
    Nat → Nat → Bool → Nat → GuardedErase Nat
  | 0, _, _, _ => pass (.error .depth)
  | fuel + 1, member, dropped, first => do
      let j ← annotation source row first close
      let j ←
        if row.isPunct j "=" then do
          let stop ← pass (fieldEnd source row close (j + 1) (close - (j + 1)) 0 (j + 1))
          pass (narrower member close (j + 1) stop)
          scan source row stop fuel 0 none (j + 1)
          pure stop
        else pure j
      let j := if row.isPunct j ";" then j + 1 else j
      if dropped && member < j then do
        let last ← pass (before j)
        blank (row.start member) (row.stop last)
      pure (if j == member then j + 1 else j)
termination_by structural fuel => fuel

end

/-! ## The walk agrees -/

mutual

theorem scan_runs {source : List Char} {row : TokenRow} {low high stop : Nat}
    (lies : row.Lies source low high) (inRow : stop ≤ row.size) : (fuel depth : Nat) →
    (declaring : Option Nat) → (i : Nat) → row.room source high i stop + 4 ≤ fuel →
    Runs (scan source row stop fuel depth declaring i) (Erase.scan row stop fuel depth declaring i)
      fun _ => True
  | 0, _, _, _, enough => absurd enough (by omega)
  | fuel + 1, depth, declaring, i, enough => by
      unfold scan Erase.scan
      refine .ite (fun _ => .pure trivial) fun less => .ensure (by omega) ?_
      have next (k : Nat) (behind : i < k) : row.room source high k stop + 4 ≤ fuel := by
        have := lies.room_lt (.of_lt (Nat.le_of_lt behind) (Nat.le_refl stop) (by omega)) inRow
        omega
      have bound := next (i + 1) (Nat.lt_succ_self i)
      refine .ite (fun _ => .ite (fun _ => .fail row _ (by simp)) fun _ => ?_)
        fun _ => .ite (fun _ => ?_) fun _ => ?_
      · exact .bind (binding_runs lies inRow fuel (i + 1) (by omega)) fun k ends =>
          .ensure (by omega) (scan_runs lies inRow fuel _ _ k (next k (by omega)))
      · exact .bind (binding_runs lies inRow fuel (i + 1) (by omega)) fun k ends =>
          .ensure (by omega) (scan_runs lies inRow fuel _ _ k (next k (by omega)))
      · refine .bind (step_runs lies inRow fuel i (by omega) (by omega)) fun k ends =>
          .ensure ends ?_
        have rest (depth : Nat) (declaring : Option Nat) :=
          scan_runs lies inRow fuel depth declaring k (next k ends)
        exact .ite (fun _ => rest _ _) fun _ => .ite (fun _ => rest _ _)
          fun _ => .ite (fun _ => rest _ _) fun _ => rest _ _
termination_by structural fuel => fuel

theorem step_runs {source : List Char} {row : TokenRow} {low high stop : Nat}
    (lies : row.Lies source low high) (inRow : stop ≤ row.size) : (fuel i : Nat) → i < stop →
    row.room source high i stop + 3 ≤ fuel →
    Runs (step source row stop fuel i) (Erase.step row stop fuel i) fun next => i < next
  | 0, _, _, enough => absurd enough (by omega)
  | fuel + 1, i, less, enough => by
      have there : i < row.size := Nat.lt_of_lt_of_le less inRow
      have here := Nat.lt_succ_self i
      unfold step Erase.step
      refine .ensure there ?_
      obtain ⟨t, found⟩ := TokenRow.get?_of_lt there
      have shape : row.shape? i = some t.shape := by rw [TokenRow.shape?, found]; rfl
      rw [shape]
      cases shape : t.shape with
      | template parts =>
          have fits := lies.partsRoom_le found shape less
          exact .bind (templateParts_runs row fuel parts
            (fun b container => lies.nested found (shape ▸ container)) (by omega))
            fun _ _ => .pure here
      | jsx element =>
          have fits := lies.bodiesRoom_le found less
          rw [shape] at fits
          exact .bind (bodies_runs row fuel element.bodies
            (fun b container => lies.nested found (shape ▸ container))
            (Nat.le_trans fits (by omega))) fun _ _ => .pure here
      | word => exact word_runs lies inRow fuel i less (by omega)
      | punct =>
          exact .ite (fun _ => parenthesis_runs lies inRow fuel i less (by omega))
            fun _ => .ite (fun _ => typeArguments_runs lies inRow i there)
              fun _ => .ite (fun _ => nonNullAssertion_runs i there) fun _ => .pure here
      | str | number | regex | comment => exact .pure here
termination_by structural fuel => fuel

theorem templateParts_runs {source : List Char} (row : TokenRow) : (fuel : Nat) →
    (parts : List TemplatePart) →
    (∀ b ∈ (Shape.template parts).bodies, (row.nested b.tokens).Lies source b.start b.stop) →
    partsRoom source parts ≤ fuel →
    Runs (templateParts source row fuel parts) (Erase.templateParts row fuel parts) fun _ => True
  | 0, [], _, enough => absurd enough (by simp [partsRoom])
  | 0, .raw _ _ :: rest, _, enough => absurd enough (by simp [partsRoom])
  | 0, .subst _ :: rest, _, enough => absurd enough (by simp [partsRoom])
  | _ + 1, [], _, _ => .pure trivial
  | fuel + 1, .raw _ _ :: rest, nested, enough =>
      templateParts_runs row fuel rest nested (Nat.le_of_succ_le_succ enough)
  | fuel + 1, .subst b :: rest, nested, enough => by
      have lies := nested b (List.mem_cons_self ..)
      have whole := lies.room_whole
      rw [partsRoom] at enough
      exact .bind (scan_runs lies (Nat.le_refl _) fuel 0 none 0 (by omega)) fun _ _ =>
        templateParts_runs row fuel rest (fun c container => nested c (List.mem_cons_of_mem _ container))
          (by omega)
termination_by structural fuel => fuel

theorem bodies_runs {source : List Char} (row : TokenRow) : (fuel : Nat) → (bs : List Body) →
    (∀ b ∈ bs, (row.nested b.tokens).Lies source b.start b.stop) → bodiesRoom source bs ≤ fuel →
    Runs (bodies source row fuel bs) (Erase.bodies row fuel bs) fun _ => True
  | 0, [], _, enough => absurd enough (by simp [bodiesRoom])
  | 0, _ :: rest, _, enough => absurd enough (by simp [bodiesRoom])
  | _ + 1, [], _, _ => .pure trivial
  | fuel + 1, b :: rest, nested, enough => by
      have lies := nested b (List.mem_cons_self ..)
      have whole := lies.room_whole
      rw [bodiesRoom] at enough
      exact .bind (scan_runs lies (Nat.le_refl _) fuel 0 none 0 (by omega)) fun _ _ =>
        bodies_runs row fuel rest (fun c container => nested c (List.mem_cons_of_mem _ container))
          (by omega)
termination_by structural fuel => fuel

theorem word_runs {source : List Char} {row : TokenRow} {low high stop : Nat}
    (lies : row.Lies source low high) (inRow : stop ≤ row.size) : (fuel i : Nat) → i < stop →
    row.room source high i stop + 2 ≤ fuel →
    Runs (word source row stop fuel i) (Erase.word row stop fuel i) fun next => i < next
  | 0, _, _, enough => absurd enough (by omega)
  | fuel + 1, i, less, enough => by
      have there : i < row.size := Nat.lt_of_lt_of_le less inRow
      have here := Nat.lt_succ_self i
      unfold word Erase.word
      refine .state fun e => .pass (isStatementStart_same lies e there)
        (.pass (breakBefore_same lies (i + 1)) ?_)
      refine .ite (fun _ => typeAlias_runs lies inRow i) fun _ =>
        .ite (fun _ => interface_runs inRow i) fun _ =>
        .ite (fun _ => ambient_runs lies inRow i) fun _ =>
        .ite (fun _ => blank_runs _ _ (.pure here)) fun _ =>
        .ite (fun _ => .fail row i (by simp)) fun _ =>
        .ite (fun _ => .fail row i (by simp)) fun _ =>
        .ite (fun _ => importStatement_runs lies i stop) fun _ =>
        .ite (fun _ => exportStatement_runs i stop) fun _ =>
        .ite (fun _ => functionHead_runs lies inRow fuel i less (by omega)) fun _ =>
        .ite (fun _ => ?_) fun _ =>
        .ite (fun _ => assertion_runs lies inRow i there) fun _ => .pure here
      refine .bind (classHead_runs inRow i) fun brace behind => .ite (fun _ => .pure behind)
        fun _ => .bind (bracket_runs brace "\x7d") fun close ends => ?_
      have narrow : Narrower i stop (brace + 1) close := .of_lt (by omega) (by omega) (by omega)
      have room := lies.room_lt narrow inRow
      exact .ensure narrow (.bind (members_runs lies ends.2.2.2 (by omega) fuel (brace + 1) (by omega))
        fun _ _ => .pure (by omega))
termination_by structural fuel => fuel

theorem binding_runs {source : List Char} {row : TokenRow} {low high stop : Nat}
    (lies : row.Lies source low high) (inRow : stop ≤ row.size) : (fuel j : Nat) →
    row.room source high j stop + 1 ≤ fuel →
    Runs (binding source row stop fuel j) (Erase.binding row stop fuel j) fun next => j ≤ next
  | 0, _, enough => absurd enough (by omega)
  | fuel + 1, j, enough => by
      unfold binding Erase.binding
      extract_lets guardedRest rest
      have restRuns (target : Option Nat) (behind : ∀ k ∈ target, j ≤ k) :
          Runs (guardedRest target) (rest target) fun next => j ≤ next := by
        cases target with
        | none => exact .pure (Nat.le_refl j)
        | some k =>
            have := behind k rfl
            exact .ite (fun _ => blank_runs _ _ ((annotation_runs lies inRow (k + 1)).mono
                fun _ ends => by omega))
              fun _ => (annotation_runs lies inRow k).mono fun _ ends => by omega
      refine .ite (fun _ => .bind (.pure (by simp)) restRuns)
        fun _ => .ite (fun _ => .pass (matching_same row j stop) ?_)
          fun _ => .bind (.pure (by simp)) restRuns
      cases found : row.matching j stop with
      | none => exact .bind (.pure (by simp)) restRuns
      | some close =>
          have less := TokenRow.matching_lt found
          have ends := (TokenRow.matching_spec found).2
          have narrow : Narrower j stop (j + 1) close := .of_lt (by omega) (by omega) (by omega)
          have room := lies.room_lt narrow inRow
          refine .ensure narrow (.bind (scan_runs lies (by omega) fuel 0 none (j + 1) (by omega))
            fun _ _ => .bind (.pure ?_) restRuns)
          simpa using by omega
termination_by structural fuel => fuel

theorem functionHead_runs {source : List Char} {row : TokenRow} {low high stop : Nat}
    (lies : row.Lies source low high) (inRow : stop ≤ row.size) : (fuel i : Nat) → i < stop →
    row.room source high i stop + 1 ≤ fuel →
    Runs (functionHead source row stop fuel i) (Erase.functionHead row stop fuel i)
      fun next => i < next
  | 0, _, _, enough => absurd enough (by omega)
  | fuel + 1, i, less, enough => by
      unfold functionHead Erase.functionHead
      extract_lets name
      have named : i < name := by
        unfold name
        split <;> omega
      refine .bind (maybeTypeParameters_runs inRow _) fun j ends => ?_
      have behind : i < j := by
        refine Nat.lt_of_lt_of_le ?_ ends
        split
        · exact Nat.lt_succ_of_lt named
        · exact named
      have narrow : Narrower i stop j stop := .of_lt (by omega) (by omega) (by omega)
      have room := lies.room_lt narrow inRow
      refine .ite (fun _ => .pure behind) fun _ => .ensure narrow
        (.bind (parameters_runs lies inRow fuel j (by omega)) fun close closes =>
          .bind (annotation_runs lies inRow (close + 1)) fun k ends' => ?_)
      have last : i < if row.isPunct k ";" then k + 1 else k := by
        split <;> omega
      exact .ite (fun _ => .pure (by omega)) fun _ => .pass (before_same (by omega))
        (blank_runs _ _ (.pure last))
termination_by structural fuel => fuel

theorem parameters_runs {source : List Char} {row : TokenRow} {low high stop : Nat}
    (lies : row.Lies source low high) (inRow : stop ≤ row.size) : (fuel i : Nat) →
    row.room source high i stop + 1 ≤ fuel →
    Runs (parameters source row stop fuel i) (Erase.parameters row stop fuel i)
      fun close => i < close ∧ close < stop
  | 0, _, enough => absurd enough (by omega)
  | fuel + 1, i, enough => by
      unfold parameters Erase.parameters
      refine .bind (bracket_runs i ")") fun close ends => ?_
      extract_lets guardedRest rest
      have restRuns (u : Unit) : Runs (guardedRest u) (rest u)
          fun close => i < close ∧ close < stop := .pure ⟨ends.1, ends.2.1⟩
      have fromRuns (j : Nat) (behind : i < j) : Narrower i stop j close ∧
          Runs (parametersFrom source row close fuel j) (Erase.parametersFrom row close fuel j)
            fun _ => True := by
        have narrow : Narrower i stop j close := .of_lt (by omega) (by omega) (by omega)
        have room := lies.room_lt narrow inRow
        exact ⟨narrow, parametersFrom_runs lies (by omega) fuel j (by omega)⟩
      have search := skipType_same lies (show close ≤ row.size by omega) (i + 3) false
      have receiver := row.skipType_le (i + 3) close false
      generalize row.skipType (i + 3) close false = read at search receiver ⊢
      obtain ⟨next, place⟩ := read
      have behind : i + 1 < next := Nat.lt_of_lt_of_le (by omega) receiver
      obtain ⟨narrow, runs⟩ := fromRuns (i + 1) (by omega)
      refine .ite (fun _ => .pass search (.ensure behind (.ite (fun _ => ?_) fun _ => ?_)))
        fun _ => .ensure narrow (.bind runs fun u _ => restRuns u)
      · obtain ⟨narrow, runs⟩ := fromRuns (next + 1) (by omega)
        exact blank_runs _ _ (.ensure narrow (.bind runs fun u _ => restRuns u))
      · obtain ⟨narrow, runs⟩ := fromRuns next (by omega)
        exact blank_runs _ _ (.ensure narrow (.bind runs fun u _ => restRuns u))
termination_by structural fuel => fuel

theorem parametersFrom_runs {source : List Char} {row : TokenRow} {low high close : Nat}
    (lies : row.Lies source low high) (inRow : close ≤ row.size) : (fuel j : Nat) →
    row.room source high j close + 5 ≤ fuel →
    Runs (parametersFrom source row close fuel j) (Erase.parametersFrom row close fuel j)
      fun _ => True
  | 0, _, enough => absurd enough (by omega)
  | fuel + 1, first, enough => by
      unfold parametersFrom Erase.parametersFrom
      refine .ite (fun _ => .pure trivial) fun less => .ite (fun _ => .fail row _ (by simp))
        fun _ => ?_
      extract_lets start guardedNamed named
      have starts : first ≤ start := by
        unfold start
        split <;> omega
      have namedRuns (target : Option Nat) (behind : ∀ k ∈ target, first ≤ k) :
          Runs (guardedNamed target) (named target) fun _ => True := by
        cases target with
        | none => exact .pure trivial
        | some k =>
            have starts' := behind k rfl
            unfold guardedNamed named
            dsimp -zeta only
            extract_lets isOptional guardedMarked marked
            have markedRuns (u : Unit) : Runs (guardedMarked u) (marked u) fun _ => True := by
              refine .bind (annotation_runs lies inRow _) fun j ends => ?_
              have starts'' : first ≤ j := by
                refine Nat.le_trans ?_ ends
                split <;> omega
              have search : commaFrom row false (close - j) 0 j =
                  .ok (row.commaFrom false (close - j) 0 j) := commaFrom_same false 0 (by omega)
              have after := row.le_commaFrom false (close - j) 0 j
              have inside := row.commaFrom_le false (close - j) 0 j
              generalize row.commaFrom false (close - j) 0 j = comma at search after inside ⊢
              have narrow : Narrower first close (comma + 1) close :=
                .of_lt (by omega) (Nat.le_refl close) (by omega)
              have room := lies.room_lt narrow inRow
              have rest := parametersFrom_runs lies inRow fuel (comma + 1) (by omega)
              have moves : first < comma + 1 := by omega
              refine .pass search (.ite (fun less' => ?_) fun _ => .ensure moves rest)
              have within : Within first close j comma := fun _ => ⟨starts'', by omega⟩
              have room' := lies.room_le within
              exact .ensure within (.bind (scan_runs lies (by omega) fuel 0 none j (by omega))
                fun _ _ => .ensure moves rest)
            exact .ite (fun _ => blank_runs _ _ (markedRuns ())) fun _ => markedRuns ()
      refine .ite (fun _ => .bind (.pure (by simp; omega)) namedRuns)
        fun _ => .ite (fun _ => .pass (matching_same row start close) ?_)
          fun _ => .bind (.pure (by simpa using starts)) namedRuns
      cases found : row.matching start close with
      | none => exact .bind (.pure (by simp)) namedRuns
      | some patternEnd =>
          have less' := TokenRow.matching_lt found
          have ends := (TokenRow.matching_spec found).2
          have narrow : Narrower first close (start + 1) patternEnd :=
            .of_lt (by omega) (by omega) (by omega)
          have room := lies.room_lt narrow inRow
          refine .ensure narrow (.bind (scan_runs lies (by omega) fuel 0 none (start + 1) (by omega))
            fun _ _ => .bind (.pure ?_) namedRuns)
          simpa using by omega
termination_by structural fuel => fuel

theorem parenthesis_runs {source : List Char} {row : TokenRow} {low high stop : Nat}
    (lies : row.Lies source low high) (inRow : stop ≤ row.size) : (fuel i : Nat) → i < stop →
    row.room source high i stop + 2 ≤ fuel →
    Runs (parenthesis source row stop fuel i) (Erase.parenthesis row stop fuel i)
      fun next => i < next
  | 0, _, _, enough => absurd enough (by omega)
  | fuel + 1, i, less, enough => by
      have here := Nat.lt_succ_self i
      have there : i < row.size := Nat.lt_of_lt_of_le less inRow
      unfold parenthesis Erase.parenthesis
      refine .pass (matching_same row i stop) ?_
      cases found : row.matching i stop with
      | none => exact .pure here
      | some close =>
          have closes : i < close + 1 := Nat.lt_succ_of_lt (TokenRow.matching_lt found)
          have behind (next : Nat) (starts : close + 1 + 1 ≤ next) : i < next := by omega
          have arrow := skipType_same lies inRow (close + 1 + 1) true
          have arrowEnds := behind _ (row.skipType_le (close + 1 + 1) stop true)
          have body := skipType_same lies inRow (close + 1 + 1) false
          have bodyEnds := behind _ (row.skipType_le (close + 1 + 1) stop false)
          have inside {α : Type} {holds : α → Prop} {k : GuardedErase α} {h : Erase α}
              (rest : Runs k h holds) :
              Runs (parameters source row stop fuel i >>= fun _ => k)
                (Erase.parameters row stop fuel i >>= fun _ => h) holds :=
            .bind (parameters_runs lies inRow fuel i (by omega)) fun _ _ => rest
          dsimp only
          generalize row.skipType (close + 1 + 1) stop true = arrowRead at arrow arrowEnds ⊢
          generalize row.skipType (close + 1 + 1) stop false = bodyRead at body bodyEnds ⊢
          refine .pass (breakBefore_same lies (close + 1)) (.ite (fun _ => inside (.pure closes))
            fun _ => .pass arrow (.ite (fun _ => inside (blank_runs _ _ (.pure arrowEnds)))
              fun _ => ?_))
          refine .state fun e => .pass (lastKept_same e (Nat.le_of_lt there)) ?_
          refine .ite (fun _ => inside (.pure closes)) fun _ =>
            .ite (fun _ => inside (.pure closes)) fun _ =>
            .ite (fun _ => .pass body ?_) fun _ => .pure here
          exact .ite (fun _ => inside (blank_runs _ _ (.pure bodyEnds))) fun _ => .pure here
termination_by structural fuel => fuel

theorem members_runs {source : List Char} {row : TokenRow} {low high close : Nat}
    (lies : row.Lies source low high) (closes : row.closesBracket close = true)
    (inRow : close ≤ row.size) : (fuel member : Nat) → row.room source high member close + 7 ≤ fuel →
    Runs (members source row close fuel member) (Erase.members row close fuel member) fun _ => True
  | 0, _, enough => absurd enough (by omega)
  | fuel + 1, member, enough => by
      unfold members Erase.members
      refine .ite (fun _ => .pure trivial) fun less => ?_
      have next (k : Nat) (behind : member < k) :
          Runs (members source row close fuel k) (Erase.members row close fuel k) fun _ => True := by
        have narrow : Narrower member close k close :=
          .of_lt (Nat.le_of_lt behind) (Nat.le_refl close) (by omega)
        have room := lies.room_lt narrow inRow
        exact members_runs lies closes inRow fuel k (by omega)
      have inner {first last : Nat} (narrow : Narrower member close first last)
          (ends : last ≤ row.size) :
          Runs (scan source row last fuel 0 none first) (Erase.scan row last fuel 0 none first)
            fun _ => True := by
        have room := lies.room_lt narrow inRow
        exact scan_runs lies ends fuel 0 none first (by omega)
      refine .ite (fun _ => next _ (Nat.lt_succ_self member)) fun _ => .ite (fun _ => ?_) fun _ => ?_
      · refine .bind (bracket_runs (member + 1) "\x7d") fun block ends => ?_
        have narrow : Narrower member close (member + 2) block :=
          .of_lt (by omega) (by omega) (by omega)
        have moves : member < block + 1 := by omega
        exact .ensure narrow (.bind (inner narrow (by omega)) fun _ _ => .ensure moves (next _ moves))
      · refine .bind (modifiers_runs (show member + (close - member) = close by omega) closes false)
          fun read starts => ?_
        obtain ⟨first, dropped⟩ := read
        dsimp -zeta only at starts ⊢
        refine .ite (fun _ => .bind (indexSignature_runs lies inRow first member) fun k ends => ?_)
          fun _ => ?_
        · have moves : member < k := Nat.lt_of_le_of_lt starts ends
          exact .ensure moves (next k moves)
        extract_lets starred named guardedNext guardedRest next' rest
        have nextRuns (k : Nat) (moves : member < k) :
            Runs (guardedNext k) (next' k) fun _ => True := .ensure moves (next k moves)
        have starts' : member ≤ named := by
          unfold named starred
          split <;> split <;> omega
        have restRuns (target : Option Nat) (behind : ∀ k ∈ target, member ≤ k) :
            Runs (guardedRest target) (rest target) fun _ => True := by
          cases target with
          | none => exact .pure trivial
          | some k =>
              have begins := behind k rfl
              refine .bind (memberMark_runs lies k) fun marked ends => .bind
                (maybeTypeParameters_runs inRow marked) fun j ends' => ?_
              have within : Within member close j close := fun _ => ⟨by omega, Nat.le_refl close⟩
              have room := lies.room_le within
              exact .ensure within (.ite
                (fun _ => .bind (method_runs lies inRow fuel member dropped j (by omega))
                  fun k moves => nextRuns k (by omega))
                fun _ => .bind (field_runs lies inRow fuel member dropped j (by omega) (by omega)
                  (by omega)) nextRuns)
        refine .ite (fun _ => .pass (matching_same row named close) ?_)
          fun _ => .ite (fun _ => .bind (.pure (by simp; omega)) restRuns)
            fun _ => .bind (.pure (by simpa using starts')) restRuns
        cases found : row.matching named close with
        | none => exact .bind (.pure (by simp)) restRuns
        | some computed =>
            have less' := TokenRow.matching_lt found
            have ends := (TokenRow.matching_spec found).2
            have narrow : Narrower member close (named + 1) computed :=
              .of_lt (by omega) (by omega) (by omega)
            refine .ensure narrow (.bind (inner narrow (by omega)) fun _ _ => .bind (.pure ?_) restRuns)
            simpa using by omega
termination_by structural fuel => fuel

theorem method_runs {source : List Char} {row : TokenRow} {low high close : Nat}
    (lies : row.Lies source low high) (inRow : close ≤ row.size) : (fuel member : Nat) →
    (dropped : Bool) → (j : Nat) → row.room source high j close + 6 ≤ fuel →
    Runs (method source row close fuel member dropped j)
      (Erase.method row close fuel member dropped j) fun next => j < next
  | 0, _, _, _, enough => absurd enough (by omega)
  | fuel + 1, member, dropped, j, enough => by
      unfold method Erase.method
      refine .bind (parameters_runs lies inRow fuel j (by omega)) fun paren ends =>
        .bind (annotation_runs lies inRow (paren + 1)) fun k starts => .ite (fun _ => ?_) fun _ => ?_
      · refine .bind (bracket_runs k "\x7d") fun body ends' => ?_
        have narrow : Narrower j close (k + 1) body := .of_lt (by omega) (by omega) (by omega)
        have room := lies.room_lt narrow inRow
        have last : j < body + 1 := by omega
        exact .ite (fun _ => blank_runs _ _ (.pure last)) fun _ => .ensure narrow
          (.bind (scan_runs lies (by omega) fuel 0 none (k + 1) (by omega)) fun _ _ => .pure last)
      · have last : j < if row.isPunct k ";" then k + 1 else k := by
          split <;> omega
        exact .pass (before_same (by omega)) (blank_runs _ _ (.pure last))
termination_by structural fuel => fuel

theorem field_runs {source : List Char} {row : TokenRow} {low high close : Nat}
    (lies : row.Lies source low high) (inRow : close ≤ row.size) : (fuel member : Nat) →
    (dropped : Bool) → (j : Nat) → member ≤ j → member < close →
    row.room source high member close + 6 ≤ fuel →
    Runs (field source row close fuel member dropped j)
      (Erase.field row close fuel member dropped j) fun next => member < next
  | 0, _, _, _, _, _, enough => absurd enough (by omega)
  | fuel + 1, member, dropped, first, behind, inside, enough => by
      unfold field Erase.field
      refine .bind (annotation_runs lies inRow first) fun j starts => ?_
      extract_lets guardedRest rest stop
      have restRuns (k : Nat) (behind : member ≤ k) :
          Runs (guardedRest k) (rest k) fun next => member < next := by
        unfold guardedRest rest
        extract_lets last guardedEnd ends
        have last_le : member ≤ last := by
          unfold last
          split <;> omega
        have endRuns (u : Unit) : Runs (guardedEnd u) (ends u) fun next => member < next := by
          refine .pure ?_
          split
          case isTrue => omega
          case isFalse other =>
            rw [beq_iff_eq] at other
            omega
        refine .ite (fun kept => ?_) fun _ => endRuns ()
        rw [Bool.and_eq_true, decide_eq_true_iff] at kept
        exact .pass (before_same (by omega)) (blank_runs _ _ (endRuns ()))
      refine .ite (fun assigned => ?_) fun _ => .bind (.pure (by omega)) restRuns
      have there : j < row.size := TokenRow.lt_of_isPunct assigned
      have search : fieldEnd source row close (j + 1) (close - (j + 1)) 0 (j + 1) = .ok stop :=
        fieldEnd_same lies inRow (by omega) (by omega)
      have bounds : j + 1 ≤ stop ∧ stop ≤ j + 1 + (close - (j + 1)) := Erase.fieldEnd_bounds
      have narrow : Narrower member close (j + 1) stop := ⟨by unfold Within; omega, by omega⟩
      have room := lies.room_lt narrow inRow
      exact .pass search (.ensure narrow
        (.bind (scan_runs lies (by omega) fuel 0 none (j + 1) (by omega))
          fun _ _ => .bind (.pure (by omega)) restRuns))
termination_by structural fuel => fuel

end

end Guarded

end JsxPreview.Source
