import JsxPreview.Proofs.Erasure.Growth
import JsxPreview.Proofs.Scanner.Layout
import JsxPreview.Source.Module

/-! # Where texts are refused

A place is firm at the start of a text, at its end, and in front of every character that is not white
space.  The scanner skips white space before it looks at a token, a name or a value, so that it refuses
a text at firm places only (`tokenize_firm`).

What reads declarations refuses them at a token, or behind the last one (`AtToken`), and so does the
walk that finds types.  Tokens stand where they say, so that these places are firm in the text whose
tokens they are (`analyze_firm`, `eraseTypes_firm`). -/
set_option autoImplicit false
namespace JsxPreview.Source

open JsxPreview.Text

/-! ## The scanner -/

section Scanner

/-- The start or the end of a text, or the place of something in it. -/
def Firm (source : List Char) (n : Nat) : Prop :=
  n = 0 ∨ n = byteLength source ∨ ∃ text, Stands source n text

/-- No white space follows. -/
def Cursor.AtInk (c : Cursor) : Prop := ∀ x, c.rest.head? = some x → isBlank x = false

/-- Refused for want of an allowance, or at a firm place. -/
def Refused (source : List Char) (e : SyntaxError) : Prop :=
  e.cause = .tooDeep ∨ Firm source e.offset

variable {source : List Char} {c : Cursor}

theorem Cursor.In.firm (here : c.In source) (ink : c.AtInk) : Firm source c.pos := by
  obtain ⟨front, whole, pos⟩ := here
  rw [Nat.zero_add] at pos
  change source = front ++ c.rest at whole
  cases ahead : c.rest with
  | nil =>
      rw [ahead, List.append_nil] at whole
      exact .inr (.inl (whole ▸ pos))
  | cons x s =>
      have inkHere : isBlank x = false := ink x (by rw [ahead]; rfl)
      refine .inr (.inr ⟨[x], front, s, ?_, pos.symm, x, [], rfl, inkHere⟩)
      rw [whole, ahead, List.append_assoc]
      rfl

theorem Cursor.In.fails {α : Type} (here : c.In source) (ink : c.AtInk)
    (cause : SyntaxError.Cause) : FailsAs (Refused source) (c.fail cause : Except SyntaxError α) :=
  .error (.inr (here.firm ink))

theorem Cursor.In.skip (here : c.In source) (n : Nat) : (c.skip n).In source :=
  here.leads (c.leads_skip n)

theorem Cursor.In.skipBlank (here : c.In source) : c.skipBlank.In source :=
  here.leads c.leads_skipBlank

theorem Cursor.In.skipWhile (here : c.In source) (p : Char → Bool) : (c.skipWhile p).In source :=
  here.leads (c.leads_skipWhile p)

theorem Cursor.atInk_skipBlank (c : Cursor) : c.skipBlank.AtInk := by
  intro x head
  obtain ⟨_, _, _, _, stops⟩ := c.skipWhile_split fun x => isBlank x || x == '\ufeff'
  have stopped := stops x head
  rw [Bool.or_eq_false_iff] at stopped
  exact stopped.1

theorem Cursor.atInk_textEnd (c : Cursor) : (textEnd c).AtInk := by
  intro x head
  obtain ⟨_, _, _, _, stops⟩ :=
    c.skipWhile_split fun x => !(x == '<' || x == '\x7b' || x == '\x7d' || x == '>')
  have stopped := stops x head
  rw [Bool.not_eq_false', Bool.or_eq_true, Bool.or_eq_true, Bool.or_eq_true] at stopped
  simp only [beq_iff_eq] at stopped
  rcases stopped with ((rfl | rfl) | rfl) | rfl <;> decide

/-! ### Single steps -/

theorem tokensEnd_fails (here : c.In source) (ink : c.AtInk) (inBraces : Bool) (depth : Nat) :
    FailsAs (Refused source) (tokensEnd inBraces depth c) := by
  unfold tokensEnd
  split
  · exact .ite (here.fails ink _) (.ok _)
  · exact .ok _

theorem lexLeaf_fails (here : c.In source) (ink : c.AtInk) (operand : Bool) :
    FailsAs (Refused source) (lexLeaf operand c) := by
  unfold lexLeaf
  repeat' split
  all_goals first
    | exact .ok _
    | exact here.fails ink _

theorem tagStart_fails (here : c.In source) : FailsAs (Refused source) (tagStart c) := by
  unfold tagStart
  extract_lets inner named
  exact .ite (.ok _) (.ite ((here.skip 1).skipBlank.fails (Cursor.atInk_skipBlank _) _) (.ok _))

theorem tagPart_fails (here : c.In source) : FailsAs (Refused source) (tagPart c) := by
  have refused {α : Type} (cause : SyntaxError.Cause) :
      FailsAs (Refused source) (c.skipBlank.fail cause : Except SyntaxError α) :=
    here.skipBlank.fails (Cursor.atInk_skipBlank _) cause
  unfold tagPart
  simp only
  split
  · exact refused _
  · exact .ite (.ite (.ok _) (refused _)) (.ite (.ok _) (.ite (.ite (.ok _) (refused _))
      (.ite (.ok _) (refused _))))

theorem valueStart_fails (here : c.In source) : FailsAs (Refused source) (valueStart c) := by
  have refused {α : Type} (cause : SyntaxError.Cause) :
      FailsAs (Refused source) ((c.skip 1).skipBlank.fail cause : Except SyntaxError α) :=
    (here.skip 1).skipBlank.fails (Cursor.atInk_skipBlank _) cause
  unfold valueStart
  refine .ite (.ok _) ?_
  extract_lets inner
  split
  · exact refused _
  · exact .ite (.ite (.ok _) (refused _)) (.ite (.ok _) (.ite (.ok _) (refused _)))

theorem childStart_fails (here : c.In source) (ink : c.AtInk) (parent : Option String) :
    FailsAs (Refused source) (childStart parent c) := by
  unfold childStart
  split
  · exact here.fails ink _
  · refine .ite (.ok _) (.ite ?_ (here.fails ink _))
    extract_lets gap name named close closing
    refine .ite (.ite ?_ (.ite ?_ (.ite (here.fails ink _) (.ok _)))) (.ok _)
    · exact (here.skip _).skipBlank.fails (Cursor.atInk_skipBlank _) _
    · exact ((here.skip _).skipBlank.skipWhile _).skipBlank.fails (Cursor.atInk_skipBlank _) _

/-! ### The nest -/

/-- What a call needs besides its place: a token does not start with white space, and a template was
opened at a firm place. -/
def Call.IsFirm (source : List Char) : Call → Prop
  | .token _ c => c.AtInk
  | .template opening _ _ => Firm source opening.pos
  | .tokens .. | .body _ | .element _ | .attributes _ | .value _ | .children .. => True

theorem Call.fails {d : Dialect} {fuel : Nat} : ∀ call : Call, call.cursor.In source →
    call.IsFirm source → FailsAs (Refused source) (call.run d fuel) := by
  induction fuel with
  | zero =>
      intro call _ _
      cases call <;> exact .error (.inl rfl)
  | succ fuel ih =>
      intro call here firm
      cases call with
      | tokens inBraces depth operand before =>
          have begins : before.skipBlank.In source := Cursor.In.skipBlank here
          rw [run, lexTokens]
          refine .bind (tokensEnd_fails begins (Cursor.atInk_skipBlank _) _ _) fun ended _ => ?_
          cases ended with
          | true => exact .ok _
          | false =>
              refine .bind (ih (.token ..) begins (Cursor.atInk_skipBlank _)) fun r first => ?_
              have behind := begins.leads (Call.reads_of_run (.token ..) r first).leads
              exact .bind (ih (.tokens ..) behind trivial) fun _ _ => .ok _
      | token operand c =>
          rw [run, lexToken]
          refine .ite ?_ (.ite ?_ (lexLeaf_fails here firm operand))
          · exact .bind (ih (.template ..) (Cursor.In.skip here 1) (here.firm firm)) fun _ _ => .ok _
          · exact .bind (ih (.element _) here trivial) fun _ _ => .ok _
      | template opening partStart c =>
          rw [run, lexTemplate]
          split
          case h_1 => exact .error (.inr firm)
          case h_2 => exact .ok _
          case h_3 raw _ =>
            have inside : (c.past raw).In source := here.leads (Cursor.leads_past _ _)
            refine .bind (ih (.tokens ..) inside trivial) fun r inner => ?_
            have behind := inside.leads (Call.reads_of_run (.tokens ..) r inner).leads
            exact .bind (ih (.template ..) (Cursor.In.skip behind 1) firm) fun _ _ => .ok _
      | body c =>
          rw [run, lexBody]
          exact .bind (ih (.tokens ..) here trivial) fun _ _ => .ok _
      | element c =>
          rw [run, lexElement]
          refine .bind (tagStart_fails here) fun start tag => ?_
          have moved := tagStart_passes tag
          cases start with
          | fragment inner =>
              exact .bind (ih (.children ..) (here.leads moved.leads) trivial) fun _ _ => .ok _
          | named name named =>
              have behind : named.In source := here.leads moved.leads
              refine .bind (ih (.attributes _) behind trivial) fun r read => .ite (.ok _) ?_
              have inside := behind.leads (Call.reads_of_run (.attributes _) r read).leads
              exact .bind (ih (.children ..) inside trivial) fun _ _ => .ok _
      | attributes before =>
          rw [run, lexAttributes]
          refine .bind (tagPart_fails here) fun part tag => ?_
          have moved := tagPart_passes tag
          cases part with
          | stop closed after => exact .ok _
          | spread inner =>
              have inside : inner.In source := here.leads moved.leads
              refine .bind (ih (.body _) inside trivial) fun r read => ?_
              have behind := inside.leads (Call.reads_of_run (.body _) r read).leads
              exact .bind (ih (.attributes _) behind trivial) fun _ _ => .ok _
          | name c named =>
              obtain ⟨rfl, rfl, -⟩ := moved
              have inside := ((Cursor.In.skipBlank here).skipWhile isAttributeNamePart).skipBlank
              refine .bind (ih (.value _) inside trivial) fun r read => ?_
              have behind := inside.leads (Call.reads_of_run (.value _) r read).leads
              exact .bind (ih (.attributes _) behind trivial) fun _ _ => .ok _
      | value before =>
          rw [run, lexAttributeValue]
          refine .bind (valueStart_fails here) fun start read => ?_
          have moved := valueStart_passes read
          cases start with
          | bare after => exact .ok _
          | str value place after => exact .ok _
          | expr inner =>
              exact .bind (ih (.body _) (here.leads moved.leads) trivial) fun _ _ => .ok _
          | element c =>
              exact .bind (ih (.element _) (here.leads moved.leads) trivial) fun _ _ => .ok _
      | children parent start =>
          have text : (textEnd start).In source := here.leads (Cursor.leads_textEnd _)
          rw [run, lexChildren]
          refine .bind (childStart_fails text (Cursor.atInk_textEnd _) parent) fun child read => ?_
          have moved := childStart_passes read
          cases child with
          | expr inner =>
              have inside : inner.In source := text.leads moved.leads
              refine .bind (ih (.body _) inside trivial) fun r first => ?_
              have behind := inside.leads (Call.reads_of_run (.body _) r first).leads
              exact .bind (ih (.children ..) behind trivial) fun _ _ => .ok _
          | element inner =>
              have inside : inner.In source := moved ▸ text
              refine .bind (ih (.element _) inside trivial) fun r first => ?_
              have behind := inside.leads (Call.reads_of_run (.element _) r first).leads
              exact .bind (ih (.children ..) behind trivial) fun _ _ => .ok _
          | stop after => exact .ok _

/-- A text that cannot be read is refused at a firm place. -/
theorem tokenize_firm {d : Dialect} {source : String} {e : SyntaxError}
    (refused : tokenize d source = .error e) : Firm source.toList e.offset := by
  unfold tokenize at refused
  cases answer : tokenized d source with
  | none =>
      rw [answer] at refused
      cases refused
      exact .inl rfl
  | some r =>
      rw [answer, Option.getD_some] at refused
      subst refused
      obtain ⟨fuel, within, answered⟩ := Scan.answerFrom_answers answer
      have start : (firstLine source).2.In source.toList := leads_firstLine source
      have fails : FailsAs (Refused source.toList) (tokenizeWithin fuel d source) :=
        .bind (Call.fails (.ofSource source) start trivial) fun _ _ => .ok _
      rcases fails.cause e within with exhausted | firm
      · exact absurd ⟨e.offset, by rw [← exhausted]⟩ answered
      · exact firm

end Scanner

/-! ## Declarations and types -/

/-- Refused at a token of a row, or behind its end. -/
def AtToken (row : TokenRow) (e : SyntaxError) : Prop := ∃ i, e.offset = row.start i

namespace TokenRow

variable {row : TokenRow}

theorem fail_atToken {α : Type} (i : Nat) (cause : SyntaxError.Cause) :
    FailsAs (AtToken row) (row.fail i cause : Except SyntaxError α) :=
  .error ⟨i, rfl⟩

/-! ### Names -/

theorem expectWord_atToken (i : Nat) (w : String) : FailsAs (AtToken row) (row.expectWord i w) :=
  .ite (.ok _) (fail_atToken ..)

theorem stringValue_atToken (i : Nat) : FailsAs (AtToken row) (row.stringValue i) :=
  .ite (.ok _) (fail_atToken ..)

theorem wordText_atToken (i : Nat) : FailsAs (AtToken row) (row.wordText i) :=
  .ite (.ok _) (fail_atToken ..)

theorem exportedName_atToken (i : Nat) : FailsAs (AtToken row) (row.exportedName i) :=
  .ite (.ok _) (stringValue_atToken i)

theorem moduleName_atToken (i : Nat) : FailsAs (AtToken row) (row.moduleName i) := by
  unfold moduleName
  refine .bind (stringValue_atToken i) fun specifier _ => ?_
  extract_lets next rest
  have restFails (n : Nat) : FailsAs (AtToken row) (rest n) := .ok _
  refine .ite ?_ (.bind (.ok _) fun _ _ => restFails _)
  split
  · exact .bind (.ok _) fun _ _ => restFails _
  · exact .bind (fail_atToken ..) fun _ _ => restFails _

theorem nameList_atToken {readAlias : Nat → Except SyntaxError String}
    (renames : ∀ i, FailsAs (AtToken row) (readAlias i)) (fuel : Nat) : ∀ i,
    FailsAs (AtToken row) (row.nameList readAlias fuel i) := by
  induction fuel with
  | zero => exact fun i => fail_atToken ..
  | succ fuel ih =>
      intro i
      unfold nameList
      refine .ite (.ok _) (.bind (exportedName_atToken i) fun name _ => ?_)
      extract_lets behind
      -- what follows a name, and then the names behind the comma
      have behindFails (x : String × Nat) : FailsAs (AtToken row) (behind x) := by
        obtain ⟨renamed, next⟩ := x
        have othersFail (next : Nat) : FailsAs (AtToken row)
            (row.nameList readAlias fuel next >>= fun x => .ok ((name, renamed) :: x.1, x.2)) :=
          .bind (ih next) fun _ _ => .ok _
        exact .ite (.bind (.ok _) fun next _ => othersFail next)
          (.ite (.bind (.ok _) fun next _ => othersFail next)
            (.bind (fail_atToken ..) fun next _ => othersFail next))
      exact .ite (.bind (renames _) fun _ _ => .bind (.ok _) fun x _ => behindFails x)
        (.bind (.ok _) fun x _ => behindFails x)

/-! ### Binding targets -/

theorem binding_atToken (fuel : Nat) :
    (∀ k, FailsAs (AtToken row) (row.bindingTarget fuel k)) ∧
      (∀ opening object k, FailsAs (AtToken row) (row.patternItems fuel opening object k)) ∧
      ∀ k, FailsAs (AtToken row) (row.patternProperty fuel k) := by
  induction fuel with
  | zero =>
      refine ⟨fun k => ?_, fun opening object k => ?_, fun k => ?_⟩
      · unfold bindingTarget
        exact fail_atToken ..
      · unfold patternItems
        exact fail_atToken ..
      · unfold patternProperty
        exact fail_atToken ..
  | succ fuel ih =>
      obtain ⟨target, items, property⟩ := ih
      refine ⟨fun k => ?_, fun opening object k => ?_, fun k => ?_⟩
      · unfold bindingTarget
        exact .ite (items ..) (.ite (.ok _) (fail_atToken ..))
      · unfold patternItems
        refine .ite (fail_atToken ..) (.ite (.ok _) (.ite (items ..) (.ite ?_ ?_)))
        · exact .bind (target _) fun _ _ => .bind (items ..) fun _ _ => .ok _
        · extract_lets behind
          have behindFails (x : List String × Nat) : FailsAs (AtToken row) (behind x) :=
            .bind (items ..) fun _ _ => .ok _
          exact .ite (.bind (property k) fun x _ => behindFails x)
            (.bind (target k) fun x _ => behindFails x)
      · unfold patternProperty
        refine .ite ?_ (.ite (target _) (.ite (.ok _) (fail_atToken ..)))
        split
        · exact fail_atToken ..
        · exact .ite (target _) (fail_atToken ..)

theorem declarators_atToken (fuel : Nat) : ∀ k,
    FailsAs (AtToken row) (row.declarators fuel k) := by
  induction fuel with
  | zero => exact fun k => fail_atToken ..
  | succ fuel ih =>
      intro k
      unfold declarators
      refine .bind ((binding_atToken _).1 k) fun r _ => ?_
      exact .ite (.bind (ih _) fun _ _ => .ok _) (.ok _)

/-! ### Declarations -/

theorem importedNames_atToken (bind : String → String → String) (j : Nat) :
    FailsAs (AtToken row) (row.importedNames bind j) := by
  unfold importedNames
  refine .ite (.bind (expectWord_atToken ..) fun _ _ => .bind (wordText_atToken _) fun _ _ => .ok _)
    (.ite ?_ (.ok _))
  exact .bind (nameList_atToken wordText_atToken ..) fun _ _ => .ok _

theorem exportAlias_atToken (i : Nat) : FailsAs (AtToken row) (row.exportAlias i) :=
  .ite (.bind (exportedName_atToken _) fun _ _ => .ok _) (.ok _)

theorem declaredName_atToken (j : Nat) : FailsAs (AtToken row) (row.declaredName j) := by
  unfold declaredName
  extract_lets name
  have nameFails (k : Nat) : FailsAs (AtToken row) (name k) := wordText_atToken _
  exact .ite (.bind (expectWord_atToken ..) fun _ _ => .bind (.ok _) fun k _ => nameFails k)
    (.bind (.ok _) fun k _ => nameFails k)

end TokenRow

namespace Analysis

open TokenRow

variable {row : TokenRow}

theorem importDeclaration_atToken (a : Analysis) (i : Nat) :
    FailsAs (AtToken row) (a.importDeclaration row i) := by
  unfold importDeclaration
  extract_lets stopBefore
  refine .ite (.bind (moduleName_atToken _) fun _ _ => .ok _) ?_
  extract_lets
  exact .bind (importedNames_atToken ..) fun _ _ => .bind (expectWord_atToken ..) fun _ _ =>
    .bind (moduleName_atToken _) fun _ _ => .ok _

theorem exportClause_atToken (a : Analysis) (i : Nat) :
    FailsAs (AtToken row) (a.exportClause row i) := by
  unfold exportClause
  exact .bind (nameList_atToken exportedName_atToken ..) fun _ _ =>
    .ite (.bind (moduleName_atToken _) fun _ _ => .ok _) (.ok _)

theorem exportAll_atToken (a : Analysis) (i : Nat) :
    FailsAs (AtToken row) (a.exportAll row i) := by
  unfold exportAll
  refine .bind (exportAlias_atToken i) fun x _ => ?_
  obtain ⟨name?, j⟩ := x
  refine .bind (expectWord_atToken ..) fun _ _ => .bind (moduleName_atToken _) fun _ _ => ?_
  cases name? <;> exact .ok _

theorem exportDeclaration_atToken (a : Analysis) (i : Nat) :
    FailsAs (AtToken row) (a.exportDeclaration row i) := by
  unfold exportDeclaration
  extract_lets j dropWord
  exact .ite (.ok _) (.ite (.bind (declarators_atToken ..) fun _ _ => .ok _)
    (.ite (.bind (declaredName_atToken _) fun _ _ => .ok _)
      (.ite (exportClause_atToken ..) (.ite (exportAll_atToken ..) (fail_atToken ..)))))

theorem declarations_atToken (fuel : Nat) : ∀ (depth : Int) (i : Nat) (a : Analysis),
    FailsAs (AtToken row) (declarations row fuel depth i a) := by
  induction fuel with
  | zero => exact fun depth i a => .ok a
  | succ fuel ih =>
      intro depth i a
      unfold declarations
      refine .ite (.ok _) ?_
      extract_lets topLevel
      exact .ite (.bind (importDeclaration_atToken ..) fun _ _ => ih ..)
        (.ite (.bind (exportDeclaration_atToken ..) fun _ _ => ih ..)
          (.ite (ih ..) (.ite (ih ..) (ih ..))))

end Analysis

/-! ### Tokens stand at firm places -/

section Firm

variable {source : List Char} {ts : List Token}

theorem Laid.firm_start (laid : Laid source ts) (i : Nat) :
    Firm source ((TokenRow.ofTokens source ts).start i) := by
  obtain ⟨-, stands, -, -⟩ := laid
  cases found : (TokenRow.ofTokens source ts).get? i with
  | none =>
      rw [TokenRow.start, found]
      exact .inr (.inl rfl)
  | some t =>
      rw [TokenRow.start_of_get? found]
      exact .inr (.inr ⟨_, stands t (TokenRow.mem_of_get? found)⟩)

/-- What is read of declarations is refused at a firm place. -/
theorem analyze_firm (laid : Laid source ts) {o : HeaderOptions} {e : SyntaxError}
    (refused : analyze source ts o = .error e) : Firm source e.offset := by
  have fails : FailsAs (AtToken (.ofTokens source ts)) (analyze source ts o) :=
    .bind (Analysis.declarations_atToken ..) fun _ _ => .ok _
  obtain ⟨i, place⟩ := fails.cause e refused
  exact place ▸ laid.firm_start i

/-- The rows of the tokens of a text and of its containers. -/
def RowOf (source : List Char) (row : TokenRow) : Prop :=
  ∃ us, Laid source us ∧ row = .ofTokens source us

theorem rowOf_stays (source : List Char) : Erase.Stays (RowOf source) fun _ => True where
  inside := by
    rintro _ i t b ⟨us, ⟨-, -, -, inside⟩, rfl⟩ found container
    exact ⟨b.tokens, inside t (TokenRow.mem_of_get? found) b container, rfl⟩
  blank _ _ _ := trivial
  typeNames _ _ := trivial
  imported _ _ _ := trivial
  exported _ _ _ := trivial

/-- A text whose types cannot be erased is refused at a firm place. -/
theorem eraseTypes_firm {jsx : Bool} {source : String} {e : SyntaxError}
    (refused : eraseTypes jsx source = .error e) : Firm source.toList e.offset := by
  rcases error_of_bind refused with refused | ⟨tokens, lexed, refused⟩
  · exact tokenize_firm refused
  · rcases error_of_bind refused with refused | ⟨_, _, refused⟩
    · have rowed : RowOf source.toList (.ofTokens source.toList tokens) :=
        ⟨tokens, tokenize_laid lexed, rfl⟩
      rcases error_of_bind refused with refused | ⟨_, _, refused⟩
      · obtain ⟨_, i, ⟨us, laid, rfl⟩, place⟩ :=
          (Erase.scan_keeps (rowOf_stays source.toList) rowed ..).refused _ _ refused
        exact place ▸ laid.firm_start i
      · cases refused
    · cases refused

end Firm

end JsxPreview.Source
