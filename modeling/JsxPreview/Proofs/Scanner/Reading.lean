import JsxPreview.Proofs.Outcome
import JsxPreview.Source.Lexeme
import JsxPreview.Source.Lexer

/-! # What the scanner reads

`c.Leads d` says that the cursor `d` is `c` after some characters, and `c.Passes d` that these are at
least one.  Every way of the scanner to move a cursor is one of the two.

The functions of the nest are one function of a `Call`.  `Reads d call result` is what they do when
they come to an answer, without an allowance: a call that answers under some allowance reads its
answer (`Call.reads_of_run`), and under every allowance a call that reads something either lacks the
allowance or answers just that (`Reads.run`).  What holds of all that is read follows by induction
over `Reads`. -/
set_option autoImplicit false
namespace JsxPreview.Source.Cursor

open JsxPreview.Text

/-- Reading on from `c` comes to `d`. -/
def Leads (c d : Cursor) : Prop :=
  ∃ taken, c.rest = taken ++ d.rest ∧ d.pos = c.pos + byteLength taken

/-- Reading on from `c` comes to `d` behind one character or more. -/
def Passes (c d : Cursor) : Prop := c.Leads d ∧ d.rest.length < c.rest.length

variable {c d e : Cursor}

/-- What fails has no result. -/
theorem fail_ne_ok {α : Type} {cause : SyntaxError.Cause} {a : α} : c.fail cause ≠ .ok a := nofun

theorem Leads.refl (c : Cursor) : c.Leads c := ⟨[], rfl, rfl⟩

theorem Leads.trans (first : c.Leads d) (second : d.Leads e) : c.Leads e := by
  obtain ⟨s, restC, posD⟩ := first
  obtain ⟨t, restD, posE⟩ := second
  refine ⟨s ++ t, ?_, ?_⟩
  · rw [restC, restD, List.append_assoc]
  · rw [posE, posD, byteLength_append, Nat.add_assoc]

theorem Leads.length_le (leads : c.Leads d) : d.rest.length ≤ c.rest.length := by
  obtain ⟨s, rest, _⟩ := leads
  rw [rest, List.length_append]
  omega

theorem Leads.pos_le (leads : c.Leads d) : c.pos ≤ d.pos := by
  obtain ⟨s, _, pos⟩ := leads
  omega

theorem Passes.leads (passes : c.Passes d) : c.Leads d := passes.1

theorem Passes.trans_leads (first : c.Passes d) (second : d.Leads e) : c.Passes e :=
  ⟨first.1.trans second, Nat.lt_of_le_of_lt second.length_le first.2⟩

theorem Leads.trans_passes (first : c.Leads d) (second : d.Passes e) : c.Passes e :=
  ⟨first.trans second.1, Nat.lt_of_lt_of_le second.2 first.length_le⟩

theorem byteLength_pos {s : List Char} (some : s ≠ []) : 0 < byteLength s := by
  cases s with
  | nil => exact absurd rfl some
  | cons x s =>
      have := x.utf8Size_pos
      rw [byteLength_cons]
      omega

theorem Passes.pos_lt (passes : c.Passes d) : c.pos < d.pos := by
  obtain ⟨⟨s, rest, pos⟩, shorter⟩ := passes
  have taken : s ≠ [] := by
    rintro rfl
    rw [rest] at shorter
    exact Nat.lt_irrefl _ shorter
  have := byteLength_pos taken
  omega

/-! ## The moves of the scanner -/

theorem leads_skip (c : Cursor) (n : Nat) : c.Leads (c.skip n) :=
  ⟨c.rest.take n, (List.take_append_drop n c.rest).symm, rfl⟩

theorem leads_past (c : Cursor) (taken : List Char) : c.Leads (c.past taken) := c.leads_skip _

theorem leads_skipWhile (c : Cursor) (p : Char → Bool) : c.Leads (c.skipWhile p) := c.leads_past _

theorem leads_skipBlank (c : Cursor) : c.Leads c.skipBlank := c.leads_skipWhile _

theorem leads_textEnd (c : Cursor) : c.Leads (textEnd c) := c.leads_skipWhile _

theorem passes_skip {n : Nat} (positive : 0 < n) (some : c.rest ≠ []) : c.Passes (c.skip n) := by
  refine ⟨c.leads_skip n, ?_⟩
  have := List.length_pos_iff.mpr some
  rw [skip, List.length_drop]
  omega

theorem passes_past {taken : List Char} (nonempty : taken ≠ []) (some : c.rest ≠ []) :
    c.Passes (c.past taken) :=
  passes_skip (List.length_pos_iff.mpr nonempty) some

theorem passes_skipWhile {p : Char → Bool} {x : Char} {s : List Char} (ahead : c.rest = x :: s)
    (accepted : p x = true) : c.Passes (c.skipWhile p) := by
  refine passes_past ?_ (by simp [ahead])
  rw [ahead, List.takeWhile_cons, accepted]
  exact List.cons_ne_nil _ _

/-- The text between two cursors is what stands between them. -/
theorem upTo_of_append {s : List Char} (split : c.rest = s ++ d.rest) (pos : d.pos = c.pos + byteLength s) :
    c.upTo d = String.ofList s := by
  rw [upTo, pos, Nat.add_sub_cancel_left, split, takeBytes_byteLength]

theorem toList_upTo {s : List Char} (split : c.rest = s ++ d.rest) (pos : d.pos = c.pos + byteLength s) :
    (c.upTo d).toList = s := by
  rw [upTo_of_append split pos, String.toList_ofList]

/-- `skipWhile` stops at a character that it does not accept. -/
theorem skipWhile_rest (c : Cursor) (p : Char → Bool) :
    (c.skipWhile p).rest = c.rest.dropWhile p := by
  have whole := List.takeWhile_append_dropWhile (p := p) (l := c.rest)
  calc (c.skipWhile p).rest = c.rest.drop (c.rest.takeWhile p).length := rfl
    _ = (c.rest.takeWhile p ++ c.rest.dropWhile p).drop (c.rest.takeWhile p).length := by rw [whole]
    _ = c.rest.dropWhile p := List.drop_left

/-- `skipWhile` takes the characters that it accepts. -/
theorem skipWhile_split (c : Cursor) (p : Char → Bool) :
    ∃ s, c.rest = s ++ (c.skipWhile p).rest ∧ (c.skipWhile p).pos = c.pos + byteLength s ∧
      (∀ x ∈ s, p x = true) ∧ ∀ x, (c.skipWhile p).rest.head? = some x → p x = false := by
  have whole := List.takeWhile_append_dropWhile (p := p) (l := c.rest)
  have taken : c.rest.take (c.rest.takeWhile p).length = c.rest.takeWhile p := by
    conv => lhs; arg 2; rw [← whole]
    exact List.take_left
  refine ⟨c.rest.takeWhile p, ?_, ?_, ?_, ?_⟩
  · rw [skipWhile_rest, whole]
  · rw [skipWhile, past, skip, taken]
  · exact fun x member => List.all_eq_true.mp List.all_takeWhile x member
  · intro x head
    have stopped := List.head?_dropWhile_not p c.rest
    rw [← skipWhile_rest, head] at stopped
    simpa using stopped

theorem skipWhile_of_stop {p : Char → Bool} {x : Char} {s : List Char} (ahead : c.rest = x :: s)
    (refused : p x = false) : c.skipWhile p = c := by
  have nothing : c.rest.takeWhile p = [] := by
    rw [ahead, List.takeWhile_cons, refused]
    rfl
  rw [skipWhile, past, nothing]
  rfl

/-- Blanks are skipped once. -/
theorem skipBlank_skipBlank (c : Cursor) : c.skipBlank.skipBlank = c.skipBlank := by
  cases ahead : c.skipBlank.rest with
  | nil =>
      rw [skipBlank, skipWhile, past, ahead]
      rfl
  | cons x s =>
      refine skipWhile_of_stop ahead ?_
      have stopped := List.head?_dropWhile_not (fun x => isBlank x || x == '\ufeff') c.rest
      rw [← skipWhile_rest] at stopped
      rw [skipBlank] at ahead
      simpa [ahead] using stopped

end JsxPreview.Source.Cursor

namespace JsxPreview.Source

open JsxPreview.Text

/-- One call in the nest. -/
inductive Call where
  | tokens (inBraces : Bool) (depth : Nat) (operand : Bool) (c : Cursor)
  | token (operand : Bool) (c : Cursor)
  | template (opening : Cursor) (partStart : Nat) (c : Cursor)
  | body (c : Cursor)
  | element (c : Cursor)
  | attributes (c : Cursor)
  | value (c : Cursor)
  | children (parent : Option String) (c : Cursor)

namespace Call

/-- Where a call starts. -/
def cursor : Call → Cursor
  | .tokens _ _ _ c | .token _ c | .template _ _ c | .body c | .element c | .attributes c | .value c
  | .children _ c => c

@[reducible] def Result : Call → Type
  | .tokens .. => List Token × Cursor
  | .token .. => Shape × Cursor
  | .template .. => List TemplatePart × Cursor
  | .body _ => Body × Cursor
  | .element _ => Element × Cursor
  | .attributes _ => List Attribute × Bool × Cursor
  | .value _ => AttributeValue × Cursor
  | .children .. => List Child × Cursor

/-- Where a call leaves the text. -/
def after : (call : Call) → call.Result → Cursor
  | .tokens .., r | .token .., r | .template .., r | .body _, r | .element _, r | .value _, r
  | .children .., r => r.2
  | .attributes _, r => r.2.2

def run (d : Dialect) (fuel : Nat) : (call : Call) → Except SyntaxError call.Result
  | .tokens inBraces depth operand c => lexTokens d inBraces fuel depth operand c
  | .token operand c => lexToken d fuel operand c
  | .template opening partStart c => lexTemplate d fuel opening partStart c
  | .body c => lexBody d fuel c
  | .element c => lexElement d fuel c
  | .attributes c => lexAttributes d fuel c
  | .value c => lexAttributeValue d fuel c
  | .children parent c => lexChildren d fuel parent c

end Call

/-- The token between two cursors. -/
def tokenBetween (shape : Shape) (c after : Cursor) : Token :=
  ⟨shape, c.pos, after.pos, c.upTo after⟩

inductive Reads (d : Dialect) : (call : Call) → call.Result → Prop
  | tokensEnd {inBraces depth operand before}
      (here : tokensEnd inBraces depth before.skipBlank = .ok true) :
      Reads d (.tokens inBraces depth operand before) ([], before.skipBlank)
  | tokensMore {inBraces depth operand before shape after rest final}
      (here : tokensEnd inBraces depth before.skipBlank = .ok false)
      (first : Reads d (.token operand before.skipBlank) (shape, after))
      (others : Reads d (.tokens inBraces
        ((tokenBetween shape before.skipBlank after).depthAfter depth)
        ((tokenBetween shape before.skipBlank after).operandAfter operand) after) (rest, final)) :
      Reads d (.tokens inBraces depth operand before)
        (tokenBetween shape before.skipBlank after :: rest, final)
  | tokenTemplate {operand c parts after}
      (here : c.rest.head? = some '\x60')
      (inside : Reads d (.template c c.pos (c.skip 1)) (parts, after)) :
      Reads d (.token operand c) (.template parts, after)
  | tokenElement {operand c element after}
      (here : startsElement d operand c.rest = true)
      (inside : Reads d (.element c) (element, after)) :
      Reads d (.token operand c) (.jsx element, after)
  | tokenLeaf {operand c shape after}
      (noTemplate : c.rest.head? ≠ some '\x60')
      (noElement : startsElement d operand c.rest = false)
      (here : lexLeaf operand c = .ok (shape, after)) :
      Reads d (.token operand c) (shape, after)
  | templateEnd {opening partStart c raw}
      (here : rawTail c.rest = some (raw, false)) :
      Reads d (.template opening partStart c) ([.raw partStart (c.past raw).pos], c.past raw)
  | templateMore {opening partStart c raw tokens close parts after}
      (here : rawTail c.rest = some (raw, true))
      (inside : Reads d (.tokens true 0 true (c.past raw)) (tokens, close))
      (others : Reads d (.template opening close.pos (close.skip 1)) (parts, after)) :
      Reads d (.template opening partStart c)
        (.raw partStart (c.past raw).pos :: .subst ⟨(c.past raw).pos, close.pos, tokens⟩ :: parts,
          after)
  | body {c tokens close}
      (inside : Reads d (.tokens true 0 true c) (tokens, close)) :
      Reads d (.body c) (⟨c.pos, close.pos, tokens⟩, close.skip 1)
  | elementFragment {c inner children after}
      (here : tagStart c = .ok (.fragment inner))
      (inside : Reads d (.children none inner) (children, after)) :
      Reads d (.element c) (⟨c.pos, after.pos, none, [], children⟩, after)
  | elementClosed {c name named attributes after}
      (here : tagStart c = .ok (.named name named))
      (tag : Reads d (.attributes named) (attributes, true, after)) :
      Reads d (.element c) (⟨c.pos, after.pos, some name, attributes, []⟩, after)
  | elementOpen {c name named attributes inner children after}
      (here : tagStart c = .ok (.named name named))
      (tag : Reads d (.attributes named) (attributes, false, inner))
      (inside : Reads d (.children (some name.text) inner) (children, after)) :
      Reads d (.element c) (⟨c.pos, after.pos, some name, attributes, children⟩, after)
  | attributesStop {before closed after}
      (here : tagPart before = .ok (.stop closed after)) :
      Reads d (.attributes before) ([], closed, after)
  | attributesSpread {before inner body after rest closed final}
      (here : tagPart before = .ok (.spread inner))
      (inside : Reads d (.body inner) (body, after))
      (others : Reads d (.attributes after) (rest, closed, final)) :
      Reads d (.attributes before) (.spread body :: rest, closed, final)
  | attributesName {before c named value after rest closed final}
      (here : tagPart before = .ok (.name c named))
      (inside : Reads d (.value named.skipBlank) (value, after))
      (others : Reads d (.attributes after) (rest, closed, final)) :
      Reads d (.attributes before) (.named (c.upTo named) c.pos value :: rest, closed, final)
  | valueBare {before after}
      (here : valueStart before = .ok (.bare after)) :
      Reads d (.value before) (.bare, after)
  | valueStr {before value start after}
      (here : valueStart before = .ok (.str value start after)) :
      Reads d (.value before) (.str value start, after)
  | valueExpr {before inner body after}
      (here : valueStart before = .ok (.expr inner))
      (inside : Reads d (.body inner) (body, after)) :
      Reads d (.value before) (.expr body, after)
  | valueElement {before c element after}
      (here : valueStart before = .ok (.element c))
      (inside : Reads d (.element c) (element, after)) :
      Reads d (.value before) (.element element, after)
  | childrenStop {parent start after}
      (here : childStart parent (textEnd start) = .ok (.stop after)) :
      Reads d (.children parent start) (textChild start (textEnd start), after)
  | childrenExpr {parent start inner body after rest final}
      (here : childStart parent (textEnd start) = .ok (.expr inner))
      (inside : Reads d (.body inner) (body, after))
      (others : Reads d (.children parent after) (rest, final)) :
      Reads d (.children parent start)
        (textChild start (textEnd start) ++ bodyChild body ++ rest, final)
  | childrenElement {parent start inner element after rest final}
      (here : childStart parent (textEnd start) = .ok (.element inner))
      (inside : Reads d (.element inner) (element, after))
      (others : Reads d (.children parent after) (rest, final)) :
      Reads d (.children parent start)
        (textChild start (textEnd start) ++ .element element :: rest, final)

/-! ## Answers are read -/

theorem Call.reads_of_run {d : Dialect} {fuel : Nat} : ∀ (call : Call) (r : call.Result),
    call.run d fuel = .ok r → Reads d call r := by
  induction fuel with
  | zero =>
      intro call r success
      cases call <;> exact absurd success (by simp [run, lexTokens, lexToken, lexTemplate, lexBody,
        lexElement, lexAttributes, lexAttributeValue, lexChildren, Cursor.fail])
  | succ fuel ih =>
      intro call r success
      cases call with
      | tokens inBraces depth operand before =>
          rw [run, lexTokens] at success
          obtain ⟨ended, here, success⟩ := ok_of_bind success
          cases ended with
          | true =>
              cases success
              exact .tokensEnd here
          | false =>
              obtain ⟨⟨shape, after⟩, first, success⟩ := ok_of_bind success
              obtain ⟨⟨rest, final⟩, others, success⟩ := ok_of_bind success
              cases success
              exact .tokensMore here (ih (.token ..) _ first) (ih (.tokens ..) _ others)
      | token operand c =>
          rw [run, lexToken] at success
          split at success
          case isTrue here =>
            obtain ⟨⟨parts, after⟩, inside, success⟩ := ok_of_bind success
            cases success
            exact .tokenTemplate (by simpa using here) (ih (.template ..) _ inside)
          case isFalse noTemplate =>
            split at success
            case isTrue here =>
              obtain ⟨⟨element, after⟩, inside, success⟩ := ok_of_bind success
              cases success
              exact .tokenElement here (ih (.element _) _ inside)
            case isFalse noElement =>
              exact .tokenLeaf (by simpa using noTemplate) (by simpa using noElement) success
      | template opening partStart c =>
          rw [run, lexTemplate] at success
          split at success
          case h_1 => exact absurd success Cursor.fail_ne_ok
          case h_2 raw here =>
            cases success
            exact .templateEnd here
          case h_3 raw here =>
            obtain ⟨⟨tokens, close⟩, inside, success⟩ := ok_of_bind success
            obtain ⟨⟨parts, after⟩, others, success⟩ := ok_of_bind success
            cases success
            exact .templateMore here (ih (.tokens ..) _ inside)
              (ih (.template ..) _ others)
      | body c =>
          rw [run, lexBody] at success
          obtain ⟨⟨tokens, close⟩, inside, success⟩ := ok_of_bind success
          cases success
          exact .body (ih (.tokens ..) _ inside)
      | element c =>
          rw [run, lexElement] at success
          obtain ⟨start, here, success⟩ := ok_of_bind success
          cases start with
          | fragment inner =>
              obtain ⟨⟨children, after⟩, inside, success⟩ := ok_of_bind success
              cases success
              exact .elementFragment here (ih (.children ..) _ inside)
          | named name named =>
              obtain ⟨⟨attributes, closed, after⟩, tag, success⟩ := ok_of_bind success
              cases closed with
              | true =>
                  cases success
                  exact .elementClosed here (ih (.attributes _) _ tag)
              | false =>
                  obtain ⟨⟨children, after⟩, inside, success⟩ := ok_of_bind success
                  cases success
                  exact .elementOpen here (ih (.attributes _) _ tag)
                    (ih (.children ..) _ inside)
      | attributes before =>
          rw [run, lexAttributes] at success
          obtain ⟨part, here, success⟩ := ok_of_bind success
          cases part with
          | stop closed after =>
              cases success
              exact .attributesStop here
          | spread inner =>
              obtain ⟨⟨body, after⟩, inside, success⟩ := ok_of_bind success
              obtain ⟨⟨rest, closed, final⟩, others, success⟩ := ok_of_bind success
              cases success
              exact .attributesSpread here (ih (.body _) _ inside)
                (ih (.attributes _) _ others)
          | name c named =>
              obtain ⟨⟨value, after⟩, inside, success⟩ := ok_of_bind success
              obtain ⟨⟨rest, closed, final⟩, others, success⟩ := ok_of_bind success
              cases success
              exact .attributesName here (ih (.value _) _ inside)
                (ih (.attributes _) _ others)
      | value before =>
          rw [run, lexAttributeValue] at success
          obtain ⟨start, here, success⟩ := ok_of_bind success
          cases start with
          | bare after =>
              cases success
              exact .valueBare here
          | str value start after =>
              cases success
              exact .valueStr here
          | expr inner =>
              obtain ⟨⟨body, after⟩, inside, success⟩ := ok_of_bind success
              cases success
              exact .valueExpr here (ih (.body _) _ inside)
          | element c =>
              obtain ⟨⟨element, after⟩, inside, success⟩ := ok_of_bind success
              cases success
              exact .valueElement here (ih (.element _) _ inside)
      | children parent start =>
          rw [run, lexChildren] at success
          obtain ⟨child, here, success⟩ := ok_of_bind success
          cases child with
          | expr inner =>
              obtain ⟨⟨body, after⟩, inside, success⟩ := ok_of_bind success
              obtain ⟨⟨rest, final⟩, others, success⟩ := ok_of_bind success
              cases success
              exact .childrenExpr here (ih (.body _) _ inside)
                (ih (.children ..) _ others)
          | element inner =>
              obtain ⟨⟨element, after⟩, inside, success⟩ := ok_of_bind success
              obtain ⟨⟨rest, final⟩, others, success⟩ := ok_of_bind success
              cases success
              exact .childrenElement here (ih (.element _) _ inside)
                (ih (.children ..) _ others)
          | stop after =>
              cases success
              exact .childrenStop here

/-! ## What is read is answered -/

/-- A scan that has no answer because its allowance is used up. -/
def Exhausted {α : Type} (x : Except SyntaxError α) : Prop := ∃ n, x = .error ⟨.tooDeep, n⟩

/-- A scan that answers `a` unless its allowance is used up. -/
def Settles {α : Type} (x : Except SyntaxError α) (a : α) : Prop := Exhausted x ∨ x = .ok a

theorem Settles.bind {α β : Type} {x : Except SyntaxError α} {a : α}
    {f : α → Except SyntaxError β} {b : β} (first : Settles x a) (second : Settles (f a) b) :
    Settles (x >>= f) b := by
  rcases first with ⟨n, exhausted⟩ | answer
  · rw [exhausted]
    exact .inl ⟨n, rfl⟩
  · rw [answer]
    exact second

theorem Settles.ok {α : Type} (a : α) : Settles (.ok a) a := .inr rfl

theorem Call.run_zero (d : Dialect) (call : Call) : Exhausted (call.run d 0) := by
  cases call <;> exact ⟨_, rfl⟩

theorem Call.settles_of_succ {d : Dialect} {call : Call} {r : call.Result}
    (settles : ∀ fuel, Settles (call.run d (fuel + 1)) r) (fuel : Nat) :
    Settles (call.run d fuel) r := by
  cases fuel with
  | zero => exact .inl (call.run_zero d)
  | succ fuel => exact settles fuel

theorem head?_of_startsElement {d : Dialect} {operand : Bool} {s : List Char}
    (starts : startsElement d operand s = true) : s.head? = some '<' := by
  unfold startsElement at starts
  split at starts
  · rfl
  · exact absurd starts (by decide)

theorem Reads.run {d : Dialect} {call : Call} {r : call.Result} (reads : Reads d call r) :
    ∀ fuel, Settles (call.run d fuel) r := by
  induction reads with
  | tokensEnd here =>
      refine Call.settles_of_succ fun fuel => ?_
      rw [Call.run, lexTokens, here]
      exact .ok _
  | tokensMore here _ _ first others =>
      refine Call.settles_of_succ fun fuel => ?_
      rw [Call.run, lexTokens, here]
      exact (first fuel).bind ((others fuel).bind (.ok _))
  | tokenTemplate here _ inside =>
      refine Call.settles_of_succ fun fuel => ?_
      rw [Call.run, lexToken, here]
      exact (inside fuel).bind (.ok _)
  | tokenElement here _ inside =>
      refine Call.settles_of_succ fun fuel => ?_
      rw [Call.run, lexToken, head?_of_startsElement here, if_neg (by decide), if_pos here]
      exact (inside fuel).bind (.ok _)
  | tokenLeaf noTemplate noElement here =>
      refine Call.settles_of_succ fun fuel => ?_
      rw [Call.run, lexToken, if_neg (by simpa using noTemplate), if_neg (by simp [noElement]), here]
      exact .ok _
  | templateEnd here =>
      refine Call.settles_of_succ fun fuel => ?_
      simp only [Call.run, lexTemplate, here]
      exact .ok _
  | templateMore here _ _ inside others =>
      refine Call.settles_of_succ fun fuel => ?_
      simp only [Call.run, lexTemplate, here]
      exact (inside fuel).bind ((others fuel).bind (.ok _))
  | body _ inside =>
      refine Call.settles_of_succ fun fuel => ?_
      exact (inside fuel).bind (.ok _)
  | elementFragment here _ inside =>
      refine Call.settles_of_succ fun fuel => ?_
      rw [Call.run, lexElement, here]
      exact (inside fuel).bind (.ok _)
  | elementClosed here _ tag =>
      refine Call.settles_of_succ fun fuel => ?_
      rw [Call.run, lexElement, here]
      exact (tag fuel).bind (.ok _)
  | elementOpen here _ _ tag inside =>
      refine Call.settles_of_succ fun fuel => ?_
      rw [Call.run, lexElement, here]
      exact (tag fuel).bind ((inside fuel).bind (.ok _))
  | attributesStop here =>
      refine Call.settles_of_succ fun fuel => ?_
      rw [Call.run, lexAttributes, here]
      exact .ok _
  | attributesSpread here _ _ inside others =>
      refine Call.settles_of_succ fun fuel => ?_
      rw [Call.run, lexAttributes, here]
      exact (inside fuel).bind ((others fuel).bind (.ok _))
  | attributesName here _ _ inside others =>
      refine Call.settles_of_succ fun fuel => ?_
      rw [Call.run, lexAttributes, here]
      exact (inside fuel).bind ((others fuel).bind (.ok _))
  | valueBare here | valueStr here =>
      refine Call.settles_of_succ fun fuel => ?_
      rw [Call.run, lexAttributeValue, here]
      exact .ok _
  | valueExpr here _ inside | valueElement here _ inside =>
      refine Call.settles_of_succ fun fuel => ?_
      rw [Call.run, lexAttributeValue, here]
      exact (inside fuel).bind (.ok _)
  | childrenStop here =>
      refine Call.settles_of_succ fun fuel => ?_
      simp only [Call.run, lexChildren, here]
      exact .ok _
  | childrenExpr here _ _ inside others | childrenElement here _ _ inside others =>
      refine Call.settles_of_succ fun fuel => ?_
      simp only [Call.run, lexChildren, here]
      exact (inside fuel).bind ((others fuel).bind (.ok _))

/-- A call that answers as soon as its allowance is large enough. -/
def Answers (d : Dialect) (call : Call) (r : call.Result) : Prop :=
  ∃ least, ∀ fuel, least ≤ fuel → call.run d fuel = .ok r

namespace Answers

variable {d : Dialect} {call call₁ call₂ : Call} {r : call.Result} {r₁ : call₁.Result}
  {r₂ : call₂.Result}

theorem leaf (answer : ∀ fuel, call.run d (fuel + 1) = .ok r) : Answers d call r := by
  refine ⟨1, fun fuel enough => ?_⟩
  obtain ⟨fuel, rfl⟩ := Nat.exists_eq_succ_of_ne_zero (Nat.ne_of_gt enough)
  exact answer fuel

/-- A call answers by the answer of a call that it makes. -/
theorem nested (inside : Answers d call₁ r₁)
    (answer : ∀ fuel, call₁.run d fuel = .ok r₁ → call.run d (fuel + 1) = .ok r) :
    Answers d call r := by
  obtain ⟨least, inside⟩ := inside
  refine ⟨least + 1, fun fuel enough => ?_⟩
  obtain ⟨fuel, rfl⟩ := Nat.exists_eq_succ_of_ne_zero (Nat.ne_of_gt (Nat.zero_lt_of_lt enough))
  exact answer fuel (inside fuel (Nat.le_of_succ_le_succ enough))

/-- A call answers by the answers of two calls that it makes. -/
theorem both (first : Answers d call₁ r₁) (second : Answers d call₂ r₂)
    (answer : ∀ fuel, call₁.run d fuel = .ok r₁ → call₂.run d fuel = .ok r₂ →
      call.run d (fuel + 1) = .ok r) : Answers d call r := by
  obtain ⟨least, first⟩ := first
  obtain ⟨least', second⟩ := second
  refine ⟨max least least' + 1, fun fuel enough => ?_⟩
  obtain ⟨fuel, rfl⟩ := Nat.exists_eq_succ_of_ne_zero (Nat.ne_of_gt (Nat.zero_lt_of_lt enough))
  exact answer fuel (first fuel (by omega)) (second fuel (by omega))

end Answers

theorem Reads.answers {d : Dialect} {call : Call} {r : call.Result} (reads : Reads d call r) :
    Answers d call r := by
  induction reads with
  | tokensEnd here =>
      refine .leaf fun fuel => ?_
      rw [Call.run, lexTokens, bind_of_ok here]
      rfl
  | tokensMore here _ _ first others =>
      refine first.both others fun fuel first others => ?_
      rw [Call.run, lexTokens, bind_of_ok here]
      exact (bind_of_ok first).trans (bind_of_ok others)
  | tokenTemplate here _ inside =>
      refine inside.nested fun fuel inside => ?_
      rw [Call.run, lexToken, here]
      exact bind_of_ok inside
  | tokenElement here _ inside =>
      refine inside.nested fun fuel inside => ?_
      rw [Call.run, lexToken, head?_of_startsElement here, if_neg (by decide), if_pos here]
      exact bind_of_ok inside
  | tokenLeaf noTemplate noElement here =>
      refine .leaf fun fuel => ?_
      rw [Call.run, lexToken, if_neg (by simpa using noTemplate), if_neg (by simp [noElement]), here]
  | templateEnd here =>
      refine .leaf fun fuel => ?_
      simp only [Call.run, lexTemplate, here]
  | templateMore here _ _ inside others =>
      refine inside.both others fun fuel inside others => ?_
      simp only [Call.run, lexTemplate, here]
      exact (bind_of_ok inside).trans (bind_of_ok others)
  | body _ inside => exact inside.nested fun fuel inside => bind_of_ok inside
  | elementFragment here _ inside =>
      refine inside.nested fun fuel inside => ?_
      rw [Call.run, lexElement, bind_of_ok here]
      exact bind_of_ok inside
  | elementClosed here _ tag =>
      refine tag.nested fun fuel tag => ?_
      rw [Call.run, lexElement, bind_of_ok here]
      exact bind_of_ok tag
  | elementOpen here _ _ tag inside =>
      refine tag.both inside fun fuel tag inside => ?_
      rw [Call.run, lexElement, bind_of_ok here]
      exact (bind_of_ok tag).trans (bind_of_ok inside)
  | attributesStop here =>
      refine .leaf fun fuel => ?_
      rw [Call.run, lexAttributes, bind_of_ok here]
  | attributesSpread here _ _ inside others | attributesName here _ _ inside others =>
      refine inside.both others fun fuel inside others => ?_
      rw [Call.run, lexAttributes, bind_of_ok here]
      exact (bind_of_ok inside).trans (bind_of_ok others)
  | valueBare here | valueStr here =>
      refine .leaf fun fuel => ?_
      rw [Call.run, lexAttributeValue, bind_of_ok here]
  | valueExpr here _ inside | valueElement here _ inside =>
      refine inside.nested fun fuel inside => ?_
      rw [Call.run, lexAttributeValue, bind_of_ok here]
      exact bind_of_ok inside
  | childrenStop here =>
      refine .leaf fun fuel => ?_
      rw [Call.run, lexChildren, bind_of_ok here]
  | childrenExpr here _ _ inside others | childrenElement here _ _ inside others =>
      refine inside.both others fun fuel inside others => ?_
      rw [Call.run, lexChildren, bind_of_ok here]
      exact (bind_of_ok inside).trans (bind_of_ok others)

end JsxPreview.Source
