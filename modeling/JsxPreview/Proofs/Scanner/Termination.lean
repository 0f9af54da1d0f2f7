import JsxPreview.Proofs.Scanner.Progress
import Mathlib.Logic.Relation

/-! # Whether the scanner comes to an end

A call of the nest makes the calls of one round (`Nests`) and then goes on with the next round of its
loop (`Next`).  A nested call is smaller than the call that makes it, and so is the next round, except
where the attributes of a tag are at a backslash (`Call.Stalls`): that round takes an empty name and
leaves the cursor where it was.  So a text has an answer exactly when no call that its scan reaches
stalls, and then the first allowance is enough. -/
set_option autoImplicit false
namespace JsxPreview.Source

open JsxPreview.Text

/-! ## The calls of a call -/

/-- A call that one round of another makes. -/
inductive Nests (d : Dialect) : Call → Call → Prop
  | token {inBraces depth operand before}
      (here : tokensEnd inBraces depth before.skipBlank = .ok false) :
      Nests d (.tokens inBraces depth operand before) (.token operand before.skipBlank)
  | template {operand c} (here : c.rest.head? = some '\x60') :
      Nests d (.token operand c) (.template c c.pos (c.skip 1))
  | element {operand c} (here : startsElement d operand c.rest = true) :
      Nests d (.token operand c) (.element c)
  | substitution {opening partStart c raw} (here : rawTail c.rest = some (raw, true)) :
      Nests d (.template opening partStart c) (.tokens true 0 true (c.past raw))
  | inside {c} : Nests d (.body c) (.tokens true 0 true c)
  | fragment {c inner} (here : tagStart c = .ok (.fragment inner)) :
      Nests d (.element c) (.children none inner)
  | tag {c name named} (here : tagStart c = .ok (.named name named)) :
      Nests d (.element c) (.attributes named)
  | content {c name named attributes inner} (here : tagStart c = .ok (.named name named))
      (tag : Reads d (.attributes named) (attributes, false, inner)) :
      Nests d (.element c) (.children (some name.text) inner)
  | spread {before inner} (here : tagPart before = .ok (.spread inner)) :
      Nests d (.attributes before) (.body inner)
  | value {before c named} (here : tagPart before = .ok (.name c named)) :
      Nests d (.attributes before) (.value named.skipBlank)
  | valueBody {before inner} (here : valueStart before = .ok (.expr inner)) :
      Nests d (.value before) (.body inner)
  | valueElement {before c} (here : valueStart before = .ok (.element c)) :
      Nests d (.value before) (.element c)
  | childBody {parent start inner} (here : childStart parent (textEnd start) = .ok (.expr inner)) :
      Nests d (.children parent start) (.body inner)
  | childElement {parent start inner}
      (here : childStart parent (textEnd start) = .ok (.element inner)) :
      Nests d (.children parent start) (.element inner)

/-- The next round of the loop of a call. -/
inductive Next (d : Dialect) : Call → Call → Prop
  | tokens {inBraces depth operand before shape after}
      (here : tokensEnd inBraces depth before.skipBlank = .ok false)
      (first : Reads d (.token operand before.skipBlank) (shape, after)) :
      Next d (.tokens inBraces depth operand before)
        (.tokens inBraces ((tokenBetween shape before.skipBlank after).depthAfter depth)
          ((tokenBetween shape before.skipBlank after).operandAfter operand) after)
  | template {opening partStart c raw tokens close} (here : rawTail c.rest = some (raw, true))
      (inside : Reads d (.tokens true 0 true (c.past raw)) (tokens, close)) :
      Next d (.template opening partStart c) (.template opening close.pos (close.skip 1))
  | spread {before inner body after} (here : tagPart before = .ok (.spread inner))
      (inside : Reads d (.body inner) (body, after)) :
      Next d (.attributes before) (.attributes after)
  | name {before c named value after} (here : tagPart before = .ok (.name c named))
      (inside : Reads d (.value named.skipBlank) (value, after)) :
      Next d (.attributes before) (.attributes after)
  | childBody {parent start inner body after}
      (here : childStart parent (textEnd start) = .ok (.expr inner))
      (inside : Reads d (.body inner) (body, after)) :
      Next d (.children parent start) (.children parent after)
  | childElement {parent start inner element after}
      (here : childStart parent (textEnd start) = .ok (.element inner))
      (inside : Reads d (.element inner) (element, after)) :
      Next d (.children parent start) (.children parent after)

def Calls (d : Dialect) (call call' : Call) : Prop := Nests d call call' ∨ Next d call call'

/-- The calls that a scan makes. -/
def Reaches (d : Dialect) : Call → Call → Prop := Relation.ReflTransGen (Calls d)

/-- The attributes of a tag at a backslash. -/
def Call.Stalls : Call → Prop
  | .attributes before => before.skipBlank.rest.head? = some '\\'
  | _ => False

/-! ## Calls get smaller -/

/-- At one cursor, the calls that can be nested are ordered. -/
def Call.rank : Call → Nat
  | .body _ => 3
  | .tokens .. => 2
  | .token .. | .attributes _ | .children .. => 1
  | .template .. | .element _ | .value _ => 0

def Call.size (call : Call) : Nat := 4 * call.cursor.rest.length + call.rank

theorem Nests.leads {d : Dialect} {call call' : Call} (nests : Nests d call call') :
    call.cursor.Leads call'.cursor ∧
      (call'.rank < call.rank ∨ call.cursor.Passes call'.cursor) := by
  cases nests with
  | token here => exact ⟨Cursor.leads_skipBlank _, .inl (by simp [Call.rank])⟩
  | template here => exact ⟨Cursor.leads_skip _ _, .inl (by simp [Call.rank])⟩
  | element here => exact ⟨.refl _, .inl (by simp [Call.rank])⟩
  | substitution here => exact ⟨Cursor.leads_past _ _, .inr (rawTail_passes here)⟩
  | inside => exact ⟨.refl _, .inl (by simp [Call.rank])⟩
  | fragment here => exact ⟨(tagStart_passes here).leads, .inr (tagStart_passes here)⟩
  | tag here => exact ⟨(tagStart_passes here).leads, .inr (tagStart_passes here)⟩
  | content here tag =>
      have behind := (tagStart_passes here).trans_leads tag.leads
      exact ⟨behind.leads, .inr behind⟩
  | spread here => exact ⟨(tagPart_passes here).leads, .inr (tagPart_passes here)⟩
  | value here =>
      obtain ⟨rfl, rfl, _⟩ := tagPart_passes here
      exact ⟨(Cursor.leads_skipBlank _).trans
        ((Cursor.leads_skipWhile _ _).trans (Cursor.leads_skipBlank _)), .inl (by simp [Call.rank])⟩
  | valueBody here => exact ⟨(valueStart_passes here).leads, .inr (valueStart_passes here)⟩
  | valueElement here => exact ⟨(valueStart_passes here).leads, .inr (valueStart_passes here)⟩
  | childBody here =>
      have behind := (Cursor.leads_textEnd _).trans_passes (childStart_passes here)
      exact ⟨behind.leads, .inr behind⟩
  | childElement here =>
      have same := childStart_passes here
      rw [Call.cursor, Call.cursor, same]
      exact ⟨Cursor.leads_textEnd _, .inl (by simp [Call.rank])⟩

theorem Nests.size_lt {d : Dialect} {call call' : Call} (nests : Nests d call call') :
    call'.size < call.size := by
  obtain ⟨leads, smaller | passes⟩ := nests.leads
  · have := leads.length_le
    simp only [Call.size]
    omega
  · have := passes.2
    have : call'.rank ≤ 3 := by cases call' <;> simp [Call.rank]
    simp only [Call.size]
    omega

theorem Next.leads {d : Dialect} {call call' : Call} (next : Next d call call') :
    call.cursor.Leads call'.cursor := by
  cases next with
  | tokens here first => exact (Cursor.leads_skipBlank _).trans first.leads
  | template here inside =>
      exact (rawTail_passes here).leads.trans (inside.leads.trans (Cursor.leads_skip _ _))
  | spread here inside => exact (tagPart_passes here).leads.trans inside.leads
  | name here inside =>
      obtain ⟨rfl, rfl, _⟩ := tagPart_passes here
      exact (Cursor.leads_skipBlank _).trans ((Cursor.leads_skipWhile _ _).trans
        ((Cursor.leads_skipBlank _).trans inside.leads))
  | childBody here inside =>
      exact (Cursor.leads_textEnd _).trans ((childStart_passes here).leads.trans inside.leads)
  | childElement here inside =>
      have same := childStart_passes here
      rw [same] at inside
      exact (Cursor.leads_textEnd _).trans inside.leads

/-- Every loop moves on, except the one over attributes at a backslash. -/
theorem Next.passes {d : Dialect} {call call' : Call} (next : Next d call call')
    (moves : ¬ call.Stalls) : call.cursor.Passes call'.cursor := by
  cases next with
  | tokens here first => exact (Cursor.leads_skipBlank _).trans_passes first.token_passes
  | template here inside =>
      exact (rawTail_passes here).trans_leads (inside.leads.trans (Cursor.leads_skip _ _))
  | spread here inside => exact (tagPart_passes here).trans_leads inside.leads
  | name here inside =>
      obtain ⟨rfl, rfl, x, s, ahead, starts⟩ := tagPart_passes here
      have noEscape : x ≠ '\\' := by
        rintro rfl
        exact moves (by rw [Call.Stalls, ahead, List.head?_cons])
      have named := Cursor.passes_skipWhile ahead
        (isAttributeNamePart_of_isWordStart starts noEscape)
      exact ((Cursor.leads_skipBlank _).trans_passes named).trans_leads
        ((Cursor.leads_skipBlank _).trans inside.leads)
  | childBody here inside =>
      exact ((Cursor.leads_textEnd _).trans_passes (childStart_passes here)).trans_leads
        inside.leads
  | childElement here inside =>
      have same := childStart_passes here
      rw [same] at inside
      exact (Cursor.leads_textEnd _).trans_passes inside.element_passes

theorem Next.rank_eq {d : Dialect} {call call' : Call} (next : Next d call call') :
    call'.rank = call.rank := by
  cases next <;> rfl

theorem Next.size_lt {d : Dialect} {call call' : Call} (next : Next d call call')
    (moves : ¬ call.Stalls) : call'.size < call.size := by
  have := (next.passes moves).2
  have := next.rank_eq
  simp only [Call.size]
  omega

/-! ## Allowances -/

section Exhaustion

variable {α β : Type} {x : Except SyntaxError α} {f : α → Except SyntaxError β} {a : α}

theorem not_exhausted_ok : ¬ Exhausted (.ok a : Except SyntaxError α) := by
  rintro ⟨n, refused⟩
  exact absurd refused (by simp)

theorem not_exhausted_fail (c : Cursor) {cause : SyntaxError.Cause} (other : cause ≠ .tooDeep) :
    ¬ Exhausted (c.fail cause : Except SyntaxError α) := by
  rintro ⟨n, refused⟩
  simp only [Cursor.fail, Except.error.injEq, SyntaxError.mk.injEq] at refused
  exact other refused.1

theorem Exhausted.bind (exhausted : Exhausted x) : Exhausted (x >>= f) := by
  obtain ⟨n, rfl⟩ := exhausted
  exact ⟨n, rfl⟩

theorem Settles.exhausted_bind (first : Settles x a) (second : Exhausted (f a)) :
    Exhausted (x >>= f) := by
  rcases first with exhausted | answer
  · exact exhausted.bind
  · rw [answer]
    exact second

theorem exhausted_of_bind (exhausted : Exhausted (x >>= f)) :
    Exhausted x ∨ ∃ a, x = .ok a ∧ Exhausted (f a) := by
  obtain ⟨n, refused⟩ := exhausted
  rcases error_of_bind refused with here | ⟨a, success, behind⟩
  · exact .inl ⟨n, here⟩
  · exact .inr ⟨a, success, n, behind⟩

/-- A step that never lacks an allowance is not where a scan lacks it. -/
theorem exhausted_behind (never : ¬ Exhausted x) (exhausted : Exhausted (x >>= f)) :
    ∃ a, x = .ok a ∧ Exhausted (f a) :=
  (exhausted_of_bind exhausted).resolve_left never

end Exhaustion

theorem not_exhausted_tokensEnd (inBraces : Bool) (depth : Nat) (c : Cursor) :
    ¬ Exhausted (tokensEnd inBraces depth c) := by
  unfold tokensEnd
  split
  · split
    · exact not_exhausted_fail _ (by decide)
    · exact not_exhausted_ok
  · exact not_exhausted_ok

theorem not_exhausted_tagStart (c : Cursor) : ¬ Exhausted (tagStart c) := by
  unfold tagStart
  simp only
  split
  · exact not_exhausted_ok
  · split
    · exact not_exhausted_fail _ (by decide)
    · exact not_exhausted_ok

theorem not_exhausted_tagPart (c : Cursor) : ¬ Exhausted (tagPart c) := by
  unfold tagPart
  simp only
  split
  · exact not_exhausted_fail _ (by decide)
  · repeat' split
    all_goals first | exact not_exhausted_ok | exact not_exhausted_fail _ (by simp)

theorem not_exhausted_valueStart (c : Cursor) : ¬ Exhausted (valueStart c) := by
  unfold valueStart
  simp only
  repeat' split
  all_goals first | exact not_exhausted_ok | exact not_exhausted_fail _ (by simp)

theorem not_exhausted_childStart (parent : Option String) (c : Cursor) :
    ¬ Exhausted (childStart parent c) := by
  unfold childStart
  simp only
  repeat' split
  all_goals first | exact not_exhausted_ok | exact not_exhausted_fail _ (by simp)

theorem not_exhausted_lexLeaf (operand : Bool) (c : Cursor) : ¬ Exhausted (lexLeaf operand c) := by
  unfold lexLeaf
  repeat' split
  all_goals first | exact not_exhausted_ok | exact not_exhausted_fail _ (by simp)

/-- A call lacks the allowance only because a call that it makes does. -/
theorem exhausted_calls {d : Dialect} {call : Call} {fuel : Nat}
    (exhausted : Exhausted (call.run d (fuel + 1))) :
    ∃ call', Calls d call call' ∧ Exhausted (call'.run d fuel) := by
  cases call with
  | tokens inBraces depth operand before =>
      rw [Call.run, lexTokens] at exhausted
      obtain ⟨ended, here, exhausted⟩ := exhausted_behind (not_exhausted_tokensEnd _ _ _) exhausted
      cases ended with
      | true => exact absurd exhausted not_exhausted_ok
      | false =>
          rcases exhausted_of_bind exhausted with first | ⟨⟨shape, after⟩, first, exhausted⟩
          · exact ⟨.token .., .inl (.token here), first⟩
          rcases exhausted_of_bind exhausted with others | ⟨⟨rest, final⟩, _, exhausted⟩
          · exact ⟨.tokens .., .inr (.tokens here (Call.reads_of_run (.token ..) _ first)), others⟩
          exact absurd exhausted not_exhausted_ok
  | token operand c =>
      rw [Call.run, lexToken] at exhausted
      split at exhausted
      case isTrue here =>
        rcases exhausted_of_bind exhausted with inside | ⟨⟨parts, after⟩, _, exhausted⟩
        · exact ⟨.template .., .inl (.template (by simpa using here)), inside⟩
        exact absurd exhausted not_exhausted_ok
      case isFalse =>
        split at exhausted
        case isTrue here =>
          rcases exhausted_of_bind exhausted with inside | ⟨⟨element, after⟩, _, exhausted⟩
          · exact ⟨.element _, .inl (.element here), inside⟩
          exact absurd exhausted not_exhausted_ok
        case isFalse => exact absurd exhausted (not_exhausted_lexLeaf _ _)
  | template opening partStart c =>
      rw [Call.run, lexTemplate] at exhausted
      split at exhausted
      case h_1 => exact absurd exhausted (not_exhausted_fail _ (by decide))
      case h_2 => exact absurd exhausted not_exhausted_ok
      case h_3 raw here =>
        rcases exhausted_of_bind exhausted with inside | ⟨⟨tokens, close⟩, inside, exhausted⟩
        · exact ⟨.tokens .., .inl (.substitution here), inside⟩
        rcases exhausted_of_bind exhausted with others | ⟨⟨parts, after⟩, _, exhausted⟩
        · exact ⟨.template .., .inr (.template here (Call.reads_of_run (.tokens ..) _ inside)), others⟩
        exact absurd exhausted not_exhausted_ok
  | body c =>
      rw [Call.run, lexBody] at exhausted
      rcases exhausted_of_bind exhausted with inside | ⟨⟨tokens, close⟩, _, exhausted⟩
      · exact ⟨.tokens .., .inl .inside, inside⟩
      exact absurd exhausted not_exhausted_ok
  | element c =>
      rw [Call.run, lexElement] at exhausted
      obtain ⟨start, here, exhausted⟩ := exhausted_behind (not_exhausted_tagStart _) exhausted
      cases start with
      | fragment inner =>
          rcases exhausted_of_bind exhausted with inside | ⟨⟨children, after⟩, _, exhausted⟩
          · exact ⟨.children .., .inl (.fragment here), inside⟩
          exact absurd exhausted not_exhausted_ok
      | named name named =>
          rcases exhausted_of_bind exhausted with tag | ⟨⟨attributes, closed, after⟩, tag, exhausted⟩
          · exact ⟨.attributes _, .inl (.tag here), tag⟩
          cases closed with
          | true => exact absurd exhausted not_exhausted_ok
          | false =>
              rcases exhausted_of_bind exhausted with inside | ⟨⟨children, after⟩, _, exhausted⟩
              · exact ⟨.children .., .inl (.content here (Call.reads_of_run (.attributes _) _ tag)),
                  inside⟩
              exact absurd exhausted not_exhausted_ok
  | attributes before =>
      rw [Call.run, lexAttributes] at exhausted
      obtain ⟨part, here, exhausted⟩ := exhausted_behind (not_exhausted_tagPart _) exhausted
      cases part with
      | stop closed after => exact absurd exhausted not_exhausted_ok
      | spread inner =>
          rcases exhausted_of_bind exhausted with inside | ⟨⟨body, after⟩, inside, exhausted⟩
          · exact ⟨.body _, .inl (.spread here), inside⟩
          rcases exhausted_of_bind exhausted with others | ⟨⟨rest, closed, final⟩, _, exhausted⟩
          · exact ⟨.attributes _, .inr (.spread here (Call.reads_of_run (.body _) _ inside)), others⟩
          exact absurd exhausted not_exhausted_ok
      | name c named =>
          rcases exhausted_of_bind exhausted with inside | ⟨⟨value, after⟩, inside, exhausted⟩
          · exact ⟨.value _, .inl (.value here), inside⟩
          rcases exhausted_of_bind exhausted with others | ⟨⟨rest, closed, final⟩, _, exhausted⟩
          · exact ⟨.attributes _, .inr (.name here (Call.reads_of_run (.value _) _ inside)), others⟩
          exact absurd exhausted not_exhausted_ok
  | value before =>
      rw [Call.run, lexAttributeValue] at exhausted
      obtain ⟨start, here, exhausted⟩ := exhausted_behind (not_exhausted_valueStart _) exhausted
      cases start with
      | bare after => exact absurd exhausted not_exhausted_ok
      | str value start after => exact absurd exhausted not_exhausted_ok
      | expr inner =>
          rcases exhausted_of_bind exhausted with inside | ⟨⟨body, after⟩, _, exhausted⟩
          · exact ⟨.body _, .inl (.valueBody here), inside⟩
          exact absurd exhausted not_exhausted_ok
      | element c =>
          rcases exhausted_of_bind exhausted with inside | ⟨⟨element, after⟩, _, exhausted⟩
          · exact ⟨.element _, .inl (.valueElement here), inside⟩
          exact absurd exhausted not_exhausted_ok
  | children parent start =>
      rw [Call.run, lexChildren] at exhausted
      obtain ⟨child, here, exhausted⟩ := exhausted_behind (not_exhausted_childStart _ _) exhausted
      cases child with
      | expr inner =>
          rcases exhausted_of_bind exhausted with inside | ⟨⟨body, after⟩, inside, exhausted⟩
          · exact ⟨.body _, .inl (.childBody here), inside⟩
          rcases exhausted_of_bind exhausted with others | ⟨⟨rest, final⟩, _, exhausted⟩
          · exact ⟨.children .., .inr (.childBody here (Call.reads_of_run (.body _) _ inside)), others⟩
          exact absurd exhausted not_exhausted_ok
      | element inner =>
          rcases exhausted_of_bind exhausted with inside | ⟨⟨element, after⟩, inside, exhausted⟩
          · exact ⟨.element _, .inl (.childElement here), inside⟩
          rcases exhausted_of_bind exhausted with others | ⟨⟨rest, final⟩, _, exhausted⟩
          · exact ⟨.children .., .inr (.childElement here (Call.reads_of_run (.element _) _ inside)),
              others⟩
          exact absurd exhausted not_exhausted_ok
      | stop after => exact absurd exhausted not_exhausted_ok

theorem Nests.exhausted {d : Dialect} {call call' : Call} (nests : Nests d call call') {fuel : Nat}
    (exhausted : Exhausted (call'.run d fuel)) : Exhausted (call.run d (fuel + 1)) := by
  cases nests with
  | token here =>
      rw [Call.run, lexTokens, here]
      exact exhausted.bind
  | template here =>
      rw [Call.run, lexToken, here]
      exact exhausted.bind
  | element here =>
      rw [Call.run, lexToken, head?_of_startsElement here, if_neg (by decide), if_pos here]
      exact exhausted.bind
  | substitution here =>
      simp only [Call.run, lexTemplate, here]
      exact exhausted.bind
  | inside => exact exhausted.bind
  | fragment here | tag here =>
      rw [Call.run, lexElement, here]
      exact exhausted.bind
  | content here tag =>
      rw [Call.run, lexElement, here]
      exact (tag.run fuel).exhausted_bind exhausted.bind
  | spread here | value here =>
      rw [Call.run, lexAttributes, here]
      exact exhausted.bind
  | valueBody here | valueElement here =>
      rw [Call.run, lexAttributeValue, here]
      exact exhausted.bind
  | childBody here | childElement here =>
      simp only [Call.run, lexChildren, here]
      exact exhausted.bind

theorem Next.exhausted {d : Dialect} {call call' : Call} (next : Next d call call') {fuel : Nat}
    (exhausted : Exhausted (call'.run d fuel)) : Exhausted (call.run d (fuel + 1)) := by
  cases next with
  | tokens here first =>
      rw [Call.run, lexTokens, here]
      exact (first.run fuel).exhausted_bind exhausted.bind
  | template here inside =>
      simp only [Call.run, lexTemplate, here]
      exact (inside.run fuel).exhausted_bind exhausted.bind
  | spread here inside | name here inside =>
      rw [Call.run, lexAttributes, here]
      exact (inside.run fuel).exhausted_bind exhausted.bind
  | childBody here inside | childElement here inside =>
      simp only [Call.run, lexChildren, here]
      exact (inside.run fuel).exhausted_bind exhausted.bind

/-! ## Stalled calls -/

/-- A call that reaches one that never has enough never has enough itself. -/
theorem Reaches.exhausted {d : Dialect} {call call' : Call} (reaches : Reaches d call call')
    (exhausted : ∀ fuel, Exhausted (call'.run d fuel)) : ∀ fuel, Exhausted (call.run d fuel) := by
  induction reaches using Relation.ReflTransGen.head_induction_on with
  | refl => exact exhausted
  | head step _ ih =>
      intro fuel
      cases fuel with
      | zero => exact Call.run_zero ..
      | succ fuel =>
          rcases step with nests | next
          · exact nests.exhausted (ih fuel)
          · exact next.exhausted (ih fuel)

/-- At a backslash an attribute has an empty name and no value. -/
theorem Call.Stalls.next {before : Cursor} (stalls : (Call.attributes before).Stalls) :
    tagPart before = .ok (.name before.skipBlank before.skipBlank) ∧
      valueStart before.skipBlank = .ok (.bare before.skipBlank) := by
  obtain ⟨s, ahead⟩ := List.head?_eq_some_iff.mp stalls
  have unmoved : before.skipBlank.skipWhile isAttributeNamePart = before.skipBlank :=
    Cursor.skipWhile_of_stop ahead isAttributeNamePart_backslash
  have starts : isWordStart '\\' = true := by decide
  constructor
  · simp [tagPart, ahead, starts, unmoved]
  · simp [valueStart, ahead]

theorem Call.Stalls.exhausted {d : Dialect} {call : Call} (stalls : call.Stalls) (fuel : Nat) :
    Exhausted (call.run d fuel) := by
  cases call with
  | attributes before =>
      induction fuel generalizing before with
      | zero => exact Call.run_zero ..
      | succ fuel ih =>
          obtain ⟨part, value⟩ := stalls.next
          have again : (Call.attributes before.skipBlank).Stalls := by
            rw [Call.Stalls, Cursor.skipBlank_skipBlank]
            exact stalls
          have bare : Reads d (.value before.skipBlank.skipBlank) (.bare, before.skipBlank) := by
            rw [Cursor.skipBlank_skipBlank]
            exact .valueBare value
          exact (Next.name part bare).exhausted (ih before.skipBlank again)
  | _ => exact absurd stalls id

/-- Where no call stalls, an allowance above the size of a call is enough. -/
theorem Call.not_exhausted {d : Dialect} {fuel : Nat} : ∀ {call : Call},
    (∀ call', Reaches d call call' → ¬ call'.Stalls) → call.size < fuel →
      ¬ Exhausted (call.run d fuel) := by
  induction fuel with
  | zero =>
      intro call _ enough
      exact absurd enough (Nat.not_lt_zero _)
  | succ fuel ih =>
      intro call moves enough exhausted
      obtain ⟨call', step, exhausted⟩ := exhausted_calls exhausted
      have smaller : call'.size < call.size := by
        rcases step with nests | next
        · exact nests.size_lt
        · exact next.size_lt (moves call .refl)
      refine ih ?_ (by omega) exhausted
      intro call'' reaches
      exact moves call'' (.head step reaches)

/-! ## Whole texts -/

/-- The call that reads the tokens of a text. -/
def Call.ofSource (source : String) : Call := .tokens false 0 true (firstLine source).2

theorem tokenizeWithin_exhausted_iff (fuel : Nat) (d : Dialect) (source : String) :
    Exhausted (tokenizeWithin fuel d source) ↔ Exhausted ((Call.ofSource source).run d fuel) := by
  constructor
  · intro exhausted
    rcases exhausted_of_bind exhausted with inside | ⟨_, _, rest⟩
    · exact inside
    · exact absurd rest not_exhausted_ok
  · exact Exhausted.bind

theorem Scan.answerFrom_of_answer {α : Type} {scan : Scan α} {fuel : Nat}
    (answers : ¬ Exhausted (scan fuel)) : scan.answerFrom fuel = some (scan fuel) := by
  rw [Scan.answerFrom]
  split
  case h_1 offset exhausted => exact absurd ⟨offset, exhausted⟩ answers
  case h_2 => rfl

theorem Scan.answerFrom_answers {α : Type} {scan : Scan α} {fuel : Nat}
    {r : Except SyntaxError α} (answer : scan.answerFrom fuel = some r) :
    ∃ n, scan n = r ∧ ¬ Exhausted r := by
  refine Scan.answerFrom.partial_correctness scan (fun _ r => ∃ n, scan n = r ∧ ¬ Exhausted r) ?_ fuel r
    answer
  intro search correct n r found
  split at found
  case h_1 => exact correct _ _ found
  case h_2 here =>
    cases found
    refine ⟨n, rfl, ?_⟩
    rintro ⟨offset, exhausted⟩
    exact here offset exhausted

theorem Scan.answerFrom_eq_none {α : Type} {scan : Scan α} (fuel : Nat)
    (exhausted : ∀ n, Exhausted (scan n)) : scan.answerFrom fuel = none := by
  cases found : scan.answerFrom fuel with
  | none => rfl
  | some r =>
      obtain ⟨n, rfl, answers⟩ := answerFrom_answers found
      exact absurd (exhausted n) answers

theorem leads_firstLine (source : String) :
    (⟨0, source.toList⟩ : Cursor).Leads (firstLine source).2 := by
  unfold firstLine
  simp only
  split
  · exact Cursor.leads_skipWhile _ _
  · exact .refl _

theorem Call.ofSource_size (source : String) :
    (Call.ofSource source).size < allowance source.toList := by
  have shorter : (firstLine source).2.rest.length ≤ source.toList.length :=
    (leads_firstLine source).length_le
  simp only [Call.ofSource, Call.size, Call.cursor, Call.rank, allowance]
  omega

/-- Without a stalled call the first allowance is enough. -/
theorem tokenized_of_moves {d : Dialect} {source : String}
    (moves : ∀ call, Reaches d (.ofSource source) call → ¬ call.Stalls) :
    tokenized d source = some (tokenizeWithin (allowance source.toList) d source) := by
  refine Scan.answerFrom_of_answer ?_
  rw [tokenizeWithin_exhausted_iff]
  exact Call.not_exhausted moves (Call.ofSource_size source)

theorem tokenized_of_stalls {d : Dialect} {source : String} {call : Call}
    (reaches : Reaches d (.ofSource source) call) (stalls : call.Stalls) :
    tokenized d source = none := by
  refine Scan.answerFrom_eq_none _ ?_
  intro fuel
  rw [tokenizeWithin_exhausted_iff]
  exact reaches.exhausted stalls.exhausted fuel

theorem Reaches.leads {d : Dialect} {call call' : Call} (reaches : Reaches d call call') :
    call.cursor.Leads call'.cursor := by
  induction reaches with
  | refl => exact .refl _
  | tail _ step ih =>
      rcases step with nests | next
      · exact ih.trans nests.leads.1
      · exact ih.trans next.leads

theorem backslash_mem_of_stalls {d : Dialect} {source : String} {call : Call}
    (reaches : Reaches d (.ofSource source) call) (stalls : call.Stalls) :
    '\\' ∈ source.toList := by
  cases call with
  | attributes before =>
      obtain ⟨s, ahead⟩ := List.head?_eq_some_iff.mp stalls
      have leads : (⟨0, source.toList⟩ : Cursor).Leads before.skipBlank :=
        (leads_firstLine source).trans (reaches.leads.trans (Cursor.leads_skipBlank _))
      obtain ⟨taken, rest, _⟩ := leads
      rw [show source.toList = taken ++ before.skipBlank.rest from rest, ahead]
      exact List.mem_append_right _ (List.mem_cons_self ..)
  | _ => exact absurd stalls id

/-- A text has the tokens that are read of it. -/
theorem tokenize_of_reads {d : Dialect} {source : String} {ts : List Token} {final : Cursor}
    (reads : Reads d (.ofSource source) (ts, final)) :
    tokenize d source = .ok ((firstLine source).1 ++ ts) := by
  obtain ⟨least, answers⟩ := reads.answers
  have moves : ∀ call, Reaches d (.ofSource source) call → ¬ call.Stalls := by
    intro call reaches stalls
    have exhausted := reaches.exhausted stalls.exhausted least
    rw [answers least (Nat.le_refl _)] at exhausted
    exact not_exhausted_ok exhausted
  have answer : (Call.ofSource source).run d (allowance source.toList) = .ok (ts, final) :=
    (reads.run _).resolve_left (Call.not_exhausted moves (Call.ofSource_size source))
  rw [tokenize, tokenized_of_moves moves, Option.getD_some]
  exact bind_of_ok answer

/-- The tokens within the first allowance are those of the text. -/
theorem tokenize_of_ok {d : Dialect} {source : String} {ts : List Token}
    (scanned : tokenizeWithin (allowance source.toList) d source = .ok ts) :
    tokenize d source = .ok ts := by
  have answers : ¬ Exhausted (tokenizeWithin (allowance source.toList) d source) := by
    rw [scanned]
    exact not_exhausted_ok
  have answer : tokenized d source = some (tokenizeWithin (allowance source.toList) d source) :=
    Scan.answerFrom_of_answer answers
  rw [tokenize, answer, scanned]
  rfl

/-- The first allowance answers for a text without a backslash. -/
theorem tokenize_of_not_mem {d : Dialect} {source : String} (absent : '\\' ∉ source.toList) :
    tokenize d source = tokenizeWithin (allowance source.toList) d source := by
  rw [tokenize, tokenized_of_moves fun call reaches stalls =>
    absent (backslash_mem_of_stalls reaches stalls)]
  rfl

theorem tokenize_of_read {α : Type} {d : Dialect} {source : String} {f : List Token → Option α}
    {a : α} (read : (tokenizeWithin (allowance source.toList) d source).toOption.bind f = some a) :
    ∃ ts, tokenize d source = .ok ts ∧ f ts = some a := by
  obtain ⟨ts, scanned, read⟩ := Option.bind_eq_some_iff.mp read
  exact ⟨ts, tokenize_of_ok (ok_of_toOption scanned), read⟩

/-- A call that reads no part of an element. -/
def Call.IsPlain : Call → Prop
  | .tokens .. | .token .. | .template .. | .body _ => True
  | .element _ | .attributes _ | .value _ | .children .. => False

theorem Reaches.isPlain {d : Dialect} {call call' : Call} (reaches : Reaches d call call')
    (plain : d.jsx = false) (start : call.IsPlain) : call'.IsPlain := by
  induction reaches with
  | refl => exact start
  | tail _ step ih =>
      rcases step with nests | next
      · cases nests with
        | element here =>
            unfold startsElement at here
            split at here <;> simp [plain] at here
        | _ => first | exact trivial | exact ih
      · cases next <;> exact ih

/-- Every lexeme and every round of a loop takes a byte or more, except the round over attributes at
a backslash.  A text whose scan reaches no such round has its tokens or its refusal, for which no
more calls are nested than `allowance` says; a text whose scan reaches one has neither.  That takes
an element and a backslash. -/
theorem tokenized_ends (d : Dialect) (source : String) :
    (∀ operand c shape after, lexLeaf operand c = .ok (shape, after) → c.pos < after.pos) ∧
    (∀ call call', Next d call call' → ¬ call.Stalls → call.cursor.pos < call'.cursor.pos) ∧
    ((∀ call, Reaches d (.ofSource source) call → ¬ call.Stalls) →
      tokenized d source = some (tokenizeWithin (allowance source.toList) d source)) ∧
    (tokenized d source = none ↔ ∃ call, Reaches d (.ofSource source) call ∧ call.Stalls) ∧
    (tokenized d source = none → d.jsx = true ∧ '\\' ∈ source.toList) := by
  have endless_iff :
      tokenized d source = none ↔ ∃ call, Reaches d (.ofSource source) call ∧ call.Stalls := by
    constructor
    · intro endless
      refine Classical.byContradiction fun none => ?_
      have moves : ∀ call, Reaches d (.ofSource source) call → ¬ call.Stalls :=
        fun call reaches stalls => none ⟨call, reaches, stalls⟩
      rw [tokenized_of_moves moves] at endless
      exact absurd endless (by simp)
    · rintro ⟨call, reaches, stalls⟩
      exact tokenized_of_stalls reaches stalls
  refine ⟨?_, ?_, tokenized_of_moves, endless_iff, ?_⟩
  · intro operand c shape after here
    exact (lexLeaf_passes here).pos_lt
  · intro call call' next moves
    exact (next.passes moves).pos_lt
  · intro endless
    obtain ⟨call, reaches, stalls⟩ := endless_iff.mp endless
    refine ⟨?_, backslash_mem_of_stalls reaches stalls⟩
    cases readsElements : d.jsx with
    | true => rfl
    | false =>
        have plain := reaches.isPlain readsElements trivial
        cases call <;> first | exact absurd stalls id | exact absurd plain id

/-- The text of an open tag with a lone backslash has neither tokens nor a refusal. -/
theorem tokenized_attribute_backslash : tokenized ⟨true, false⟩ "<a \\>" = none := by
  have text : "<a \\>".toList = ['<', 'a', ' ', '\\', '>'] := by decide
  have start : Call.ofSource "<a \\>" = .tokens false 0 true ⟨0, ['<', 'a', ' ', '\\', '>']⟩ := by
    rw [Call.ofSource, firstLine, text]
    rfl
  have token : Calls ⟨true, false⟩ (.ofSource "<a \\>")
      (.token true ⟨0, ['<', 'a', ' ', '\\', '>']⟩) := by
    rw [start]
    exact .inl (.token rfl)
  have element : Calls ⟨true, false⟩ (.token true ⟨0, ['<', 'a', ' ', '\\', '>']⟩)
      (.element ⟨0, ['<', 'a', ' ', '\\', '>']⟩) := .inl (.element rfl)
  have name : tagStart ⟨0, ['<', 'a', ' ', '\\', '>']⟩ =
      .ok (.named ⟨"a", 1⟩ ⟨2, [' ', '\\', '>']⟩) := rfl
  have stalls : (Call.attributes ⟨2, [' ', '\\', '>']⟩).Stalls := rfl
  exact tokenized_of_stalls (((Relation.ReflTransGen.single token).tail element).tail
    (.inl (.tag name))) stalls

end JsxPreview.Source
