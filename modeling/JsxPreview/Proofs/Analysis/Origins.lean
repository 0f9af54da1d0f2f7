import JsxPreview.Proofs.Analysis.Stretches
import JsxPreview.Proofs.Scanner.Literals

/-! # Rewrites nest

Every rewrite of an analysis inserts something, or replaces a run of tokens of one list: of the top
level, or of a container at any depth (`analyze_origins`).  Runs of different lists lie apart or one in
a token of the other, and runs of one list do not cross (`Origins.nested`). -/
set_option autoImplicit false
namespace JsxPreview.Source

open JsxPreview.Text

/-! ## Lists at a depth -/

/-- Tokens, or those of a container at any depth, of which something holds. -/
inductive AtLevel (holds : List Token → Prop) : List Token → Prop
  | here {ts : List Token} (here : holds ts) : AtLevel holds ts
  | inside {ts : List Token} {t : Token} {b : Body} (member : t ∈ ts)
      (container : b ∈ t.shape.bodies) (within : AtLevel holds b.tokens) : AtLevel holds ts

namespace TokenRow.Run

variable {source : List Char} {ts : List Token} {low high first last first' last' start stop start'
  stop' : Nat}

theorem first_mem (run : (ofTokens source ts).Run first last start stop) :
    ∃ t ∈ ts, t.start = start := by
  obtain ⟨t, found⟩ := get?_of_lt (Nat.lt_of_le_of_lt run.le run.inRow)
  exact ⟨t, mem_of_get? found, (start_of_get? found).symm.trans run.starts⟩

theorem last_mem (run : (ofTokens source ts).Run first last start stop) :
    ∃ t ∈ ts, t.stop = stop := by
  obtain ⟨t, found⟩ := get?_of_lt run.inRow
  exact ⟨t, mem_of_get? found, (stop_of_get? found).symm.trans run.stops⟩

theorem start_lt (run : (ofTokens source ts).Run first last start stop)
    (spanned : Spanned low high ts) : start < stop := by
  have grows := TokenRow.grows spanned run.inRow
  rw [← run.starts, ← run.stops]
  rcases Nat.eq_or_lt_of_le run.le with same | less
  · rw [same]
    exact grows
  · have := stop_le_start spanned less run.inRow
    have := TokenRow.grows spanned (Nat.lt_trans less run.inRow)
    omega

theorem within (run : (ofTokens source ts).Run first last start stop)
    (spanned : Spanned low high ts) : low ≤ start ∧ start < stop ∧ stop ≤ high := by
  obtain ⟨t, among, begins⟩ := run.first_mem
  obtain ⟨u, among', ends⟩ := run.last_mem
  have grows := run.start_lt spanned
  obtain ⟨follow, _, _, _, _⟩ := spanned
  rw [← begins, ← ends] at *
  exact ⟨(follow.of_mem among).1, grows, (follow.of_mem among').2.2⟩

/-- Runs whose ends are in the order of bytes are so in the row. -/
theorem first_lt (run : (ofTokens source ts).Run first last start stop)
    (run' : (ofTokens source ts).Run first' last' start' stop') (spanned : Spanned low high ts)
    (behind : start < start') : first < first' := by
  rw [← run.starts, ← run'.starts] at behind
  refine Nat.lt_of_not_le fun le => ?_
  rcases Nat.eq_or_lt_of_le le with rfl | less
  · omega
  · have inRow := Nat.lt_of_le_of_lt run.le run.inRow
    have := stop_le_start spanned less inRow
    have := TokenRow.grows spanned (Nat.lt_trans less inRow)
    omega

theorem first_le_last (run : (ofTokens source ts).Run first last start stop)
    (run' : (ofTokens source ts).Run first' last' start' stop') (spanned : Spanned low high ts)
    (before : start' < stop) : first' ≤ last := by
  rw [← run.stops, ← run'.starts] at before
  refine Nat.le_of_not_lt fun less => ?_
  have := stop_le_start spanned less (Nat.lt_of_le_of_lt run'.le run'.inRow)
  omega

theorem stop_le (run : (ofTokens source ts).Run first last start stop)
    (run' : (ofTokens source ts).Run first' last' start' stop') (spanned : Spanned low high ts)
    (le : last' ≤ last) : stop' ≤ stop := by
  rw [← run.stops, ← run'.stops]
  rcases Nat.eq_or_lt_of_le le with rfl | less
  · exact Nat.le_refl _
  · have := stop_le_start spanned less run.inRow
    have := TokenRow.grows spanned run.inRow
    omega

end TokenRow.Run

/-- A statement about lists that makes a run of each. -/
def OfRuns (source : List Char) (start stop : Nat) (holds : List Token → Prop) : Prop :=
  ∀ us, holds us → ∃ first last, (TokenRow.ofTokens source us).Run first last start stop

namespace AtLevel

variable {source : List Char} {ts : List Token} {low high start stop start' stop' : Nat}
  {holds holds' : List Token → Prop}

theorem within (level : AtLevel holds ts) (runs : OfRuns source start stop holds) :
    ∀ {low high : Nat}, Spanned low high ts → low ≤ start ∧ start < stop ∧ stop ≤ high := by
  induction level with
  | here here =>
      intro low high spanned
      obtain ⟨first, last, run⟩ := runs _ here
      exact run.within spanned
  | inside member container _ ih =>
      intro low high spanned
      obtain ⟨begins, grows, ends⟩ := ih (spanned.container member container)
      obtain ⟨follow, _, _, bodies, _⟩ := spanned
      obtain ⟨after, _, before⟩ := (bodies _ member).of_mem container
      obtain ⟨low_le, _, le_high⟩ := follow.of_mem member
      simp only [Body.span, Token.span] at *
      omega

/-- A run in a container lies in the token of the container, behind where it starts. -/
theorem within_token {t : Token} {b : Body} (level : AtLevel holds b.tokens)
    (runs : OfRuns source start stop holds) (spanned : Spanned low high ts) (member : t ∈ ts)
    (container : b ∈ t.shape.bodies) :
    t.start < start ∧ stop ≤ t.stop ∧ b.start ≤ start ∧ stop ≤ b.stop := by
  obtain ⟨begins, _, ends⟩ := level.within runs (spanned.container member container)
  obtain ⟨_, _, _, bodies, _⟩ := spanned
  obtain ⟨after, _, before⟩ := (bodies t member).of_mem container
  simp only [Body.span] at *
  omega

theorem start_mem (level : AtLevel holds ts) (runs : OfRuns source start stop holds) :
    ∃ t : Token, t.Within ts ∧ t.start = start := by
  induction level with
  | here here =>
      obtain ⟨_, _, run⟩ := runs _ here
      obtain ⟨t, among, begins⟩ := run.first_mem
      exact ⟨t, .here among, begins⟩
  | inside member container _ ih =>
      obtain ⟨t, within, begins⟩ := ih
      exact ⟨t, .inside member container within, begins⟩

/-- When a run starts in another one, it ends there as well, or both are runs of one list. -/
theorem meet (level : AtLevel holds ts) (runs : OfRuns source start stop holds)
    (runs' : OfRuns source start' stop' holds') (behind : start < start') (before : start' < stop) :
    ∀ {low high : Nat}, Spanned low high ts → AtLevel holds' ts →
      stop' ≤ stop ∨ ∃ us low high, Spanned low high us ∧ holds us ∧ holds' us := by
  induction level with
  | @here ts here =>
      intro low high spanned level'
      cases level' with
      | here here' => exact .inr ⟨ts, low, high, spanned, here, here'⟩
      | @inside _ t b member container within =>
          obtain ⟨first, last, run⟩ := runs _ here
          obtain ⟨v, among, begins⟩ := run.first_mem
          obtain ⟨w, among', ends⟩ := run.last_mem
          obtain ⟨inFront, inside, _, _⟩ := within.within_token runs' spanned member container
          have grows := (within.within runs' (spanned.container member container)).2.1
          have whole : t.stop ≤ stop := by
            rw [← ends]
            refine spanned.whole_of_mem among' start t (.here member) ?_ (by omega)
            obtain ⟨follow, _, _, _, _⟩ := spanned
            rcases follow.apart among member with rfl | first | first
            · omega
            · simp only [Token.span] at first
              have := (follow.of_mem among).2.1
              simp only [Token.span] at this
              omega
            · simp only [Token.span] at first
              omega
          exact .inl (Nat.le_trans inside whole)
  | @inside ts t b member container within ih =>
      intro low high spanned level'
      obtain ⟨inFront, inside, begins, ends⟩ :=
        within.within_token runs spanned member container
      cases level' with
      | here here' =>
          obtain ⟨first, last, run⟩ := runs' _ here'
          obtain ⟨v, among, begins'⟩ := run.first_mem
          obtain ⟨follow, _, _, _, _⟩ := spanned
          have grows := (follow.of_mem among).2.1
          rcases follow.apart among member with rfl | first | first <;>
            simp only [Token.span] at * <;> omega
      | @inside _ t' b' member' container' within' =>
          obtain ⟨inFront', inside', begins', ends'⟩ :=
            within'.within_token runs' spanned member' container'
          have inner := spanned.container member container
          have grows' := (within'.within runs' (spanned.container member' container')).2.1
          obtain ⟨follow, _, _, bodies, _⟩ := spanned
          rcases follow.apart member member' with rfl | first | first
          · rcases (bodies t member).apart container container' with rfl | first | first
            · exact ih inner within'
            · simp only [Body.span] at first
              omega
            · simp only [Body.span] at first
              omega
          · simp only [Token.span] at first
            omega
          · simp only [Token.span] at first
            omega

end AtLevel

/-! ## Uses -/

/-- A use of a word replaces a run of the tokens where it stands. -/
theorem TokenRow.run_of_usage {source : List Char} {ts front rest : List Token} {t : Token}
    {u : Usage} {start stop : Nat} (split : ts = front ++ t :: rest) (word : t.isWord = true)
    (member : u ∈ t.usage (rest.filter (!·.isComment))) (span : u.span? = some (start, stop)) :
    ∃ first last, (ofTokens source ts).IsUse first last ∧
      (ofTokens source ts).Run first last start stop := by
  let k := (front.filter (!·.isComment)).length
  have noComment : (!t.isComment) = true := by
    obtain ⟨shape, _, _, _⟩ := t
    cases shape <;> first | rfl | exact absurd word (by simp [Token.isWord])
  have kept : (t :: rest).filter (!·.isComment) = t :: rest.filter (!·.isComment) :=
    List.filter_cons_of_pos noComment
  have at_ (j : Nat) : (ofTokens source ts).get? (k + j) =
      (t :: rest.filter (!·.isComment))[j]? := by
    rw [get?_ofTokens, split, List.filter_append, kept,
      List.getElem?_append_right (Nat.le_add_right _ _), Nat.add_sub_cancel_left]
  have zero : (ofTokens source ts).get? k = some t := at_ 0
  unfold Token.usage at member
  split at member
  case h_1 open_ literal close more following =>
    rw [following] at at_
    have one : (ofTokens source ts).get? (k + 1) = some open_ := at_ 1
    have two : (ofTokens source ts).get? (k + 2) = some literal := at_ 2
    have three : (ofTokens source ts).get? (k + 3) = some close := at_ 3
    split at member
    case isTrue here =>
      simp only [Bool.and_eq_true, beq_iff_eq] at here
      obtain ⟨⟨opens, isStr⟩, closes⟩ := here
      have opens' : (ofTokens source ts).text (k + 1) = "(" := (text_of_get? one).trans opens
      have literal' : (ofTokens source ts).isStr (k + 2) = true := by
        rw [TokenRow.isStr, two]
        exact isStr
      split at member
      case isTrue name =>
        cases List.mem_singleton.mp member
        cases span
        exact ⟨k + 2, k + 2, .requireCall ((text_of_get? zero).trans (beq_iff_eq.mp name)) opens'
          literal', Nat.le_refl _, lt_of_get? two, start_of_get? two, stop_of_get? two⟩
      case isFalse =>
        split at member
        case isTrue name =>
          cases List.mem_singleton.mp member
          cases span
          exact ⟨k, k + 3, .dynamicImport (isWord_iff.mpr ⟨t, zero, word, beq_iff_eq.mp name⟩)
            opens' literal' ((text_of_get? three).trans closes), Nat.le_add_right _ _,
            lt_of_get? three, start_of_get? zero, stop_of_get? three⟩
        case isFalse => exact absurd member List.not_mem_nil
    case isFalse =>
      split at member
      case isTrue here =>
        simp only [Bool.and_eq_true, beq_iff_eq] at here
        cases List.mem_singleton.mp member
        cases span
        exact ⟨k, k + 2, .importMeta (isWord_iff.mpr ⟨t, zero, word, here.1.1⟩)
          ((text_of_get? one).trans here.1.2) ((text_of_get? two).trans here.2),
          Nat.le_add_right _ _, lt_of_get? two, start_of_get? zero, stop_of_get? two⟩
      case isFalse => exact absurd member List.not_mem_nil
  case h_2 dot name following =>
    rw [following] at at_
    have one : (ofTokens source ts).get? (k + 1) = some dot := at_ 1
    have two : (ofTokens source ts).get? (k + 2) = some name := at_ 2
    split at member
    case isTrue here =>
      simp only [Bool.and_eq_true, beq_iff_eq] at here
      cases List.mem_singleton.mp member
      cases span
      exact ⟨k, k + 2, .importMeta (isWord_iff.mpr ⟨t, zero, word, here.1.1⟩)
        ((text_of_get? one).trans here.1.2) ((text_of_get? two).trans here.2),
        Nat.le_add_right _ _, lt_of_get? two, start_of_get? zero, stop_of_get? two⟩
    case isFalse => exact absurd member List.not_mem_nil
  case h_3 => exact absurd member List.not_mem_nil

/-- Every use replaces a run of tokens of one list. -/
theorem Spanned.level_of_usage {source : List Char} {low high : Nat} {ts : List Token}
    (spanned : Spanned low high ts) {afterDot : Bool} {u : Usage} {start stop : Nat}
    (member : u ∈ Token.usagesAll afterDot ts) (span : u.span? = some (start, stop)) :
    AtLevel (fun us => ∃ first last, (TokenRow.ofTokens source us).IsUse first last ∧
      (TokenRow.ofTokens source us).Run first last start stop) ts := by
  induction spanned generalizing afterDot with
  | intro _ _ _ _ _ ih =>
      rcases Token.usagesAll_cases member span with
        ⟨front, t, rest, split, word, here⟩ | ⟨t, among, b, container, here⟩
      · exact .here (TokenRow.run_of_usage split word here span)
      · exact .inside among container (ih t among b container here)

/-! ## Strings start with a quote -/

theorem tokenize_quotes {d : Dialect} {source : String} {ts : List Token}
    (success : tokenize d source = .ok ts) : (TokenRow.ofTokens source.toList ts).Quotes := by
  obtain ⟨literals, -⟩ := tokenize_literals success
  intro i literal
  obtain ⟨t, found, isStr⟩ := TokenRow.get?_of_any literal
  obtain ⟨quote, inner, text, isQuote⟩ := literals t (TokenRow.mem_of_get? found) isStr
  have head : t.text.toList.head? = some quote := by rw [text, List.head?_cons]
  rw [TokenRow.text_of_get? found]
  constructor
  · intro same
    rw [same] at head
    rcases isQuote with rfl | rfl <;> exact absurd head (by decide)
  · intro same
    rw [same] at head
    rcases isQuote with rfl | rfl <;> exact absurd head (by decide)

/-! ## Where rewrites come from -/

/-- A rewrite replaces a run of these tokens: that of a use, or one of a declaration at the top
level. -/
def Origin (source : List Char) (ts : List Token) (runs : List (Nat × Nat)) (e : Nat × Rewrite)
    (us : List Token) : Prop :=
  ∃ first last, (TokenRow.ofTokens source us).Run first last e.1 e.2.stop ∧
    ((TokenRow.ofTokens source us).IsUse first last ∨ us = ts ∧ (first, last) ∈ runs)

structure Rewrites.Origins (source : List Char) (ts : List Token) (runs : List (Nat × Nat))
    (rs : Rewrites) : Prop where
  apart : runs.Pairwise fun r r' => r.2 < r'.1
  declared : ∀ r ∈ runs, (TokenRow.ofTokens source ts).IsDeclaration r.1 r.2
  entries : ∀ e ∈ rs.entries, e.2.stop = e.1 ∨ AtLevel (Origin source ts runs e) ts

theorem ofRuns_origin (source : List Char) (ts : List Token) (runs : List (Nat × Nat))
    (e : Nat × Rewrite) : OfRuns source e.1 e.2.stop (Origin source ts runs e) :=
  fun _ ⟨first, last, run, _⟩ => ⟨first, last, run⟩

namespace Rewrites.Origins

variable {source : List Char} {ts : List Token} {runs : List (Nat × Nat)} {rs : Rewrites}
  {low high : Nat}

/-- Runs of one list do not cross. -/
theorem last_le (origins : rs.Origins source ts runs) {us : List Token}
    {first last first' last' : Nat}
    (kind : (TokenRow.ofTokens source us).IsUse first last ∨ us = ts ∧ (first, last) ∈ runs)
    (kind' : (TokenRow.ofTokens source us).IsUse first' last' ∨ us = ts ∧ (first', last') ∈ runs)
    (le' : first' ≤ last') (behind : first < first') (inside : first' ≤ last) : last' ≤ last := by
  rcases kind with use | ⟨rfl, member⟩
  · rcases kind' with use' | ⟨rfl, member'⟩
    · have := use.apart use' behind
      omega
    · rcases (origins.declared _ member').keyword with word | word
      · have := use.apart_of_word word (.inl rfl) behind
        omega
      · have := use.apart_of_word word (.inr rfl) behind
        omega
  · rcases kind' with use' | ⟨_, member'⟩
    · exact (origins.declared _ member).ends.use_le use' inside
    · rcases apart_of_pairwise origins.apart member member' with same | apart | apart
      · cases same
        exact Nat.le_refl _
      · simp only at apart
        omega
      · simp only at apart
        omega

/-- When a rewrite starts in what another one replaces, it ends there as well. -/
theorem nested (origins : rs.Origins source ts runs) (spanned : Spanned low high ts)
    {e e' : Nat × Rewrite} (entry : e ∈ rs.entries) (entry' : e' ∈ rs.entries)
    (behind : e.1 < e'.1) (before : e'.1 < e.2.stop) : e'.2.stop ≤ e.2.stop := by
  rcases origins.entries e entry with inserts | level
  · omega
  rcases origins.entries e' entry' with inserts | level'
  · omega
  rcases level.meet (ofRuns_origin source ts runs e) (ofRuns_origin source ts runs e') behind before
    spanned level' with
    ends | ⟨us, _, _, spanned, ⟨first, last, run, kind⟩, first', last', run', kind'⟩
  · exact ends
  · have less := run.first_lt run' spanned behind
    have inside := run.first_le_last run' spanned before
    exact run.stop_le run' spanned (origins.last_le kind kind' run'.le less inside)

/-- What replaces something starts with a token. -/
theorem starts (origins : rs.Origins source ts runs) {e : Nat × Rewrite} (entry : e ∈ rs.entries) :
    e.2.stop = e.1 ∨ ∃ t : Token, t.Within ts ∧ t.start = e.1 :=
  (origins.entries e entry).imp_right fun level => level.start_mem (ofRuns_origin source ts runs e)

theorem insert (origins : rs.Origins source ts runs) {start stop : Nat} (pieces : List Piece)
    (level : AtLevel (Origin source ts runs (start, ⟨stop, pieces⟩)) ts) :
    (rs.insert start ⟨stop, pieces⟩).Origins source ts runs where
  apart := origins.apart
  declared := origins.declared
  entries := by
    intro e entry
    rcases Rewrites.mem_insert entry with rfl | entry
    · exact .inr level
    · exact origins.entries e entry

end Rewrites.Origins

theorem AtLevel.imp {holds holds' : List Token → Prop} {ts : List Token} (level : AtLevel holds ts)
    (implies : ∀ us, holds us → holds' us) : AtLevel holds' ts := by
  induction level with
  | here here => exact .here (implies _ here)
  | inside member container _ ih => exact .inside member container ih

namespace Analysis

variable {source : List Char} {ts : List Token} {runs : List (Nat × Nat)} {a : Analysis}

theorem origins_addUsage (origins : a.rewrites.Origins source ts runs) {u : Usage}
    (level : ∀ start stop, u.span? = some (start, stop) →
      AtLevel (fun us => ∃ first last, (TokenRow.ofTokens source us).IsUse first last ∧
        (TokenRow.ofTokens source us).Run first last start stop) ts) :
    (a.addUsage u).rewrites.Origins source ts runs := by
  have origin {start stop : Nat} (span : u.span? = some (start, stop)) (pieces : List Piece) :
      AtLevel (Origin source ts runs (start, ⟨stop, pieces⟩)) ts :=
    (level start stop span).imp fun _ ⟨first, last, use, run⟩ => ⟨first, last, run, .inl use⟩
  cases u with
  | element => exact origins
  | requireCall specifier start stop => exact origins.insert _ (origin rfl _)
  | dynamicImport specifier literal start stop => exact origins.insert _ (origin rfl _)
  | importMeta start stop => exact origins.insert _ (origin rfl _)

end Analysis

/-- The rewrites of an analysis come from declarations and uses. -/
theorem analyze_origins {source : List Char} {low high : Nat} {ts : List Token} {o : HeaderOptions}
    {a : Analysis} (success : analyze source ts o = .ok a) (spanned : Spanned low high ts)
    (quotes : (TokenRow.ofTokens source ts).Quotes) :
    ∃ runs, a.rewrites.Origins source ts runs := by
  unfold analyze at success
  obtain ⟨declared, declares, success⟩ := ok_of_bind success
  cases ok_of_pure success
  obtain ⟨runs, apart, isDeclaration, entries⟩ := Analysis.declarations_declared quotes _ declares
    (.nil _) fun _ member => absurd member List.not_mem_nil
  have read : declared.rewrites.Origins source ts runs := {
    apart
    declared := isDeclaration
    entries := fun e entry => (entries e entry).imp_right fun ⟨r, member, run⟩ =>
      .here ⟨r.1, r.2, run, .inr ⟨rfl, member⟩⟩ }
  rw [Analysis.rewrites_withHeader]
  refine ⟨runs, Analysis.addUsages_keep (P := fun a => a.rewrites.Origins source ts runs)
    (fun u member _ origins => Analysis.origins_addUsage origins fun start stop span => ?_) read⟩
  exact spanned.level_of_usage member span

end JsxPreview.Source
