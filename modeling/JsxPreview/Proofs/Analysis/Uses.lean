import JsxPreview.Proofs.Analysis.Whole
import JsxPreview.Proofs.Scanner.Nesting

/-! # Every use is found, and nothing else

Uses of modules are calls of `require` and `import` with a literal, and `import.meta`, among tokens or
nested in one of them at any depth (`UseOf`).  The analysis of a module depends on what these name, each
once, and rewrites each; it finds an element when there is one anywhere (`analyze_uses`). -/
set_option autoImplicit false
namespace JsxPreview.Source

open JsxPreview.Text

/-! ## Uses among tokens -/

/-- The word is among tokens and names no member; `behind` is what stands behind it, comments aside. -/
def Token.Leads (word : Token) (behind us : List Token) : Prop :=
  ∃ before, us.filter (!·.isComment) = before ++ word :: behind ∧ word.isWord = true ∧
    ∀ last ∈ before.getLast?, last.isPunct = true → last.text ≠ "." ∧ last.text ≠ "?."

/-- A call of a name with one literal. -/
def LiteralCall (name : String) (word literal close : Token) (us : List Token) : Prop :=
  ∃ opening behind, word.Leads (opening :: literal :: close :: behind) us ∧ word.text = name ∧
    opening.text = "(" ∧ literal.isStr = true ∧ close.text = ")"

def MetaProperty (word last : Token) (us : List Token) : Prop :=
  ∃ dot behind, word.Leads (dot :: last :: behind) us ∧ word.text = "import" ∧ dot.text = "." ∧
    last.text = "meta"

/-- A use that a word among tokens makes: what the module depends on, and what is rewritten to what. -/
inductive UseOf (word : Token) (us : List Token) : Option Dependency → Nat × Rewrite → Prop
  | requireCall {literal close : Token} (call : LiteralCall "require" word literal close us) :
      UseOf word us (some ⟨unquote literal.text, literal.start, .requireCall⟩)
        (literal.start, ⟨literal.stop, [.moduleId (unquote literal.text)]⟩)
  | dynamicImport {literal close : Token} (call : LiteralCall "import" word literal close us) :
      UseOf word us (some ⟨unquote literal.text, literal.start, .dynamicImport⟩)
        (word.start, ⟨close.stop,
          [.text "Promise.resolve().then(() => __preview_interop(require(",
            .moduleId (unquote literal.text), .text ")))"]⟩)
  | importMeta {last : Token} (property : MetaProperty word last us) :
      UseOf word us none (word.start, ⟨last.stop, [.text "__preview_import_meta"]⟩)

namespace Usage

def dependency? : Usage → Option Dependency
  | requireCall specifier start _ => some ⟨specifier, start, .requireCall⟩
  | dynamicImport specifier literal _ _ => some ⟨specifier, literal, .dynamicImport⟩
  | importMeta _ _ | element => none

def entry? : Usage → Option (Nat × Rewrite)
  | requireCall specifier start stop => some (start, ⟨stop, [.moduleId specifier]⟩)
  | dynamicImport specifier _ start stop => some (start, ⟨stop,
      [.text "Promise.resolve().then(() => __preview_interop(require(", .moduleId specifier,
        .text ")))"]⟩)
  | importMeta start stop => some (start, ⟨stop, [.text "__preview_import_meta"]⟩)
  | element => none

end Usage

variable {t word : Token} {ts us behind : List Token} {u : Usage} {d : Option Dependency}
  {e : Nat × Rewrite}

/-- The uses among tokens are those of the words that lead there. -/
theorem useOf_iff : UseOf word us d e ↔ ∃ behind, word.Leads behind us ∧
    ∃ u ∈ word.usage behind, u.dependency? = d ∧ u.entry? = some e := by
  constructor
  · intro use
    cases use with
    | requireCall call =>
        obtain ⟨opening, behind, leads, name, opens, isStr, closes⟩ := call
        refine ⟨_, leads, .requireCall _ _ _, ?_, rfl, rfl⟩
        simp [Token.usage, name, opens, isStr, closes]
    | dynamicImport call =>
        obtain ⟨opening, behind, leads, name, opens, isStr, closes⟩ := call
        refine ⟨_, leads, .dynamicImport _ _ _ _, ?_, rfl, rfl⟩
        simp [Token.usage, name, opens, isStr, closes]
    | importMeta property =>
        obtain ⟨dot, behind, leads, name, isDot, isMeta⟩ := property
        refine ⟨_, leads, .importMeta _ _, ?_, rfl, rfl⟩
        cases behind with
        | nil => simp [Token.usage, name, isDot, isMeta]
        | cons next behind => simp [Token.usage, name, isDot, isMeta]
  · rintro ⟨behind, leads, u, member, rfl, entry⟩
    unfold Token.usage at member
    split at member
    case h_1 opening literal close rest =>
      split at member
      case isTrue here =>
        simp only [Bool.and_eq_true, beq_iff_eq] at here
        obtain ⟨⟨opens, isStr⟩, closes⟩ := here
        split at member
        case isTrue name =>
          cases List.mem_singleton.mp member
          cases entry
          exact .requireCall ⟨opening, rest, leads, beq_iff_eq.mp name, opens, isStr, closes⟩
        case isFalse =>
          split at member
          case isTrue name =>
            cases List.mem_singleton.mp member
            cases entry
            exact .dynamicImport ⟨opening, rest, leads, beq_iff_eq.mp name, opens, isStr, closes⟩
          case isFalse => exact absurd member List.not_mem_nil
      case isFalse =>
        split at member
        case isTrue here =>
          simp only [Bool.and_eq_true, beq_iff_eq] at here
          cases List.mem_singleton.mp member
          cases entry
          exact .importMeta ⟨opening, close :: rest, leads, here.1.1, here.1.2, here.2⟩
        case isFalse => exact absurd member List.not_mem_nil
    case h_2 dot last =>
      split at member
      case isTrue here =>
        simp only [Bool.and_eq_true, beq_iff_eq] at here
        cases List.mem_singleton.mp member
        cases entry
        exact .importMeta ⟨dot, [], leads, here.1.1, here.1.2, here.2⟩
      case isFalse => exact absurd member List.not_mem_nil
    case h_3 => exact absurd member List.not_mem_nil

/-! ## Uses at every depth -/

def Token.isDot (t : Token) : Bool := t.isPunct && (t.text == "." || t.text == "?.")

/-- Whether a member name comes behind tokens. -/
def endsInDot (afterDot : Bool) (before : List Token) : Bool :=
  (before.getLast?.map Token.isDot).getD afterDot

theorem endsInDot_cons (afterDot : Bool) (t : Token) (before : List Token) :
    endsInDot afterDot (t :: before) = endsInDot t.isDot before := by
  rw [endsInDot, endsInDot, List.getLast?_cons]
  cases before.getLast? <;> rfl

theorem Token.leads_iff : word.Leads behind us ↔ ∃ before,
    us.filter (!·.isComment) = before ++ word :: behind ∧ word.isWord = true ∧
      endsInDot false before = false := by
  refine exists_congr fun before => and_congr_right fun _ => and_congr_right fun _ => ?_
  rw [endsInDot]
  cases before.getLast? with
  | none => simp
  | some last => simp [Token.isDot]

theorem Token.mem_usages_iff {afterDot : Bool} : u ∈ t.usages afterDot behind ↔
    (t.isWord = true ∧ afterDot = false ∧ u ∈ t.usage behind) ∨
      (u = .element ∧ ∃ el, t.shape = .jsx el) ∨
        ∃ b ∈ t.shape.bodies, u ∈ Token.usagesAll false b.tokens := by
  have inside (bs : List Body) : u ∈ bs.flatMap Body.usages ↔
      ∃ b ∈ bs, u ∈ Token.usagesAll false b.tokens := by
    rw [List.mem_flatMap]
    exact exists_congr fun b => and_congr_right fun _ => by cases b; rfl
  obtain ⟨shape, start, stop, text⟩ := t
  cases shape with
  | word =>
      rw [Token.usages]
      cases afterDot <;> simp [Token.isWord, Shape.bodies]
  | template parts =>
      rw [Token.usages, TemplatePart.usagesAll_eq, inside]
      simp [Token.isWord]
  | jsx el =>
      rw [Token.usages, Element.usages_eq, List.mem_cons, inside]
      simp [Token.isWord, Shape.bodies]
  | _ => simp [Token.usages, Token.isWord, Shape.bodies]

theorem leading_cons {afterDot : Bool} {sig : List Token} :
    (∃ before word behind, t :: sig = before ++ word :: behind ∧ word.isWord = true ∧
        endsInDot afterDot before = false ∧ u ∈ word.usage behind) ↔
      (t.isWord = true ∧ afterDot = false ∧ u ∈ t.usage sig) ∨
        ∃ before word behind, sig = before ++ word :: behind ∧ word.isWord = true ∧
          endsInDot t.isDot before = false ∧ u ∈ word.usage behind := by
  constructor
  · rintro ⟨before, word, behind, split, isWord, free, member⟩
    cases before with
    | nil =>
        cases split
        exact .inl ⟨isWord, free, member⟩
    | cons first before =>
        cases split
        exact .inr ⟨before, word, behind, rfl, isWord, endsInDot_cons .. ▸ free, member⟩
  · rintro (⟨isWord, free, member⟩ | ⟨before, word, behind, split, isWord, free, member⟩)
    · exact ⟨[], t, sig, rfl, isWord, free, member⟩
    · exact ⟨t :: before, word, behind, split ▸ rfl, isWord, (endsInDot_cons ..).trans free, member⟩

theorem Token.mem_usagesAll_iff {afterDot : Bool} : u ∈ Token.usagesAll afterDot ts ↔
    (∃ before word behind, ts.filter (!·.isComment) = before ++ word :: behind ∧
      word.isWord = true ∧ endsInDot afterDot before = false ∧ u ∈ word.usage behind) ∨
      (u = .element ∧ ∃ t ∈ ts, ∃ el, t.shape = .jsx el) ∨
        ∃ t ∈ ts, ∃ b ∈ t.shape.bodies, u ∈ Token.usagesAll false b.tokens := by
  induction ts generalizing afterDot with
  | nil => simp [Token.usagesAll]
  | cons t rest ih =>
      rw [Token.usagesAll]
      split
      case isTrue comment =>
        have leaf : (¬ ∃ el, t.shape = .jsx el) ∧ t.shape.bodies = [] := by
          obtain ⟨shape, _, _, _⟩ := t
          cases shape <;> simp_all [Token.isComment, Shape.bodies]
        rw [ih, List.filter_cons_of_neg (by simp [comment])]
        simp [leaf]
      case isFalse counts =>
        have isDot : (t.isPunct && (t.text == "." || t.text == "?.")) = t.isDot := rfl
        rw [List.mem_append, Token.mem_usages_iff, isDot, ih,
          List.filter_cons_of_pos (by simpa using counts), leading_cons]
        have own {P : Token → Prop} : (∃ t' ∈ t :: rest, P t') ↔ P t ∨ ∃ t' ∈ rest, P t' := by simp
        rw [own, own, and_or_left]
        grind

/-- The uses among tokens at every depth are those of words that lead, and of elements. -/
theorem mem_usagesAll : u ∈ Token.usagesAll false ts ↔ ∃ us, Nested us ts ∧
    ((∃ (word : Token) (behind : List Token), word.Leads behind us ∧ u ∈ word.usage behind) ∨
      u = .element ∧ ∃ t ∈ us, ∃ el, t.shape = .jsx el) := by
  have leading (us : List Token) :
      (∃ before word behind, us.filter (!·.isComment) = before ++ word :: behind ∧
        word.isWord = true ∧ endsInDot false before = false ∧ u ∈ word.usage behind) ↔
      ∃ (word : Token) (behind : List Token), word.Leads behind us ∧ u ∈ word.usage behind := by
    simp only [Token.leads_iff]
    grind
  induction ts using nested_induction with
  | step ts ih =>
      rw [Token.mem_usagesAll_iff, leading, ← or_assoc]
      constructor
      · rintro (here | ⟨t, member, b, container, inside⟩)
        · exact ⟨ts, .here, here⟩
        · obtain ⟨us, nested, use⟩ := (ih t member b container).mp inside
          exact ⟨us, .of_inside member container nested, use⟩
      · rintro ⟨us, nested, use⟩
        rcases nested_iff.mp nested with rfl | ⟨t, member, b, container, within⟩
        · exact .inl use
        · exact .inr ⟨t, member, b, container, (ih t member b container).mpr ⟨us, within, use⟩⟩

/-! ## Places of uses -/

/-- A place that a word among tokens names in a use: its own, or that of the literal behind it. -/
def Token.Marks (word : Token) (us : List Token) (n : Nat) : Prop :=
  ∃ i, (us.filter (!·.isComment))[i]? = some word ∧ word.isWord = true ∧
    (word.start = n ∨ ∃ literal, (us.filter (!·.isComment))[i + 2]? = some literal ∧
      literal.isStr = true ∧ literal.start = n)

theorem Spanned.eq_of_marks {low high n : Nat} {us' : List Token} {word' : Token}
    (spanned : Spanned low high ts) (nested : Nested us ts) (nested' : Nested us' ts)
    (marks : word.Marks us n) (marks' : word'.Marks us' n) : us = us' ∧ word = word' := by
  obtain ⟨i, at_, isWord, place⟩ := marks
  obtain ⟨i', at', isWord', place'⟩ := marks'
  have mark {us : List Token} {word : Token} {i : Nat} (at_ : (us.filter (!·.isComment))[i]? = some word)
      (place : word.start = n ∨ ∃ literal, (us.filter (!·.isComment))[i + 2]? = some literal ∧
        literal.isStr = true ∧ literal.start = n) : ∃ v ∈ us, v.start = n := by
    rcases place with same | ⟨literal, at_, _, same⟩
    · exact ⟨word, (List.mem_filter.mp (List.mem_of_getElem? at_)).1, same⟩
    · exact ⟨literal, (List.mem_filter.mp (List.mem_of_getElem? at_)).1, same⟩
  obtain ⟨v, member, starts⟩ := mark at_ place
  obtain ⟨v', member', starts'⟩ := mark at' place'
  cases spanned.same_list nested nested' member member' (starts.trans starts'.symm)
  refine ⟨rfl, ?_⟩
  obtain ⟨_, _, here, _⟩ := spanned.nested nested
  have notBoth {t : Token} (isWord : t.isWord = true) (isStr : t.isStr = true) : False := by
    obtain ⟨shape, _, _, _⟩ := t
    cases shape <;> simp [Token.isWord, Token.isStr] at isWord isStr
  rcases place with same | ⟨literal, next, isStr, same⟩ <;>
    rcases place' with same' | ⟨literal', next', isStr', same'⟩
  · cases here.index_eq at_ at' (same.trans same'.symm)
    exact Option.some.inj (at_.symm.trans at')
  · cases here.index_eq at_ next' (same.trans same'.symm)
    cases at_.symm.trans next'
    exact (notBoth isWord isStr').elim
  · cases here.index_eq next at' (same.trans same'.symm)
    cases next.symm.trans at'
    exact (notBoth isWord' isStr).elim
  · cases here.index_eq next next' (same.trans same'.symm)
    exact Option.some.inj (at_.symm.trans at')

/-- The places that a use names: where it is rewritten, and where its literal is. -/
def Usage.places : Usage → List Nat
  | .requireCall _ start _ => [start]
  | .dynamicImport _ literal start _ => [start, literal]
  | .importMeta start _ => [start]
  | .element => []

theorem Token.marks_of_usage {before : List Token} {n : Nat}
    (split : us.filter (!·.isComment) = before ++ word :: behind) (isWord : word.isWord = true)
    (member : u ∈ word.usage behind) (place : n ∈ u.places) : word.Marks us n := by
  refine ⟨before.length, by simp [split], isWord, ?_⟩
  have behind_ : (us.filter (!·.isComment))[before.length + 2]? = behind[1]? := by
    rw [split, List.getElem?_append_right (Nat.le_add_right _ _), Nat.add_sub_cancel_left]
    rfl
  rw [behind_]
  unfold Token.usage at member
  split at member
  case h_1 opening literal close rest =>
    split at member
    case isTrue here =>
      have isStr : literal.isStr = true := by
        simp only [Bool.and_eq_true] at here
        exact here.1.2
      split at member
      · cases List.mem_singleton.mp member
        exact .inr ⟨literal, rfl, isStr, (List.mem_singleton.mp place).symm⟩
      · split at member
        · cases List.mem_singleton.mp member
          rcases List.mem_cons.mp place with same | place
          · exact .inl same.symm
          · exact .inr ⟨literal, rfl, isStr, (List.mem_singleton.mp place).symm⟩
        · exact absurd member List.not_mem_nil
    case isFalse =>
      split at member
      · cases List.mem_singleton.mp member
        exact .inl (List.mem_singleton.mp place).symm
      · exact absurd member List.not_mem_nil
  case h_2 =>
    split at member
    · cases List.mem_singleton.mp member
      exact .inl (List.mem_singleton.mp place).symm
    · exact absurd member List.not_mem_nil
  case h_3 => exact absurd member List.not_mem_nil

theorem Token.Marks.within {n : Nat} (marks : word.Marks us n) (nested : Nested us ts) :
    word.Within ts := by
  obtain ⟨i, at_, _, _⟩ := marks
  exact nested.within (List.mem_filter.mp (List.mem_of_getElem? at_)).1

theorem Token.Marks.cons {n : Nat} (marks : word.Marks us n) (t : Token) : word.Marks (t :: us) n := by
  obtain ⟨i, at_, isWord, place⟩ := marks
  by_cases comment : t.isComment = true
  · refine ⟨i, ?_, isWord, ?_⟩ <;> rw [List.filter_cons_of_neg (by simp [comment])]
    · exact at_
    · exact place
  · refine ⟨i + 1, ?_, isWord, ?_⟩ <;> rw [List.filter_cons_of_pos (by simp [comment])]
    · exact at_
    · exact place

/-- A place that a use names is named by a word, among the tokens or nested in one of them. -/
theorem marks_of_usages {afterDot : Bool} {n : Nat} (member : u ∈ Token.usagesAll afterDot ts)
    (place : n ∈ u.places) : ∃ (us : List Token) (word : Token), Nested us ts ∧ word.Marks us n := by
  rcases Token.mem_usagesAll_iff.mp member with
    ⟨before, word, behind, split, isWord, -, member⟩ | ⟨rfl, -⟩ | ⟨t, among, b, container, member⟩
  · exact ⟨ts, word, .here, Token.marks_of_usage split isWord member place⟩
  · exact absurd place List.not_mem_nil
  · obtain ⟨us, nested, ⟨word, behind, ⟨before, split, isWord, -⟩, member⟩ | ⟨rfl, -⟩⟩ :=
      mem_usagesAll.mp member
    · exact ⟨us, word, .of_inside among container nested,
        Token.marks_of_usage split isWord member place⟩
    · exact absurd place List.not_mem_nil

/-- Two uses that name no place in common. -/
def Usage.Apart (u u' : Usage) : Prop := ∀ n ∈ u.places, n ∉ u'.places

theorem usage_apart (word : Token) (behind : List Token) :
    (word.usage behind).Pairwise Usage.Apart := by
  unfold Token.usage
  repeat' split
  all_goals simp

section Apart

variable {low high : Nat} {rest : List Token}

/-- Uses inside two containers of a token are apart. -/
theorem Spanned.apart_of_containers (spanned : Spanned low high ts) (member : t ∈ ts) {b b' : Body}
    (container : b ∈ t.shape.bodies) (container' : b' ∈ t.shape.bodies) (before : b.stop < b'.start)
    {u u' : Usage} (use : u ∈ Token.usagesAll false b.tokens)
    (use' : u' ∈ Token.usagesAll false b'.tokens) : u.Apart u' := by
  intro n place place'
  obtain ⟨us, word, nested, marks⟩ := marks_of_usages use place
  obtain ⟨us', word', nested', marks'⟩ := marks_of_usages use' place'
  cases (spanned.eq_of_marks (.of_inside member container nested)
    (.of_inside member container' nested') marks marks').2
  have := (spanned.container member container).span_within (marks.within nested)
  have := (spanned.container member container').span_within (marks'.within nested')
  omega

/-- The uses of a token and those behind it are apart. -/
theorem Spanned.apart_of_behind (spanned : Spanned low high (t :: rest)) {afterDot isDot : Bool}
    {u u' : Usage} (use : u ∈ t.usages afterDot (rest.filter (!·.isComment)))
    (use' : u' ∈ Token.usagesAll isDot rest) : u.Apart u' := by
  intro n place place'
  -- the word behind, as one of the whole list
  obtain ⟨us', word', nested', marks', later⟩ : ∃ (us' : List Token) (word' : Token),
      Nested us' (t :: rest) ∧ word'.Marks us' n ∧ word'.Within rest := by
    obtain ⟨us', word', nested', marks'⟩ := marks_of_usages use' place'
    have later := marks'.within nested'
    rcases nested_iff.mp nested' with rfl | ⟨t', member, b, container, within⟩
    · exact ⟨t :: us', word', .here, marks'.cons t, later⟩
    · exact ⟨us', word', .of_inside (List.mem_cons_of_mem _ member) container within, marks', later⟩
  have behind := (spanned.tail.span_within later).1
  rcases Token.mem_usages_iff.mp use with ⟨isWord, -, member⟩ | ⟨rfl, -⟩ | ⟨b, container, member⟩
  · have counts : (!t.isComment) = true := by
      obtain ⟨shape, _, _, _⟩ := t
      cases shape <;> simp [Token.isWord, Token.isComment] at isWord ⊢
    have split : (t :: rest).filter (!·.isComment) = [] ++ t :: rest.filter (!·.isComment) :=
      List.filter_cons_of_pos counts
    have marks := Token.marks_of_usage split isWord member place
    cases (spanned.eq_of_marks .here nested' marks marks').2
    have := (spanned.span_within (.here (List.mem_cons_self ..))).2.1
    omega
  · exact absurd place List.not_mem_nil
  · obtain ⟨us, word, nested, marks⟩ := marks_of_usages member place
    cases (spanned.eq_of_marks (.of_inside (List.mem_cons_self ..) container nested) nested'
      marks marks').2
    have := spanned.within_token (List.mem_cons_self ..) container (marks.within nested)
    have := (spanned.span_within (.inside (List.mem_cons_self ..) container (marks.within nested))).2.1
    omega

theorem Spanned.usages_apart (spanned : Spanned low high ts) (afterDot : Bool) :
    (Token.usagesAll afterDot ts).Pairwise Usage.Apart := by
  induction ts using nested_induction generalizing low high afterDot with
  | step ts inside =>
      induction ts generalizing low afterDot with
      | nil => exact .nil
      | cons t rest ih =>
          have others (isDot : Bool) : (Token.usagesAll isDot rest).Pairwise Usage.Apart :=
            ih (List.forall_mem_cons.mp inside).2 spanned.tail isDot
          have containers : (t.shape.bodies.flatMap Body.usages).Pairwise Usage.Apart := by
            have tokens (b : Body) : b.usages = Token.usagesAll false b.tokens := by cases b; rfl
            have first := List.mem_cons_self (a := t) (l := rest)
            refine List.pairwise_flatMap.mpr ⟨fun b container => ?_, ?_⟩
            · rw [tokens]
              exact inside t first b container (spanned.container first container) false
            · have whole := spanned
              obtain ⟨_, _, _, bodies, _⟩ := spanned
              refine (bodies t first).pairwise.imp_of_mem fun container container' before u use u' use' => ?_
              rw [tokens] at use use'
              exact whole.apart_of_containers first container container' before use use'
          have own (behind : List Token) : (t.usages afterDot behind).Pairwise Usage.Apart := by
            obtain ⟨shape, _, _, _⟩ := t
            cases shape with
            | word =>
                rw [Token.usages]
                split
                · exact .nil
                · exact usage_apart _ _
            | template parts =>
                rw [Token.usages, TemplatePart.usagesAll_eq]
                exact containers
            | jsx el =>
                rw [Token.usages, Element.usages_eq]
                exact List.pairwise_cons.mpr
                  ⟨fun _ _ _ place => absurd place List.not_mem_nil, containers⟩
            | _ => exact .nil
          rw [Token.usagesAll]
          split
          · exact others afterDot
          · exact List.pairwise_append.mpr
              ⟨own _, others _, fun u use u' use' => spanned.apart_of_behind use use'⟩

end Apart

end JsxPreview.Source
