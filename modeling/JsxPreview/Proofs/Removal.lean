import JsxPreview.Proofs.Emission.Splice
import JsxPreview.Proofs.Scanner.Tiling
import JsxPreview.Proofs.TypeErasure

/-! # What is left of what is removed

Erasure writes white space over what it removes, and emission leaves out what is replaced by nothing;
neither puts a semicolon in its place.  So where all that stands between two tokens is removed, but
for comments and semicolons, there is a semicolon between what is left of the two exactly when one of
the source is kept there (`semicolon_between`).  Lines that a statement without a semicolon of its own
kept apart are then read as one (`removed_joins`). -/
set_option autoImplicit false
namespace JsxPreview.Source

open JsxPreview.Text

/-! ## What stands between tokens -/

/-- The tokens of a text, or those of a container in it, at every depth. -/
inductive Listed (us : List Token) : List Token → Prop
  | here : Listed us us
  | inside {ts : List Token} {t : Token} {b : Body} (member : t ∈ ts) (container : b ∈ t.shape.bodies)
      (listed : Listed us b.tokens) : Listed us ts

theorem Listed.row {source : List Char} {us ts : List Token} (listed : Listed us ts) :
    ∀ {low high : Nat}, Tiles source low high ts → ∃ low high, Row source low high us := by
  induction listed with
  | here =>
      rintro low high ⟨row⟩
      exact ⟨low, high, row⟩
  | inside member container _ ih =>
      rintro low high ⟨_, _, _, _, _, inside⟩
      exact ih (inside _ member _ container)

/-- A character that starts in a stretch is one of its text. -/
theorem Stretch.mem {source text front back : List Char} {low high : Nat} {c : Char}
    (stretch : Stretch source low high text) (split : source = front ++ c :: back)
    (behind : low ≤ byteLength front) (before : byteLength front < high) : c ∈ text := by
  obtain ⟨first, rest, whole, begins, ends⟩ := stretch
  rw [split, List.append_assoc] at whole
  -- the text from the character on
  have starts {more : List Char} (some : 0 < byteLength more) (same : c :: back = more ++ rest) :
      c ∈ more := by
    cases more with
    | nil => exact absurd some (Nat.lt_irrefl 0)
    | cons x more =>
        cases same
        exact List.mem_cons_self ..
  rcases List.append_eq_append_iff.mp whole with ⟨more, same, others⟩ | ⟨more, same, others⟩
  · have length := congrArg byteLength same
    rw [byteLength_append] at length
    have nothing : more = [] :=
      Classical.byContradiction fun some => absurd (Cursor.byteLength_pos some) (by omega)
    rw [nothing, byteLength_nil] at length
    rw [nothing, List.nil_append] at others
    exact starts (by omega) others
  · rw [same, byteLength_append] at before
    rcases List.append_eq_append_iff.mp others with ⟨more', same', others⟩ | ⟨more', same', others⟩
    · rw [same', byteLength_append] at before
      omega
    · rw [same', byteLength_append] at ends
      rw [same']
      exact List.mem_append_right _ (starts (by omega) others)

theorem Gap.le {source : List Char} {low high : Nat} (gap : Gap source low high) : low ≤ high := by
  obtain ⟨_, stretch, _⟩ := gap
  exact stretch.le

namespace Row

variable {source : List Char} {low high : Nat} {pre ts rest : List Token} {b : Token}

theorem suffix (row : Row source low high (pre ++ ts)) : ∃ middle, Row source middle high ts := by
  induction pre generalizing low with
  | nil => exact ⟨low, row⟩
  | cons t pre ih =>
      obtain ⟨_, _, _, others⟩ := row
      exact ih others

/-- What starts in front of a token of a row is white space or in a token of the row. -/
theorem blank_or_mem {front back : List Char} {c : Char} (row : Row source low high (ts ++ b :: rest))
    (split : source = front ++ c :: back) (behind : low ≤ byteLength front)
    (before : byteLength front < b.start) : (isBlank c || c == '\ufeff') = true ∨
      ∃ t ∈ ts, t.start ≤ byteLength front ∧ byteLength front < t.stop := by
  induction ts generalizing low with
  | nil =>
      obtain ⟨⟨gap, stretch, blank⟩, _⟩ := row
      exact .inl (List.all_eq_true.mp blank c (stretch.mem split behind before))
  | cons t ts ih =>
      obtain ⟨⟨gap, stretch, blank⟩, _, _, others⟩ := row
      by_cases inGap : byteLength front < t.start
      · exact .inl (List.all_eq_true.mp blank c (stretch.mem split behind inGap))
      · by_cases inToken : byteLength front < t.stop
        · exact .inr ⟨t, List.mem_cons_self .., Nat.le_of_not_lt inGap, inToken⟩
        · refine (ih others (Nat.le_of_not_lt inToken)).imp_right ?_
          rintro ⟨u, member, inside⟩
          exact ⟨u, List.mem_cons_of_mem _ member, inside⟩

/-- Of two tokens in a row one ends in front of the other. -/
theorem apart (row : Row source low high ts) {t u : Token} (inT : t ∈ ts) (inU : u ∈ ts) :
    t = u ∨ t.stop ≤ u.start ∨ u.stop ≤ t.start := by
  have order := row.pairwise
  let apart (t u : Token) := t = u ∨ t.stop ≤ u.start ∨ u.stop ≤ t.start
  exact @List.Pairwise.forall_of_forall_of_flip _ ts apart (fun _ _ => Or.inl rfl)
    (order.imp fun first => Or.inr (.inl first)) (order.imp fun first => Or.inr (.inr first))
    t inT u inU

end Row

/-! ## Semicolons -/

def Token.isSemicolon (t : Token) : Bool := t.isPunct && t.text == ";"

theorem Token.isSemicolon_iff {t : Token} :
    t.isSemicolon = true ↔ t.shape = .punct ∧ t.text = ";" := by
  obtain ⟨shape, start, stop, text⟩ := t
  cases shape <;> simp [Token.isSemicolon, Token.isPunct]

/-- A semicolon stands between two bytes of a text, in none of the comments among some tokens. -/
def Parted (text : List Char) (low high : Nat) (ts : List Token) : Prop :=
  ∃ front back, text = front ++ ';' :: back ∧ low ≤ byteLength front ∧ byteLength front < high ∧
    ∀ t ∈ ts, t.isComment = true → ¬ (t.start ≤ byteLength front ∧ byteLength front < t.stop)

/-! ## Erasure -/

/-- All of a token is erased. -/
def Erasure.Removes (e : Erasure) (t : Token) : Prop :=
  ∀ n, t.start ≤ n → n < t.stop → e.isBlank n = true

section Erasure

variable {source : List Char} {low high : Nat} {e : Erasure} {pre between post : List Token}
  {first last : Token}

/-- What is left between two tokens of a row is in a token between them that is not erased. -/
theorem Erasure.left_between (row : Row source low high (pre ++ first :: (between ++ last :: post)))
    {front back : List Char} {c : Char} (split : imageOf e.blanks 0 source = front ++ c :: back)
    (noBlank : Text.isBlank c = false) (noMark : c ≠ '\ufeff') (behind : first.stop ≤ byteLength front)
    (before : byteLength front < last.start) :
    ∃ t ∈ between, (t.start ≤ byteLength front ∧ byteLength front < t.stop) ∧ ¬ e.Removes t := by
  obtain ⟨front', back', whole, length, kept⟩ := imageOf_kept noBlank split
  rw [← length] at kept behind before ⊢
  obtain ⟨_, _, _, _, row⟩ := row.suffix
  rcases row.blank_or_mem whole behind before with blank | ⟨t, member, inside⟩
  · rw [noBlank, Bool.false_or, beq_iff_eq] at blank
    exact absurd blank noMark
  · refine ⟨t, member, inside, fun removes => ?_⟩
    have held : e.isBlank (byteLength front') = true := removes _ inside.1 inside.2
    exact absurd (kept.symm.trans held) Bool.false_ne_true

/-- A semicolon between two tokens of a row that is not erased is left. -/
theorem Erasure.semicolon_left (row : Row source low high (pre ++ first :: (between ++ last :: post)))
    {t : Token} (member : t ∈ between) (semicolon : t.isSemicolon = true) (kept : ¬ e.Removes t) :
    Parted (imageOf e.blanks 0 source) first.stop last.start between := by
  obtain ⟨shape, text⟩ := Token.isSemicolon_iff.mp semicolon
  obtain ⟨_, _, _, _, row⟩ := row.suffix
  obtain ⟨behind, grows, _, front, back, whole, begins, ends⟩ :=
    row.of_mem (List.mem_append_left _ member)
  have before := (List.pairwise_append.mp row.pairwise).2.2 t member last (List.mem_cons_self ..)
  rw [text] at whole ends
  -- a token of one byte that is not erased as a whole is not erased at all
  have notHeld : holds e.blanks (byteLength front) = false := by
    rw [← Bool.not_eq_true]
    intro held
    refine kept fun n reaches stays => ?_
    change t.start + 1 = t.stop at ends
    have same : n = byteLength front := by omega
    rw [same]
    exact held
  refine ⟨imageOf e.blanks 0 front, imageOf e.blanks (byteLength front + ';'.utf8Size) back, ?_, ?_⟩
  · rw [whole, List.append_assoc]
    exact imageOf_unblanked notHeld
  · rw [byteLength_imageOf, begins]
    refine ⟨behind, Nat.lt_of_lt_of_le grows before, fun u among isComment inside => ?_⟩
    rcases row.apart (List.mem_append_left _ member) (List.mem_append_left _ among) with
      rfl | first | first
    · rw [Token.isComment, shape] at isComment
      cases isComment
    · omega
    · omega

end Erasure

/-- When all between two tokens of a list is removed, but for comments and semicolons, there is a
semicolon between them exactly when one is kept. -/
theorem eraseTypes_parted {jsx : Bool} {source out : String} {tokens : List Token} {e : Erasure}
    (scanned : tokenize ⟨jsx, true⟩ source = .ok tokens)
    (walked : erasureOf source.toList tokens = .ok e) (erased : eraseTypes jsx source = .ok out)
    {us between : List Token} {first last : Token} (listed : Listed us tokens)
    (neighbours : first :: (between ++ [last]) <:+: us)
    (removed : ∀ t ∈ between, t.isComment = true ∨ t.isSemicolon = true ∨ e.Removes t) :
    Parted out.toList first.stop last.start between ↔
      ∃ t ∈ between, t.isSemicolon = true ∧ ¬ e.Removes t := by
  obtain ⟨_, _, scanned', walked', image⟩ := eraseTypes_cases erased
  cases scanned.symm.trans scanned'
  cases walked.symm.trans walked'
  obtain ⟨_, final, rfl, reads⟩ := tokenize_cases scanned
  obtain ⟨low, high, row⟩ := listed.row reads.tiles
  obtain ⟨pre, post, shape⟩ := neighbours
  rw [← shape, List.append_assoc, List.cons_append, List.append_assoc] at row
  rw [image]
  constructor
  · rintro ⟨front, back, split, behind, before, noComment⟩
    obtain ⟨t, member, inside, kept⟩ :=
      Erasure.left_between row split (by decide) (by decide) behind before
    rcases removed t member with isComment | semicolon | removes
    · exact absurd inside (noComment t member isComment)
    · exact ⟨t, member, semicolon, kept⟩
    · exact absurd removes kept
  · rintro ⟨t, member, semicolon, kept⟩
    exact Erasure.semicolon_left row member semicolon kept

/-! ## Emission -/

/-- Tokens of which some are kept, and the others are in stretches that are replaced by nothing, from
their first token to their last. -/
inductive Thinned (rs : Rewrites) : List Token → List Token → Prop
  | nil : Thinned rs [] []
  | keep {t : Token} {ts kept : List Token} (untouched : rs.find? t.start = none)
      (others : Thinned rs ts kept) : Thinned rs (t :: ts) (t :: kept)
  | drop {first last : Token} {inner ts kept : List Token}
      (found : rs.find? first.start = some ⟨last.stop, []⟩) (others : Thinned rs ts kept) :
      Thinned rs (first :: (inner ++ last :: ts)) kept

/-- Whether a chunk writes only white space. -/
def Chunk.isBlank : Chunk → Bool
  | .mark _ => true
  | .code text => isGap text.toList
  | .moduleId _ => false

/-- Chunks that write some tokens one behind the other, with only white space between them. -/
inductive Spaced (e : Emitter) : List Token → List Chunk → Prop
  | nil {gap : List Chunk} (blank : ∀ chunk ∈ gap, chunk.isBlank = true) : Spaced e [] gap
  | cons {t : Token} {ts : List Token} {gap rest : List Chunk}
      (blank : ∀ chunk ∈ gap, chunk.isBlank = true) (others : Spaced e ts rest) :
      Spaced e (t :: ts) (gap ++ (e.token t ++ rest))

section Emission

variable {e : Emitter} {cursor skipped stop high : Nat} {between kept ts : List Token}
  {chunks : List Chunk}

theorem Spaced.gap (spaced : Spaced e kept chunks) {gap : List Chunk}
    (blank : ∀ chunk ∈ gap, chunk.isBlank = true) : Spaced e kept (gap ++ chunks) := by
  cases spaced with
  | nil blank' => exact .nil (List.forall_mem_append.mpr ⟨blank, blank'⟩)
  | cons blank' others =>
      rw [← List.append_assoc]
      exact .cons (List.forall_mem_append.mpr ⟨blank, blank'⟩) others

/-- A semicolon is among the chunks when it is kept, and without one there are only white space and
what is written for tokens of other kinds. -/
theorem Spaced.semicolon (spaced : Spaced e kept chunks) :
    (∀ t ∈ kept, t.isSemicolon = true → .code ";" ∈ chunks) ∧
      ∀ chunk ∈ chunks, chunk.isBlank = true ∨ ∃ t ∈ kept, chunk ∈ e.token t := by
  induction spaced with
  | nil blank => exact ⟨List.forall_mem_nil _, fun chunk member => .inl (blank chunk member)⟩
  | @cons t ts gap rest blank others ih =>
      constructor
      · intro u member semicolon
        rcases List.mem_cons.mp member with rfl | member
        · obtain ⟨shape, text⟩ := Token.isSemicolon_iff.mp semicolon
          have written : e.token u = [.mark u.start, .code ";"] := by
            rw [token_of_leaf e (by rw [shape]; rfl), text]
            rfl
          rw [written]
          simp
        · exact List.mem_append_right _ (List.mem_append_right _ (ih.1 u member semicolon))
      · intro chunk member
        rcases List.mem_append.mp member with inGap | member
        · exact .inl (blank chunk inGap)
        · rcases List.mem_append.mp member with here | member
          · exact .inr ⟨t, List.mem_cons_self .., here⟩
          · refine (ih.2 chunk member).imp_right ?_
            rintro ⟨u, among, inside⟩
            exact ⟨u, List.mem_cons_of_mem _ among, inside⟩

theorem isBlank_of_mem_gap {low : Nat} (gap : Gap e.source low high) :
    ∀ chunk ∈ e.gap low high, chunk.isBlank = true := by
  intro chunk member
  obtain ⟨text, ⟨front, back, whole, begins, ends⟩, blank⟩ := gap
  unfold Emitter.gap at member
  split at member
  · rw [List.mem_singleton.mp member, whole, ← ends, ← begins, List.append_assoc, slice_middle,
      Chunk.isBlank, String.toList_ofList]
    exact blank
  · exact absurd member List.not_mem_nil

theorem tokens_skip (covered : ∀ t ∈ between, t.start < skipped) :
    e.tokens stop cursor skipped (between ++ ts) = e.tokens stop cursor skipped ts := by
  induction between with
  | nil => rfl
  | cons t between ih =>
      obtain ⟨here, others⟩ := List.forall_mem_cons.mp covered
      rw [List.cons_append, Emitter.tokens, if_pos here, ih others]

theorem tokens_keep {t : Token} (order : skipped ≤ t.start)
    (kept : e.rewrites.find? t.start = none) : e.tokens stop cursor skipped (t :: ts) =
      e.gap cursor t.start ++ (e.token t ++ e.tokens stop t.stop skipped ts) := by
  rw [Emitter.tokens, if_neg (Nat.not_lt_of_le order), kept, ← List.append_assoc]

theorem tokens_drop {t : Token} {last : Nat} (order : skipped ≤ t.start)
    (found : e.rewrites.find? t.start = some ⟨last, []⟩) (grows : t.start < last) :
    e.tokens stop cursor skipped (t :: ts) =
      (e.gap cursor t.start ++ [.mark t.start]) ++ e.tokens stop last last ts := by
  rw [Emitter.tokens, if_neg (Nat.not_lt_of_le order), found]
  exact if_pos grows

/-- Between tokens of which the last one is reached, only those that are kept are written. -/
theorem tokens_thinned {last : Token} {after : List Token} (reached : e.rewrites.find? last.start = none)
    (thinned : Thinned e.rewrites between kept) : ∀ {cursor skipped : Nat},
      Row e.source cursor high (between ++ last :: after) → skipped ≤ cursor →
        ∃ middle back, e.tokens stop cursor skipped (between ++ last :: after) =
            middle ++ (e.token last ++ back) ∧ Spaced e kept middle := by
  induction thinned with
  | nil =>
      intro cursor skipped ⟨gap, _⟩ order
      rw [List.nil_append, tokens_keep (order.trans gap.le) reached]
      exact ⟨_, _, rfl, .nil (isBlank_of_mem_gap gap)⟩
  | @keep t ts kept untouched _ ih =>
      intro cursor skipped ⟨gap, grows, _, row⟩ order
      have order := order.trans gap.le
      obtain ⟨middle, back, same, spaced⟩ := ih row (order.trans (Nat.le_of_lt grows))
      rw [List.cons_append, tokens_keep order untouched, same]
      refine ⟨e.gap cursor t.start ++ (e.token t ++ middle), back, by simp only [List.append_assoc], ?_⟩
      exact .cons (isBlank_of_mem_gap gap) spaced
  | @drop first final inner ts kept found _ ih =>
      intro cursor skipped row order
      -- emission goes on behind the last token of the stretch and looks at none inside
      obtain ⟨gap, _, _, row⟩ := row
      rw [List.append_eq, List.append_assoc, List.cons_append] at row
      obtain ⟨_, _, grows, _, behind⟩ := row.suffix
      obtain ⟨middle, back, same, spaced⟩ := ih behind (Nat.le_refl _)
      have ends : first.start < final.stop := by
        have := row.of_mem (List.mem_append_right inner (List.mem_cons_self ..))
        omega
      have passed : ∀ t ∈ inner, t.start < final.stop := by
        intro t member
        have apart := (List.pairwise_append.mp row.pairwise).2.2 t member final (List.mem_cons_self ..)
        have := (row.of_mem (List.mem_append_left _ member)).2.1
        omega
      have covered : ∀ t ∈ inner ++ [final], t.start < final.stop :=
        List.forall_mem_append.mpr ⟨passed, List.forall_mem_singleton.mpr grows⟩
      have shape : first :: (inner ++ final :: ts) ++ last :: after =
          first :: (inner ++ [final] ++ (ts ++ last :: after)) := by
        simp only [List.cons_append, List.append_assoc, List.nil_append]
      rw [shape, tokens_drop (order.trans gap.le) found ends, tokens_skip covered, same]
      refine ⟨e.gap cursor first.start ++ [.mark first.start] ++ middle, back,
        by simp only [List.append_assoc], ?_⟩
      refine spaced.gap (List.forall_mem_append.mpr ⟨isBlank_of_mem_gap gap, ?_⟩)
      exact List.forall_mem_singleton.mpr rfl

/-- Between two tokens that are written, only those that are kept are written. -/
theorem tokens_between {low : Nat} {pre post : List Token} {first last : Token}
    (row : Row e.source low high (pre ++ first :: (between ++ last :: post)))
    (uncovered : ¬ e.rewrites.Covers first.start) (reached : e.rewrites.find? last.start = none)
    (thinned : Thinned e.rewrites between kept) : ∃ front middle back,
      e.tokens stop low 0 (pre ++ first :: (between ++ last :: post)) =
        front ++ (e.token first ++ (middle ++ (e.token last ++ back))) ∧ Spaced e kept middle := by
  have ordered : (pre ++ first :: (between ++ last :: post)).Pairwise fun t u => t.start ≤ u.start := by
    refine row.pairwise.imp_of_mem ?_
    intro t u member _ apart
    have := (row.of_mem member).2.1
    omega
  obtain ⟨front, skipped, before, comes⟩ := tokens_reach uncovered stop pre _ ordered low 0
    fun _ _ before => absurd before (Nat.not_lt_zero _)
  obtain ⟨_, _, grows, _, behind⟩ := row.suffix
  have order : skipped ≤ first.stop := before.trans (Nat.le_of_lt grows)
  obtain ⟨middle, back, same, spaced⟩ := tokens_thinned reached thinned behind order
  exact ⟨front, middle, back, by rw [comes, same], spaced⟩

end Emission

/-! ## Texts -/

/-- Where between two tokens that are kept all is removed but for comments and semicolons, erasure
leaves a semicolon exactly when it keeps one of the source, and emission writes nothing but what it
keeps: a semicolon when it keeps one, and without one only white space and comments. -/
theorem semicolon_between (source : String) :
    (∀ (jsx : Bool) (out : String), eraseTypes jsx source = .ok out → ∃ tokens e,
      tokenize ⟨jsx, true⟩ source = .ok tokens ∧ erasureOf source.toList tokens = .ok e ∧
        ∀ (us between : List Token) (first last : Token), Listed us tokens →
          first :: (between ++ [last]) <:+: us →
            (∀ t ∈ between, t.isComment = true ∨ t.isSemicolon = true ∨ e.Removes t) →
              (Parted out.toList first.stop last.start between ↔
                ∃ t ∈ between, t.isSemicolon = true ∧ ¬ e.Removes t)) ∧
    ∀ (d : Dialect) (tokens : List Token) (e : Emitter), e.source = source.toList →
      tokenize d source = .ok tokens →
      ∀ (between kept : List Token) (first last : Token), first :: (between ++ [last]) <:+: tokens →
        ¬ e.rewrites.Covers first.start → e.rewrites.find? last.start = none →
          Thinned e.rewrites between kept →
            ∃ front middle back, e.tokens (byteLength source.toList) 0 0 tokens =
                front ++ (e.token first ++ (middle ++ (e.token last ++ back))) ∧
              Spaced e kept middle ∧ (∀ t ∈ kept, t.isSemicolon = true → .code ";" ∈ middle) ∧
                ∀ chunk ∈ middle, chunk.isBlank = true ∨ ∃ t ∈ kept, chunk ∈ e.token t := by
  constructor
  · intro jsx out erased
    obtain ⟨tokens, e, scanned, walked, _⟩ := eraseTypes_cases erased
    refine ⟨tokens, e, scanned, walked, ?_⟩
    intro us between first last listed neighbours removed
    exact eraseTypes_parted scanned walked erased listed neighbours removed
  · intro d tokens e whole scanned between kept first last neighbours uncovered reached thinned
    obtain ⟨_, final, rfl, reads⟩ := tokenize_cases scanned
    obtain ⟨row, _⟩ := reads.tiles
    obtain ⟨pre, post, shape⟩ := neighbours
    rw [← shape, List.append_assoc, List.cons_append, List.append_assoc] at row ⊢
    rw [← whole] at row
    obtain ⟨front, middle, back, same, spaced⟩ := tokens_between row uncovered reached thinned
    exact ⟨front, middle, back, same, spaced, spaced.semicolon⟩

/-- The semicolon behind an interface is kept, and the one behind a clause of local exports is not. -/
theorem semicolon_between_lines :
    (∃ between : List Token,
      eraseTypes false "b\ninterface T \x7b\x7d;\n(d)\n" = .ok "b\n              ;\n(d)\n" ∧
      between.map Token.span = [(2, 11), (12, 13), (14, 15), (15, 16), (16, 17)] ∧
        Parted "b\n              ;\n(d)\n".toList 1 18 between) ∧
    ∃ (tokens : List Token) (a : Analysis) (first last : Token) (front middle back : List Chunk),
      tokenize ⟨false, false⟩ "b\nexport \x7b b \x7d;\n(d)\n" = .ok tokens ∧
      analyze "b\nexport \x7b b \x7d;\n(d)\n".toList tokens ⟨"react/jsx-runtime", none, ""⟩ = .ok a ∧
      first.span = (0, 1) ∧ last.span = (16, 17) ∧
      Emitter.tokens ⟨"b\nexport \x7b b \x7d;\n(d)\n".toList, a.rewrites⟩
          (byteLength "b\nexport \x7b b \x7d;\n(d)\n".toList) 0 0 tokens =
        front ++ (Emitter.token ⟨"b\nexport \x7b b \x7d;\n(d)\n".toList, a.rewrites⟩ first ++
          (middle ++ (Emitter.token ⟨"b\nexport \x7b b \x7d;\n(d)\n".toList, a.rewrites⟩ last ++
            back))) ∧
      ∀ chunk ∈ middle, chunk.isBlank = true := by
  constructor
  · obtain ⟨erasure, _⟩ := semicolon_between "b\ninterface T \x7b\x7d;\n(d)\n"
    have success : eraseTypes false "b\ninterface T \x7b\x7d;\n(d)\n" =
        .ok "b\n              ;\n(d)\n" := by
      rw [eraseTypes_eq, tokenize_of_not_mem (by decide)]
      decide
    have read : ((tokenizeWithin (allowance "b\ninterface T \x7b\x7d;\n(d)\n".toList) ⟨false, true⟩
        "b\ninterface T \x7b\x7d;\n(d)\n").toOption.bind fun tokens =>
          (erasureOf "b\ninterface T \x7b\x7d;\n(d)\n".toList tokens).toOption.map fun e =>
            (tokens.map fun t => (t.span, t.isSemicolon), e.blanks)) =
        some ([((0, 1), false), ((2, 11), false), ((12, 13), false), ((14, 15), false),
          ((15, 16), false), ((16, 17), true), ((18, 19), false), ((19, 20), false),
          ((20, 21), false)], [⟨2, 16⟩]) := by decide
    obtain ⟨tokens, scanned, read⟩ := tokenize_of_read read
    obtain ⟨e, walked, read⟩ := Option.map_eq_some_iff.mp read
    obtain ⟨tokens', e', scanned', walked', parted⟩ := erasure false _ success
    cases scanned.symm.trans scanned'
    cases (ok_of_toOption walked).symm.trans walked'
    obtain ⟨spans, blanks⟩ := Prod.mk.inj read
    have isBlank (n : Nat) : e.isBlank n = true ↔ 2 ≤ n ∧ n < 16 := by
      simp only [Erasure.isBlank, blanks, List.any_cons, List.any_nil, Bool.or_false, Span.contains,
        Bool.and_eq_true, decide_eq_true_eq]
    simp only [List.map_eq_cons_iff, List.map_eq_nil_iff, Token.span, Prod.mk.injEq] at spans
    obtain ⟨t₀, _, rfl, s₀, t₁, _, rfl, s₁, t₂, _, rfl, s₂, t₃, _, rfl, s₃, t₄, _, rfl, s₄, t₅, _, rfl,
      s₅, t₆, _, rfl, s₆, t₇, _, rfl, _, t₈, _, rfl, _, rfl⟩ := spans
    have removes (t : Token) (behind : 2 ≤ t.start) (before : t.stop ≤ 16) : e.Removes t :=
      fun n starts stops => (isBlank n).mpr ⟨behind.trans starts, Nat.lt_of_lt_of_le stops before⟩
    have kept : ¬ e.Removes t₅ := by
      intro removes
      have := (isBlank 16).mp (removes 16 (by omega) (by omega))
      omega
    have stands := (parted _ [t₁, t₂, t₃, t₄, t₅] t₀ t₆ .here ⟨[], [t₇, t₈], rfl⟩ (by
      simp only [List.forall_mem_cons]
      exact ⟨.inr (.inr (removes t₁ (by omega) (by omega))),
        .inr (.inr (removes t₂ (by omega) (by omega))), .inr (.inr (removes t₃ (by omega) (by omega))),
        .inr (.inr (removes t₄ (by omega) (by omega))), .inr (.inl s₅.2), List.forall_mem_nil _⟩)).mpr
      ⟨t₅, by simp, s₅.2, kept⟩
    refine ⟨[t₁, t₂, t₃, t₄, t₅], success, ?_, ?_⟩
    · simp only [List.map_cons, List.map_nil, Token.span, s₁, s₂, s₃, s₄, s₅]
    · rwa [s₀.1.2, s₆.1.1] at stands
  · obtain ⟨_, emission⟩ := semicolon_between "b\nexport \x7b b \x7d;\n(d)\n"
    have read : ((tokenizeWithin (allowance "b\nexport \x7b b \x7d;\n(d)\n".toList) ⟨false, false⟩
        "b\nexport \x7b b \x7d;\n(d)\n").toOption.bind fun tokens =>
          (analyze "b\nexport \x7b b \x7d;\n(d)\n".toList tokens
            ⟨"react/jsx-runtime", none, ""⟩).toOption.map fun a =>
              (tokens.map Token.span, a.rewrites)) =
        some ([(0, 1), (2, 8), (9, 10), (11, 12), (13, 14), (14, 15), (16, 17), (17, 18), (18, 19)],
          ⟨[(2, ⟨15, []⟩)]⟩) := by decide
    obtain ⟨tokens, scanned, read⟩ := tokenize_of_read read
    obtain ⟨a, analyzed, read⟩ := Option.map_eq_some_iff.mp read
    obtain ⟨spans, rewrites⟩ := Prod.mk.inj read
    simp only [List.map_eq_cons_iff, List.map_eq_nil_iff] at spans
    obtain ⟨t₀, _, rfl, s₀, t₁, _, rfl, s₁, t₂, _, rfl, s₂, t₃, _, rfl, s₃, t₄, _, rfl, s₄, t₅, _, rfl,
      s₅, t₆, _, rfl, s₆, t₇, _, rfl, _, t₈, _, rfl, _, rfl⟩ := spans
    have uncovered : ¬ a.rewrites.Covers t₀.start := by
      rintro ⟨start, r, found, behind, _⟩
      rw [(Prod.mk.inj s₀).1] at behind
      rw [Nat.le_zero.mp behind, rewrites] at found
      cases found
    have reached : a.rewrites.find? t₆.start = none := by
      rw [(Prod.mk.inj s₆).1, rewrites]
      rfl
    have found : a.rewrites.find? t₁.start = some ⟨t₅.stop, []⟩ := by
      rw [(Prod.mk.inj s₁).1, (Prod.mk.inj s₅).2, rewrites]
      rfl
    obtain ⟨front, middle, back, same, _, _, blank⟩ := emission ⟨false, false⟩ _ ⟨_, a.rewrites⟩ rfl
      scanned (t₁ :: ([t₂, t₃, t₄] ++ [t₅])) [] t₀ t₆ ⟨[], [t₇, t₈], rfl⟩ uncovered reached
      (.drop found .nil)
    refine ⟨_, a, t₀, t₆, front, middle, back, scanned, ok_of_toOption analyzed, s₀, s₆, same, ?_⟩
    intro chunk member
    exact (blank chunk member).resolve_right (by simp)

/-- Where a type alias or a clause of local exports is removed, nothing parts the lines around it:
the call in the last line is a call of the value in the first one. -/
theorem removed_joins :
    eraseTypes false "let a = b\ntype T = string\n(c)\n" =
        .ok "let a = b\n               \n(c)\n" ∧
      ∃ tokens a, tokenize ⟨false, false⟩ "let a = b\nexport \x7b a \x7d\n(c)\n" = .ok tokens ∧
        analyze "let a = b\nexport \x7b a \x7d\n(c)\n".toList tokens
          ⟨"react/jsx-runtime", none, ""⟩ = .ok a ∧
        emitted "let a = b\nexport \x7b a \x7d\n(c)\n" tokens a [] = "let a = b\n\n(c)\n" := by
  constructor
  · rw [eraseTypes_eq, tokenize_of_not_mem (by decide)]
    decide
  · have read : ((tokenizeWithin (allowance "let a = b\nexport \x7b a \x7d\n(c)\n".toList)
        ⟨false, false⟩ "let a = b\nexport \x7b a \x7d\n(c)\n").toOption.bind fun tokens =>
          (analyze "let a = b\nexport \x7b a \x7d\n(c)\n".toList tokens
            ⟨"react/jsx-runtime", none, ""⟩).toOption.map
            fun a => emitted "let a = b\nexport \x7b a \x7d\n(c)\n" tokens a []) =
        some "let a = b\n\n(c)\n" := by decide
    obtain ⟨tokens, scanned, read⟩ := tokenize_of_read read
    obtain ⟨a, analyzed, body⟩ := Option.map_eq_some_iff.mp read
    exact ⟨tokens, a, scanned, ok_of_toOption analyzed, body⟩

end JsxPreview.Source
