import JsxPreview.Proofs.Emission.Copies
import JsxPreview.Proofs.Scanner.Tiling

/-! # Emission splices rewrites into the source

Without the syntax of elements no token is an element (`tokenize_elementless`).  What is emitted for
the tokens of a module is read again: calls of the factory stand where elements stood, so that no
token is an element any more.  Behind `export default` the scanner expects no
operand, but behind the variable that replaces it one is expected (`elements_behind_default`).

`Spliced` says that a text is a source with some stretches replaced: what is kept between them stands
there once and in its order.  The code that is emitted for tokens that tile a stretch of a source,
none of them an element, is that stretch with the rewrites spliced in that emission comes to
(`Elementless.spliced`). -/
set_option autoImplicit false
namespace JsxPreview.Source

open JsxPreview.Text

/-! ## No elements are left -/

def Shape.isElement : Shape → Bool
  | .jsx _ => true
  | .word | .punct | .str | .number | .regex | .comment | .template _ => false

/-- None of the tokens is an element, at any depth. -/
inductive Elementless : List Token → Prop
  | intro {ts : List Token}
      (here : ∀ t ∈ ts, t.shape.isElement = false)
      (inside : ∀ t ∈ ts, ∀ b ∈ t.shape.bodies, Elementless b.tokens) : Elementless ts

theorem Elementless.nil : Elementless [] :=
  .intro (fun _ member => absurd member List.not_mem_nil) fun _ member =>
    absurd member List.not_mem_nil

theorem Elementless.cons {t : Token} {ts : List Token} (here : t.shape.isElement = false)
    (inside : ∀ b ∈ t.shape.bodies, Elementless b.tokens) (others : Elementless ts) :
    Elementless (t :: ts) := by
  obtain ⟨hereOf, insideOf⟩ := others
  exact .intro (List.forall_mem_cons.mpr ⟨here, hereOf⟩)
    (List.forall_mem_cons.mpr ⟨inside, insideOf⟩)

/-- Without the syntax of elements none is read. -/
theorem Reads.elementless {d : Dialect} (plain : d.jsx = false) {call : Call} {r : call.Result}
    (reads : Reads d call r) :
    match call, r with
    | .tokens .., r => Elementless r.1
    | .token .., r => r.1.isElement = false ∧ ∀ b ∈ r.1.bodies, Elementless b.tokens
    | .template .., r => ∀ b ∈ (Shape.template r.1).bodies, Elementless b.tokens
    | _, _ => True := by
  induction reads with
  | tokensEnd _ => exact .nil
  | tokensMore _ _ _ first others => exact .cons first.1 first.2 others
  | tokenTemplate _ _ ih => exact ⟨rfl, ih⟩
  | @tokenElement operand c _ _ here _ =>
      unfold startsElement at here
      split at here
      · rw [plain] at here
        exact absurd here (by simp)
      · exact absurd here (by simp)
  | @tokenLeaf _ _ shape _ _ _ here =>
      have leaf := lexLeaf_isLeaf here
      refine ⟨?_, fun b member => ?_⟩
      · cases shape with
        | jsx element => exact absurd leaf Bool.false_ne_true
        | _ => rfl
      · rw [(containers_leaf leaf).1] at member
        exact absurd member List.not_mem_nil
  | templateEnd _ => exact fun _ member => absurd member List.not_mem_nil
  | templateMore _ _ _ inner others => exact List.forall_mem_cons.mpr ⟨inner, others⟩
  | _ => trivial

theorem tokenize_elementless {d : Dialect} (plain : d.jsx = false) {source : String}
    {ts : List Token} (success : tokenize d source = .ok ts) : Elementless ts := by
  obtain ⟨tokens, final, rfl, reads⟩ := tokenize_cases success
  have read : Elementless tokens := reads.elementless plain
  unfold firstLine
  simp only
  split
  · exact .cons rfl (fun _ member => absurd member List.not_mem_nil) read
  · exact read

/-- What is written for a module behind its header. -/
def emitted (source : String) (tokens : List Token) (a : Analysis)
    (resolved : List (String × String)) : String :=
  (writeTokens source.toList 0 a.rewrites resolved tokens {}).code

/-- An element that is exported by default is read as a comparison, and is an element again in what
is emitted. -/
theorem elements_behind_default : ∃ tokens a tokens',
    tokenize ⟨true, false⟩ "export default <div/>;\n" = .ok tokens ∧
    analyze "export default <div/>;\n".toList tokens ⟨"react/jsx-runtime", none, ""⟩ = .ok a ∧
    tokenize ⟨true, false⟩ (emitted "export default <div/>;\n" tokens a []) = .ok tokens' ∧
    ¬ Elementless tokens' := by
  have body : ((tokenizeWithin (allowance "export default <div/>;\n".toList) ⟨true, false⟩
      "export default <div/>;\n").toOption.bind fun tokens =>
        (analyze "export default <div/>;\n".toList tokens
          ⟨"react/jsx-runtime", none, ""⟩).toOption.map
          fun a => emitted "export default <div/>;\n" tokens a []) =
      some "var __preview_default = <div/>;\n" := by decide
  have left : ((tokenizeWithin (allowance "var __preview_default = <div/>;\n".toList) ⟨true, false⟩
      "var __preview_default = <div/>;\n").toOption.map (·.any (·.shape.isElement))) =
        some true := by decide
  obtain ⟨tokens, scanned, body⟩ := Option.bind_eq_some_iff.mp body
  obtain ⟨a, analyzed, body⟩ := Option.map_eq_some_iff.mp body
  obtain ⟨tokens', rescanned, left⟩ := Option.map_eq_some_iff.mp left
  refine ⟨tokens, a, tokens', ?_, ok_of_toOption analyzed, ?_, ?_⟩
  · rw [tokenize_of_not_mem (by decide), ok_of_toOption scanned]
  · rw [body, tokenize_of_not_mem (by decide), ok_of_toOption rescanned]
  · rintro ⟨here, _⟩
    obtain ⟨t, member, isElement⟩ := List.any_eq_true.mp left
    rw [here t member] at isElement
    exact absurd isElement (by simp)

/-! ## What is spliced -/

/-- What a rewrite writes, given what specifiers lead to. -/
def Rewrite.code (resolved : List (String × String)) (r : Rewrite) : List Char :=
  codeOf resolved (r.pieces.map Chunk.ofPiece)

/-- A source that starts at byte `n`, and the text that it gives when rewrites replace stretches of
it, one behind the other. -/
inductive Spliced (resolved : List (String × String)) :
    Nat → List (Nat × Rewrite) → List Char → List Char → Prop
  | kept {n : Nat} (text : List Char) : Spliced resolved n [] text text
  | cut {n start : Nat} {r : Rewrite} {es : List (Nat × Rewrite)} {kept cut source text : List Char}
      (begins : n + byteLength kept = start) (ends : start + byteLength cut = r.stop)
      (behind : Spliced resolved r.stop es source text) :
      Spliced resolved n ((start, r) :: es) (kept ++ cut ++ source)
        (kept ++ r.code resolved ++ text)

namespace Spliced

variable {resolved : List (String × String)} {n m : Nat} {es es' : List (Nat × Rewrite)}
  {source source' text text' : List Char}

theorem keep {front : List Char} (place : m + byteLength front = n)
    (spliced : Spliced resolved n es source text) :
    Spliced resolved m es (front ++ source) (front ++ text) := by
  cases spliced with
  | kept => exact .kept _
  | cut begins ends behind =>
      rw [List.append_assoc, List.append_assoc, ← List.append_assoc front, ← List.append_assoc front,
        ← List.append_assoc (front ++ _), ← List.append_assoc (front ++ _)]
      refine .cut ?_ ends behind
      rw [byteLength_append]
      omega

theorem append (first : Spliced resolved n es source text) (place : n + byteLength source = m)
    (second : Spliced resolved m es' source' text') :
    Spliced resolved n (es ++ es') (source ++ source') (text ++ text') := by
  induction first with
  | kept front => exact second.keep place
  | cut begins ends _ ih =>
      rw [byteLength_append, byteLength_append] at place
      rw [List.cons_append, List.append_assoc _ _ source', List.append_assoc _ _ text']
      exact .cut begins ends (ih (by omega))

/-- The stretches that are replaced come one behind the other. -/
theorem apart (spliced : Spliced resolved n es source text) :
    (∀ e ∈ es, n ≤ e.1 ∧ e.1 ≤ e.2.stop) ∧ es.Pairwise fun e e' => e.2.stop ≤ e'.1 := by
  induction spliced with
  | kept => exact ⟨fun _ member => absurd member List.not_mem_nil, .nil⟩
  | @cut n start r _ _ _ _ _ begins ends _ ih =>
      obtain ⟨within, apart⟩ := ih
      refine ⟨?_, List.pairwise_cons.mpr ⟨fun e member => (within e member).1, apart⟩⟩
      intro e member
      rcases List.mem_cons.mp member with rfl | member
      · change n ≤ start ∧ start ≤ r.stop
        omega
      · have := within e member
        exact ⟨by omega, this.2⟩

end Spliced

/-! ## The rewrites that emission comes to -/

namespace Rewrites

mutual

/-- The rewrites that are applied among tokens; those that start before `skipped` are covered. -/
def applied (rs : Rewrites) (skipped : Nat) : List Token → List (Nat × Rewrite)
  | [] => []
  | t :: rest =>
      if t.start < skipped then applied rs skipped rest
      else match rs.find? t.start with
        | some r =>
            if t.start < r.stop then (t.start, r) :: applied rs r.stop rest
            else (t.start, r) :: appliedInside rs t ++ applied rs skipped rest
        | none => appliedInside rs t ++ applied rs skipped rest

/-- Those in the containers of a template. -/
def appliedInside (rs : Rewrites) : Token → List (Nat × Rewrite)
  | ⟨.template parts, _, _, _⟩ => appliedParts rs parts
  | ⟨.word, _, _, _⟩ | ⟨.punct, _, _, _⟩ | ⟨.str, _, _, _⟩ | ⟨.number, _, _, _⟩ | ⟨.regex, _, _, _⟩
  | ⟨.comment, _, _, _⟩ | ⟨.jsx _, _, _, _⟩ => []

def appliedParts (rs : Rewrites) : List TemplatePart → List (Nat × Rewrite)
  | [] => []
  | .raw _ _ :: rest => appliedParts rs rest
  | .subst b :: rest => appliedBody rs b ++ appliedParts rs rest

def appliedBody (rs : Rewrites) : Body → List (Nat × Rewrite)
  | ⟨_, _, ts⟩ => applied rs 0 ts

end

theorem appliedBody_eq (rs : Rewrites) (b : Body) : rs.appliedBody b = rs.applied 0 b.tokens := by
  cases b
  rfl

theorem appliedParts_eq (rs : Rewrites) (parts : List TemplatePart) :
    rs.appliedParts parts =
      (Shape.template parts).bodies.flatMap fun b => rs.applied 0 b.tokens := by
  induction parts with
  | nil => rfl
  | cons part parts ih =>
      cases part with
      | raw start stop => exact ih
      | subst b => rw [appliedParts, ih, appliedBody_eq]; rfl

/-- A rewrite that starts with a token and replaces something ends with a token of the same list. -/
inductive Fit (rs : Rewrites) : List Token → Prop
  | intro {ts : List Token}
      (here : ∀ t ∈ ts, ∀ r, rs.find? t.start = some r →
        r.stop = t.start ∨ t.start < r.stop ∧ ∃ u ∈ ts, u.stop = r.stop)
      (inside : ∀ t ∈ ts, ∀ b ∈ t.shape.bodies, Fit rs b.tokens) : Fit rs ts

end Rewrites

/-! ## Stretches of the source -/

/-- A place between two characters of a source, or at one of its ends. -/
def Between (source : List Char) (n : Nat) : Prop :=
  ∃ front back, source = front ++ back ∧ byteLength front = n

/-- Of two fronts of a source the shorter one is a front of the other. -/
theorem split_front {first second back back' : List Char} (same : first ++ back = second ++ back')
    (le : byteLength first ≤ byteLength second) : ∃ more, second = first ++ more := by
  rcases List.append_eq_append_iff.mp same with ⟨more, longer, _⟩ | ⟨more, shorter, _⟩
  · exact ⟨more, longer⟩
  · cases more with
    | nil => exact ⟨[], by rw [shorter, List.append_nil, List.append_nil]⟩
    | cons c more =>
        have := c.utf8Size_pos
        rw [shorter, byteLength_append, byteLength_cons] at le
        omega

namespace Stretch

variable {source text : List Char} {low high middle : Nat}

theorem slice_eq (stretch : Stretch source low high text) : slice low high source = text := by
  obtain ⟨front, back, whole, rfl, rfl⟩ := stretch
  rw [whole, List.append_assoc]
  exact slice_middle front text back

theorem length (stretch : Stretch source low high text) : low + byteLength text = high := by
  obtain ⟨_, _, _, _, ends⟩ := stretch
  exact ends

theorem nil_of_le (stretch : Stretch source low high text) (le : high ≤ low) : text = [] := by
  have ends := stretch.length
  cases text with
  | nil => rfl
  | cons c s =>
      have := c.utf8Size_pos
      rw [byteLength_cons] at ends
      omega

theorem between (stretch : Stretch source low high text) :
    Between source low ∧ Between source high := by
  obtain ⟨front, back, whole, begins, ends⟩ := stretch
  refine ⟨⟨front, text ++ back, by rw [whole, List.append_assoc], begins⟩, front ++ text, back, whole, ?_⟩
  rw [byteLength_append, begins, ends]

/-- A stretch is cut in two between two of its characters. -/
theorem split (stretch : Stretch source low high text) (between : Between source middle)
    (begins : low ≤ middle) (ends : middle ≤ high) : ∃ first second, text = first ++ second ∧
      Stretch source low middle first ∧ Stretch source middle high second := by
  obtain ⟨front, back, whole, rfl, rfl⟩ := stretch
  obtain ⟨front', back', whole', rfl⟩ := between
  obtain ⟨first, rfl⟩ := split_front
    ((List.append_assoc ..).symm.trans (whole.symm.trans whole')) begins
  have same : text ++ back = first ++ back' := by
    rw [whole, List.append_assoc, List.append_assoc] at whole'
    exact List.append_cancel_left whole'
  rw [byteLength_append] at ends
  obtain ⟨second, rfl⟩ := split_front same.symm (by omega)
  have rest : second ++ back = back' := by
    rw [List.append_assoc] at same
    exact List.append_cancel_left same
  refine ⟨first, second, rfl, ⟨front, back', whole', rfl, (byteLength_append ..).symm⟩,
    front ++ first, back, by rw [whole', ← rest, ← List.append_assoc], rfl, ?_⟩
  rw [byteLength_append, byteLength_append, Nat.add_assoc]

/-- A stretch has one text. -/
theorem unique {text' : List Char} (stretch : Stretch source low high text)
    (stretch' : Stretch source low high text') : text = text' :=
  stretch.slice_eq.symm.trans stretch'.slice_eq

end Stretch

theorem Row.between {source : List Char} {low high : Nat} {ts : List Token}
    (row : Row source low high ts) : Between source low ∧ Between source high := by
  induction ts generalizing low with
  | nil =>
      obtain ⟨_, stretch, _⟩ := row
      exact stretch.between
  | cons t ts ih =>
      obtain ⟨⟨_, gap, _⟩, _, _, others⟩ := row
      exact ⟨gap.between.1, (ih others).2⟩

theorem Row.follow {source : List Char} {low high : Nat} {ts : List Token}
    (row : Row source low high ts) : Follow Token.span low high ts := by
  induction ts generalizing low with
  | nil => exact row.le
  | cons t ts ih =>
      obtain ⟨⟨_, gap, _⟩, grows, _, others⟩ := row
      exact ⟨gap.le, Nat.le_of_lt grows, ih others⟩

/-! ## What is emitted -/

section Emission

variable {e : Emitter} {resolved : List (String × String)} {low high : Nat}

theorem codeOf_gap (resolved : List (String × String)) {text : List Char}
    (stretch : Stretch e.source low high text) : codeOf resolved (e.gap low high) = text := by
  unfold Emitter.gap
  split
  case isTrue =>
    rw [stretch.slice_eq]
    simp [codeOf, Chunk.text]
  case isFalse le => exact (stretch.nil_of_le (Nat.le_of_not_lt le)).symm

/-- What emission writes for a row of tokens, when what it writes for each of them is spliced. -/
theorem tokens_spliced {ts : List Token} (row : Row e.source low high ts)
    (fit : ∀ t ∈ ts, ∀ r, e.rewrites.find? t.start = some r →
      r.stop = t.start ∨ t.start < r.stop ∧ ∃ u ∈ ts, u.stop = r.stop)
    (each : ∀ t ∈ ts, Spliced resolved t.start (e.rewrites.appliedInside t) t.text.toList
      (codeOf resolved (e.token t))) :
    ∀ {cursor skipped : Nat} {text : List Char}, low ≤ cursor →
      (∀ t ∈ ts, t.start < skipped ∧ t.stop ≤ cursor ∨ skipped ≤ t.start ∧ cursor ≤ t.start) →
      Stretch e.source cursor high text →
      Spliced resolved cursor (e.rewrites.applied skipped ts) text
        (codeOf resolved (e.tokens high cursor skipped ts)) := by
  induction ts generalizing low with
  | nil =>
      intro cursor skipped text _ _ stretch
      rw [Emitter.tokens, Rewrites.applied, codeOf_gap resolved stretch]
      exact .kept text
  | cons t rest ih =>
      intro cursor skipped text begins passed stretch
      have ordered := List.pairwise_cons.mp row.pairwise
      obtain ⟨_, grows, here, others⟩ := row
      have fitRest : ∀ t' ∈ rest, ∀ r, e.rewrites.find? t'.start = some r →
          r.stop = t'.start ∨ t'.start < r.stop ∧ ∃ u ∈ rest, u.stop = r.stop := by
        intro t' member r found
        rcases fit t' (List.mem_cons_of_mem _ member) r found with inserts | ⟨behind, u, among, ends⟩
        · exact .inl inserts
        · rcases List.mem_cons.mp among with rfl | among
          · have := ordered.1 t' member
            omega
          · exact .inr ⟨behind, u, among, ends⟩
      have ih := @ih t.stop others fitRest fun t' member => each t' (List.mem_cons_of_mem _ member)
      rw [Emitter.tokens, Rewrites.applied]
      rcases passed t (List.mem_cons_self ..) with ⟨skips, passes⟩ | ⟨reaches, passes⟩
      · rw [if_pos skips, if_pos skips]
        exact ih passes (fun t' member => passed t' (List.mem_cons_of_mem _ member)) stretch
      · rw [if_neg (Nat.not_lt.mpr reaches), if_neg (Nat.not_lt.mpr reaches)]
        have last := others.le
        obtain ⟨front, behind, rfl, gap, stretch⟩ :=
          stretch.split here.between.1 passes (Nat.le_of_lt (Nat.lt_of_lt_of_le grows last))
        -- the token itself and what follows, when it is not replaced
        have onward : Spliced resolved t.start
            (e.rewrites.appliedInside t ++ e.rewrites.applied skipped rest) behind
            (codeOf resolved (e.token t) ++ codeOf resolved (e.tokens high t.stop skipped rest)) := by
          obtain ⟨own, tail, rfl, stands, stretch⟩ :=
            stretch.split here.between.2 (Nat.le_of_lt grows) last
          rw [stands.unique here]
          refine (each t (List.mem_cons_self ..)).append here.length
            (ih (Nat.le_refl _) (fun t' member => ?_) stretch)
          have := ordered.1 t' member
          rcases passed t' (List.mem_cons_of_mem _ member) with ⟨_, _⟩ | ⟨_, _⟩ <;> omega
        have before := codeOf_gap resolved gap
        cases found : e.rewrites.find? t.start with
        | none =>
            simp only
            rw [codeOf_append, codeOf_append, before, List.append_assoc]
            exact onward.keep gap.length
        | some r =>
            simp only
            have written : codeOf resolved (.mark t.start :: r.pieces.map Chunk.ofPiece) =
                r.code resolved := rfl
            rcases fit t (List.mem_cons_self ..) r found with inserts | ⟨replaces, u, among, ends⟩
            · have stays : ¬ t.start < r.stop := by omega
              rw [if_neg stays, if_neg stays, codeOf_append, codeOf_append, codeOf_append, before,
                written, List.append_assoc (front ++ _), List.cons_append]
              have nothing : front ++ behind = front ++ [] ++ behind := by rw [List.append_nil]
              rw [nothing]
              refine .cut gap.length (by rw [byteLength_nil, inserts]; rfl) ?_
              rw [inserts]
              exact onward
            · have own : t.stop ≤ u.stop := by
                rcases List.mem_cons.mp among with rfl | among
                · exact Nat.le_refl _
                · have := ordered.1 u among
                  have := (others.of_mem among).2.1
                  omega
              have between : Between e.source r.stop ∧ r.stop ≤ high := by
                rw [← ends]
                rcases List.mem_cons.mp among with rfl | among
                · exact ⟨here.between.2, last⟩
                · obtain ⟨_, _, le, stands⟩ := others.of_mem among
                  exact ⟨stands.between.2, le⟩
              obtain ⟨cut, tail, rfl, gone, stretch⟩ :=
                stretch.split between.1 (Nat.le_of_lt replaces) between.2
              rw [if_pos replaces, if_pos replaces, codeOf_append, codeOf_append, before, written,
                ← List.append_assoc front]
              refine .cut gap.length gone.length (ih (by omega) (fun t' member => ?_) stretch)
              -- what starts before the end of the replaced stretch ends by it
              rcases List.mem_cons.mp among with rfl | among
              · have := ordered.1 t' member
                omega
              · have := (others.of_mem among).2.1
                have := (others.of_mem member).2.1
                rcases others.follow.apart member among with rfl | first | first
                · omega
                · simp only [Token.span] at first
                  omega
                · simp only [Token.span] at first
                  omega

/-- The raw parts of a template are copied, and between them its containers are spliced. -/
theorem parts_spliced {start stop : Nat} {parts : List TemplatePart}
    (tile : PartsTile stop start parts)
    (inside : ∀ b ∈ (Shape.template parts).bodies, Between e.source b.start ∧
      Between e.source b.stop ∧ ∀ text, Stretch e.source b.start b.stop text →
        Spliced resolved b.start (e.rewrites.appliedBody b) text (codeOf resolved (e.body b))) :
    ∀ {text : List Char}, Stretch e.source start stop text →
      Spliced resolved start (e.rewrites.appliedParts parts) text
        (codeOf resolved (e.templateParts parts)) := by
  induction tile with
  | last grows =>
      intro text stretch
      rw [Emitter.templateParts, Emitter.templateParts, Rewrites.appliedParts, Rewrites.appliedParts,
        List.append_nil, codeOf_copy, stretch.slice_eq]
      exact .kept text
  | @more start b parts grows spans others ih =>
      intro text stretch
      obtain ⟨begins, ends, body⟩ := inside b (List.mem_cons_self ..)
      have last : b.stop ≤ stop := others.le
      obtain ⟨raw, behind, rfl, front, stretch⟩ :=
        stretch.split begins (Nat.le_of_lt grows) (Nat.le_trans spans last)
      obtain ⟨own, behind, rfl, here, stretch⟩ := stretch.split ends spans last
      have later := ih (fun b' member => inside b' (List.mem_cons_of_mem _ member)) stretch
      rw [Emitter.templateParts, Emitter.templateParts, Rewrites.appliedParts, Rewrites.appliedParts,
        codeOf_append, codeOf_append, codeOf_copy, front.slice_eq]
      exact ((body own here).append here.length later).keep front.length

/-- Emission splices rewrites into what tokens tile, when none of them is an element. -/
theorem Elementless.spliced {ts : List Token} (elementless : Elementless ts) :
    ∀ {low high : Nat}, Tiles e.source low high ts → e.rewrites.Fit ts →
      ∀ text, Stretch e.source low high text →
        Spliced resolved low (e.rewrites.applied 0 ts) text
          (codeOf resolved (e.tokens high low 0 ts)) := by
  induction elementless with
  | @intro ts leaf _ ih =>
      rintro low high ⟨row, parts, within, _, _, tiles⟩ ⟨fit, fits⟩ text stretch
      refine tokens_spliced row fit (fun t member => ?_) (Nat.le_refl _)
        (fun t member => .inr ⟨Nat.zero_le _, (row.of_mem member).1⟩) stretch
      have here := (row.of_mem member).2.2.2
      have noElement := leaf t member
      have tile := parts t member
      have inside (b : Body) (container : b ∈ t.shape.bodies) : Between e.source b.start ∧
          Between e.source b.stop ∧ ∀ text, Stretch e.source b.start b.stop text →
            Spliced resolved b.start (e.rewrites.appliedBody b) text
              (codeOf resolved (e.body b)) := by
        obtain ⟨row, _⟩ := tiles t member b container
        refine ⟨row.between.1, row.between.2, fun text stretch => ?_⟩
        rw [body_eq, Rewrites.appliedBody_eq]
        exact ih t member b container (tiles t member b container) (fits t member b container) text
          stretch
      obtain ⟨shape, start, stop, own⟩ := t
      cases shape with
      | template parts =>
          rw [Emitter.token, Rewrites.appliedInside]
          exact parts_spliced (tile parts rfl) inside here
      | jsx element => exact absurd noElement (by simp [Shape.isElement])
      | _ =>
          rw [Emitter.token, Rewrites.appliedInside, codeOf_copy]
          exact .kept _

end Emission

end JsxPreview.Source
