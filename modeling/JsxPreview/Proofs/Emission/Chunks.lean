import JsxPreview.Proofs.SourceMap.Writer
import JsxPreview.Proofs.Text.Split
import JsxPreview.Source.Emission

/-! # The code of chunks

Writing chunks adds their code (`code_writeAll`) and leads a writer on (`leads_writeAll`).  Copied text
is its own code, and wherever a line of it starts and something follows, it is marked there
(`copy_split`). -/
set_option autoImplicit false
namespace JsxPreview.Source

open JsxPreview.Text

/-- The code that a chunk stands for. -/
def Chunk.text (resolved : List (String × String)) : Chunk → List Char
  | .code text => text.toList
  | .mark _ => []
  | .moduleId specifier => (Quoted.json (resolvedId resolved specifier)).toList

def codeOf (resolved : List (String × String)) (chunks : List Chunk) : List Char :=
  chunks.flatMap (Chunk.text resolved)

theorem codeOf_append (resolved : List (String × String)) (first second : List Chunk) :
    codeOf resolved (first ++ second) = codeOf resolved first ++ codeOf resolved second :=
  List.flatMap_append

section Writing

variable (source : List Char) (index : Nat) (resolved : List (String × String))

theorem code_writeTo (w : CodeWriter) (chunk : Chunk) :
    (chunk.writeTo source index resolved w).code.toList =
      w.code.toList ++ chunk.text resolved := by
  cases chunk with
  | code text => exact CodeWriter.code_write w text
  | mark offset => exact (List.append_nil _).symm
  | moduleId specifier => exact CodeWriter.code_write w _

theorem code_writeAll (chunks : List Chunk) : ∀ w : CodeWriter,
    (chunks.foldl (Chunk.writeTo source index resolved) w).code.toList =
      w.code.toList ++ codeOf resolved chunks := by
  induction chunks with
  | nil =>
      intro w
      exact (List.append_nil _).symm
  | cons chunk chunks ih =>
      intro w
      rw [List.foldl_cons, ih, code_writeTo, List.append_assoc]
      rfl

theorem leads_writeTo (w : CodeWriter) (chunk : Chunk) :
    w.Leads (chunk.writeTo source index resolved w) := by
  cases chunk with
  | code text => exact .write text .refl
  | mark offset => exact .mapTo _ _ _ .refl
  | moduleId specifier => exact .write _ .refl

theorem leads_writeAll (chunks : List Chunk) : ∀ w : CodeWriter,
    w.Leads (chunks.foldl (Chunk.writeTo source index resolved) w) := by
  induction chunks with
  | nil =>
      intro w
      exact .refl
  | cons chunk chunks ih =>
      intro w
      exact (leads_writeTo source index resolved w chunk).trans (ih _)

theorem files_writeAll (chunks : List Chunk) : ∀ w : CodeWriter,
    (chunks.foldl (Chunk.writeTo source index resolved) w).files = w.files := by
  have one (w : CodeWriter) (chunk : Chunk) :
      (chunk.writeTo source index resolved w).files = w.files := by
    cases chunk with
    | code text => rfl
    | moduleId specifier => rfl
    | mark offset => exact CodeWriter.files_mapTo w _ _ _
  induction chunks with
  | nil =>
      intro w
      rfl
  | cons chunk chunks ih =>
      intro w
      rw [List.foldl_cons, ih, one]

end Writing

/-! ## Copied text -/

/-- A line starts behind `head`. -/
def StartsLine (head : List Char) : Prop := head = [] ∨ head.getLast? = some '\n'

theorem codeOf_ofLines (resolved : List (String × String)) (lines : List (List Char)) :
    ∀ offset, codeOf resolved (Chunk.ofLines offset lines) = joinWith ['\n'] lines := by
  induction lines with
  | nil =>
      intro offset
      rfl
  | cons line rest ih =>
      intro offset
      cases rest with
      | nil =>
          rw [Chunk.ofLines, joinWith]
          split
          case isTrue nothing => exact (List.isEmpty_iff.mp nothing).symm
          case isFalse => simp [codeOf, Chunk.text]
      | cons next rest =>
          have behind := ih (offset + byteLength line + 1)
          rw [Chunk.ofLines, joinWith_cons _ _ (List.cons_ne_nil _ _), ← behind]
          · simp [codeOf, Chunk.text]
          · intro nothing
            cases nothing

theorem codeOf_copy (resolved : List (String × String)) (offset : Nat) (text : List Char) :
    codeOf resolved (Chunk.copy offset text) = text := by
  have lines := codeOf_ofLines resolved (splitOn '\n' text) offset
  rw [join_splitOn] at lines
  unfold Chunk.copy
  split
  case h_1 nothing =>
    rw [nothing] at lines
    exact lines
  case h_2 => exact lines

/-- A front that ends with a line feed takes in the first line. -/
theorem split_behind_feed {rest tail line : List Char} (noFeed : '\n' ∉ line) :
    ∀ {head : List Char}, line ++ '\n' :: rest = head ++ tail → head.getLast? = some '\n' →
      ∃ more, head = line ++ '\n' :: more ∧ rest = more ++ tail := by
  induction line with
  | nil =>
      intro head whole feed
      cases head with
      | nil => exact absurd feed (by simp)
      | cons x more =>
          cases whole
          exact ⟨more, rfl, rfl⟩
  | cons c line ih =>
      intro head whole feed
      rw [List.mem_cons, not_or] at noFeed
      cases head with
      | nil => exact absurd feed (by simp)
      | cons x head =>
          obtain ⟨rfl, behind⟩ := List.cons.inj whole
          cases head with
          | nil =>
              cases feed
              exact absurd rfl noFeed.1
          | cons y head =>
              rw [List.getLast?_cons_cons] at feed
              obtain ⟨more, same, rest⟩ := ih noFeed.2 behind feed
              exact ⟨more, by rw [same]; rfl, rest⟩

/-- Where a line starts and something follows, lines are marked. -/
theorem ofLines_split (lines : List (List Char)) (plain : ∀ line ∈ lines, '\n' ∉ line) :
    ∀ (offset : Nat) (head tail : List Char), joinWith ['\n'] lines = head ++ tail → tail ≠ [] →
      StartsLine head → ∃ before piece after,
        Chunk.ofLines offset lines =
          before ++ .mark (offset + byteLength head) :: .code piece :: after ∧
        piece.toList ≠ [] ∧ ∀ resolved, codeOf resolved before = head := by
  induction lines with
  | nil =>
      intro offset head tail whole nonempty _
      exact absurd (List.append_eq_nil_iff.mp whole.symm).2 nonempty
  | cons line rest ih =>
      intro offset head tail whole nonempty starts
      have noFeed := plain line (List.mem_cons_self ..)
      cases rest with
      | nil =>
          rw [joinWith] at whole
          rcases starts with rfl | feed
          · rw [List.nil_append] at whole
            subst whole
            refine ⟨[], String.ofList line, [], ?_, ?_, fun _ => rfl⟩
            · rw [Chunk.ofLines, if_neg (by simpa using nonempty)]
              rfl
            · rw [String.toList_ofList]
              exact nonempty
          · refine absurd ?_ noFeed
            rw [whole]
            exact List.mem_append_left _ (List.mem_of_getLast? feed)
      | cons next rest =>
          have lines : Chunk.ofLines offset (line :: next :: rest) =
              .mark offset :: .code (String.ofList (line ++ ['\n'])) ::
                Chunk.ofLines (offset + byteLength line + 1) (next :: rest) := by
            rw [Chunk.ofLines]
            intro nothing
            cases nothing
          rw [joinWith_cons _ _ (List.cons_ne_nil _ _)] at whole
          rw [lines]
          rcases starts with rfl | feed
          · exact ⟨[], _, _, rfl, by simp, fun _ => rfl⟩
          · obtain ⟨more, rfl, behind⟩ := split_behind_feed noFeed (by simpa using whole) feed
            have moreStarts : StartsLine more := by
              cases more with
              | nil => exact .inl rfl
              | cons x more =>
                  have last := List.getLast?_eq_some_getLast (List.cons_ne_nil x more)
                  rw [List.getLast?_append, List.getLast?_cons_cons, last, Option.some_or] at feed
                  exact .inr (last.trans feed)
            obtain ⟨before, piece, after, split, some, code⟩ :=
              ih (fun l member => plain l (List.mem_cons_of_mem _ member))
                (offset + byteLength line + 1) more tail behind nonempty moreStarts
            have place : offset + byteLength (line ++ '\n' :: more) =
                offset + byteLength line + 1 + byteLength more := by
              rw [byteLength_append, byteLength_cons]
              change _ = offset + byteLength line + '\n'.utf8Size + byteLength more
              omega
            refine ⟨.mark offset :: .code (String.ofList (line ++ ['\n'])) :: before, piece, after,
              ?_, some, ?_⟩
            · rw [split, place]
              rfl
            · intro resolved
              have inFront := code resolved
              rw [codeOf] at inFront
              simp [codeOf, Chunk.text, inFront]

/-- Copied text is marked wherever a line of it starts and something follows. -/
theorem copy_split {offset : Nat} {text head tail : List Char} (whole : text = head ++ tail)
    (nonempty : tail ≠ []) (starts : StartsLine head) : ∃ before piece after,
      Chunk.copy offset text =
        before ++ .mark (offset + byteLength head) :: .code piece :: after ∧
      piece.toList ≠ [] ∧ ∀ resolved, codeOf resolved before = head := by
  obtain ⟨before, piece, after, split, rest⟩ := ofLines_split (splitOn '\n' text) not_mem_splitOn
    offset head tail (by rw [join_splitOn, whole]) nonempty starts
  refine ⟨before, piece, after, ?_, rest⟩
  unfold Chunk.copy
  rw [split]
  cases before <;> rfl

end JsxPreview.Source
