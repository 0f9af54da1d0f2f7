import JsxPreview.Proofs.SourceMap.RoundTrip
import JsxPreview.Proofs.Text.Places

/-! # What a writer's calls come to

A writer counts its place character by character while it writes; a place can also be found in the
finished code, from the bytes that were written before.  The two agree after every call, wherever the
text was cut into pieces, so the finished map ties just the places of the finished code that the calls
tied, in their order (`decode_ofCalls`). -/
set_option autoImplicit false
namespace JsxPreview

open JsxPreview.Text

theorem eraseReps_loop_map {α β : Type} [BEq α] [BEq β] {f : α → β}
    (same : ∀ a b, (f a == f b) = (a == b)) (l : List α) : ∀ (a : α) (earlier : List α),
    (List.eraseRepsBy.loop (· == ·) a l earlier).map f =
      List.eraseRepsBy.loop (· == ·) (f a) (l.map f) (earlier.map f) := by
  induction l with
  | nil =>
      intro a earlier
      rw [List.map_nil, List.eraseRepsBy.loop, List.eraseRepsBy.loop, List.map_reverse, List.map_cons]
  | cons b l ih =>
      intro a earlier
      rw [List.map_cons, List.eraseRepsBy.loop, List.eraseRepsBy.loop, same]
      split
      · exact ih a earlier
      · exact ih b (a :: earlier)

/-- Repetitions are kept by what tells elements apart. -/
theorem map_eraseReps {α β : Type} [BEq α] [BEq β] {f : α → β}
    (same : ∀ a b, (f a == f b) = (a == b)) (l : List α) :
    l.eraseReps.map f = (l.map f).eraseReps := by
  cases l with
  | nil => rfl
  | cons a l => exact eraseReps_loop_map same l a []

namespace SourceMap

/-- A place of the generated code with the place in a source that it is tied to. -/
structure Tie where
  place : Position
  source : UInt32
  line : UInt32
  column : UInt32
  name : Option UInt32 := none
deriving DecidableEq, Repr

def Mapping.tie (m : Mapping) : Tie := ⟨m.place, m.source, m.line, m.column, m.name⟩

def Tie.mapping (t : Tie) : Mapping :=
  ⟨UInt32.ofNat t.place.line, UInt32.ofNat t.place.column, t.source, t.line, t.column, t.name⟩

theorem Tie.tie_mapping {t : Tie} (word : t.place.IsWord) : t.mapping.tie = t := by
  obtain ⟨⟨line, column⟩, source, original, originalColumn, name⟩ := t
  obtain ⟨lineWord, columnWord⟩ := word
  simp only [Tie.mapping, Mapping.tie, Mapping.place, UInt32.toNat_ofNat']
  rw [Nat.mod_eq_of_lt lineWord, Nat.mod_eq_of_lt columnWord]

theorem Mapping.tie_injective {m n : Mapping} (same : m.tie = n.tie) : m = n := by
  obtain ⟨generatedLine, generatedColumn, source, line, column, name⟩ := m
  simp only [Mapping.tie, Mapping.place, Tie.mk.injEq, Position.mk.injEq, UInt32.toNat_inj] at same
  obtain ⟨⟨rfl, rfl⟩, rfl, rfl, rfl, rfl⟩ := same
  rfl

namespace Vlq

variable {ms : List Mapping}

theorem filter_nextLine (count : Nat)
    (ascending : ms.Pairwise (·.generatedLine.toNat ≤ ·.generatedLine.toNat)) :
    (ms.filter fun m => decide (m.generatedLine.toNat < count)) ++ lineOf ms count =
      ms.filter fun m => decide (m.generatedLine.toNat < count + 1) := by
  induction ms with
  | nil => rfl
  | cons m ms ih =>
      obtain ⟨behind, ascending⟩ := List.pairwise_cons.mp ascending
      have ih := ih ascending
      rw [lineOf] at ih ⊢
      rcases Nat.lt_trichotomy m.generatedLine.toNat count with before | here | after
      · rw [List.filter_cons_of_pos (by simpa using before), List.filter_cons_of_neg (by simp; omega),
          List.filter_cons_of_pos (by simp; omega), List.cons_append, ih]
      · have nothing : (ms.filter fun m => decide (m.generatedLine.toNat < count)) = [] := by
          refine List.filter_eq_nil_iff.mpr fun n member => ?_
          have := behind n member
          simp only [decide_eq_true_eq]
          omega
        rw [nothing, List.nil_append] at ih
        rw [List.filter_cons_of_neg (by simp; omega), nothing, List.nil_append,
          List.filter_cons_of_pos (by simpa using here), List.filter_cons_of_pos (by simp; omega), ih]
      · rw [List.filter_cons_of_neg (by simp; omega), List.filter_cons_of_neg (by simp; omega),
          List.filter_cons_of_neg (by simp; omega), ih]

/-- The lines of mappings that are in the order of their lines make up the mappings. -/
theorem flatten_lines
    (ascending : ms.Pairwise (·.generatedLine.toNat ≤ ·.generatedLine.toNat)) (count : Nat) :
    ((List.range count).map (lineOf ms)).flatten =
      ms.filter fun m => decide (m.generatedLine.toNat < count) := by
  induction count with
  | zero => simp
  | succ count ih =>
      rw [List.range_succ, List.map_append, List.flatten_append, ih, List.map_singleton,
        List.flatten_singleton, filter_nextLine count ascending]

/-- The text of mappings in their order is read as these mappings, each on its line. -/
theorem decode_ascending (ascending : Ascending ms) : ∃ lines,
    decodeMappings (encodeMappings ms) = .ok ⟨lines⟩ ∧ lines.flatten = ms ∧
      ∀ (line : Nat) (row : List Mapping), lines[line]? = some row →
        ∀ m ∈ row, m.generatedLine.toNat = line := by
  obtain ⟨count, reads, bound, -⟩ := decodeMappings_encodeMappings ascending.lines
  simp only [ascending.byColumn] at reads
  refine ⟨_, reads, ?_, ?_⟩
  · change ((List.range (count + 1)).map (lineOf ms)).flatten = ms
    rw [flatten_lines ascending.lines, List.filter_eq_self]
    intro m member
    exact decide_eq_true (bound m member)
  · intro line row here m member
    rw [List.getElem?_map, Option.map_eq_some_iff] at here
    obtain ⟨line', at', rfl⟩ := here
    obtain ⟨_, rfl⟩ := List.getElem?_eq_some_iff.mp at'
    rw [List.getElem_range] at member
    exact beq_iff_eq.mp (List.mem_filter.mp member).2

end Vlq

end SourceMap

namespace CodeWriter

open SourceMap

/-! ## Calls -/

/-- A call of a writer. -/
inductive Call
  | addSource (name : String) (content : Option String)
  | write (text : String)
  | mapTo (source line column : UInt32)
deriving DecidableEq, Repr

namespace Call

def run (w : CodeWriter) : Call → CodeWriter
  | addSource name content => (w.addSource name content).1
  | write text => w.write text
  | mapTo source line column => w.mapTo source line column

/-- What a call adds to the code. -/
def text : Call → String
  | write text => text
  | _ => ""

/-- The ties that calls make, of places of the whole code; so many bytes of it were written before. -/
def ties (code : List Char) (before : Nat) : List Call → List Tie
  | [] => []
  | mapTo source line column :: calls =>
      ⟨position before code, source, line, column, none⟩ :: ties code before calls
  | call :: calls => ties code (before + byteLength call.text.toList) calls

end Call

def ofCalls (calls : List Call) : CodeWriter := calls.foldl Call.run {}

def textOf (calls : List Call) : String := String.join (calls.map Call.text)

variable {w : CodeWriter}

theorem textOf_cons (call : Call) (calls : List Call) :
    (textOf (call :: calls)).toList = call.text.toList ++ (textOf calls).toList := by
  simp [textOf, String.toList_join]

theorem Leads.run (w : CodeWriter) (call : Call) : w.Leads (call.run w) := by
  cases call with
  | addSource name content => exact .addSource name content .refl
  | write text => exact .write text .refl
  | mapTo source line column => exact .mapTo source line column .refl

theorem code_run (w : CodeWriter) (call : Call) :
    (call.run w).code.toList = w.code.toList ++ call.text.toList := by
  cases call with
  | addSource name content => exact (List.append_nil _).symm
  | write text => exact code_write w text
  | mapTo source line column => exact (List.append_nil _).symm

theorem leads_calls (calls : List Call) : ∀ w : CodeWriter, w.Leads (calls.foldl Call.run w) := by
  induction calls with
  | nil => exact fun w => .refl
  | cons call calls ih => exact fun w => (Leads.run w call).trans (ih _)

theorem code_calls (calls : List Call) : ∀ w : CodeWriter,
    (calls.foldl Call.run w).code.toList = w.code.toList ++ (textOf calls).toList := by
  induction calls with
  | nil =>
      intro w
      exact (List.append_nil _).symm
  | cons call calls ih =>
      intro w
      rw [List.foldl_cons, ih, code_run, textOf_cons, List.append_assoc]

/-! ## Mappings of calls -/

theorem latest_addMapping_congr {b b' : Builder} (same : b.latest = b'.latest) (m : Mapping) :
    (b.addMapping m).latest = (b'.addMapping m).latest := by
  unfold Builder.addMapping
  rw [same]
  split
  · exact same
  · rfl

theorem kept_congr (added : List Mapping) : ∀ {b b' : Builder}, b.latest = b'.latest →
    (added.foldl Builder.addMapping b).kept = (added.foldl Builder.addMapping b').kept := by
  induction added with
  | nil =>
      intro b b' same
      exact congrArg List.reverse same
  | cons m added ih =>
      intro b b' same
      exact ih (latest_addMapping_congr same m)

/-- A writer that knows its place keeps the mappings of the places that are found in the whole code. -/
theorem kept_calls (calls : List Call) {code : List Char} : ∀ {w : CodeWriter}, w.Placed →
    w.code.toList ++ (textOf calls).toList = code →
    (calls.foldl Call.run w).map.kept = (((Call.ties code (byteLength w.code.toList) calls).map
      Tie.mapping).foldl Builder.addMapping w.map).kept := by
  induction calls with
  | nil =>
      intro w _ _
      rfl
  | cons call calls ih =>
      intro w placed whole
      have placedThen := (Leads.run w call).placed placed
      have ih := ih placedThen <| by
        rw [code_run, List.append_assoc, ← textOf_cons]
        exact whole
      rw [List.foldl_cons, ih, code_run, byteLength_append]
      cases call with
      | addSource name content => exact kept_congr _ rfl
      | write text => rfl
      | mapTo source line column =>
          have here : position (byteLength w.code.toList) code = w.place := by
            rw [← whole, position_byteLength, placed]
          rw [Call.ties, here]
          rfl

theorem ties_isWord (calls : List Call) {code : List Char} (fits : Fits code) :
    ∀ {front : List Char}, front ++ (textOf calls).toList = code →
      ∀ t ∈ Call.ties code (byteLength front) calls, t.place.IsWord := by
  induction calls with
  | nil => exact fun _ _ member => absurd member List.not_mem_nil
  | cons call calls ih =>
      intro front whole t member
      have behind : (front ++ call.text.toList) ++ (textOf calls).toList = code := by
        rw [List.append_assoc, ← textOf_cons]
        exact whole
      have ih := ih behind
      rw [byteLength_append] at ih
      cases call with
      | addSource name content => exact ih t member
      | write text => exact ih t member
      | mapTo source line column =>
          rcases List.mem_cons.mp member with rfl | member
          · have here : position (byteLength front) code = Position.origin.advance front := by
              rw [← whole, position_byteLength]
            change (position (byteLength front) code).IsWord
            rw [here]
            exact fits front (whole ▸ List.prefix_append _ _)
          · exact ih t member

/-- Whatever calls are made of a writer, its code is what they write, one text behind the other.  As long
as lines and columns are words, the finished map holds, in the order of the calls and each on its line, the
ties of the places that the finished code has behind the bytes written before them, but those that repeat
the one right before. -/
theorem decode_ofCalls (calls : List Call) (file : Option String)
    (fits : Fits (textOf calls).toList) :
    (ofCalls calls).code = textOf calls ∧ ∃ lines,
      Vlq.decodeMappings ((ofCalls calls).map.build file).mappings = .ok ⟨lines⟩ ∧
        lines.flatten.map Mapping.tie = (Call.ties (ofCalls calls).code.toList 0 calls).eraseReps ∧
        ∀ (line : Nat) (row : List Mapping), lines[line]? = some row →
          ∀ m ∈ row, m.generatedLine.toNat = line := by
  have whole : (ofCalls calls).code = textOf calls := String.toList_injective (code_calls calls {})
  rw [whole]
  refine ⟨rfl, ?_⟩
  have fits' : Fits (ofCalls calls).code.toList := by rwa [whole]
  have leads : Leads {} (ofCalls calls) := leads_calls calls {}
  have ascending := leads.ascending fits'
  have kept : (ofCalls calls).map.latest.reverse =
      ((Call.ties (textOf calls).toList 0 calls).map Tie.mapping).eraseReps :=
    (kept_calls calls placed_start rfl).trans (Builder.kept_addMapping rfl _)
  obtain ⟨lines, reads, flat, placed⟩ := Vlq.decode_ascending ascending
  refine ⟨lines, (leads.mappings fits' file).symm ▸ reads, ?_, placed⟩
  have apart (m n : Mapping) : (m.tie == n.tie) = (m == n) := by
    rw [Bool.eq_iff_iff, beq_iff_eq, beq_iff_eq]
    exact ⟨Mapping.tie_injective, congrArg _⟩
  have tied : ((Call.ties (textOf calls).toList 0 calls).map Tie.mapping).map Mapping.tie =
      Call.ties (textOf calls).toList 0 calls := by
    rw [List.map_map, List.map_congr_left (g := id), List.map_id]
    intro t member
    exact Tie.tie_mapping (ties_isWord calls fits (List.nil_append _) t member)
  rw [flat, kept, map_eraseReps apart, tied]

/-- A carriage return apart from its line feed, a character of two units, a text without characters, and
calls that repeat each other. -/
theorem decode_ofCalls_pieces :
    let calls : List Call := [.addSource "a.js" none, .mapTo 0 0 0, .write "a\r", .mapTo 0 0 0, .write "",
      .mapTo 0 0 0, .write "\n😀", .addSource "b.js" none, .mapTo 1 4294967295 2, .write "b"]
    (ofCalls calls).code = "a\r\n😀b" ∧ ∃ lines,
      Vlq.decodeMappings ((ofCalls calls).map.build none).mappings = .ok ⟨lines⟩ ∧
        lines.flatten.map Mapping.tie =
          [⟨⟨0, 0⟩, 0, 0, 0, none⟩, ⟨⟨0, 2⟩, 0, 0, 0, none⟩, ⟨⟨1, 2⟩, 1, 4294967295, 2, none⟩] := by
  intro calls
  have fits : Fits (textOf calls).toList := fits_of_bytes (by decide)
  obtain ⟨code, lines, reads, ties, -⟩ := decode_ofCalls calls none fits
  have whole : textOf calls = "a\r\n😀b" := by decide
  refine ⟨code.trans whole, lines, reads, ties.trans ?_⟩
  rw [code, whole]
  decide

end CodeWriter

end JsxPreview
