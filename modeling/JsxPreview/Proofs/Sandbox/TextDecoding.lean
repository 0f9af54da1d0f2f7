import JsxPreview.Proofs.Codec.Chunks
import JsxPreview.Proofs.Sandbox.Gives
import JsxPreview.Proofs.Text.Lossy

/-! # Decoders of texts in a session

A decoder that is fed pieces of bytes, one call for each, and then ended gives the texts of
`StreamDecoder.decodeAll` (`gives_feed`).  With `ignoreBOM` these are together what one call gives for
all bytes (`decodePieces_keeps`).  Without, the mark in front is dropped and the others are kept just
when none of them stands where a piece ends (`decodePieces_marks_iff`). -/
set_option autoImplicit false
namespace JsxPreview.Sandbox

open JsxPreview.Codec
open JsxPreview.Element (Stop)
open JsxPreview.Script
open JsxPreview.Text
open Sandboxed

/-! ## Programs -/

/-- Feeds pieces to a decoder, one call for each, and ends it. -/
def feed (decoder : Value) : List Value → Sandboxed (List Value)
  | [] => do return [← call decoder "decode" []]
  | piece :: rest => do
      let text ← call decoder "decode" [piece, .record [("stream", .bool true)]]
      return text :: (← feed decoder rest)

/-- Makes a decoder and feeds pieces to it. -/
def decodePieces (label options : Value) (pieces : List Value) : Sandboxed (List Value) := do
  let decoder ← construct .decoder [label, options]
  feed decoder pieces

/-- Makes a decoder and has it decode all at once. -/
def decodeWhole (label options whole : Value) : Sandboxed Value := do
  let decoder ← construct .decoder [label, options]
  call decoder "decode" [whole]

/-! ## What is handed over -/

/-- A memory, or a view of one, and the bytes that it shows. -/
inductive Shows (s : Session) : Value → List UInt8 → Prop
  | memory {id : Nat} {bytes : List UInt8} (is : s.object id = .memory bytes) :
      Shows s (.object id) bytes
  | view {id : Nat} {v : View} (is : s.object id = .view v) : Shows s (.object id) (s.bytesOf v)

/-- A label of UTF-8; none at all is one. -/
inductive Utf8Label : Value → Prop
  | default : Utf8Label .undefined
  | named {name : String} (known : Encoding.ofName? name = some .utf8) : Utf8Label (.text name)

/-- Options of a decoder, and whether marks are kept with them. -/
inductive Options : Value → Bool → Prop
  | none : Options .undefined false
  | fields (fields : List (String × Value)) :
      Options (.record fields) ((Value.record fields).property "ignoreBOM").isTruthy

def textValue (s : List Char) : Value := .text (String.ofList s)

/-- An object that shows bytes. -/
def HostObject.showsBytes : HostObject → Bool
  | .memory _ | .view _ => true
  | _ => false

/-- A session in which the same objects show the same bytes. -/
def SameBytes (s s' : Session) : Prop :=
  ∀ id, s'.object id = s.object id ∨
    (s.object id).showsBytes = false ∧ (s'.object id).showsBytes = false

theorem SameBytes.object {s s' : Session} {id : Nat} {object : HostObject} (same : SameBytes s s')
    (shows : object.showsBytes = true) (is : s.object id = object) : s'.object id = object := by
  rcases same id with kept | ⟨none, _⟩
  · rw [kept, is]
  · rw [is, shows] at none
    cases none

theorem SameBytes.bytesOf {s s' : Session} (same : SameBytes s s') (v : View) :
    s'.bytesOf v = s.bytesOf v := by
  rw [Session.bytesOf, Session.bytesOf]
  rcases same v.memory with kept | ⟨none, none'⟩
  · rw [kept]
  · cases before : s.object v.memory <;> cases after : s'.object v.memory <;>
      simp_all [HostObject.showsBytes]

theorem Shows.mono {s s' : Session} {v : Value} {bytes : List UInt8} (shows : Shows s v bytes)
    (same : SameBytes s s') : Shows s' v bytes := by
  cases shows with
  | memory is => exact .memory (same.object rfl is)
  | view is =>
      rw [← same.bytesOf]
      exact .view (same.object rfl is)

theorem Shows.gives {s : Session} {v : Value} {bytes : List UInt8} (shows : Shows s v bytes) :
    Gives (TextCodec.inputBytes v) s bytes s := by
  cases shows with
  | memory is =>
      refine (Gives.objectAt _ s).bind ?_
      rw [is]
      exact .pure _ s
  | view is =>
      refine (Gives.objectAt _ s).bind ?_
      rw [is]
      exact (Gives.session s).bind (.pure _ s)

/-! ## Making a decoder -/

/-- A decoder stands at a place of the session. -/
structure Stands (s : Session) (id : Nat) (d : StreamDecoder) (keeps : Bool) : Prop where
  decoder : s.object id = .decoder d
  method : (s.own id).lookup "decode" = none
  marks : (((s.own id).lookup "ignoreBOM").getD .undefined).isTruthy = keeps

theorem gives_checkLabel {label : Value} (known : Utf8Label label) (s : Session) :
    Gives (TextCodec.checkLabel label) s () s := by
  have named {name : String} (given : Gives (textOr "utf-8" label) s name s)
      (utf8 : Encoding.ofName? name = some .utf8) : Gives (TextCodec.checkLabel label) s () s := by
    refine given.bind ?_
    rw [if_neg (not_not_intro utf8)]
    exact .pure () s
  cases known with
  | default => exact named (.pure "utf-8" s) (by decide +kernel)
  | @named name known =>
      refine @named name ?_ known
      have some : name ≠ "" := by
        rintro rfl
        exact absurd known (by decide +kernel)
      rw [textOr, if_pos (by simpa [Value.isTruthy] using some)]
      exact .toText name s

theorem gives_construct {label options : Value} {keeps : Bool} (known : Utf8Label label)
    (chosen : Options options keeps) (s : Session) :
    ∃ id s', Gives (construct .decoder [label, options]) s (.object id) s' ∧
      Stands s' id {} keeps ∧ SameBytes s s' := by
  obtain ⟨fatal, given⟩ : ∃ fatal, Gives (TextCodec.decoderOptions options) s
      [("fatal", .bool fatal), ("ignoreBOM", .bool keeps)] s := by
    cases chosen with
    | none => exact ⟨false, .pure _ s⟩
    | fields fields => exact ⟨_, (Gives.isOn fields "fatal" s).bind
        ((Gives.isOn fields "ignoreBOM" s).bind (.pure _ s))⟩
  refine ⟨_, _, (gives_checkLabel known s).bind
    (given.bind ((Gives.create _ _ s).bind (.pure _ _))), ⟨?_, ?_, ?_⟩, fun id => ?_⟩
  · rw [Session.object_added, if_pos rfl]
  · rw [Session.own_added, if_pos rfl]
    simp [List.lookup_cons]
  · rw [Session.own_added, if_pos rfl]
    simp [List.lookup_cons, Value.isTruthy]
  · rw [Session.object_added]
    split
    case isTrue here =>
      subst here
      refine .inr ⟨?_, rfl⟩
      rw [Session.object, Array.getElem?_eq_none (Nat.le_refl _)]
      rfl
    case isFalse => exact .inl rfl

/-! ## Calls -/

theorem gives_call {s : Session} {id : Nat} {d : StreamDecoder} {keeps more : Bool}
    {args : List Value} {chunk : List UInt8} (stands : Stands s id d keeps)
    (input : Gives (TextCodec.inputBytes (argument args 0)) s chunk s)
    (stream : Gives (isOn (argument args 1) "stream") s more s) :
    ∃ s', Gives (call (.object id) "decode" args) s
        (textValue ((⟨keeps, d.pending⟩ : StreamDecoder).decode chunk more).1) s' ∧
      Stands s' id ((⟨keeps, d.pending⟩ : StreamDecoder).decode chunk more).2 keeps ∧ SameBytes s s' := by
  have within : id < s.held.size :=
    Session.lt_of_object (by rw [stands.decoder]; exact HostObject.noConfusion)
  generalize result : (⟨keeps, d.pending⟩ : StreamDecoder).decode chunk more = answer
  have given : Gives (TextCodec.decode id d args) s (textValue answer.1)
      (s.replaced id (.decoder answer.2)) := by
    refine input.bind (stream.bind ((Gives.ownProperty id "ignoreBOM" s).bind ?_))
    rw [stands.marks]
    simp only [result]
    exact (Gives.replace id _ s).bind (.pure _ _)
  refine ⟨s.replaced id (.decoder answer.2), ?_, ⟨?_, ?_, ?_⟩, fun other => ?_⟩
  · refine Gives.call ?_ (fun _ => ?_) stands.method given
    · rw [stands.decoder]
      rfl
    · rw [stands.decoder]
      exact HostObject.noConfusion
  · rw [Session.object_replaced, if_pos ⟨rfl, within⟩]
  · rw [Session.own_replaced, stands.method]
  · rw [Session.own_replaced, stands.marks]
  · rw [Session.object_replaced]
    split
    case isTrue here =>
      rw [← here.1, stands.decoder]
      exact .inr ⟨rfl, rfl⟩
    case isFalse => exact .inl rfl

theorem gives_more {s : Session} {id : Nat} {d : StreamDecoder} {keeps : Bool} {piece : Value}
    {chunk : List UInt8} (stands : Stands s id d keeps) (shows : Shows s piece chunk) :
    ∃ s', Gives (call (.object id) "decode" [piece, .record [("stream", .bool true)]]) s
        (textValue ((⟨keeps, d.pending⟩ : StreamDecoder).decode chunk true).1) s' ∧
      Stands s' id ((⟨keeps, d.pending⟩ : StreamDecoder).decode chunk true).2 keeps ∧ SameBytes s s' := by
  have on : ((Value.record [("stream", .bool true)]).property "stream").isTruthy = true := by
    decide +kernel
  have stream := Gives.isOn [("stream", .bool true)] "stream" s
  rw [on] at stream
  exact gives_call stands shows.gives stream

/-- The texts of all calls are those of the decoder alone. -/
theorem gives_feed {s : Session} {id : Nat} {d : StreamDecoder} {keeps : Bool}
    {pieces : List (Value × List UInt8)} (stands : Stands s id d keeps)
    (shown : ∀ p ∈ pieces, Shows s p.1 p.2) :
    ∃ s', Gives (feed (.object id) (pieces.map (·.1))) s
      (((⟨keeps, d.pending⟩ : StreamDecoder).decodeAll (pieces.map (·.2))).map textValue) s' := by
  induction pieces generalizing s d with
  | nil =>
      have input : Gives (TextCodec.inputBytes (argument [] 0)) s [] s := .pure [] s
      have stream : Gives (isOn (argument [] 1) "stream") s false s := .pure false s
      obtain ⟨s', given, _⟩ := gives_call stands input stream
      exact ⟨s', given.bind (.pure _ s')⟩
  | cons p pieces ih =>
      obtain ⟨shows, others⟩ := List.forall_mem_cons.mp shown
      obtain ⟨s₁, given, stands, same⟩ := gives_more stands shows
      obtain ⟨s₂, rest⟩ := ih stands fun q member => (others q member).mono same
      exact ⟨s₂, given.bind (rest.bind (.pure _ s₂))⟩

theorem gives_decodePieces {s : Session} {label options : Value} {keeps : Bool}
    {pieces : List (Value × List UInt8)} (known : Utf8Label label) (chosen : Options options keeps)
    (shown : ∀ p ∈ pieces, Shows s p.1 p.2) :
    ∃ s', Gives (decodePieces label options (pieces.map (·.1))) s
      (((⟨keeps, []⟩ : StreamDecoder).decodeAll (pieces.map (·.2))).map textValue) s' := by
  obtain ⟨id, s₁, made, stands, same⟩ := gives_construct known chosen s
  obtain ⟨s₂, given⟩ := gives_feed stands fun p member => (shown p member).mono same
  exact ⟨s₂, made.bind given⟩

theorem gives_decodeWhole {s : Session} {label options whole : Value} {keeps : Bool}
    {bytes : List UInt8} (known : Utf8Label label) (chosen : Options options keeps)
    (shows : Shows s whole bytes) :
    ∃ s', Gives (decodeWhole label options whole) s
      (textValue ((⟨keeps, []⟩ : StreamDecoder).decode bytes false).1) s' := by
  obtain ⟨id, s₁, made, stands, same⟩ := gives_construct known chosen s
  have input : Gives (TextCodec.inputBytes (argument [whole] 0)) s₁ bytes s₁ := (shows.mono same).gives
  have stream : Gives (isOn (argument [whole] 1) "stream") s₁ false s₁ := .pure false s₁
  obtain ⟨s₂, given, _⟩ := gives_call stands input stream
  exact ⟨s₂, made.bind given⟩

/-! ## Texts of all pieces -/

/-- A session with two memories and a third that shows what they show one behind the other. -/
def twoPieces (front back : List UInt8) : Session :=
  { held := #[⟨.memory front, []⟩, ⟨.memory back, []⟩, ⟨.memory (front ++ back), []⟩] }

theorem shows_twoPieces (front back : List UInt8) :
    (∀ p ∈ [(Value.object 0, front), (Value.object 1, back)],
      Shows (twoPieces front back) p.1 p.2) ∧
    Shows (twoPieces front back) (.object 2) (front ++ back) := by
  refine ⟨?_, .memory rfl⟩
  simp only [List.forall_mem_cons]
  exact ⟨.memory rfl, .memory rfl, fun _ none => absurd none List.not_mem_nil⟩

/-- A decoder that keeps marks gives for pieces, together, what it gives for all bytes at once: the text
in which each longest start of a character that is not completed is replaced. -/
theorem decodePieces_keeps {s : Session} {label options whole : Value}
    {pieces : List (Value × List UInt8)} (known : Utf8Label label) (chosen : Options options true)
    (shown : ∀ p ∈ pieces, Shows s p.1 p.2) (shows : Shows s whole (pieces.map (·.2)).flatten) :
    ∃ (texts : List (List Char)) (text : List Char) (s₁ s₂ : Session),
      Gives (decodePieces label options (pieces.map (·.1))) s (texts.map textValue) s₁ ∧
      Gives (decodeWhole label options whole) s (textValue text) s₂ ∧
      texts.flatten = text ∧ Lossy (pieces.map (·.2)).flatten text := by
  obtain ⟨s₁, given⟩ := gives_decodePieces known chosen shown
  obtain ⟨s₂, atOnce⟩ := gives_decodeWhole known chosen shows
  refine ⟨_, _, s₁, s₂, given, atOnce, ?_, ?_⟩
  · rw [StreamDecoder.decodeAll_keeps rfl, StreamDecoder.decode_end]
    rfl
  · rw [StreamDecoder.decode_end]
    exact (lossy_iff _ _).mpr rfl

theorem decodePieces_keeps_euro : ∃ (texts : List (List Char)) (text : List Char) (s₁ s₂ : Session),
    Gives (decodePieces (.text "UTF-8") (.record [("ignoreBOM", .bool true)]) [.object 0, .object 1])
      (twoPieces [0xE2, 0x82] [0xAC, 0xF0]) (texts.map textValue) s₁ ∧
    Gives (decodeWhole (.text "UTF-8") (.record [("ignoreBOM", .bool true)]) (.object 2))
      (twoPieces [0xE2, 0x82] [0xAC, 0xF0]) (textValue text) s₂ ∧
    texts.flatten = text ∧ Lossy [0xE2, 0x82, 0xAC, 0xF0] text := by
  have on : ((Value.record [("ignoreBOM", .bool true)]).property "ignoreBOM").isTruthy = true := by
    decide +kernel
  have chosen := Options.fields [("ignoreBOM", .bool true)]
  rw [on] at chosen
  have shown := shows_twoPieces [0xE2, 0x82] [0xAC, 0xF0]
  have known : Utf8Label (.text "UTF-8") := .named (by decide +kernel)
  have given := decodePieces_keeps known chosen shown.1 shown.2
  exact given

/-- A decoder without options gives for pieces of a text, together, the text without the mark in front
and with all others just when none of the others stands where a piece ends.  For all bytes at once it
always does. -/
theorem decodePieces_marks_iff {s : Session} {label options whole : Value}
    {pieces : List (Value × List UInt8)} {text : List Char} (known : Utf8Label label)
    (chosen : Options options false) (shown : ∀ p ∈ pieces, Shows s p.1 p.2)
    (shows : Shows s whole (pieces.map (·.2)).flatten)
    (valid : (pieces.map (·.2)).flatten = encodeUtf8 text) :
    ∃ (texts : List (List Char)) (s₁ s₂ : Session),
      Gives (decodePieces label options (pieces.map (·.1))) s (texts.map textValue) s₁ ∧
      Gives (decodeWhole label options whole) s (textValue (StreamDecoder.dropMark text)) s₂ ∧
      (texts.flatten = StreamDecoder.dropMark text ↔
        StreamDecoder.MarksWhole 0 (pieces.map (·.2)) text) := by
  obtain ⟨s₁, given⟩ := gives_decodePieces known chosen shown
  obtain ⟨s₂, atOnce⟩ := gives_decodeWhole known chosen shows
  refine ⟨_, s₁, s₂, given, ?_, StreamDecoder.decodeAll_marks_iff valid⟩
  rw [StreamDecoder.decode_end, valid] at atOnce
  rw [← decodeUtf8_encodeUtf8 text]
  exact atOnce

theorem decodePieces_marks_split : ∃ (texts : List (List Char)) (s₁ s₂ : Session),
    Gives (decodePieces .undefined .undefined [.object 0, .object 1])
      (twoPieces [0xEF, 0xBB] [0xBF, 0x61]) (texts.map textValue) s₁ ∧
    Gives (decodeWhole .undefined .undefined (.object 2)) (twoPieces [0xEF, 0xBB] [0xBF, 0x61])
      (textValue (StreamDecoder.dropMark ['\ufeff', 'a'])) s₂ ∧
    (texts.flatten = StreamDecoder.dropMark ['\ufeff', 'a'] ↔
      StreamDecoder.MarksWhole 0 [[0xEF, 0xBB], [0xBF, 0x61]] ['\ufeff', 'a']) := by
  have shown := shows_twoPieces [0xEF, 0xBB] [0xBF, 0x61]
  have valid : [0xEF, 0xBB, 0xBF, 0x61] = encodeUtf8 ['\ufeff', 'a'] := by decide +kernel
  have given := decodePieces_marks_iff .default .none shown.1 shown.2 valid
  exact given

/-- A mark at the start of a later piece is lost. -/
theorem decodePieces_loses_mark : ∃ s₁ s₂ : Session,
    [0x61, 0xEF, 0xBB, 0xBF, 0x62] = encodeUtf8 ['a', '\ufeff', 'b'] ∧
    Gives (decodePieces .undefined .undefined [.object 0, .object 1])
      (twoPieces [0x61] [0xEF, 0xBB, 0xBF, 0x62]) [textValue ['a'], textValue ['b'], textValue []] s₁ ∧
    Gives (decodeWhole .undefined .undefined (.object 2)) (twoPieces [0x61] [0xEF, 0xBB, 0xBF, 0x62])
      (textValue ['a', '\ufeff', 'b']) s₂ ∧
    ['a', 'b'] ≠ ['a', '\ufeff', 'b'] := by
  have shown := shows_twoPieces [0x61] [0xEF, 0xBB, 0xBF, 0x62]
  obtain ⟨s₁, given⟩ := gives_decodePieces .default .none shown.1
  obtain ⟨s₂, atOnce⟩ := gives_decodeWhole .default .none shown.2
  have texts : (⟨false, []⟩ : StreamDecoder).decodeAll [[0x61], [0xEF, 0xBB, 0xBF, 0x62]] =
      [['a'], ['b'], []] := by
    decide +kernel
  have text : ((⟨false, []⟩ : StreamDecoder).decode [0x61, 0xEF, 0xBB, 0xBF, 0x62] false).1 =
      ['a', '\ufeff', 'b'] := by
    decide +kernel
  simp only [List.map_cons, List.map_nil, texts] at given
  simp only [List.cons_append, List.nil_append, text] at atOnce
  exact ⟨s₁, s₂, by decide +kernel, given, atOnce, by decide⟩

end JsxPreview.Sandbox
