import JsxPreview.Proofs.Codec.Encodings
import JsxPreview.Proofs.Sandbox.Gives

/-! # Buffers and their texts

A buffer of some bytes gives a text in each encoding, and a text makes a buffer of its bytes
(`gives_written`, `gives_ofText`).  Which bytes come back is a matter of the encoding alone
(`buffers_reread`). -/
set_option autoImplicit false
namespace JsxPreview.Sandbox.Bytes

open JsxPreview.Codec
open JsxPreview.Script
open JsxPreview.Text
open Sandboxed

/-- Makes a buffer of bytes, and asks for its text. -/
def written (name : String) (bytes : List UInt8) : Sandboxed Value := do
  let buffer ← ofValue [.list (bytes.map fun b => number b.toNat)]
  call buffer "toString" [.text name]

/-- An object that is a buffer of bytes. -/
structure IsBuffer (s : Session) (id : Nat) (bytes : List UInt8) : Prop where
  view : ∃ v, s.object id = .view v ∧ v.isBuffer = true ∧ v.length = bytes.length ∧
    s.bytesOf v = bytes
  own : s.own id = []

variable {s s' : Session} {id : Nat} {bytes : List UInt8}

/-! ## Numbers -/

theorem truncate?_small {n : Nat} (small : n < 256) : (Double.ofNat n).truncate? = some (n : Int) := by
  have digits : ∀ high < 16, ∀ low < 16,
      (Double.ofNat (high * 16 + low)).truncate? = some ((high * 16 + low : Nat) : Int) := by
    decide +kernel
  have value : n / 16 * 16 + n % 16 = n := by omega
  rw [← value]
  exact digits (n / 16) (by omega) (n % 16) (by omega)

theorem toByte_number {x : Double} {b : UInt8} (whole : x.truncate? = some (b.toNat : Int)) :
    (Value.number x).toByte = .ok b := by
  have value : ((b.toNat : Int).emod 256).toNat = b.toNat := by
    have bound := b.toNat_lt
    change ((b.toNat : Int) % 256).toNat = b.toNat
    omega
  have number : (Value.number x).toNumber = .ok x := rfl
  rw [Value.toByte, number]
  simp only [bind, Except.bind, whole, value, UInt8.ofNat_toNat]
  rfl

theorem toPlace_zero {x : Double} (whole : x.truncate? = some 0) (length : Nat) :
    (Value.number x).toPlace length = .ok 0 := by
  have number : (Value.number x).toNumber = .ok x := rfl
  have zero : (Value.number x).toWhole length = .ok 0 := by
    rw [Value.toWhole, number]
    simp only [bind, Except.bind, whole]
    rfl
  rw [Value.toPlace, zero]
  change Except.ok (min 0 length) = _
  rw [Nat.zero_min]

theorem gives_toByte (b : UInt8) (s : Session) : Gives (toByte (number b.toNat)) s b s := by
  have read := toByte_number (truncate?_small b.toNat_lt)
  change Gives (ofExcept (Value.number (.ofNat b.toNat)).toByte) s b s
  rw [read]
  exact .pure b s

theorem gives_place (length : Nat) (s : Session) : Gives (toPlace length (number 0)) s 0 s := by
  have place := toPlace_zero (truncate?_small (n := 0) (by decide)) length
  change Gives (ofExcept ((Value.number (.ofNat 0)).toPlace length)) s 0 s
  rw [place]
  exact .pure 0 s

/-! ## Making buffers -/

theorem gives_makeView (bytes : List UInt8) (s : Session) : ∃ id s',
    Gives (makeView true bytes) s (.object id) s' ∧ IsBuffer s' id bytes := by
  let stored := s.added (.memory bytes) []
  let view : View := ⟨s.held.size, 0, bytes.length, true⟩
  have made : Gives (makeView true bytes) s (.object stored.held.size)
      (stored.added (.view view) []) :=
    (Gives.create (.memory bytes) [] s).bind (Gives.make (.view view) stored)
  have memory : (stored.added (.view view) []).object s.held.size = .memory bytes := by
    have before : s.held.size ≠ stored.held.size := by simp [stored, Session.added]
    rw [Session.object_added, if_neg before, Session.object_added, if_pos rfl]
  have shown : (stored.added (.view view) []).bytesOf view = bytes := by
    rw [Session.bytesOf, memory]
    exact List.take_length
  refine ⟨_, _, made, ⟨view, ?_, rfl, rfl, shown⟩, ?_⟩
  · rw [Session.object_added, if_pos rfl]
  · rw [Session.own_added, if_pos rfl]

theorem gives_ofBytes (bytes : List UInt8) (s : Session) : ∃ id s',
    Gives (ofValue [.list (bytes.map fun b => number b.toNat)]) s (.object id) s' ∧
      IsBuffer s' id bytes := by
  obtain ⟨buffer, s', made, is⟩ := gives_makeView bytes s
  have items : Gives ((bytes.map fun b => number b.toNat).mapM toByte) s (bytes.map id) s :=
    Gives.mapM (fun b => gives_toByte b s) bytes
  rw [List.map_id] at items
  exact ⟨buffer, s', items.bind made, is⟩

/-! ## Encodings -/

theorem gives_encodingOf {name : String} {e : Encoding} (named : Encoding.ofName? name = some e)
    (s : Session) : Gives (encodingOf (.text name)) s e s := by
  have some : (Value.text name).isTruthy = true := by
    refine decide_eq_true ?_
    rintro rfl
    have none : Encoding.ofName? "" = none := by decide
    exact nomatch none.symm.trans named
  have text : Gives (textOr "utf8" (.text name)) s name s := by
    rw [textOr, some]
    exact .toText name s
  refine text.bind ?_
  rw [named]
  exact .pure e s

theorem IsBuffer.call (is : IsBuffer s id bytes) {name : String} {e : Encoding}
    (named : Encoding.ofName? name = some e) :
    Gives (call (.object id) "toString" [.text name]) s (decodeText e bytes) s := by
  obtain ⟨⟨v, view, buffer, length, shown⟩, own⟩ := is
  have part : Gives (slice v (number 0) .undefined) s bytes s := by
    have all : Gives (slice v (number 0) .undefined) s
        (((s.bytesOf v).take v.length).drop 0) s :=
      (gives_place v.length s).bind (.pure _ s)
    rw [shown, length, List.take_length] at all
    exact all
  have given : Gives (viewText v [.text name]) s (decodeText e bytes) s := by
    refine (Gives.session s).bind ?_
    rw [buffer]
    exact part.bind ((gives_encodingOf named s).bind (.pure _ s))
  refine .call ?_ ?_ ?_ given
  · rw [view]
    rfl
  · rw [view]
    exact nofun
  · rw [own]
    rfl

/-- A text makes a buffer of its bytes. -/
theorem gives_ofText {name : String} {e : Encoding} (named : Encoding.ofName? name = some e)
    (text : List Char) (s : Session) : ∃ id s',
    Gives (ofValue [.text (String.ofList text), .text name]) s (.object id) s' ∧
      IsBuffer s' id (e.encode (toUnits text)) := by
  obtain ⟨id, s', made, is⟩ := gives_makeView (e.encode (toUnits text)) s
  have encoded : Gives (encodeValue (.text (String.ofList text)) (.text name)) s
      (e.encode (toUnits text)) s := by
    have all : Gives (encodeValue (.text (String.ofList text)) (.text name)) s
        (e.encode (toUnits (String.ofList text).toList)) s :=
      (gives_encodingOf named s).bind (.pure _ s)
    rwa [String.toList_ofList] at all
  exact ⟨id, s', encoded.bind made, is⟩

theorem ofUtf16_toUnits (text : List Char) :
    Value.ofUtf16 (toUnits text) = .text (String.ofList text) := by
  rw [Value.ofUtf16, ofUnits_toUnits, if_pos rfl]

/-- Units with surrogates that stand alone make one where the encoding goes by units. -/
theorem gives_ofUtf16 {name : String} {e : Encoding} (named : Encoding.ofName? name = some e)
    {u : List UInt16}
    (known : toUnits (ofUnits u) = u ∨ e = .ascii ∨ e = .latin1 ∨ e = .utf16le) (s : Session) :
    ∃ id s', Gives (ofValue [.ofUtf16 u, .text name]) s (.object id) s' ∧
      IsBuffer s' id (e.encode u) := by
  by_cases paired : toUnits (ofUnits u) = u
  · have text := gives_ofText named (ofUnits u) s
    rw [paired] at text
    rwa [Value.ofUtf16, if_pos paired]
  · obtain ⟨id, s', made, is⟩ := gives_makeView (e.encode u) s
    have encoded : Gives (encodeValue (.units u) (.text name)) s (e.encode u) s := by
      rcases known with pairs | rfl | rfl | rfl
      · exact absurd pairs paired
      all_goals exact (gives_encodingOf named s).bind (.pure _ s)
    refine ⟨id, s', ?_, is⟩
    rw [Value.ofUtf16, if_neg paired]
    exact encoded.bind made

/-- The encodings that do not go by units give characters. -/
theorem decode_known (e : Encoding) (bytes : List UInt8) :
    toUnits (ofUnits (e.decode bytes)) = e.decode bytes ∨
      e = .ascii ∨ e = .latin1 ∨ e = .utf16le := by
  cases e with
  | utf8 | base64 | base64url | hex =>
      refine .inl ?_
      rw [Encoding.decode, ofUnits_toUnits]
  | ascii => exact .inr (.inl rfl)
  | latin1 => exact .inr (.inr (.inl rfl))
  | utf16le => exact .inr (.inr (.inr rfl))

/-! ## There and back -/

/-- A buffer of any bytes gives a text in an encoding, and from the text a buffer is made.  In hexadecimal
and base 64, with either alphabet, it has the same bytes.  In UTF-16 it has them if there is an even number
of them, and in UTF-8 if they are UTF-8, and only then.  With blanks put anywhere into the text in base 64,
or without its padding, the bytes are still the same. -/
theorem buffers_reread {name : String} {e : Encoding} (named : Encoding.ofName? name = some e)
    (bytes : List UInt8) (s : Session) : ∃ text s₁ copy copied s₂,
      Gives (written name bytes) s text s₁ ∧
      Gives (ofValue [text, .text name]) s₁ (.object copy) s₂ ∧ IsBuffer s₂ copy copied ∧
      (e = .hex ∨ e = .base64 ∨ e = .base64url → copied = bytes) ∧
      (e = .utf16le → (copied = bytes ↔ bytes.length % 2 = 0)) ∧
      (e = .utf8 → (copied = bytes ↔ ∃ chars, bytes = encodeUtf8 chars)) ∧
      (e = .base64 ∨ e = .base64url → ∃ chars, text = .text (String.ofList chars) ∧
        ∀ loose, Base64.Loosened chars loose → ∃ copy s₂,
          Gives (ofValue [.text (String.ofList loose), .text name]) s₁ (.object copy) s₂ ∧
          IsBuffer s₂ copy bytes) := by
  obtain ⟨buffer, s₁, made, is⟩ := gives_ofBytes bytes s
  obtain ⟨copy, s₂, again, isCopy⟩ := gives_ofUtf16 named (decode_known e bytes) s₁
  refine ⟨decodeText e bytes, s₁, copy, _, s₂, made.bind (is.call named), again, isCopy,
    fun spelled => Encoding.encode_decode_spelled spelled bytes, ?_, ?_, ?_⟩
  · rintro rfl
    exact Encoding.encode_decode_utf16le bytes
  · rintro rfl
    exact Encoding.encode_decode_utf8 bytes
  · rintro (rfl | rfl)
    · refine ⟨Base64.encode bytes, ofUtf16_toUnits _, fun loose loosened => ?_⟩
      have same : Encoding.encode .base64 (toUnits loose) = bytes := by
        rw [Encoding.encode, ofUnits_toUnits, loosened.decode_encode]
      rw [← same]
      exact gives_ofText named loose s₁
    · refine ⟨Encoding.urlForm (Base64.encode bytes), ofUtf16_toUnits _, fun loose loosened => ?_⟩
      have same : Encoding.encode .base64url (toUnits loose) = bytes := by
        rw [Encoding.encode, ofUnits_toUnits, loosened.decode_urlForm]
      rw [← same]
      exact gives_ofText named loose s₁

/-- A surrogate that stands alone comes back, and the bytes of a text in base 64 with blanks around it. -/
theorem buffers_reread_surrogate :
    (∃ text s₁ copy s₂, Gives (written "UTF-16le" [0x00, 0xd8, 0x61, 0x00]) {} text s₁ ∧
      Gives (ofValue [text, .text "UTF-16le"]) s₁ (.object copy) s₂ ∧
      IsBuffer s₂ copy [0x00, 0xd8, 0x61, 0x00]) ∧
    ∃ chars s₁ copy s₂,
      Gives (written "base64url" [0xfb, 0xff]) {} (.text (String.ofList chars)) s₁ ∧
      Gives (ofValue [.text (String.ofList (' ' :: (chars ++ ['\n']))), .text "base64url"]) s₁
        (.object copy) s₂ ∧ IsBuffer s₂ copy [0xfb, 0xff] := by
  constructor
  · have named : Encoding.ofName? "UTF-16le" = some .utf16le := by decide
    obtain ⟨text, s₁, copy, copied, s₂, given, again, is, -, units, -⟩ :=
      buffers_reread named [0x00, 0xd8, 0x61, 0x00] {}
    rw [(units rfl).mpr rfl] at is
    exact ⟨text, s₁, copy, s₂, given, again, is⟩
  · have named : Encoding.ofName? "base64url" = some .base64url := by decide
    obtain ⟨text, s₁, -, -, -, given, -, -, -, -, -, url⟩ := buffers_reread named [0xfb, 0xff] {}
    obtain ⟨chars, rfl, loose⟩ := url (.inr rfl)
    have behind : Base64.Loosened chars (chars ++ ['\n']) :=
      .blank (by rw [List.append_nil]; exact .same) (by decide)
    have around : Base64.Loosened chars ([] ++ ' ' :: (chars ++ ['\n'])) :=
      .blank behind (by decide)
    obtain ⟨copy, s₂, again, is⟩ := loose _ around
    exact ⟨chars, s₁, copy, s₂, given, again, is⟩

end JsxPreview.Sandbox.Bytes
