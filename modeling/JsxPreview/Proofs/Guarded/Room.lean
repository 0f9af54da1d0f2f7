import JsxPreview.Proofs.Analysis.Rows
import JsxPreview.Proofs.Scanner.Tiling

/-! # Room in a range

A row lies in a source when its tokens tile a stretch of it (`TokenRow.Lies`).  A range of tokens has
room for calls: sixteen for each character from the first token of the range up to the one that ends
it (`TokenRow.room`).  A narrower range has less room by sixteen at least (`Lies.room_lt`), and what
is nested in a token fits into the room of the token (`Lies.partsRoom_le`, `Lies.bodiesRoom_le`). -/
set_option autoImplicit false
namespace JsxPreview.Source

open JsxPreview.Text

/-! ## Characters -/

/-- How many characters start before byte `n`. -/
def charsBefore (source : List Char) (n : Nat) : Nat := (takeBytes n source).length

theorem charsBefore_le_length (source : List Char) (n : Nat) :
    charsBefore source n ≤ source.length := by
  have whole := congrArg List.length (takeBytes_append_dropBytes n source)
  rw [List.length_append] at whole
  exact Nat.le.intro whole

theorem charsBefore_mono (source : List Char) {m n : Nat} (le : m ≤ n) :
    charsBefore source m ≤ charsBefore source n := by
  unfold charsBefore
  induction source generalizing m n with
  | nil => exact Nat.le_refl _
  | cons c s ih =>
      unfold takeBytes
      by_cases first : m = 0
      · rw [if_pos first]
        exact Nat.zero_le _
      · rw [if_neg first, if_neg (by omega)]
        exact Nat.succ_le_succ (ih (Nat.sub_le_sub_right le _))

/-- A character starts at a place between two characters that is not the end. -/
theorem charsBefore_lt {source : List Char} {m n : Nat} (boundary : isBoundary m source = true)
    (less : m < n) (ends : n ≤ byteLength source) : charsBefore source m < charsBefore source n := by
  unfold charsBefore
  induction source generalizing m n with
  | nil =>
      rw [byteLength_nil] at ends
      omega
  | cons c s ih =>
      unfold takeBytes
      rw [if_neg (show n ≠ 0 by omega)]
      by_cases first : m = 0
      · rw [if_pos first]
        exact Nat.succ_pos _
      · rw [if_neg first]
        rw [isBoundary, Bool.or_eq_true, Bool.and_eq_true, decide_eq_true_iff,
          decide_eq_true_iff] at boundary
        obtain ⟨size, boundary⟩ := boundary.resolve_left first
        rw [byteLength_cons] at ends
        exact Nat.succ_lt_succ (ih boundary (by omega) (by omega))

/-- The calls that there is room for between two bytes. -/
def roomBetween (source : List Char) (start stop : Nat) : Nat :=
  16 * (charsBefore source stop - charsBefore source start)

theorem roomBetween_le {source : List Char} {start stop start' stop' : Nat} (starts : start ≤ start')
    (stops : stop' ≤ stop) : roomBetween source start' stop' ≤ roomBetween source start stop := by
  have := charsBefore_mono source starts
  have := charsBefore_mono source stops
  unfold roomBetween
  omega

theorem Stretch.stop_le {source text : List Char} {low high : Nat}
    (stretch : Stretch source low high text) : high ≤ byteLength source := by
  obtain ⟨front, back, rfl, rfl, rfl⟩ := stretch
  rw [byteLength_append, byteLength_append]
  exact Nat.le_add_right _ _

theorem Tiles.stretch_within {source : List Char} {low high : Nat} {ts : List Token}
    (tiles : Tiles source low high ts) {t : Token} (within : t.Within ts) :
    Stretch source t.start t.stop t.text.toList := by
  induction within generalizing low high with
  | here member =>
      obtain ⟨row, _⟩ := tiles
      exact (row.of_mem member).2.2.2
  | inside member container _ ih =>
      obtain ⟨_, _, _, _, _, nested⟩ := tiles
      exact ih (nested _ member _ container)

/-! ## Containers -/

/-- What the walks over the substitutions among parts of a template need. -/
def partsRoom (source : List Char) : List TemplatePart → Nat
  | [] => 1
  | .raw _ _ :: rest => partsRoom source rest + 1
  | .subst b :: rest => roomBetween source b.start b.stop + 5 + partsRoom source rest

/-- What the walks over containers need. -/
def bodiesRoom (source : List Char) : List Body → Nat
  | [] => 1
  | b :: rest => roomBetween source b.start b.stop + 5 + bodiesRoom source rest

theorem Tiles.le {source : List Char} {low high : Nat} {ts : List Token}
    (tiles : Tiles source low high ts) : low ≤ high := by
  obtain ⟨row, _⟩ := tiles
  exact row.le

theorem charsBefore_brace {source : List Char} {n : Nat}
    (closed : Stretch source n (n + 1) ['\x7d']) : charsBefore source n < charsBefore source (n + 1) :=
  charsBefore_lt closed.isBoundary.1 (Nat.lt_succ_self n) closed.stop_le

/-- Each substitution stands behind a raw part that is not empty. -/
theorem PartsTile.room_le {source : List Char} {start stop : Nat} {parts : List TemplatePart}
    (tile : PartsTile stop start parts) (boundary : isBoundary start source = true)
    (closed : ∀ b ∈ (Shape.template parts).bodies, Stretch source b.stop (b.stop + 1) ['\x7d']) :
    partsRoom source parts ≤ roomBetween source start stop + 2 := by
  induction tile with
  | last _ => exact Nat.le_add_left 2 _
  | @more start b parts grows inside others ih =>
      have own := closed b (List.mem_cons_self ..)
      have rest := ih own.isBoundary.1 fun c container => closed c (List.mem_cons_of_mem _ container)
      have first := charsBefore_lt boundary grows
        (Nat.le_trans inside (Nat.le_of_succ_le own.stop_le))
      have second := charsBefore_mono source inside
      have third := charsBefore_mono source others.le
      unfold roomBetween at *
      rw [partsRoom, partsRoom, roomBetween]
      omega

/-- Behind each container stands its closing brace. -/
theorem Follow.room_le {source : List Char} {low high : Nat} {bs : List Body}
    (follow : Follow Body.span low high bs)
    (closed : ∀ b ∈ bs, b.start ≤ b.stop ∧ Stretch source b.stop (b.stop + 1) ['\x7d']) :
    bodiesRoom source bs ≤ roomBetween source low high + 1 := by
  induction bs generalizing low with
  | nil => exact Nat.le_add_left 1 _
  | cons b bs ih =>
      obtain ⟨begins, _, others⟩ := follow
      obtain ⟨own, brace⟩ := closed b (List.mem_cons_self ..)
      have rest := ih others fun c container => closed c (List.mem_cons_of_mem _ container)
      have first := charsBefore_mono source begins
      have second := charsBefore_mono source own
      have third := charsBefore_brace brace
      have fourth := charsBefore_mono source others.le
      simp only [Body.span, roomBetween] at *
      rw [bodiesRoom, roomBetween]
      omega

/-! ## Ranges -/

/-- The tokens from `i'` up to `stop'` are among those from `i` up to `stop`. -/
def Within (i stop i' stop' : Nat) : Prop := i' < stop' → i ≤ i' ∧ stop' ≤ stop

/-- The tokens from `i'` up to `stop'` are among those from `i` up to `stop`, and fewer. -/
def Narrower (i stop i' stop' : Nat) : Prop := Within i stop i' stop' ∧ stop' - i' < stop - i

instance (i stop i' stop' : Nat) : Decidable (Within i stop i' stop') :=
  inferInstanceAs (Decidable (i' < stop' → i ≤ i' ∧ stop' ≤ stop))

instance (i stop i' stop' : Nat) : Decidable (Narrower i stop i' stop') :=
  inferInstanceAs (Decidable (Within i stop i' stop' ∧ stop' - i' < stop - i))

theorem Narrower.of_lt {i stop i' stop' : Nat} (starts : i ≤ i') (stops : stop' ≤ stop)
    (shorter : stop' - i' < stop - i) : Narrower i stop i' stop' :=
  ⟨fun _ => ⟨starts, stops⟩, shorter⟩

namespace TokenRow

/-! ## Rows in a source -/

/-- The tokens of the row tile the source between two bytes. -/
def Lies (row : TokenRow) (source : List Char) (low high : Nat) : Prop :=
  ∃ ts, row = ofTokens source ts ∧ Tiles source low high ts ∧ Spanned low high ts

/-- The number of characters in front of a token of a row that ends at byte `high`. -/
def mark (row : TokenRow) (source : List Char) (high i : Nat) : Nat :=
  charsBefore source (if i < row.size then row.start i else high)

/-- The calls that there is room for in the tokens from `i` up to `stop`. -/
def room (row : TokenRow) (source : List Char) (high i stop : Nat) : Nat :=
  16 * (row.mark source high stop - row.mark source high i)

namespace Lies

variable {row : TokenRow} {source : List Char} {low high i j stop : Nat}

/-- The places of a token in a row. -/
theorem token (lies : row.Lies source low high) {t : Token} (found : row.get? i = some t) :
    low ≤ t.start ∧ t.start < t.stop ∧ t.stop ≤ high ∧
      Stretch source t.start t.stop t.text.toList := by
  obtain ⟨ts, rfl, ⟨tiled, _, _, _, _, _⟩, _⟩ := lies
  exact tiled.of_mem (mem_of_get? found)

theorem stop_le_start (lies : row.Lies source low high) (less : i < j) (inRow : j < row.size) :
    row.stop i ≤ row.start j := by
  obtain ⟨ts, rfl, _, spanned⟩ := lies
  exact TokenRow.stop_le_start spanned less inRow

theorem isBoundary_stop (lies : row.Lies source low high) (inRow : i < row.size) :
    isBoundary (row.stop i) source = true := by
  obtain ⟨t, found⟩ := get?_of_lt inRow
  obtain ⟨_, _, _, stretch⟩ := lies.token found
  rw [stop_of_get? found]
  exact stretch.isBoundary.2

theorem isBoundary_start (lies : row.Lies source low high) (inRow : i < row.size) :
    isBoundary (row.start i) source = true := by
  obtain ⟨t, found⟩ := get?_of_lt inRow
  obtain ⟨_, _, _, stretch⟩ := lies.token found
  rw [start_of_get? found]
  exact stretch.isBoundary.1

/-- The characters of a token lie between its mark and the next one. -/
theorem stop_le_mark (lies : row.Lies source low high) (inRow : i < row.size) :
    charsBefore source (row.stop i) ≤ row.mark source high (i + 1) := by
  unfold mark
  split
  case isTrue next => exact charsBefore_mono source (lies.stop_le_start (Nat.lt_succ_self i) next)
  case isFalse =>
    obtain ⟨t, found⟩ := get?_of_lt inRow
    rw [stop_of_get? found]
    exact charsBefore_mono source (lies.token found).2.2.1

theorem mark_lt (lies : row.Lies source low high) (inRow : i < row.size) :
    row.mark source high i < row.mark source high (i + 1) := by
  obtain ⟨t, found⟩ := get?_of_lt inRow
  obtain ⟨_, grows, _, stretch⟩ := lies.token found
  have own := charsBefore_lt stretch.isBoundary.1 grows stretch.stop_le
  have next := lies.stop_le_mark inRow
  rw [stop_of_get? found] at next
  rw [mark, if_pos inRow, start_of_get? found]
  exact Nat.lt_of_lt_of_le own next

theorem mark_mono (lies : row.Lies source low high) (le : i ≤ j) :
    row.mark source high i ≤ row.mark source high j := by
  induction le with
  | refl => exact Nat.le_refl _
  | @step j _ ih =>
      by_cases inRow : j < row.size
      · exact Nat.le_trans ih (Nat.le_of_lt (lies.mark_lt inRow))
      · have same : row.mark source high (j + 1) = row.mark source high j := by
          rw [mark, mark, if_neg inRow, if_neg (show ¬ j + 1 < row.size by omega)]
        rw [same]
        exact ih

/-! ## The room of a range -/

theorem room_le (lies : row.Lies source low high) {i' stop' : Nat}
    (within : Within i stop i' stop') : row.room source high i' stop' ≤ row.room source high i stop := by
  unfold room
  rcases Nat.lt_or_ge i' stop' with less | empty
  · have := lies.mark_mono (within less).1
    have := lies.mark_mono (within less).2
    omega
  · have := lies.mark_mono empty
    omega

/-- A narrower range has less room. -/
theorem room_lt (lies : row.Lies source low high) {i' stop' : Nat}
    (narrow : Narrower i stop i' stop') (inRow : stop ≤ row.size) :
    row.room source high i' stop' + 16 ≤ row.room source high i stop := by
  obtain ⟨within, shorter⟩ := narrow
  have first := lies.mark_lt (show i < row.size by omega)
  have last := lies.mark_mono (show i + 1 ≤ stop by omega)
  unfold room
  rcases Nat.lt_or_ge i' stop' with less | empty
  · obtain ⟨starts, stops⟩ := within less
    have starts' := lies.mark_mono starts
    have stops' := lies.mark_mono stops
    rcases Nat.lt_or_ge i i' with behind | same
    · have := lies.mark_mono (show i + 1 ≤ i' from behind)
      omega
    · have := lies.mark_lt (show stop' < row.size by omega)
      have := lies.mark_mono (show stop' + 1 ≤ stop by omega)
      have := lies.mark_mono (show i' ≤ stop' by omega)
      omega
  · have := lies.mark_mono empty
    omega

/-- All of a row has no more room than the bytes in which it lies. -/
theorem room_whole (lies : row.Lies source low high) :
    row.room source high 0 row.size ≤ roomBetween source low high := by
  have first : charsBefore source low ≤ row.mark source high 0 := by
    unfold mark
    split
    case isTrue inRow =>
      obtain ⟨t, found⟩ := get?_of_lt inRow
      rw [start_of_get? found]
      exact charsBefore_mono source (lies.token found).1
    case isFalse =>
      obtain ⟨_, _, ⟨tiled, _, _, _, _, _⟩, _⟩ := lies
      exact charsBefore_mono source tiled.le
  have last : row.mark source high row.size = charsBefore source high := by
    rw [mark, if_neg (Nat.lt_irrefl _)]
  unfold room roomBetween
  omega

/-! ## Nested tokens -/

theorem nested (lies : row.Lies source low high) {t : Token} {b : Body}
    (found : row.get? i = some t) (container : b ∈ t.shape.bodies) :
    (row.nested b.tokens).Lies source b.start b.stop := by
  obtain ⟨ts, rfl, ⟨_, _, _, _, _, inside⟩, spanned⟩ := lies
  exact ⟨b.tokens, rfl, inside t (mem_of_get? found) b container,
    spanned.container (mem_of_get? found) container⟩

/-- A token has no more room than the range that starts with it. -/
theorem room_token (lies : row.Lies source low high) {t : Token} (found : row.get? i = some t)
    (less : i < stop) : roomBetween source t.start t.stop ≤ row.room source high i stop := by
  have next := lies.stop_le_mark (lt_of_get? found)
  have last := lies.mark_mono (show i + 1 ≤ stop from less)
  rw [stop_of_get? found] at next
  unfold room roomBetween
  rw [mark, mark, if_pos (lt_of_get? found), start_of_get? found] at *
  omega

/-- There is room for the walks over the substitutions of a template. -/
theorem partsRoom_le (lies : row.Lies source low high) {t : Token} {parts : List TemplatePart}
    (found : row.get? i = some t) (shape : t.shape = .template parts) (less : i < stop) :
    partsRoom source parts ≤ row.room source high i stop + 2 := by
  obtain ⟨_, grows, _, stretch⟩ := lies.token found
  have room := lies.room_token found less
  obtain ⟨ts, rfl, ⟨_, tile, _, _, closed, _⟩, _⟩ := lies
  have member := mem_of_get? found
  have fits := (tile t member parts shape).room_le stretch.isBoundary.1
    fun b container => closed t member b (shape ▸ container)
  omega

/-- There is room for the walks over the containers of an element. -/
theorem bodiesRoom_le (lies : row.Lies source low high) {t : Token} (found : row.get? i = some t)
    (less : i < stop) : bodiesRoom source t.shape.bodies ≤ row.room source high i stop + 1 := by
  have room := lies.room_token found less
  obtain ⟨ts, rfl, ⟨_, _, _, _, closed, inside⟩, ⟨_, _, _, bodies, _⟩⟩ := lies
  have member := mem_of_get? found
  have fits := (bodies t member).room_le fun b container => ⟨(inside t member b container).le,
    closed t member b container⟩
  have inner : roomBetween source (t.start + 1) t.stop ≤ roomBetween source t.start t.stop :=
    roomBetween_le (Nat.le_add_right t.start 1) (Nat.le_refl t.stop)
  omega

end Lies

end TokenRow

end JsxPreview.Source
