import JsxPreview.Bundle.Artifact
import JsxPreview.Proofs.Bundle.Closure
import JsxPreview.Proofs.Emission.Copies
import JsxPreview.Proofs.Text.Places
import JsxPreview.Proofs.TypeErasure

/-! # The map of a bundle is exact

Writing a module adds the code of its function, one source, and at least one line
(`Module.code_write`, `Module.files_write`, `Module.line_lt_write`).  Where its tokens are emitted as a
copy, every line of the copied text is marked with its place in the text that was parsed
(`Module.marks_copy`).

The code of a bundle is the prelude, the scripts of the modules in their order, and an ending
(`code_finished`).  Every text that is copied out of a module stands in it, and from where a line of
it starts the map leads to where the line starts in the file (`bundle_map_exact`): the mark is found
again from the map, and erased types leave every place as it was. -/
set_option autoImplicit false
namespace JsxPreview.Bundle.Module

open JsxPreview.Source JsxPreview.Text

/-- What the tokens of a module are emitted as. -/
def emission (m : Module) (tokens : List Token) (a : Analysis) : List Chunk :=
  Emitter.tokens ⟨m.text.toList, a.rewrites⟩ (byteLength m.text.toList)
    (written m.text.toList tokens).2 0 (written m.text.toList tokens).1

def opening (m : Module) : String :=
  "__preview_modules[" ++ Quoted.json m.id ++ "] = function (exports, require, module) \x7b\n"

/-- The code of a module in front of its tokens. -/
def lead (m : Module) (a : Analysis) : List Char :=
  m.opening.toList ++ codeOf m.resolved (a.header.map Chunk.ofPiece) ++ ['\n']

/-- The code of the function of a module. -/
def script (outDir : Path) (m : Module) : List Char := (write outDir {} m).code.toList

/-- The writer in front of the tokens of a module. -/
def opened (outDir : Path) (w : CodeWriter) (m : Module) (a : Analysis) : CodeWriter :=
  (writePieces m.resolved a.header
    ((w.addSource (outDir.diff m.path) (some m.source)).1.write m.opening)).write "\n"

variable {outDir : Path} {w : CodeWriter} {m : Module} {tokens : List Token} {a : Analysis}

theorem write_code (code : m.body = .code tokens a) :
    write outDir w m = ((m.emission tokens a).foldl
      (Chunk.writeTo m.text.toList w.map.sources.length m.resolved)
        (opened outDir w m a)).write "\n\x7d;\n" := by
  unfold write
  simp only [code]
  rfl

theorem write_data (data : m.body = .data) :
    write outDir w m = (writeData m.text w.map.sources.length
      ((w.addSource (outDir.diff m.path) (some m.source)).1.write m.opening)).write "\n\x7d;\n" := by
  unfold write
  simp only [data]
  rfl

theorem code_opened (outDir : Path) (w : CodeWriter) (m : Module) (a : Analysis) :
    (opened outDir w m a).code.toList = w.code.toList ++ m.lead a := by
  rw [opened, CodeWriter.code_write, writePieces, code_writeAll, CodeWriter.code_write,
    CodeWriter.code_addSource, lead]
  simp

theorem leads_opened (outDir : Path) (w : CodeWriter) (m : Module) (a : Analysis) :
    w.Leads (opened outDir w m a) := by
  have begun : w.Leads ((w.addSource (outDir.diff m.path) (some m.source)).1.write m.opening) :=
    .write _ (.addSource _ _ .refl)
  exact .write _ (begun.trans (leads_writeAll [] 0 m.resolved _ _))

theorem files_opened (outDir : Path) (w : CodeWriter) (m : Module) (a : Analysis) :
    (opened outDir w m a).files =
      (w.map.sources ++ [outDir.diff m.path], w.map.contents ++ [some m.source]) := by
  change (writePieces m.resolved a.header _).files = _
  rw [writePieces, files_writeAll]
  rfl

theorem leads_write (outDir : Path) (w : CodeWriter) (m : Module) :
    w.Leads (write outDir w m) := by
  cases body : m.body with
  | data =>
      rw [write_data body]
      exact .write _ (.write _ (.write _ (.mapTo _ _ _ (.write _ (.write _ (.addSource _ _ .refl))))))
  | code tokens a =>
      rw [write_code body]
      exact .write _ ((leads_opened outDir w m a).trans (leads_writeAll _ _ _ _ _))

theorem code_write (outDir : Path) (w : CodeWriter) (m : Module) :
    (write outDir w m).code.toList = w.code.toList ++ m.script outDir := by
  cases body : m.body with
  | data =>
      rw [script, write_data body, write_data body]
      simp only [writeData, CodeWriter.code_write, CodeWriter.code_mapTo, CodeWriter.code_addSource,
        CodeWriter.code_start, List.nil_append, List.append_assoc]
  | code tokens a =>
      rw [script, write_code body, write_code body]
      simp only [CodeWriter.code_write, code_writeAll, code_opened, CodeWriter.code_start,
        List.nil_append, List.append_assoc]

theorem files_write (outDir : Path) (w : CodeWriter) (m : Module) :
    (write outDir w m).files =
      (w.map.sources ++ [outDir.diff m.path], w.map.contents ++ [some m.source]) := by
  cases body : m.body with
  | data =>
      rw [write_data body]
      exact CodeWriter.files_mapTo _ _ _ _
  | code tokens a =>
      rw [write_code body]
      exact (files_writeAll _ _ _ _ _).trans (files_opened outDir w m a)

/-- The function of a module ends its last line. -/
theorem script_ends (outDir : Path) (m : Module) :
    ∃ front, m.script outDir = front ++ "\n\x7d;\n".toList := by
  unfold script
  cases body : m.body with
  | data =>
      rw [write_data body]
      exact ⟨_, CodeWriter.code_write _ _⟩
  | code tokens a =>
      rw [write_code body]
      exact ⟨_, CodeWriter.code_write _ _⟩

/-- A line of a copied text is marked with its place in the text that was parsed. -/
theorem marks_copy (code : m.body = .code tokens a) {before after : List Chunk} {offset : Nat}
    {text head tail : List Char}
    (emitted : m.emission tokens a = before ++ Chunk.copy offset text ++ after)
    (whole : text = head ++ tail) (nonempty : tail ≠ []) (starts : StartsLine head)
    (outDir : Path) (w : CodeWriter) :
    let p := position (offset + byteLength head) m.text.toList
    ∃ (w' : CodeWriter) (piece : String), w.Leads w' ∧
      w'.code.toList = w.code.toList ++ m.lead a ++ codeOf m.resolved before ++ head ∧
      piece.toList ≠ [] ∧
      ((w'.mapTo (UInt32.ofNat w.map.sources.length) (UInt32.ofNat p.line)
        (UInt32.ofNat p.column)).write piece).Leads (write outDir w m) := by
  obtain ⟨front, piece, back, split, some, headCode⟩ := copy_split whole nonempty starts
  refine ⟨(before ++ front).foldl
    (Chunk.writeTo m.text.toList w.map.sources.length m.resolved) (opened outDir w m a), piece,
    (leads_opened outDir w m a).trans (leads_writeAll _ _ _ _ _), ?_, some, ?_⟩
  · rw [code_writeAll, code_opened, codeOf_append, headCode, List.append_assoc, List.append_assoc,
      List.append_assoc]
  · have chunks : m.emission tokens a = (before ++ front) ++
        (.mark (offset + byteLength head) :: .code piece :: (back ++ after)) := by
      rw [emitted, split]
      simp
    rw [write_code code, chunks, List.foldl_append (l := before ++ front)]
    exact .write _ (leads_writeAll _ _ _ _ _)

end JsxPreview.Bundle.Module

namespace JsxPreview.Bundle

open JsxPreview.Files JsxPreview.Source JsxPreview.SourceMap JsxPreview.Text

/-! ## Places in a file -/

section Places

variable {p : Project} {path : Path} {loader : Loader} {source text : String}

theorem parsedText_places (parsed : p.parsedText path loader source = .ok text)
    {front back : List Char} {c : Char} (split : text.toList = front ++ c :: back)
    (kept : isBlank c = false ∨ c = '\n') :
    position (byteLength front) text.toList = position (byteLength front) source.toList ∧
      position (byteLength (front ++ [c])) text.toList =
        position (byteLength (front ++ [c])) source.toList := by
  unfold Project.parsedText at parsed
  split at parsed
  case isTrue => exact eraseTypes_places (ok_of_mapError parsed) split kept
  case isFalse =>
    cases parsed
    exact ⟨rfl, rfl⟩

/-- A line of a text that stands in the parsed text starts at its place in the file. -/
theorem place_of_line (parsed : p.parsedText path loader source = .ok text) {offset : Nat}
    {copied head tail : List Char} (stands : Stands text.toList offset copied)
    (whole : copied = head ++ tail) (starts : StartsLine head) :
    position (offset + byteLength head) text.toList =
      position (offset + byteLength head) source.toList := by
  obtain ⟨front, back, here, rfl, c, s, first, ink⟩ := stands
  rcases starts with rfl | feed
  · have split : text.toList = front ++ c :: (s ++ back) := by
      rw [here, first, List.append_assoc]
      rfl
    exact (parsedText_places parsed split (.inl ink)).1
  · obtain ⟨line, rfl⟩ := List.getLast?_eq_some_iff.mp feed
    have split : text.toList = (front ++ line) ++ '\n' :: (tail ++ back) := by
      rw [here, whole]
      simp
    have behind := (parsedText_places parsed split (.inr rfl)).2
    rw [List.append_assoc, byteLength_append] at behind
    exact behind

end Places

/-- All tokens are written but the line that names an interpreter. -/
theorem written_cases (source : List Char) (tokens : List Token) :
    (Module.written source tokens).1 = tokens ∨
      ∃ t, tokens = t :: (Module.written source tokens).1 := by
  cases tokens with
  | nil => exact .inl rfl
  | cons t rest =>
      rw [Module.written]
      split
      · exact .inr ⟨t, rfl⟩
      · exact .inl rfl

theorem laid_written {source : List Char} {tokens : List Token} (laid : Laid source tokens) :
    Laid source (Module.written source tokens).1 := by
  rcases written_cases source tokens with same | ⟨t, behind⟩
  · rw [same]
    exact laid
  · rw [behind] at laid
    exact laid.tail

theorem spanned_written (source : List Char) {low high : Nat} {tokens : List Token}
    (spanned : Spanned low high tokens) :
    ∃ low', Spanned low' high (Module.written source tokens).1 := by
  rcases written_cases source tokens with same | ⟨t, behind⟩
  · rw [same]
    exact ⟨low, spanned⟩
  · rw [behind] at spanned
    exact ⟨t.stop, spanned.tail⟩

theorem whole_written {source : List Char} {rs : Rewrites} {tokens : List Token}
    (whole : rs.Whole tokens) : rs.Whole (Module.written source tokens).1 := by
  have subset : (Module.written source tokens).1 ⊆ tokens := by
    rcases written_cases source tokens with same | ⟨t, behind⟩
    · rw [same]
      exact List.Subset.refl _
    · have later := List.subset_cons_self t (Module.written source tokens).1
      rw [← behind] at later
      exact later
  exact fun e entry t within => whole e entry t (within.of_subset subset)

/-! ## Modules in their order -/

section Modules

variable (outDir : Path)

theorem code_writeModules (modules : List Module) : ∀ w : CodeWriter,
    (modules.foldl (Module.write outDir) w).code.toList =
      w.code.toList ++ modules.flatMap (Module.script outDir) := by
  induction modules with
  | nil =>
      intro w
      exact (List.append_nil _).symm
  | cons m modules ih =>
      intro w
      rw [List.foldl_cons, ih, Module.code_write, List.append_assoc]
      rfl

theorem leads_writeModules (modules : List Module) : ∀ w : CodeWriter,
    w.Leads (modules.foldl (Module.write outDir) w) := by
  induction modules with
  | nil =>
      intro w
      exact .refl
  | cons m modules ih =>
      intro w
      exact (Module.leads_write outDir w m).trans (ih _)

theorem files_writeModules (modules : List Module) : ∀ w : CodeWriter,
    (modules.foldl (Module.write outDir) w).files =
      (w.map.sources ++ modules.map (outDir.diff ·.path),
        w.map.contents ++ modules.map (some ·.source)) := by
  induction modules with
  | nil =>
      intro w
      rw [List.map_nil, List.map_nil, List.append_nil, List.append_nil]
      rfl
  | cons m modules ih =>
      intro w
      obtain ⟨sources, contents⟩ := Prod.mk.inj (Module.files_write outDir w m)
      rw [List.foldl_cons, ih, sources, contents, List.append_assoc, List.append_assoc]
      rfl

/-- Every module has a line of its own. -/
theorem length_le_lines (modules : List Module) :
    modules.length ≤ (modules.flatMap (Module.script outDir)).count '\n' := by
  induction modules with
  | nil => exact Nat.zero_le _
  | cons m modules ih =>
      obtain ⟨front, ends⟩ := Module.script_ends outDir m
      have line : 0 < "\n\x7d;\n".toList.count '\n' := by decide
      rw [List.flatMap_cons, List.count_append, ends, List.count_append, List.length_cons]
      omega

end Modules

/-- The writer behind the call that starts the entry. -/
def Project.finished (p : Project) (modules : List Module) : CodeWriter :=
  (modules.foldl (Module.write p.outDir) (({} : CodeWriter).write prelude)).write
    ("module.exports = __preview_require(" ++
      Quoted.json ((modules.head?.map (·.id)).getD (p.moduleId p.entry)) ++ ");\n")

theorem emit_code (p : Project) (modules : List Module) :
    (p.emit modules).code =
      (p.finished modules).code ++ "//# sourceMappingURL=" ++ p.codeName ++ ".map\n" := rfl

theorem emit_map (p : Project) (modules : List Module) :
    (p.emit modules).map = (p.finished modules).map.build (some p.codeName) := rfl

theorem code_before_emit (p : Project) (modules : List Module) :
    (p.finished modules).code.toList <+: (p.emit modules).code.toList := by
  rw [emit_code, String.toList_append, String.toList_append, String.toList_append,
    List.append_assoc, List.append_assoc]
  exact List.prefix_append _ _

/-- The writer in front of the modules behind `front`. -/
def Project.begun (p : Project) (front : List Module) : CodeWriter :=
  front.foldl (Module.write p.outDir) (({} : CodeWriter).write prelude)

theorem code_begun (p : Project) (front : List Module) :
    (p.begun front).code.toList =
      prelude.toList ++ front.flatMap (Module.script p.outDir) := by
  rw [Project.begun, code_writeModules, CodeWriter.code_write, CodeWriter.code_start,
    List.nil_append]

theorem leads_begun (p : Project) (front : List Module) :
    CodeWriter.Leads {} (p.begun front) :=
  CodeWriter.Leads.trans (.write _ .refl) (leads_writeModules _ _ _)

theorem files_begun (p : Project) (front : List Module) :
    (p.begun front).files = (front.map (p.outDir.diff ·.path), front.map (some ·.source)) :=
  files_writeModules p.outDir front _

theorem sources_begun (p : Project) (front : List Module) :
    (p.begun front).map.sources = front.map (p.outDir.diff ·.path) :=
  congrArg Prod.fst (files_begun p front)

theorem leads_finished (p : Project) (front back : List Module) (m : Module) :
    (Module.write p.outDir (p.begun front) m).Leads (p.finished (front ++ m :: back)) := by
  rw [Project.finished, List.foldl_append, List.foldl_cons]
  exact .write _ (leads_writeModules _ _ _)

/-! ## Copies in a bundle -/

/-- A text that is copied out of a module, and its offset there. -/
def Module.Copies (m : Module) (offset : Nat) (text : List Char) : Prop :=
  ∃ tokens a, m.body = .code tokens a ∧
    Source.Copies ⟨m.text.toList, a.rewrites⟩ (Module.written m.text.toList tokens).1 offset text

/-- The module at `index` has a text copied behind the code `front` of the bundle. -/
def Project.CopiesAt (p : Project) (modules : List Module) (index : Nat) (front : List Char)
    (offset : Nat) (text : List Char) : Prop :=
  ∃ m tokens a before after, modules[index]? = some m ∧ m.body = .code tokens a ∧
    m.emission tokens a = before ++ Chunk.copy offset text ++ after ∧
    front = prelude.toList ++ (modules.take index).flatMap (Module.script p.outDir) ++ m.lead a ++
      codeOf m.resolved before

theorem split_at {modules : List Module} {index : Nat} {m : Module}
    (here : modules[index]? = some m) :
    ∃ front back, modules = front ++ m :: back ∧ front.length = index ∧
      modules.take index = front := by
  obtain ⟨bound, rfl⟩ := List.getElem?_eq_some_iff.mp here
  refine ⟨modules.take index, modules.drop (index + 1), ?_, ?_, rfl⟩
  · rw [List.getElem_cons_drop, List.take_append_drop]
  · rw [List.length_take]
    omega

/-- What a loaded module was read and parsed from. -/
theorem Module.Linked.read {p : Project} {cache : Option Cache} {m : Module}
    (linked : m.Linked p cache) : (p.read cache m.path).1 = .ok m.source ∧
      ∃ m₀, p.parse m.path m.source = .ok m₀ ∧ m = { m₀ with resolved := m.resolved } := by
  obtain ⟨m₀, found, same⟩ := linked.parsed
  unfold Project.module? at found
  cases read : (p.read cache m.path).1 with
  | error fault =>
      rw [read] at found
      exact absurd found (by simp)
  | ok source =>
      rw [read] at found
      have parses := ok_of_toOption found
      obtain ⟨loader, text, body, erased, parsed, made⟩ := Project.parse_steps parses
      have source_same : source = m.source := by rw [same, made]
      rw [← source_same]
      exact ⟨rfl, m₀, parses, same⟩

theorem Module.Linked.steps {p : Project} {cache : Option Cache} {m : Module}
    (linked : m.Linked p cache) : ∃ loader, p.parsedText m.path loader m.source = .ok m.text ∧
      p.parseBody m.path loader m.source m.text = .ok m.body := by
  obtain ⟨_, m₀, parses, same⟩ := linked.read
  obtain ⟨loader, text, body, erased, parsed, made⟩ := Project.parse_steps parses
  have text_same : text = m.text := by rw [same, made]
  have body_same : body = m.body := by rw [same, made]
  rw [← text_same, ← body_same]
  exact ⟨loader, erased, parsed⟩

section Exact

variable {p : Project} {cache : Option Cache} {m : Module} {offset : Nat} {text : List Char}

theorem Module.Linked.code (linked : m.Linked p cache) {tokens : List Token} {a : Analysis}
    (code : m.body = .code tokens a) : ∃ d o,
      tokenize d m.text = .ok tokens ∧ analyze m.text.toList tokens o = .ok a := by
  obtain ⟨_, _, parses⟩ := linked.steps
  rw [code] at parses
  exact ⟨_, _, Project.parseBody_code parses⟩

theorem Module.Copies.stands (copies : m.Copies offset text) (linked : m.Linked p cache) :
    Stands m.text.toList offset text := by
  obtain ⟨tokens, a, code, copies⟩ := copies
  obtain ⟨_, _, scanned, _⟩ := linked.code code
  exact Source.Copies.stands copies (laid_written (tokenize_laid scanned))

/-- What is copied out of a module has its place in the bundle. -/
theorem Module.Copies.placed (copies : m.Copies offset text) (linked : m.Linked p cache)
    {modules : List Module} {index : Nat} (here : modules[index]? = some m) :
    ∃ front, p.CopiesAt modules index front offset text := by
  obtain ⟨tokens, a, code, copies⟩ := copies
  obtain ⟨_, _, scanned, analyzed⟩ := linked.code code
  have spanned := tokenize_spanned scanned
  obtain ⟨_, spannedWritten⟩ := spanned_written m.text.toList spanned
  obtain ⟨before, after, emitted⟩ := Source.Copies.emitted copies
    (laid_written (tokenize_laid scanned)) spannedWritten
    (whole_written (analyze_whole analyzed spanned)) (byteLength m.text.toList)
    (Module.written m.text.toList tokens).2
  exact ⟨_, m, tokens, a, before, after, here, code, emitted.symm, rfl⟩

/-- Behind its front, a copied text stands in the code of the bundle. -/
theorem Project.CopiesAt.stands {modules : List Module} {index : Nat} {front : List Char}
    (copies : p.CopiesAt modules index front offset text) :
    front ++ text <+: (p.emit modules).code.toList := by
  obtain ⟨m, tokens, a, before, after, here, code, emitted, same⟩ := copies
  obtain ⟨inFront, back, whole, rfl, taken⟩ := split_at here
  refine List.IsPrefix.trans ?_ (code_before_emit p modules)
  rw [same, taken, whole]
  refine List.IsPrefix.trans ?_ (leads_finished p inFront back m).code
  rw [Module.write_code code, CodeWriter.code_write, code_writeAll, Module.code_opened, emitted,
    code_begun, codeOf_append, codeOf_append, codeOf_copy]
  exact ⟨codeOf m.resolved after ++ "\n\x7d;\n".toList, by simp only [List.append_assoc]⟩

/-- The map leads from where a line of a copied text starts to where it starts in the file. -/
theorem Project.CopiesAt.lookup {modules : List Module} {index : Nat} {front : List Char}
    (copies : p.CopiesAt modules index front offset text)
    (fits : Fits (p.emit modules).code.toList) {mappings : Mappings}
    (decoded : Vlq.decodeMappings (p.emit modules).map.mappings = .ok mappings)
    (here : modules[index]? = some m) {head tail : List Char} (whole : text = head ++ tail)
    (nonempty : tail ≠ []) (starts : StartsLine head) :
    let g := Position.origin.advance (front ++ head)
    let place := position (offset + byteLength head) m.text.toList
    mappings.lookup (UInt32.ofNat g.line) (UInt32.ofNat g.column) =
      some ⟨UInt32.ofNat g.line, UInt32.ofNat g.column, UInt32.ofNat index,
        UInt32.ofNat place.line, UInt32.ofNat place.column, none⟩ := by
  obtain ⟨m', tokens, a, before, after, again, code, emitted, same⟩ := copies
  rw [here] at again
  cases again
  obtain ⟨inFront, back, split, rfl, taken⟩ := split_at here
  obtain ⟨w, piece, leads, written, some, marked⟩ :=
    Module.marks_copy code emitted whole nonempty starts p.outDir (p.begun inFront)
  have started : CodeWriter.Leads {} w := (leads_begun p inFront).trans leads
  have index : (p.begun inFront).map.sources.length = inFront.length := by
    rw [sources_begun, List.length_map]
  have finished := leads_finished p inFront back m
  rw [← split] at finished
  rw [index] at marked
  rw [emit_map] at decoded
  have found := started.lookup_mark some (marked.trans finished)
    (fits.front (code_before_emit p modules)) decoded
  have generated : w.place = Position.origin.advance (front ++ head) := by
    rw [started.placed CodeWriter.placed_start, written, code_begun, same, taken]
  rw [CodeWriter.markAt, generated] at found
  exact found

end Exact

/-- A bundle whose lines and columns are words has fewer modules than there are words. -/
theorem length_lt_word {p : Project} {modules : List Module}
    (fits : Fits (p.emit modules).code.toList) : modules.length < 2 ^ 32 := by
  have word := (fits _ (code_before_emit p modules)).1
  rw [Project.finished, CodeWriter.code_write, code_writeModules, Position.line_advance, List.count_append,
    List.count_append] at word
  have lines := length_le_lines p.outDir modules
  omega

theorem source_of_emit {p : Project} {modules : List Module} {index : Nat} {m : Module}
    (here : modules[index]? = some m) :
    (p.emit modules).map.sources[index]? = some (p.outDir.diff m.path) := by
  have sources : (p.emit modules).map.sources = modules.map (p.outDir.diff ·.path) :=
    sources_begun p modules
  rw [sources, List.getElem?_map, here]
  rfl

/-- The mappings of a bundle are read back, and every text that is copied out of a module, from a
token or a raw part of a template that no rewrite covers, at whatever depth, stands in the code.
From the place where it starts there, and from where every further line of it starts that is not
empty, they lead to the module and to the line and column in its file. -/
theorem bundle_map_exact (p : Project) (cache : Option Cache) (artifact : Artifact)
    (bundled : (p.bundle cache).1 = some (.ok artifact)) (fits : Fits artifact.code.toList) :
    ∃ l mappings, p.loadAll cache = some l ∧ artifact = p.emit l.modules ∧
      Vlq.decodeMappings artifact.map.mappings = .ok mappings ∧ l.modules.length < 2 ^ 32 ∧
      ∀ index m, l.modules[index]? = some m →
        (p.read cache m.path).1 = .ok m.source ∧
        (∃ m₀, p.parse m.path m.source = .ok m₀ ∧ m = { m₀ with resolved := m.resolved }) ∧
        artifact.map.sources[index]? = some (p.outDir.diff m.path) ∧
        ∀ offset text, m.Copies offset text →
          text ≠ [] ∧ (∃ front, p.CopiesAt l.modules index front offset text) ∧
          ∀ front, p.CopiesAt l.modules index front offset text →
            front ++ text <+: artifact.code.toList ∧
            ∀ head tail, text = head ++ tail → tail ≠ [] → StartsLine head →
              let g := Position.origin.advance (front ++ head)
              let place := position (offset + byteLength head) m.source.toList
              mappings.lookup (UInt32.ofNat g.line) (UInt32.ofNat g.column) =
                some ⟨UInt32.ofNat g.line, UInt32.ofNat g.column, UInt32.ofNat index,
                  UInt32.ofNat place.line, UInt32.ofNat place.column, none⟩ := by
  obtain ⟨l, loaded, outcome⟩ := Project.load_of_bundle bundled
  obtain ⟨places, _, _, _, linked⟩ := Project.reached_of_load loaded
  rcases outcome with ⟨_, same⟩ | ⟨_, failed⟩
  · cases same
    have whole : CodeWriter.Leads {} (p.finished l.modules) := .write _ (leads_begun p l.modules)
    obtain ⟨mappings, decoded⟩ :=
      whole.decodes (fits.front (code_before_emit p l.modules)) (some p.codeName)
    refine ⟨l, mappings, loaded, rfl, decoded, length_lt_word fits, ?_⟩
    intro index m here
    have linked := linked m (List.mem_of_getElem? here)
    obtain ⟨read, parses⟩ := linked.read
    obtain ⟨loader, parsed, _⟩ := linked.steps
    refine ⟨read, parses, source_of_emit here, ?_⟩
    intro offset text copies
    have stands := copies.stands linked
    refine ⟨?_, copies.placed linked here, ?_⟩
    · obtain ⟨_, _, _, _, c, s, nonempty, _⟩ := stands
      rw [nonempty]
      exact List.cons_ne_nil _ _
    · intro front copiesAt
      refine ⟨copiesAt.stands, ?_⟩
      intro head tail split nonempty starts
      rw [← place_of_line parsed stands split starts]
      exact copiesAt.lookup fits decoded here split nonempty starts
  · exact absurd failed (by simp)

/-- A script with a character of two UTF-16 units in front of a name. -/
def wideProject : Project where
  entry := ⟨"/p/t/a.js"⟩
  files := { nodes := [(["p"], .directory), (["p", "t"], .directory),
    (["p", "t", "a.js"], .file ⟨1, 8⟩ (some "'𝄞'+b"))], clock := 1 }
  sources := .diskOnly ⟨"/p/t/a.js"⟩

def wideModule (tokens : List Token) (a : Analysis) : Module :=
  { path := ⟨"/p/t/a.js"⟩, id := wideProject.moduleId ⟨"/p/t/a.js"⟩, source := "'𝄞'+b"
    text := "'𝄞'+b", body := .code tokens a }

theorem wideProject_script : ∃ tokens a,
    wideProject.parse ⟨"/p/t/a.js"⟩ "'𝄞'+b" = .ok (wideModule tokens a) ∧
    (∃ t ∈ tokens, t.start = 7 ∧ t.text = "b" ∧ t.shape.isLeaf = true) ∧
    a.dependencies = [] ∧ a.rewrites.entries.map (·.1) = [] ∧
    byteLength ((wideModule tokens a).script wideProject.outDir) < 4096 := by
  have known :
      ((tokenizeWithin (allowance "'𝄞'+b".toList) ⟨true, false⟩
        "'𝄞'+b").toOption.bind fun tokens =>
          (analyze "'𝄞'+b".toList tokens
            (wideProject.headerOptions ⟨"/p/t/a.js"⟩)).toOption.map fun a =>
              decide ((∃ t ∈ tokens, t.start = 7 ∧ t.text = "b" ∧ t.shape.isLeaf = true) ∧
                a.dependencies = [] ∧ a.rewrites.entries.map (·.1) = [] ∧
                byteLength ((wideModule tokens a).script wideProject.outDir) < 4096)) =
        some true := by
    decide +kernel
  obtain ⟨tokens, scanned, known⟩ := Option.bind_eq_some_iff.mp known
  obtain ⟨a, analyzed, known⟩ := Option.map_eq_some_iff.mp known
  have body : wideProject.parseBody ⟨"/p/t/a.js"⟩ .jsx "'𝄞'+b" "'𝄞'+b" = .ok (.code tokens a) :=
    Project.parseBody_of_scan (by decide) (by decide) (ok_of_toOption scanned)
      (ok_of_toOption analyzed)
  refine ⟨tokens, a, ?_, of_decide_eq_true known⟩
  exact Project.parse_of_steps (show Loader.ofPath ⟨"/p/t/a.js"⟩ = .ok .jsx from rfl) rfl body

theorem wideModule_copies {tokens : List Token} {a : Analysis} {t : Token} (member : t ∈ tokens)
    (start : t.start = 7) (name : t.text = "b") (leaf : t.shape.isLeaf = true)
    (rewrites : a.rewrites.entries.map (·.1) = []) : (wideModule tokens a).Copies 7 ['b'] := by
  have none : a.rewrites.entries = [] := List.map_eq_nil_iff.mp rewrites
  have all : Module.written (wideModule tokens a).text.toList tokens = (tokens, 0) := by
    have plain : ['#', '!'].isPrefixOf (wideModule tokens a).text.toList = false := by
      change ['#', '!'].isPrefixOf "'𝄞'+b".toList = false
      decide
    cases tokens with
    | nil => rfl
    | cons first rest => rw [Module.written, plain, Bool.and_false, if_neg Bool.false_ne_true]
  have uncovered : ¬ a.rewrites.Covers t.start := by
    rintro ⟨_, _, found, _⟩
    rw [Rewrites.find?, none] at found
    exact absurd found (by simp)
  refine ⟨tokens, a, rfl, ?_⟩
  have copies := Source.Copies.token (e := ⟨(wideModule tokens a).text.toList, a.rewrites⟩)
    member uncovered leaf
  rw [start, name] at copies
  rw [all]
  exact copies

theorem wideProject_bundled : ∃ l m, wideProject.loadAll none = some l ∧
    (wideProject.bundle none).1 = some (.ok (wideProject.emit l.modules)) ∧ l.modules = [m] ∧
    m.id = "./t/a.js" ∧ m.source = "'𝄞'+b" ∧ m.Copies 7 ['b'] ∧
    byteLength (m.script wideProject.outDir) < 4096 := by
  obtain ⟨tokens, a, parsed, ⟨t, member, start, name, leaf⟩, dependencies, rewrites, size⟩ :=
    wideProject_script
  have read : wideProject.read none ⟨"/p/t/a.js"⟩ = (.ok "'𝄞'+b", none) := rfl
  have first : Loading.load wideProject { queue := [], asked := [wideProject.entry] }
      ⟨⟨"/p/t/a.js"⟩, none⟩ = _ := Loading.load_of_parse read parsed
  have alone : (wideModule tokens a).dependencies = [] := dependencies
  rw [alone] at first
  have loaded : wideProject.loadAll none = Loading.run wideProject (Loading.load wideProject
      { queue := [], asked := [wideProject.entry] } ⟨⟨"/p/t/a.js"⟩, none⟩) := Loading.run_next rfl
  rw [first, Loading.run_done rfl] at loaded
  have id : (wideModule tokens a).id = "./t/a.js" := by
    change wideProject.moduleId ⟨"/p/t/a.js"⟩ = _
    decide
  refine ⟨_, wideModule tokens a, loaded, ?_, rfl, id, rfl,
    wideModule_copies member start name leaf rewrites, size⟩
  rw [Project.bundle, loaded]
  rfl

theorem byteLength_prelude : byteLength prelude.toList < 4096 := by
  rw [byteLength_toList]
  decide +kernel

theorem fits_wide {m : Module} (id : m.id = "./t/a.js")
    (size : byteLength (m.script wideProject.outDir) < 4096) :
    Fits (wideProject.emit [m]).code.toList := by
  have ending : byteLength ("module.exports = __preview_require(" ++
      Quoted.json "./t/a.js" ++ ");\n").toList < 4096 := by decide
  have url : byteLength ("//# sourceMappingURL=".toList ++ wideProject.codeName.toList ++
      ".map\n".toList) < 4096 := by decide
  have prelude := byteLength_prelude
  refine fits_of_bytes ?_
  rw [emit_code, String.toList_append, String.toList_append, String.toList_append,
    Project.finished, CodeWriter.code_write, code_writeModules, CodeWriter.code_write,
    CodeWriter.code_start, List.nil_append, List.flatMap_singleton, List.head?_cons, Option.map_some,
    Option.getD_some, id]
  simp only [byteLength_append] at url ⊢
  omega

/-- The name is behind five UTF-16 units, two of them of one character. -/
theorem bundle_map_exact_wide : ∃ artifact mappings front,
    (wideProject.bundle none).1 = some (.ok artifact) ∧ Fits artifact.code.toList ∧
    Vlq.decodeMappings artifact.map.mappings = .ok mappings ∧
    front ++ ['b'] <+: artifact.code.toList ∧
    let g := Position.origin.advance front
    mappings.lookup (UInt32.ofNat g.line) (UInt32.ofNat g.column) =
      some ⟨UInt32.ofNat g.line, UInt32.ofNat g.column, 0, 0, 5, none⟩ := by
  obtain ⟨l, m, loaded, bundled, alone, id, source, copies, size⟩ := wideProject_bundled
  have fits : Fits (wideProject.emit l.modules).code.toList := by
    rw [alone]
    exact fits_wide id size
  obtain ⟨l', mappings, again, _, decoded, _, exact⟩ :=
    bundle_map_exact wideProject none _ bundled fits
  rw [loaded] at again
  cases again
  obtain ⟨_, _, _, copied⟩ := exact 0 m (by rw [alone]; rfl)
  obtain ⟨_, ⟨front, placed⟩, leads⟩ := copied 7 ['b'] copies
  obtain ⟨stands, lines⟩ := leads front placed
  have found := lines [] ['b'] rfl (List.cons_ne_nil _ _) (.inl rfl)
  have place : position (7 + byteLength []) m.source.toList = ⟨0, 5⟩ := by
    rw [source]
    decide
  rw [place, List.append_nil] at found
  exact ⟨_, mappings, front, bundled, fits, decoded, stands, found⟩

end JsxPreview.Bundle
