import JsxPreview.Proofs.JsxText
import JsxPreview.Proofs.Scanner.Spelling
import JsxPreview.Source.Token

/-! # Elements that are printed

An `ElementTree` is an element without places.  Each part of the scanner reads what is printed of its
part of a tree and stops where what is printed of the next part begins (`ElementTree.reads`,
`TreeAttribute.readsAll`, `TreeContent.reads`), so an assignment of a printed tree has the tree in its
tokens (`tokenize_print`). -/
set_option autoImplicit false
namespace JsxPreview.Source

open JsxPreview.Text

/-! ## Tokens without their places

Two trees of tokens are the same up to where they stand when they are the same with all offsets at
zero. -/

def TagName.unplaced (n : TagName) : TagName := { n with start := 0 }

mutual

def Token.unplaced : Token → Token
  | ⟨shape, _, _, text⟩ => ⟨shape.unplaced, 0, 0, text⟩

def Token.unplacedAll : List Token → List Token
  | [] => []
  | t :: rest => t.unplaced :: Token.unplacedAll rest

def Shape.unplaced : Shape → Shape
  | .template parts => .template (TemplatePart.unplacedAll parts)
  | .jsx element => .jsx element.unplaced
  | .word => .word
  | .punct => .punct
  | .str => .str
  | .number => .number
  | .regex => .regex
  | .comment => .comment

def TemplatePart.unplacedAll : List TemplatePart → List TemplatePart
  | [] => []
  | p :: rest => p.unplaced :: TemplatePart.unplacedAll rest

def TemplatePart.unplaced : TemplatePart → TemplatePart
  | .raw _ _ => .raw 0 0
  | .subst body => .subst body.unplaced

def Body.unplaced : Body → Body
  | ⟨_, _, tokens⟩ => ⟨0, 0, Token.unplacedAll tokens⟩

def Element.unplaced : Element → Element
  | ⟨_, _, name, attributes, children⟩ =>
      ⟨0, 0, name.map TagName.unplaced, Attribute.unplacedAll attributes, Child.unplacedAll children⟩

def Attribute.unplacedAll : List Attribute → List Attribute
  | [] => []
  | a :: rest => a.unplaced :: Attribute.unplacedAll rest

def Attribute.unplaced : Attribute → Attribute
  | .named name _ value => .named name 0 value.unplaced
  | .spread body => .spread body.unplaced

def AttributeValue.unplaced : AttributeValue → AttributeValue
  | .bare => .bare
  | .str value _ => .str value 0
  | .expr body => .expr body.unplaced
  | .element element => .element element.unplaced

def Child.unplacedAll : List Child → List Child
  | [] => []
  | c :: rest => c.unplaced :: Child.unplacedAll rest

def Child.unplaced : Child → Child
  | .text value _ => .text value 0
  | .expr body => .expr body.unplaced
  | .element element => .element element.unplaced

end

theorem Child.unplacedAll_append (cs ds : List Child) :
    Child.unplacedAll (cs ++ ds) = Child.unplacedAll cs ++ Child.unplacedAll ds := by
  induction cs with
  | nil => rfl
  | cons c cs ih =>
      rw [List.cons_append, Child.unplacedAll, Child.unplacedAll, ih]
      rfl

/-! ## Trees -/

/-- A letter and then characters of names. -/
def isNameOf (part : Char → Bool) : List Char → Bool
  | [] => false
  | c :: s => isLetter c && s.all part

structure TagWord where
  text : String
  fits : isNameOf isTagNamePart text.toList = true

structure AttributeWord where
  text : String
  fits : isNameOf isAttributeNamePart text.toList = true

structure Identifier where
  text : String
  whole : (Lexeme.word text).isWhole = true

/-- A text that is not blank, without line breaks and tabs. -/
structure InkText where
  text : String
  inLine : '\n' ∉ text.toList ∧ '\r' ∉ text.toList ∧ '\t' ∉ text.toList
  ink : text.toList.any (· != ' ') = true

mutual

inductive ElementTree where
  | element (name : TagWord) (attributes : List TreeAttribute) (content : TreeContent)
  | fragment (content : TreeContent)

inductive TreeAttribute where
  | bare (name : AttributeWord)
  | str (name : AttributeWord) (value : String)
  | container (name : AttributeWord) (word : Identifier)
  | element (name : AttributeWord) (tree : ElementTree)
  | spread (word : Identifier)

/-- Children.  Each container and element, and the end, may have a text in front of it, so that no two
texts are next to each other. -/
inductive TreeContent where
  | last (text : Option InkText)
  | container (text : Option InkText) (word : Identifier) (rest : TreeContent)
  | element (text : Option InkText) (tree : ElementTree) (rest : TreeContent)

end

/-- The inside of a container with an identifier. -/
def Identifier.body (word : Identifier) : Body := ⟨0, 0, [⟨.word, 0, 0, word.text⟩]⟩

/-- The child that a text is, if there is one. -/
def InkText.child : Option InkText → List Child
  | none => []
  | some t => [.text t.text 0]

mutual

/-- The element that a tree stands for. -/
def ElementTree.toElement : ElementTree → Element
  | .element name attributes content =>
      ⟨0, 0, some ⟨name.text, 0⟩, TreeAttribute.toAttributes attributes, content.children⟩
  | .fragment content => ⟨0, 0, none, [], content.children⟩

def TreeAttribute.toAttributes : List TreeAttribute → List Attribute
  | [] => []
  | a :: rest => a.toAttribute :: TreeAttribute.toAttributes rest

def TreeAttribute.toAttribute : TreeAttribute → Attribute
  | .bare name => .named name.text 0 .bare
  | .str name value => .named name.text 0 (.str value 0)
  | .container name word => .named name.text 0 (.expr word.body)
  | .element name tree => .named name.text 0 (.element tree.toElement)
  | .spread word => .spread word.body

def TreeContent.children : TreeContent → List Child
  | .last text => InkText.child text
  | .container text word rest => InkText.child text ++ .expr word.body :: rest.children
  | .element text tree rest => InkText.child text ++ .element tree.toElement :: rest.children

end

/-! ## Printing -/

def TreeContent.isEmpty : TreeContent → Bool
  | .last none => true
  | _ => false

def InkText.print : Option InkText → List Char
  | none => []
  | some t => written t.text.toList

def Identifier.print (word : Identifier) : List Char := word.text.toList ++ ['\x7d']

/-- The end of a tag, which closes its element when it has a slash. -/
def tagEnd (closed : Bool) : List Char := if closed then ['/', '>'] else ['>']

/-- The closing tag of an element or a fragment. -/
def closingTag (name : Option TagWord) : List Char :=
  '<' :: '/' :: ((name.map (·.text.toList)).getD [] ++ ['>'])

variable (paired : Bool)

mutual

/-- The text of a tree.  An element without children has a closing tag only where all have one. -/
def ElementTree.print : ElementTree → List Char
  | .element name attributes content =>
      '<' :: (name.text.toList ++ (TreeAttribute.printAll attributes ++
        (if content.isEmpty && !paired then tagEnd true
        else tagEnd false ++ (content.print ++ closingTag (some name)))))
  | .fragment content => '<' :: '>' :: (content.print ++ closingTag none)

def TreeAttribute.printAll : List TreeAttribute → List Char
  | [] => []
  | a :: rest => ' ' :: (a.print ++ TreeAttribute.printAll rest)

def TreeAttribute.print : TreeAttribute → List Char
  | .bare name => name.text.toList
  | .str name value => name.text.toList ++ ('=' :: '"' :: (written value.toList ++ ['"']))
  | .container name word => name.text.toList ++ ('=' :: '\x7b' :: word.print)
  | .element name tree => name.text.toList ++ ('=' :: tree.print)
  | .spread word => '\x7b' :: '.' :: '.' :: '.' :: word.print

def TreeContent.print : TreeContent → List Char
  | .last text => InkText.print text
  | .container text word rest => InkText.print text ++ ('\x7b' :: (word.print ++ rest.print))
  | .element text tree rest => InkText.print text ++ (tree.print ++ rest.print)

end

/-! ## Names -/

theorem exists_of_isNameOf {part : Char → Bool} {s : List Char} (fits : isNameOf part s = true) :
    ∃ c t, s = c :: t ∧ isLetter c = true ∧ ∀ x ∈ t, part x = true := by
  cases s with
  | nil => cases fits
  | cons c t =>
      obtain ⟨letter, others⟩ := Bool.and_eq_true_iff.mp fits
      exact ⟨c, t, rfl, letter, List.all_eq_true.mp others⟩

theorem isWordStart_of_isLetter {c : Char} (letter : isLetter c = true) : isWordStart c = true := by
  rw [isWordStart, letter]
  rfl

/-- What starts a word is no white space, and no character that is foreign to words. -/
theorem ne_of_isWordStart {c d : Char} (starts : isWordStart c = true) (foreign : d ∈ foreignStarts) :
    c ≠ d := by
  rintro rfl
  have refused := (startsPlain_foreign foreign).1
  rw [startsPlain, starts] at refused
  cases refused

theorem ink_of_isWordStart {c : Char} (starts : isWordStart c = true) :
    (isBlank c || c == '\ufeff') = false := by
  rw [← Bool.not_eq_true]
  exact fun blank => ne_of_isWordStart starts (mem_foreignStarts blank) rfl

theorem Cursor.skipBlank_of_ink {pos : Nat} {c : Char} {s : List Char}
    (ink : (isBlank c || c == '\ufeff') = false) :
    (⟨pos, c :: s⟩ : Cursor).skipBlank = ⟨pos, c :: s⟩ :=
  Cursor.skipWhile_of_stop rfl ink

/-- A name is taken up to a character that is no part of names. -/
theorem skipWhile_name {part : Char → Bool} {name rest : List Char} (pos : Nat)
    (letters : ∀ c, isLetter c = true → part c = true) (fits : isNameOf part name = true)
    (stop : ∀ c, rest.head? = some c → part c = false) :
    (⟨pos, name ++ rest⟩ : Cursor).skipWhile part = ⟨pos + byteLength name, rest⟩ := by
  obtain ⟨c, t, rfl, letter, others⟩ := exists_of_isNameOf fits
  exact Cursor.skipWhile_append pos (List.forall_mem_cons.mpr ⟨letters c letter, others⟩) stop

theorem isAttributeNamePart_of_isLetter {c : Char} (letter : isLetter c = true) :
    isAttributeNamePart c = true := by
  simp [isAttributeNamePart, isWordPart, letter]

theorem isTagNamePart_of_isLetter {c : Char} (letter : isLetter c = true) :
    isTagNamePart c = true := by
  rw [isTagNamePart, isAttributeNamePart_of_isLetter letter]
  rfl

theorem Cursor.skip_one (pos : Nat) (c : Char) (s : List Char) :
    (⟨pos, c :: s⟩ : Cursor).skip 1 = ⟨pos + byteLength [c], s⟩ := rfl

/-! ## Containers -/

variable {d : Dialect} {paired} {pos : Nat} {rest : List Char}

theorem Identifier.head (word : Identifier) :
    ∃ c t, word.text.toList = c :: t ∧ isWordStart c = true := by
  have whole := word.whole
  rw [Lexeme.isWhole] at whole
  split at whole
  case h_1 => cases whole
  case h_2 c t split => exact ⟨c, t, split, (Bool.and_eq_true_iff.mp whole).1⟩

/-- The body of a container with an identifier is read up to its closing brace. -/
theorem Identifier.reads (word : Identifier) (pos : Nat) (rest : List Char) : ∃ body pos',
    Reads d (.body ⟨pos, word.print ++ rest⟩) (body, ⟨pos', rest⟩) ∧ body.unplaced = word.body := by
  obtain ⟨c, t, split, starts⟩ := word.head
  have stops : ∀ x, ('\x7d' :: rest).head? = some x → (Lexeme.word word.text).goesOn x = false := by
    rintro x head
    cases head
    exact (startsPlain_foreign (by decide)).2
  have leaf : lexLeaf true ⟨pos, word.text.toList ++ '\x7d' :: rest⟩ =
      .ok (.word, ⟨pos + byteLength word.text.toList, '\x7d' :: rest⟩) :=
    lexLeaf_lexeme word.whole stops pos
  have text : (⟨pos, word.text.toList ++ '\x7d' :: rest⟩ : Cursor).upTo
      ⟨pos + byteLength word.text.toList, '\x7d' :: rest⟩ = word.text := by
    rw [Cursor.upTo_append, String.ofList_toList]
  have here : (⟨pos, word.text.toList ++ '\x7d' :: rest⟩ : Cursor).skipBlank =
      ⟨pos, word.text.toList ++ '\x7d' :: rest⟩ := by
    rw [split]
    exact Cursor.skipBlank_of_ink (ink_of_isWordStart starts)
  have close : (⟨pos + byteLength word.text.toList, '\x7d' :: rest⟩ : Cursor).skipBlank =
      ⟨pos + byteLength word.text.toList, '\x7d' :: rest⟩ := Cursor.skipBlank_of_ink (by decide)
  have token : Reads d (.token true (Cursor.skipBlank ⟨pos, word.text.toList ++ '\x7d' :: rest⟩))
      (.word, ⟨pos + byteLength word.text.toList, '\x7d' :: rest⟩) := by
    rw [here]
    refine .tokenLeaf ?_ ?_ leaf
    · rw [split, List.cons_append, List.head?_cons, ne_eq, Option.some.injEq]
      exact ne_of_isWordStart starts (by decide)
    · rw [split, List.cons_append, startsElement.eq_2]
      rintro s same
      cases same
      exact absurd starts (by decide)
  have more : tokensEnd true 0 (Cursor.skipBlank ⟨pos, word.text.toList ++ '\x7d' :: rest⟩) =
      .ok false := by
    rw [here, split]
    simp [tokensEnd, ne_of_isWordStart starts (d := '\x7d') (by decide)]
  have ended : tokensEnd true 0
      (Cursor.skipBlank ⟨pos + byteLength word.text.toList, '\x7d' :: rest⟩) = .ok true := by
    rw [close]
    rfl
  rw [Identifier.print, List.append_assoc, List.singleton_append]
  have body := Reads.body (.tokensMore more token (.tokensEnd ended))
  rw [close, Cursor.skip_one] at body
  refine ⟨_, _, body, ?_⟩
  rw [here, tokenBetween, text]
  rfl

/-- A container with an identifier is a child. -/
theorem Identifier.bodyChild {word : Identifier} {body : Body} (same : body.unplaced = word.body) :
    Child.unplacedAll (Source.bodyChild body) = [.expr word.body] := by
  have shown : body.tokens.any (!·.isComment) = true := by
    obtain ⟨start, stop, tokens⟩ := body
    have tokens' : Token.unplacedAll tokens = [⟨.word, 0, 0, word.text⟩] := congrArg Body.tokens same
    cases tokens with
    | nil => cases tokens'
    | cons t ts =>
        obtain ⟨shape, _, _, text⟩ := t
        have shape' : shape.unplaced = .word := congrArg Token.shape (List.cons.inj tokens').1
        cases shape <;> first | rfl | cases shape'
  rw [Source.bodyChild, if_pos shown, Child.unplacedAll, Child.unplaced, same]
  rfl

/-! ## Tags -/

/-- What may stand behind a name in a tag. -/
def BehindName (rest : List Char) : Prop :=
  ∃ c t, rest = c :: t ∧ (c = ' ' ∨ c = '/' ∨ c = '>' ∨ c = '=')

theorem BehindName.stops {rest : List Char} (behind : BehindName rest) :
    ∀ c, rest.head? = some c → isTagNamePart c = false ∧ isAttributeNamePart c = false := by
  obtain ⟨x, t, rfl, rfl | rfl | rfl | rfl⟩ := behind
  all_goals
    rintro c head
    cases head
    decide

theorem tagStart_name {name : List Char} (fits : isNameOf isTagNamePart name = true)
    (behind : BehindName rest) (pos : Nat) :
    tagStart ⟨pos, '<' :: (name ++ rest)⟩ =
      .ok (.named ⟨String.ofList name, pos + 1⟩ ⟨pos + 1 + byteLength name, rest⟩) := by
  have named := skipWhile_name (pos + 1) (fun _ => isTagNamePart_of_isLetter) fits
    fun c head => (behind.stops c head).1
  obtain ⟨c, t, rfl, letter, -⟩ := exists_of_isNameOf fits
  have starts := isWordStart_of_isLetter letter
  have here : ((⟨pos, '<' :: (c :: t ++ rest)⟩ : Cursor).skip 1).skipBlank =
      ⟨pos + 1, c :: t ++ rest⟩ := Cursor.skipBlank_of_ink (ink_of_isWordStart starts)
  have noFragment : (c :: t ++ rest).head? ≠ some '>' := by
    rw [List.cons_append, List.head?_cons, ne_eq, Option.some.injEq]
    exact ne_of_isWordStart starts (by decide)
  have taken := Cursor.byteLength_pos (List.cons_ne_nil c t)
  simp only [tagStart, here, named, Cursor.upTo_append]
  rw [if_neg (by simpa using noFragment), if_neg (by rw [beq_iff_eq]; omega)]

theorem tagStart_fragment (pos : Nat) (rest : List Char) :
    tagStart ⟨pos, '<' :: '>' :: rest⟩ = .ok (.fragment ⟨pos + 1 + 1, rest⟩) := by
  have here : ((⟨pos, '<' :: '>' :: rest⟩ : Cursor).skip 1).skipBlank = ⟨pos + 1, '>' :: rest⟩ :=
    Cursor.skipBlank_of_ink (by decide)
  simp only [tagStart, here]
  rfl

theorem tagPart_end (closed : Bool) (pos : Nat) (rest : List Char) :
    ∃ pos', tagPart ⟨pos, tagEnd closed ++ rest⟩ = .ok (.stop closed ⟨pos', rest⟩) := by
  cases closed with
  | true =>
      have here : (⟨pos, '/' :: '>' :: rest⟩ : Cursor).skipBlank = ⟨pos, '/' :: '>' :: rest⟩ :=
        Cursor.skipBlank_of_ink (by decide)
      refine ⟨pos + 2, ?_⟩
      change tagPart ⟨pos, '/' :: '>' :: rest⟩ = _
      rw [tagPart, here]
      rfl
  | false =>
      have here : (⟨pos, '>' :: rest⟩ : Cursor).skipBlank = ⟨pos, '>' :: rest⟩ :=
        Cursor.skipBlank_of_ink (by decide)
      refine ⟨pos + 1, ?_⟩
      change tagPart ⟨pos, '>' :: rest⟩ = _
      rw [tagPart, here]
      rfl

theorem Cursor.skipBlank_space {pos : Nat} {c : Char} {s : List Char}
    (ink : (isBlank c || c == '\ufeff') = false) :
    (⟨pos, ' ' :: c :: s⟩ : Cursor).skipBlank = ⟨pos + 1, c :: s⟩ :=
  @skipBlank_gap [' '] (by decide) pos (c :: s) (by rintro x head; cases head; exact ink)

theorem tagPart_name {name : List Char} (fits : isNameOf isAttributeNamePart name = true)
    (behind : BehindName rest) (pos : Nat) :
    tagPart ⟨pos, ' ' :: (name ++ rest)⟩ =
      .ok (.name ⟨pos + 1, name ++ rest⟩ ⟨pos + 1 + byteLength name, rest⟩) := by
  have named := skipWhile_name (pos + 1) (fun _ => isAttributeNamePart_of_isLetter) fits
    fun c head => (behind.stops c head).2
  obtain ⟨c, t, rfl, letter, -⟩ := exists_of_isNameOf fits
  have starts := isWordStart_of_isLetter letter
  have here : (⟨pos, ' ' :: (c :: t ++ rest)⟩ : Cursor).skipBlank = ⟨pos + 1, c :: t ++ rest⟩ :=
    Cursor.skipBlank_space (ink_of_isWordStart starts)
  have other : c ≠ '/' ∧ c ≠ '>' ∧ c ≠ '\x7b' :=
    ⟨ne_of_isWordStart starts (by decide), ne_of_isWordStart starts (by decide),
      ne_of_isWordStart starts (by decide)⟩
  rw [List.cons_append] at here named ⊢
  simp [tagPart, here, named, other, starts]

theorem tagPart_spread (pos : Nat) (rest : List Char) :
    tagPart ⟨pos, ' ' :: '\x7b' :: '.' :: '.' :: '.' :: rest⟩ = .ok (.spread ⟨pos + 1 + 1 + 3, rest⟩) := by
  have here : (⟨pos, ' ' :: '\x7b' :: '.' :: '.' :: '.' :: rest⟩ : Cursor).skipBlank =
      ⟨pos + 1, '\x7b' :: '.' :: '.' :: '.' :: rest⟩ := Cursor.skipBlank_space (by decide)
  have inner : ((⟨pos + 1, '\x7b' :: '.' :: '.' :: '.' :: rest⟩ : Cursor).skip 1).skipBlank =
      ⟨pos + 1 + 1, '.' :: '.' :: '.' :: rest⟩ := Cursor.skipBlank_of_ink (by decide)
  rw [tagPart, here]
  simp only [inner]
  rfl

/-! ## Values -/

theorem valueStart_bare (behind : rest.head? ≠ some '=') (pos : Nat) :
    valueStart ⟨pos, rest⟩ = .ok (.bare ⟨pos, rest⟩) := by
  rw [valueStart, if_pos (by simpa using behind)]

theorem valueStart_str (value : String) (pos : Nat) (rest : List Char) : ∃ start pos',
    valueStart ⟨pos, '=' :: '"' :: (written value.toList ++ '"' :: rest)⟩ =
      .ok (.str value start ⟨pos', rest⟩) := by
  have quote : '"' ∉ written value.toList := not_mem_written (by decide) (.inl rfl)
  have here : ((⟨pos, '=' :: '"' :: (written value.toList ++ '"' :: rest)⟩ : Cursor).skip 1).skipBlank =
      ⟨pos + 1, '"' :: (written value.toList ++ '"' :: rest)⟩ := Cursor.skipBlank_of_ink (by decide)
  have raw : (written value.toList ++ '"' :: rest).takeWhile (· != '"') = written value.toList := by
    rw [List.takeWhile_append_of_pos]
    · simp
    · intro x member
      refine bne_iff_ne.mpr ?_
      rintro rfl
      exact quote member
  have behind := Cursor.past_append (pos + 1) ('"' :: (written value.toList ++ ['"'])) rest
  rw [Cursor.past, List.length_cons, List.length_append, List.cons_append, List.append_assoc,
    List.singleton_append] at behind
  have within : (written value.toList).length < (written value.toList ++ '"' :: rest).length := by
    rw [List.length_append, List.length_cons]
    omega
  refine ⟨pos + 1, pos + 1 + byteLength ('"' :: (written value.toList ++ ['"'])), ?_⟩
  rw [valueStart, if_neg (by simp), here]
  simp only [beq_self_eq_true, Bool.true_or, if_true, raw, within, decodeReferences_written,
    String.ofList_toList]
  exact congrArg (fun after => Except.ok (ValueStart.str value (pos + 1) after)) behind

theorem valueStart_container (pos : Nat) (rest : List Char) :
    valueStart ⟨pos, '=' :: '\x7b' :: rest⟩ = .ok (.expr ⟨pos + 1 + 1, rest⟩) := by
  have here : ((⟨pos, '=' :: '\x7b' :: rest⟩ : Cursor).skip 1).skipBlank = ⟨pos + 1, '\x7b' :: rest⟩ :=
    Cursor.skipBlank_of_ink (by decide)
  rw [valueStart, here]
  rfl

theorem valueStart_element (pos : Nat) (rest : List Char) :
    valueStart ⟨pos, '=' :: '<' :: rest⟩ = .ok (.element ⟨pos + 1, '<' :: rest⟩) := by
  have here : ((⟨pos, '=' :: '<' :: rest⟩ : Cursor).skip 1).skipBlank = ⟨pos + 1, '<' :: rest⟩ :=
    Cursor.skipBlank_of_ink (by decide)
  rw [valueStart, here]
  rfl

/-! ## Children -/

/-- A text is read up to what stands behind it, and makes its child. -/
theorem textChild_print (text : Option InkText) {c : Char} {s : List Char}
    (stops : c = '<' ∨ c = '\x7b') (pos : Nat) : ∃ pos',
    textEnd ⟨pos, InkText.print text ++ c :: s⟩ = ⟨pos', c :: s⟩ ∧
      Child.unplacedAll (textChild ⟨pos, InkText.print text ++ c :: s⟩ ⟨pos', c :: s⟩) =
        InkText.child text := by
  have inside : ∀ x ∈ InkText.print text,
      (!(x == '<' || x == '\x7b' || x == '\x7d' || x == '>')) = true := by
    have absent (f : Char) (foreign : f ∉ referenceChars) (some : (referenceName f).isSome) :
        f ∉ InkText.print text := by
      cases text with
      | none => exact List.not_mem_nil
      | some t => exact not_mem_written foreign (.inl some)
    intro x member
    have other (f : Char) (foreign : f ∉ referenceChars) (some : (referenceName f).isSome) :
        (x == f) = false := by
      rw [beq_eq_false_iff_ne]
      rintro rfl
      exact absent x foreign some member
    rw [other '<' (by decide) rfl, other '\x7b' (by decide) rfl, other '\x7d' (by decide) rfl,
      other '>' (by decide) rfl]
    rfl
  have stop : ∀ x, (c :: s).head? = some x →
      (!(x == '<' || x == '\x7b' || x == '\x7d' || x == '>')) = false := by
    rintro x head
    cases head
    rcases stops with rfl | rfl <;> rfl
  refine ⟨pos + byteLength (InkText.print text), Cursor.skipWhile_append pos inside stop, ?_⟩
  rw [textChild, Cursor.upTo_append, String.toList_ofList]
  cases text with
  | none => rfl
  | some t =>
      rw [InkText.print, cleanText_written t.inLine t.ink]
      simp [Child.unplacedAll, Child.unplaced, InkText.child]

theorem childStart_element (parent : Option String) {c : Char} {s : List Char}
    (starts : isLetter c = true ∨ c = '>') (pos : Nat) :
    childStart parent ⟨pos, '<' :: c :: s⟩ = .ok (.element ⟨pos, '<' :: c :: s⟩) := by
  have other (f : Char) (refused : isLetter f = false) (less : f ≠ '>') : c ≠ f := by
    rintro rfl
    rcases starts with letter | same
    · rw [letter] at refused
      cases refused
    · exact less same
  have gap : (c :: s).takeWhile
      (fun y => y == ' ' || y == '\t' || y == '\n' || y == '\x0c' || y == '\r') = [] := by
    simp [other ' ' (by decide) (by decide), other '\t' (by decide) (by decide),
      other '\n' (by decide) (by decide), other '\x0c' (by decide) (by decide),
      other '\r' (by decide) (by decide)]
  simp only [childStart]
  rw [gap]
  simp [other '/' (by decide) (by decide)]

theorem childStart_close (name : Option TagWord) (pos : Nat) (rest : List Char) : ∃ pos',
    childStart (name.map (·.text)) ⟨pos, closingTag name ++ rest⟩ = .ok (.stop ⟨pos', rest⟩) := by
  cases name with
  | none =>
      have here : ((⟨pos, '<' :: '/' :: '>' :: rest⟩ : Cursor).skip 2).skipBlank =
          ⟨pos + 2, '>' :: rest⟩ := Cursor.skipBlank_of_ink (by decide)
      have named : (⟨pos + 2, '>' :: rest⟩ : Cursor).skipWhile isTagNamePart = ⟨pos + 2, '>' :: rest⟩ :=
        Cursor.skipWhile_of_stop rfl (by decide)
      have close : (⟨pos + 2, '>' :: rest⟩ : Cursor).skipBlank = ⟨pos + 2, '>' :: rest⟩ :=
        Cursor.skipBlank_of_ink (by decide)
      refine ⟨pos + 2 + 1, ?_⟩
      change childStart none ⟨pos, '<' :: '/' :: '>' :: rest⟩ = _
      simp [childStart, here, named, close]
      rfl
  | some name =>
      have stop : ∀ x, ('>' :: rest).head? = some x → isTagNamePart x = false := by
        rintro x head
        cases head
        decide
      have named := skipWhile_name (pos + 2) (fun _ => isTagNamePart_of_isLetter) name.fits stop
      have text := Cursor.upTo_append (pos + 2) name.text.toList ('>' :: rest)
      have close : (⟨pos + 2 + byteLength name.text.toList, '>' :: rest⟩ : Cursor).skipBlank =
          ⟨pos + 2 + byteLength name.text.toList, '>' :: rest⟩ := Cursor.skipBlank_of_ink (by decide)
      obtain ⟨c, t, split, letter, -⟩ := exists_of_isNameOf name.fits
      have starts := isWordStart_of_isLetter letter
      have here : ((⟨pos, '<' :: '/' :: (name.text.toList ++ '>' :: rest)⟩ : Cursor).skip 2).skipBlank =
          ⟨pos + 2, name.text.toList ++ '>' :: rest⟩ := by
        rw [split]
        exact Cursor.skipBlank_of_ink (ink_of_isWordStart starts)
      have noFragment : name.text.toList.head? = some c ∧ c ≠ '>' :=
        ⟨by rw [split]; rfl, ne_of_isWordStart starts (by decide)⟩
      have taken : byteLength name.text.toList ≠ 0 := by
        rw [split]
        exact Nat.ne_of_gt (Cursor.byteLength_pos (List.cons_ne_nil c t))
      refine ⟨pos + 2 + byteLength name.text.toList + 1, ?_⟩
      change childStart (some name.text) ⟨pos, '<' :: '/' :: (name.text.toList ++ ['>'] ++ rest)⟩ = _
      rw [List.append_assoc, List.singleton_append]
      simp only [childStart]
      rw [List.takeWhile_cons_of_neg (by decide)]
      simp [here, named, close, text, noFragment, taken, String.ofList_toList]
      rfl

/-! ## Trees are read -/

/-- Attributes are read from behind the white space in front of them. -/
theorem Reads.attributes_skipBlank {c : Cursor} {r : List Attribute × Bool × Cursor}
    (reads : Reads d (.attributes c) r) : Reads d (.attributes c.skipBlank) r := by
  have same : tagPart c.skipBlank = tagPart c := by
    rw [tagPart, tagPart, Cursor.skipBlank_skipBlank]
  cases reads with
  | attributesStop here => exact .attributesStop (same.trans here)
  | attributesSpread here inside others => exact .attributesSpread (same.trans here) inside others
  | attributesName here inside others => exact .attributesName (same.trans here) inside others

/-- What may stand behind an attribute. -/
structure BehindAttribute (tail : List Char) : Prop where
  name : BehindName tail
  /-- No equals sign stands there, so that a name alone has no value. -/
  bare : ∀ pos, (Cursor.skipBlank ⟨pos, tail⟩).rest.head? ≠ some '='

theorem TreeAttribute.print_head (a : TreeAttribute) : ∃ c t, a.print paired = c :: t ∧
    (isBlank c || c == '\ufeff') = false ∧ c ≠ '=' := by
  have named (name : AttributeWord) : ∃ c t, name.text.toList = c :: t ∧
      (isBlank c || c == '\ufeff') = false ∧ c ≠ '=' := by
    obtain ⟨c, t, split, letter, -⟩ := exists_of_isNameOf name.fits
    have starts := isWordStart_of_isLetter letter
    exact ⟨c, t, split, ink_of_isWordStart starts, ne_of_isWordStart starts (by decide)⟩
  cases a with
  | bare name =>
      rw [TreeAttribute.print]
      exact named name
  | str name | container name | element name =>
      obtain ⟨c, t, split, ink⟩ := named name
      rw [TreeAttribute.print, split]
      exact ⟨c, _, rfl, ink⟩
  | spread word => exact ⟨_, _, rfl, by decide⟩

theorem TreeAttribute.behind (as : List TreeAttribute) (closed : Bool) (rest : List Char) :
    BehindAttribute (TreeAttribute.printAll paired as ++ (tagEnd closed ++ rest)) := by
  cases as with
  | nil =>
      refine ⟨by cases closed <;> exact ⟨_, _, rfl, by simp⟩, fun pos => ?_⟩
      cases closed
      · change (Cursor.skipBlank ⟨pos, '>' :: rest⟩).rest.head? ≠ _
        rw [Cursor.skipBlank_of_ink (by decide), List.head?_cons]
        decide
      · change (Cursor.skipBlank ⟨pos, '/' :: '>' :: rest⟩).rest.head? ≠ _
        rw [Cursor.skipBlank_of_ink (by decide), List.head?_cons]
        decide
  | cons a as =>
      refine ⟨⟨_, _, rfl, by simp⟩, fun pos => ?_⟩
      obtain ⟨c, t, split, ink, noValue⟩ := @TreeAttribute.print_head paired a
      rw [TreeAttribute.printAll, split, List.cons_append, List.cons_append, List.cons_append,
        Cursor.skipBlank_space ink, List.head?_cons, ne_eq, Option.some.injEq]
      exact noValue

/-- An attribute with a name is read with its value. -/
theorem reads_named {name : AttributeWord} {pos : Nat} {tail : List Char} {value : AttributeValue}
    {after : Cursor} (behind : BehindName tail)
    (inside : Reads d (.value (Cursor.skipBlank ⟨pos + 1 + byteLength name.text.toList, tail⟩))
      (value, after)) {others : List Attribute} {closed : Bool} {final : Cursor}
    (reads : Reads d (.attributes after) (others, closed, final)) :
    Reads d (.attributes ⟨pos, ' ' :: (name.text.toList ++ tail)⟩)
      (.named name.text (pos + 1) value :: others, closed, final) := by
  have whole := Reads.attributesName (tagPart_name name.fits behind pos) inside reads
  rwa [Cursor.upTo_append, String.ofList_toList] at whole

theorem reads_valued {name : AttributeWord} {pos : Nat} {s : List Char} {value : AttributeValue}
    {after : Cursor}
    (inside : Reads d (.value ⟨pos + 1 + byteLength name.text.toList, '=' :: s⟩) (value, after))
    {others : List Attribute} {closed : Bool} {final : Cursor}
    (reads : Reads d (.attributes after) (others, closed, final)) :
    Reads d (.attributes ⟨pos, ' ' :: (name.text.toList ++ '=' :: s)⟩)
      (.named name.text (pos + 1) value :: others, closed, final) := by
  refine reads_named ⟨_, _, rfl, by simp⟩ ?_ reads
  rwa [Cursor.skipBlank_of_ink (by decide)]

theorem ElementTree.print_head (tree : ElementTree) : ∃ c s, tree.print paired = '<' :: c :: s ∧
    (isLetter c = true ∨ c = '>') := by
  cases tree with
  | element name attributes content =>
      obtain ⟨c, t, split, letter, -⟩ := exists_of_isNameOf name.fits
      rw [ElementTree.print, split]
      exact ⟨c, _, rfl, .inl letter⟩
  | fragment content => exact ⟨_, _, rfl, .inr rfl⟩

theorem TreeContent.children_of_isEmpty {content : TreeContent} (empty : content.isEmpty = true) :
    content.children = [] := by
  unfold TreeContent.isEmpty at empty
  split at empty
  · rfl
  · cases empty

mutual

theorem ElementTree.reads : ∀ (tree : ElementTree) (pos : Nat) (rest : List Char), ∃ element pos',
    Reads d (.element ⟨pos, tree.print paired ++ rest⟩) (element, ⟨pos', rest⟩) ∧
      element.unplaced = tree.toElement
  | .element name attributes content, pos, rest => by
      rw [ElementTree.print, List.cons_append, List.append_assoc, List.append_assoc]
      have start (closed : Bool) (rest : List Char) :=
        tagStart_name name.fits (@TreeAttribute.behind paired attributes closed rest).name pos
      simp only [String.ofList_toList] at start
      by_cases empty : (content.isEmpty && !paired) = true
      · obtain ⟨given, pos', tag, same⟩ := TreeAttribute.readsAll attributes true
          (pos + 1 + byteLength name.text.toList) rest
        rw [if_pos empty]
        refine ⟨_, pos', .elementClosed (start true rest) tag, ?_⟩
        rw [Element.unplaced, same, ElementTree.toElement,
          TreeContent.children_of_isEmpty (Bool.and_eq_true_iff.mp empty).1]
        rfl
      · obtain ⟨given, middle, tag, same⟩ := TreeAttribute.readsAll attributes false
          (pos + 1 + byteLength name.text.toList) (content.print paired ++ (closingTag name ++ rest))
        obtain ⟨children, pos', inside, same'⟩ := content.reads (some name) middle rest
        rw [if_neg empty, List.append_assoc, List.append_assoc]
        refine ⟨_, pos', .elementOpen (start false _) tag inside, ?_⟩
        rw [Element.unplaced, same, same', ElementTree.toElement]
        rfl
  | .fragment content, pos, rest => by
      obtain ⟨children, pos', reads, same⟩ := content.reads none (pos + 1 + 1) rest
      have whole := Reads.elementFragment (tagStart_fragment pos _) reads
      rw [ElementTree.print, List.cons_append, List.cons_append, List.append_assoc]
      refine ⟨_, pos', whole, ?_⟩
      rw [Element.unplaced, same]
      rfl

/-- An attribute is read up to what stands behind it. -/
theorem TreeAttribute.reads : ∀ (a : TreeAttribute) (pos : Nat) {tail : List Char},
    BehindAttribute tail → ∃ given pos', (∀ others closed final,
      Reads d (.attributes ⟨pos', tail⟩) (others, closed, final) →
        Reads d (.attributes ⟨pos, ' ' :: (a.print paired ++ tail)⟩)
          (given :: others, closed, final)) ∧
      given.unplaced = a.toAttribute
  | .bare name, pos, tail, behind => by
      refine ⟨_, pos + 1 + byteLength name.text.toList, fun others closed final reads =>
        reads_named behind.name (.valueBare (valueStart_bare (behind.bare _) _))
          reads.attributes_skipBlank, rfl⟩
  | .str name value, pos, tail, _ => by
      obtain ⟨start, pos', here⟩ := valueStart_str value (pos + 1 + byteLength name.text.toList) tail
      refine ⟨.named name.text (pos + 1) (.str value start), pos', fun others closed final reads => ?_,
        rfl⟩
      rw [TreeAttribute.print, List.append_assoc, List.cons_append, List.cons_append,
        List.append_assoc]
      exact reads_valued (.valueStr here) reads
  | .container name word, pos, tail, _ => by
      obtain ⟨body, pos', inside, same⟩ :=
        word.reads (pos + 1 + byteLength name.text.toList + 1 + 1) tail
      refine ⟨.named name.text (pos + 1) (.expr body), pos', fun others closed final reads => ?_, ?_⟩
      · rw [TreeAttribute.print, List.append_assoc, List.cons_append, List.cons_append]
        exact reads_valued (.valueExpr (valueStart_container _ _) inside) reads
      · rw [Attribute.unplaced, AttributeValue.unplaced, same]
        rfl
  | .element name tree, pos, tail, _ => by
      obtain ⟨element, pos', inside, same⟩ :=
        tree.reads (pos + 1 + byteLength name.text.toList + 1) tail
      refine ⟨.named name.text (pos + 1) (.element element), pos', fun others closed final reads => ?_,
        ?_⟩
      · obtain ⟨c, s, split, -⟩ := @ElementTree.print_head paired tree
        rw [TreeAttribute.print, List.append_assoc, List.cons_append]
        rw [split, List.cons_append] at inside ⊢
        exact reads_valued (.valueElement (valueStart_element _ _) inside) reads
      · rw [Attribute.unplaced, AttributeValue.unplaced, same]
        rfl
  | .spread word, pos, tail, _ => by
      obtain ⟨body, pos', reads, same⟩ := word.reads (pos + 1 + 1 + 3) tail
      refine ⟨.spread body, pos', fun others closed final behind => ?_, ?_⟩
      · exact .attributesSpread (tagPart_spread pos _) reads behind
      · rw [Attribute.unplaced, same]
        rfl

/-- Attributes are read up to the end of their tag. -/
theorem TreeAttribute.readsAll : ∀ (as : List TreeAttribute) (closed : Bool) (pos : Nat)
    (rest : List Char), ∃ attributes pos',
      Reads d (.attributes ⟨pos, TreeAttribute.printAll paired as ++ (tagEnd closed ++ rest)⟩)
        (attributes, closed, ⟨pos', rest⟩) ∧
      Attribute.unplacedAll attributes = TreeAttribute.toAttributes as
  | [], closed, pos, rest => by
      obtain ⟨pos', here⟩ := tagPart_end closed pos rest
      exact ⟨[], pos', .attributesStop here, rfl⟩
  | a :: as, closed, pos, rest => by
      obtain ⟨given, middle, here, same⟩ := a.reads pos (TreeAttribute.behind as closed rest)
      obtain ⟨others, pos', reads, same'⟩ := TreeAttribute.readsAll as closed middle rest
      rw [TreeAttribute.printAll, List.cons_append, List.append_assoc]
      refine ⟨given :: others, pos', here _ _ _ reads, ?_⟩
      rw [Attribute.unplacedAll, same, same', TreeAttribute.toAttributes]

/-- Children are read up to the closing tag of their element. -/
theorem TreeContent.reads : ∀ (content : TreeContent) (name : Option TagWord) (pos : Nat)
    (rest : List Char), ∃ children pos',
      Reads d (.children (name.map (·.text)) ⟨pos, content.print paired ++ (closingTag name ++ rest)⟩)
        (children, ⟨pos', rest⟩) ∧
      Child.unplacedAll children = content.children
  | .last text, name, pos, rest => by
      obtain ⟨c, s, split⟩ : ∃ c s, closingTag name ++ rest = '<' :: s := ⟨'<', _, rfl⟩
      obtain ⟨pos₁, ends, child⟩ := @textChild_print text '<' s (.inl rfl) pos
      obtain ⟨pos₂, here⟩ := childStart_close name pos₁ rest
      rw [TreeContent.print, split]
      rw [split, ← ends] at here
      refine ⟨_, pos₂, .childrenStop here, ?_⟩
      rw [ends]
      exact child
  | .container text word content, name, pos, rest => by
      obtain ⟨pos₁, ends, child⟩ := @textChild_print text '\x7b'
        (word.print ++ (content.print paired ++ (closingTag name ++ rest))) (.inr rfl) pos
      obtain ⟨body, pos₂, inside, same⟩ :=
        @Identifier.reads d word (pos₁ + 1) (content.print paired ++ (closingTag name ++ rest))
      obtain ⟨children, pos₃, others, same'⟩ := content.reads name pos₂ rest
      rw [TreeContent.print, List.append_assoc, List.cons_append, List.append_assoc]
      refine ⟨_, pos₃, .childrenExpr ?_ inside others, ?_⟩
      · rw [ends]
        rfl
      · rw [ends, Child.unplacedAll_append, Child.unplacedAll_append, child, same',
          Identifier.bodyChild same, List.append_assoc]
        rfl
  | .element text tree content, name, pos, rest => by
      obtain ⟨c, s, split, starts⟩ := @ElementTree.print_head paired tree
      obtain ⟨pos₁, ends, child⟩ := @textChild_print text '<'
        (c :: s ++ (content.print paired ++ (closingTag name ++ rest))) (.inl rfl) pos
      obtain ⟨element, pos₂, inside, same⟩ :=
        tree.reads pos₁ (content.print paired ++ (closingTag name ++ rest))
      obtain ⟨children, pos₃, others, same'⟩ := content.reads name pos₂ rest
      rw [split, List.cons_append] at inside
      rw [TreeContent.print, List.append_assoc, List.append_assoc, split, List.cons_append]
      refine ⟨_, pos₃, .childrenElement ?_ inside others, ?_⟩
      · rw [ends]
        exact childStart_element _ starts pos₁
      · rw [ends, Child.unplacedAll_append, child, Child.unplacedAll, Child.unplaced, same, same']
        rfl

end

/-! ## Assignments -/

/-- The text of an assignment of a tree. -/
def ElementTree.assignment (paired : Bool) (tree : ElementTree) : List Char :=
  'x' :: ' ' :: '=' :: ' ' :: tree.print paired

/-- A token is read behind white space, with the text that it covers. -/
theorem reads_behind_blank {depth pos' : Nat} {operand : Bool} {before final : Cursor} {shape : Shape}
    {text : List Char} {ts : List Token} (here : before.skipBlank = ⟨pos, text ++ rest⟩)
    (some : text ≠ []) (first : Reads d (.token operand ⟨pos, text ++ rest⟩) (shape, ⟨pos', rest⟩))
    (others : Reads d (.tokens false
      ((⟨shape, pos, pos', String.ofList text⟩ : Token).depthAfter depth)
      ((⟨shape, pos, pos', String.ofList text⟩ : Token).operandAfter operand) ⟨pos', rest⟩)
      (ts, final)) :
    pos' = pos + byteLength text ∧ Reads d (.tokens false depth operand before)
      (⟨shape, pos, pos', String.ofList text⟩ :: ts, final) := by
  obtain ⟨taken, same, moved⟩ := first.leads
  obtain rfl := List.append_cancel_right same
  change pos' = pos + byteLength text at moved
  subst moved
  have token : tokenBetween shape ⟨pos, text ++ rest⟩ ⟨pos + byteLength text, rest⟩ =
      ⟨shape, pos, pos + byteLength text, String.ofList text⟩ := by
    rw [tokenBetween, Cursor.upTo_append]
  have more : tokensEnd false depth ⟨pos, text ++ rest⟩ = .ok false := by
    obtain ⟨c, s, rfl⟩ := List.exists_cons_of_ne_nil some
    rfl
  rw [← token] at others ⊢
  rw [← here] at more first others ⊢
  exact ⟨rfl, .tokensMore more first others⟩

/-- The tokens of an assignment of a tree are the name, the sign and the tree, but for its places. -/
theorem tokenize_print (paired : Bool) (tree : ElementTree) : ∃ element,
    tokenize ⟨true, false⟩ (String.ofList (tree.assignment paired)) =
      .ok [⟨.word, 0, 1, "x"⟩, ⟨.punct, 2, 3, "="⟩,
        ⟨.jsx element, 4, 4 + byteLength (tree.print paired), String.ofList (tree.print paired)⟩] ∧
    element.unplaced = tree.toElement := by
  obtain ⟨element, pos', inside, same⟩ := @ElementTree.reads paired ⟨true, false⟩ tree 4 []
  obtain ⟨c, s, split, starts⟩ := @ElementTree.print_head paired tree
  have starts : startsElement ⟨true, false⟩ true (tree.print paired ++ []) = true := by
    rw [split]
    rcases starts with letter | rfl
    · simp [startsElement, elementFollows, letter]
    · simp [startsElement, elementFollows]
  have final : Reads ⟨true, false⟩ (.tokens false 0 false ⟨pos', []⟩) ([], ⟨pos', []⟩) := .tokensEnd rfl
  have here : (⟨3, ' ' :: tree.print paired⟩ : Cursor).skipBlank = ⟨4, tree.print paired ++ []⟩ := by
    rw [List.append_nil, split]
    exact Cursor.skipBlank_space (by decide)
  obtain ⟨rfl, third⟩ := @reads_behind_blank _ _ _ 0 _ _ _ _ _ _ _ here (by rw [split]; nofun)
    (.tokenElement starts inside) final
  have sign : Reads ⟨true, false⟩ (.token false ⟨2, ['='] ++ ' ' :: tree.print paired⟩)
      (.punct, ⟨3, ' ' :: tree.print paired⟩) :=
    .tokenLeaf (by simp) rfl (@lexLeaf_lexeme false (.sign .equals) (' ' :: tree.print paired) rfl
      (by rintro x head; cases head; rfl) 2)
  obtain ⟨-, second⟩ := @reads_behind_blank _ _ _ 0 _ _ _ _ _ _ _
    (Cursor.skipBlank_space (by decide)) (List.cons_ne_nil _ _) sign third
  have word : Reads ⟨true, false⟩
      (.token true ⟨0, ['x'] ++ ' ' :: '=' :: ' ' :: tree.print paired⟩)
      (.word, ⟨1, ' ' :: '=' :: ' ' :: tree.print paired⟩) :=
    .tokenLeaf (by simp) rfl (@lexLeaf_lexeme true (.word "x")
      (' ' :: '=' :: ' ' :: tree.print paired) (by decide) (by rintro x head; cases head; decide) 0)
  obtain ⟨-, first⟩ := @reads_behind_blank _ _ _ 0 _ _ _ _ _ _ _
    (Cursor.skipBlank_of_ink (by decide)) (List.cons_ne_nil _ _) word second
  have start : firstLine (String.ofList (tree.assignment paired)) =
      ([], ⟨0, tree.assignment paired⟩) := by
    unfold firstLine
    rw [String.toList_ofList]
    rfl
  have whole : Reads ⟨true, false⟩ (.ofSource (String.ofList (tree.assignment paired)))
      ([⟨.word, 0, 1, "x"⟩, ⟨.punct, 2, 3, "="⟩,
        ⟨.jsx element, 4, 4 + byteLength (tree.print paired), String.ofList (tree.print paired)⟩],
        ⟨4 + byteLength (tree.print paired), []⟩) := by
    change Reads _ (.tokens false 0 true (firstLine (String.ofList (tree.assignment paired))).2) _
    rw [start]
    exact first
  refine ⟨element, (tokenize_of_reads whole).trans ?_, same⟩
  rw [start]
  rfl

end JsxPreview.Source
