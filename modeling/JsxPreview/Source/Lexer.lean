import JsxPreview.Source.Lexeme

/-! # From text to tokens

Whether `/` starts a regular expression and `<` an element depends on the last significant token: both
do exactly where an operand is expected (`Token.leavesOperand`).  The nest of templates, containers
and elements is read by mutual recursion on an allowance of nested calls.  `tokenized` raises the
allowance until it is enough, and so has an answer exactly when the scan comes to an end. -/
set_option autoImplicit false
namespace JsxPreview.Source

open JsxPreview.Text

/-- Whether an operand is expected after the significant token. -/
def Token.leavesOperand (t : Token) : Bool :=
  match t.shape with
  | .punct => t.text != ")" && t.text != "]"
  | .word => operandKeywords.contains t.text
  | _ => false

/-- Whether an operand is expected after a token, when `operand` says so before it. -/
def Token.operandAfter (t : Token) (operand : Bool) : Bool :=
  if t.isComment then operand else t.leavesOperand

/-- The depth of braces after a token. -/
def Token.depthAfter (t : Token) (depth : Nat) : Nat :=
  if t.isPunct then
    if t.text == "\x7b" then depth + 1 else if t.text == "\x7d" then depth - 1 else depth
  else depth

/-! ## The nest -/

mutual

/-- The tokens up to the end of the text, or up to the brace that closes the container, which is
left unread.  `operand` says whether an operand is expected, `depth` counts open braces. -/
def lexTokens (d : Dialect) (inBraces : Bool) : Nat → Nat → Bool → Cursor →
    Except SyntaxError (List Token × Cursor)
  | 0, _, _, c => c.fail .tooDeep
  | fuel + 1, depth, operand, before => do
      let c := before.skipBlank
      if ← tokensEnd inBraces depth c then .ok ([], c)
      else do
        let (shape, after) ← lexToken d fuel operand c
        let token : Token := ⟨shape, c.pos, after.pos, c.upTo after⟩
        let (rest, final) ← lexTokens d inBraces fuel (token.depthAfter depth)
          (token.operandAfter operand) after
        .ok (token :: rest, final)

/-- The token at a cursor that stands before no white space. -/
def lexToken (d : Dialect) : Nat → Bool → Cursor → Except SyntaxError (Shape × Cursor)
  | 0, _, c => c.fail .tooDeep
  | fuel + 1, operand, c =>
      if c.rest.head? == some '\x60' then do
        let (parts, after) ← lexTemplate d fuel c c.pos (c.skip 1)
        .ok (.template parts, after)
      else if startsElement d operand c.rest then do
        let (element, after) ← lexElement d fuel c
        .ok (.jsx element, after)
      else lexLeaf operand c

/-- The parts of a template literal that was opened at `opening`, from inside a raw part that starts
at byte `partStart`. -/
def lexTemplate (d : Dialect) : Nat → Cursor → Nat → Cursor →
    Except SyntaxError (List TemplatePart × Cursor)
  | 0, _, _, c => c.fail .tooDeep
  | fuel + 1, opening, partStart, c =>
      match rawTail c.rest with
      | none => opening.fail .unterminatedTemplate
      | some (raw, false) =>
          let after := c.past raw
          .ok ([.raw partStart after.pos], after)
      | some (raw, true) => do
          let inner := c.past raw
          let (tokens, close) ← lexTokens d true fuel 0 true inner
          -- the closing brace opens the next raw part
          let (parts, after) ← lexTemplate d fuel opening close.pos (close.skip 1)
          .ok (.raw partStart inner.pos :: .subst ⟨inner.pos, close.pos, tokens⟩ :: parts, after)

/-- The inside of a container whose opening brace has been read, with its closing brace. -/
def lexBody (d : Dialect) : Nat → Cursor → Except SyntaxError (Body × Cursor)
  | 0, c => c.fail .tooDeep
  | fuel + 1, c => do
      let (tokens, close) ← lexTokens d true fuel 0 true c
      .ok (⟨c.pos, close.pos, tokens⟩, close.skip 1)

def lexElement (d : Dialect) : Nat → Cursor → Except SyntaxError (Element × Cursor)
  | 0, c => c.fail .tooDeep
  | fuel + 1, c => do
      match ← tagStart c with
      | .fragment inner =>
          let (children, after) ← lexChildren d fuel none inner
          .ok (⟨c.pos, after.pos, none, [], children⟩, after)
      | .named name named =>
          let (attributes, closed, after) ← lexAttributes d fuel named
          if closed then .ok (⟨c.pos, after.pos, some name, attributes, []⟩, after)
          else do
            let (children, after) ← lexChildren d fuel (some name.text) after
            .ok (⟨c.pos, after.pos, some name, attributes, children⟩, after)

/-- The attributes of a tag and the end of the tag; `true` when the tag closes itself. -/
def lexAttributes (d : Dialect) : Nat → Cursor →
    Except SyntaxError (List Attribute × Bool × Cursor)
  | 0, c => c.fail .tooDeep
  | fuel + 1, before => do
      match ← tagPart before with
      | .stop closed after => .ok ([], closed, after)
      | .spread inner =>
          let (body, after) ← lexBody d fuel inner
          let (rest, closed, final) ← lexAttributes d fuel after
          .ok (.spread body :: rest, closed, final)
      | .name c named =>
          let (value, after) ← lexAttributeValue d fuel named.skipBlank
          let (rest, closed, final) ← lexAttributes d fuel after
          .ok (.named (c.upTo named) c.pos value :: rest, closed, final)

def lexAttributeValue (d : Dialect) : Nat → Cursor → Except SyntaxError (AttributeValue × Cursor)
  | 0, c => c.fail .tooDeep
  | fuel + 1, before => do
      match ← valueStart before with
      | .bare after => .ok (.bare, after)
      | .str value start after => .ok (.str value start, after)
      | .expr inner =>
          let (body, after) ← lexBody d fuel inner
          .ok (.expr body, after)
      | .element c =>
          let (element, after) ← lexElement d fuel c
          .ok (.element element, after)

/-- The children of an element and its closing tag, which has to repeat the name `parent`. -/
def lexChildren (d : Dialect) : Nat → Option String → Cursor →
    Except SyntaxError (List Child × Cursor)
  | 0, _, c => c.fail .tooDeep
  | fuel + 1, parent, start => do
      let c := textEnd start
      match ← childStart parent c with
      | .expr inner =>
          let (body, after) ← lexBody d fuel inner
          let (rest, final) ← lexChildren d fuel parent after
          .ok (textChild start c ++ bodyChild body ++ rest, final)
      | .element inner =>
          let (element, after) ← lexElement d fuel inner
          let (rest, final) ← lexChildren d fuel parent after
          .ok (textChild start c ++ .element element :: rest, final)
      | .stop after => .ok (textChild start c, after)

end

/-! ## Whole texts -/

/-- A first line that starts with `#!` is a comment; the scan starts behind it. -/
def firstLine (source : String) : List Token × Cursor :=
  let c : Cursor := ⟨0, source.toList⟩
  if "#!".toList.isPrefixOf source.toList then
    let after := c.skipWhile (· != '\n')
    ([⟨.comment, c.pos, after.pos, c.upTo after⟩], after)
  else ([], c)

/-- The tokens of a text, read with an allowance. -/
def tokenizeWithin (fuel : Nat) (d : Dialect) (source : String) :
    Except SyntaxError (List Token) := do
  let (comment, start) := firstLine source
  let (tokens, _) ← lexTokens d false fuel 0 true start
  return comment ++ tokens

/-- A scan that can be tried with every allowance. -/
def Scan (α : Type) : Type := Nat → Except SyntaxError α

/-- The first answer of a scan that is not for want of an allowance, which is doubled each time. -/
def Scan.answerFrom {α : Type} (scan : Scan α) (fuel : Nat) : Option (Except SyntaxError α) :=
  match scan fuel with
  | .error ⟨.tooDeep, _⟩ => scan |>.answerFrom (2 * fuel)
  | answer => some answer
partial_fixpoint

/-- The first allowance for a text: no more than four nested calls go by without reading a
character. -/
def allowance (s : List Char) : Nat := 4 * (s.length + 1)

/-- The tokens of a text, or its refusal; `none` when the scan does not come to an end. -/
def tokenized (d : Dialect) (source : String) : Option (Except SyntaxError (List Token)) :=
  Scan.answerFrom (tokenizeWithin · d source) (allowance source.toList)

/-- The answer of `tokenized`, which a caller waits for. -/
def tokenize (d : Dialect) (source : String) : Except SyntaxError (List Token) :=
  (tokenized d source).getD (.error ⟨.tooDeep, 0⟩)

end JsxPreview.Source
