import JsxPreview.Source.Analysis
import JsxPreview.Source.Lexeme

/-! # Uses of modules inside expressions

Wherever it stands, a call of `require` or `import` with a literal names a module, and
`import.meta` the place of this one.  Substitutions of templates and containers of elements are
searched too, in the order of the source. -/
set_option autoImplicit false
namespace JsxPreview.Source

inductive Usage where
  /-- A call of `require`; the span is that of its argument. -/
  | requireCall (specifier : String) (start stop : Nat)
  /-- A call of `import` from `start` to `stop`, with its argument at `literal`. -/
  | dynamicImport (specifier : String) (literal start stop : Nat)
  | importMeta (start stop : Nat)
  | element
deriving DecidableEq, Repr

/-- The use that a word makes, by the significant tokens behind it. -/
def Token.usage (t : Token) (following : List Token) : List Usage :=
  match following with
  | open_ :: literal :: close :: _ =>
      if open_.text == "(" && literal.isStr && close.text == ")" then
        if t.text == "require" then
          [.requireCall (unquote literal.text) literal.start literal.stop]
        else if t.text == "import" then
          [.dynamicImport (unquote literal.text) literal.start t.start close.stop]
        else []
      else if t.text == "import" && open_.text == "." && literal.text == "meta" then
        [.importMeta t.start literal.stop]
      else []
  | [dot, word] =>
      if t.text == "import" && dot.text == "." && word.text == "meta" then
        [.importMeta t.start word.stop]
      else []
  | _ => []

mutual

/-- The uses in a list of tokens; `afterDot` says whether a member name comes next. -/
def Token.usagesAll (afterDot : Bool) : List Token → List Usage
  | [] => []
  | t :: rest =>
      if t.isComment then Token.usagesAll afterDot rest
      else
        let isDot := t.isPunct && (t.text == "." || t.text == "?.")
        t.usages afterDot (rest.filter (!·.isComment)) ++ Token.usagesAll isDot rest

def Token.usages (afterDot : Bool) (following : List Token) : Token → List Usage
  | ⟨.word, start, stop, text⟩ =>
      if afterDot then [] else Token.usage ⟨.word, start, stop, text⟩ following
  | ⟨.template parts, _, _, _⟩ => TemplatePart.usagesAll parts
  | ⟨.jsx element, _, _, _⟩ => .element :: element.usages
  | ⟨.punct, _, _, _⟩ | ⟨.str, _, _, _⟩ | ⟨.number, _, _, _⟩ | ⟨.regex, _, _, _⟩
  | ⟨.comment, _, _, _⟩ => []

def TemplatePart.usagesAll : List TemplatePart → List Usage
  | [] => []
  | p :: rest => p.usages ++ TemplatePart.usagesAll rest

def TemplatePart.usages : TemplatePart → List Usage
  | .raw _ _ => []
  | .subst body => body.usages

def Body.usages : Body → List Usage
  | ⟨_, _, tokens⟩ => Token.usagesAll false tokens

def Element.usages : Element → List Usage
  | ⟨_, _, _, attributes, children⟩ => Attribute.usagesAll attributes ++ Child.usagesAll children

def Attribute.usagesAll : List Attribute → List Usage
  | [] => []
  | a :: rest => a.usages ++ Attribute.usagesAll rest

def Attribute.usages : Attribute → List Usage
  | .spread body => body.usages
  | .named _ _ value => value.usages

def AttributeValue.usages : AttributeValue → List Usage
  | .expr body => body.usages
  | .element e => e.usages
  | .bare | .str _ _ => []

def Child.usagesAll : List Child → List Usage
  | [] => []
  | c :: rest => c.usages ++ Child.usagesAll rest

def Child.usages : Child → List Usage
  | .expr body => body.usages
  | .element e => e.usages
  | .text _ _ => []

end

/-- Adds what a use asks for. -/
def Analysis.addUsage (a : Analysis) : Usage → Analysis
  | .requireCall specifier start stop =>
      (a.depend specifier start .requireCall).rewrite start stop [.moduleId specifier]
  | .dynamicImport specifier literal start stop =>
      (a.depend specifier literal .dynamicImport).rewrite start stop
        [.text "Promise.resolve().then(() => __preview_interop(require(", .moduleId specifier,
          .text ")))"]
  | .importMeta start stop =>
      { a with usesImportMeta := true }.rewrite start stop [.text "__preview_import_meta"]
  | .element => { a with hasJsx := true }

end JsxPreview.Source
