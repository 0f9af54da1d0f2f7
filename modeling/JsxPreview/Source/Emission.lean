import JsxPreview.Source.Analysis
import JsxPreview.SourceMap.Builder

/-! # Emission

The tokens of a module are copied with the white space between them; rewrites replace the stretches
that they cover, and elements become calls of the element factory.  What is emitted is a list of
chunks: code, marks that tie the code behind them to a byte of the source, and ids of modules. -/
set_option autoImplicit false
namespace JsxPreview.Source

open JsxPreview.Text

inductive Chunk where
  | code (text : String)
  | mark (offset : Nat)
  | moduleId (specifier : String)
deriving DecidableEq, Repr

namespace Chunk

def ofPiece : Piece → Chunk
  | .text s => .code s
  | .moduleId s => .moduleId s

/-- Lines, each with its line feed, of text that starts at an offset; all but empty ones are
marked. -/
def ofLines (offset : Nat) : List (List Char) → List Chunk
  | [] => []
  | [line] =>
      if line.isEmpty then [] else [.mark offset, .code (String.ofList line)]
  | line :: rest =>
      .mark offset :: .code (String.ofList (line ++ ['\n'])) ::
        ofLines (offset + byteLength line + 1) rest

/-- Copied text, marked at its start and at every further line. -/
def copy (offset : Nat) (text : List Char) : List Chunk :=
  match ofLines offset (splitOn '\n' text) with
  | [] => [.mark offset]
  | chunks => chunks

end Chunk

structure Emitter where
  source : List Char
  rewrites : Rewrites

namespace Emitter

/-- The source between two offsets, as unmarked code. -/
def gap (e : Emitter) (start stop : Nat) : List Chunk :=
  if start < stop then [.code (String.ofList (slice start stop e.source))] else []

def joinChunks (separator : String) : List (List Chunk) → List Chunk
  | [] => []
  | [chunks] => chunks
  | chunks :: rest => chunks ++ .code separator :: joinChunks separator rest

mutual

/-- Emits tokens that lie before `stop`.  The source up to `cursor` is dealt with, and tokens that
start before `skipped` are covered by a rewrite. -/
def tokens (e : Emitter) (stop cursor skipped : Nat) : List Token → List Chunk
  | [] => e.gap cursor stop
  | t :: rest =>
      if t.start < skipped then tokens e stop cursor skipped rest
      else
        let before := e.gap cursor t.start
        match e.rewrites.find? t.start with
        | some r =>
            let replaced := .mark t.start :: r.pieces.map Chunk.ofPiece
            if t.start < r.stop then
              before ++ replaced ++ tokens e stop r.stop r.stop rest
            else before ++ replaced ++ token e t ++ tokens e stop t.stop skipped rest
        | none => before ++ token e t ++ tokens e stop t.stop skipped rest

def token (e : Emitter) : Token → List Chunk
  | ⟨.template parts, _, _, _⟩ => templateParts e parts
  | ⟨.jsx el, _, _, _⟩ => element e el
  | ⟨.word, start, _, text⟩ | ⟨.punct, start, _, text⟩ | ⟨.str, start, _, text⟩
  | ⟨.number, start, _, text⟩ | ⟨.regex, start, _, text⟩ | ⟨.comment, start, _, text⟩ =>
      Chunk.copy start text.toList

def templateParts (e : Emitter) : List TemplatePart → List Chunk
  | [] => []
  | .raw start stop :: rest =>
      Chunk.copy start (slice start stop e.source) ++ templateParts e rest
  | .subst b :: rest => body e b ++ templateParts e rest

def body (e : Emitter) : Body → List Chunk
  | ⟨start, stop, ts⟩ => tokens e stop start 0 ts

/-- An element as a call of the factory: the type, an object of the attributes and the children,
and the key. -/
def element (e : Emitter) : Element → List Chunk
  | ⟨start, _, name, attributes, children⟩ =>
      let many := 1 < children.length
      let type := match name with
        | none => [.code "__jsx_runtime.Fragment"]
        | some n =>
            [.mark n.start, .code (if n.isIntrinsic then Quoted.json n.text else n.text)]
      let content := joinChunks ", " (childValues e children)
      let childrenProperty :=
        if children.isEmpty then []
        else if many then [.code "children: " :: .code "[" :: content ++ [.code "]"]]
        else [.code "children: " :: content]
      [.mark start, .code (if many then "__jsx_runtime.jsxs(" else "__jsx_runtime.jsx(")] ++ type ++
        .code ", \x7b" :: joinChunks ", " (properties e attributes ++ childrenProperty) ++
        .code "\x7d" :: key e [] attributes ++ [.code ")"]

/-- The attributes as properties; the key is none of them. -/
def properties (e : Emitter) : List Attribute → List (List Chunk)
  | [] => []
  | .named name start value :: rest =>
      if name == "key" then properties e rest
      else
        (.mark start :: .code (propertyKey name) :: .code ": " :: attributeValue e value) ::
          properties e rest
  | .spread b :: rest => (.code "..." :: body e b) :: properties e rest

/-- The last key among the attributes as a further argument; `found` comes from the ones in
front. -/
def key (e : Emitter) (found : List Chunk) : List Attribute → List Chunk
  | [] => found
  | .named name _ value :: rest =>
      if name == "key" then key e (.code ", " :: attributeValue e value) rest
      else key e found rest
  | .spread _ :: rest => key e found rest

def attributeValue (e : Emitter) : AttributeValue → List Chunk
  | .bare => [.code "true"]
  | .str value start => [.mark start, .code (Quoted.json value)]
  | .expr b => body e b
  | .element el => element e el

def childValues (e : Emitter) : List Child → List (List Chunk)
  | [] => []
  | .text value start :: rest => [.mark start, .code (Quoted.json value)] :: childValues e rest
  | .expr b :: rest => body e b :: childValues e rest
  | .element el :: rest => element e el :: childValues e rest

end

end Emitter

/-! ## Writing chunks -/

/-- The id that a specifier leads to; an unresolved one stands for itself. -/
def resolvedId (resolved : List (String × String)) (specifier : String) : String :=
  (resolved.lookup specifier).getD specifier

def Chunk.writeTo (source : List Char) (index : Nat) (resolved : List (String × String))
    (w : CodeWriter) : Chunk → CodeWriter
  | .code text => w.write text
  | .mark n =>
      let p := position n source
      w.mapTo (UInt32.ofNat index) (UInt32.ofNat p.line) (UInt32.ofNat p.column)
  | .moduleId specifier => w.write (Quoted.json (resolvedId resolved specifier))

/-- Writes the source from byte `start` on, whose tokens these are. -/
def writeTokensFrom (start : Nat) (source : List Char) (index : Nat) (rewrites : Rewrites)
    (resolved : List (String × String)) (ts : List Token) (w : CodeWriter) : CodeWriter :=
  (Emitter.tokens ⟨source, rewrites⟩ (byteLength source) start 0 ts).foldl
    (Chunk.writeTo source index resolved) w

def writeTokens (source : List Char) (index : Nat) (rewrites : Rewrites)
    (resolved : List (String × String)) (ts : List Token) (w : CodeWriter) : CodeWriter :=
  writeTokensFrom 0 source index rewrites resolved ts w

def writePieces (resolved : List (String × String)) (pieces : List Piece) (w : CodeWriter) :
    CodeWriter :=
  (pieces.map Chunk.ofPiece).foldl (Chunk.writeTo [] 0 resolved) w

end JsxPreview.Source
