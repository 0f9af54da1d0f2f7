import JsxPreview.Element.Tree
import JsxPreview.Markup.Attribute
import JsxPreview.Markup.Layout
import JsxPreview.Preview.Request
import JsxPreview.Report.Envelope
import JsxPreview.Report.Thrown
import JsxPreview.Script.Value

/-! # Current values of contexts

Every context has a current value.  One that was never written holds its default; under an inherited
name there is no context, and nothing to read. -/
set_option autoImplicit false
namespace JsxPreview.Element

open JsxPreview.Script

structure Contexts where
  read : String → Value

namespace Contexts

def initial : Contexts where
  read name := if isInherited name then .undefined else .text ("default:" ++ name)

def write (cs : Contexts) (name : String) (v : Value) : Contexts where
  read other := if other = name then v else cs.read other

@[simp] theorem read_write (cs : Contexts) (name other : String) (v : Value) :
    (cs.write name v).read other = if other = name then v else cs.read other := rfl

@[simp] theorem write_write_read (cs : Contexts) (name : String) (v : Value) :
    (cs.write name v).write name (cs.read name) = cs := by
  cases cs with
  | mk read =>
    simp only [write]
    congr 1
    funext other
    by_cases h : other = name <;> simp [h]

end Contexts

/-! ## Rendering elements to markup

Rendering walks over a node and writes its markup.  It carries the current values of contexts along, also
past an error; a provider writes its value for the time of its children (`within`).  Waiting for a
promise ends when the promise does: one that never settles ends the rendering.  A component can show
itself through a context, so the number of steps is bounded. -/
open JsxPreview.Script.Value (typeError)
open JsxPreview.Markup

inductive Stop where
  | thrown (error : Value)
  | waiting
  | endless

abbrev Rendering := ExceptT Stop (StateM Contexts)

namespace Rendering

def ofExcept {α : Type} : Except Value α → Rendering α
  | .ok a => pure a
  | .error e => throw (.thrown e)

/-- Runs with a context set to a value, and sets it back whatever happens. -/
def within {α : Type} (name : String) (v : Value) (act : Rendering α) : Rendering α :=
  fun cs =>
    let (result, after) := act (cs.write name v)
    (result, after.write name (cs.read name))

def current (name : String) : Rendering Value := do return (← getThe Contexts).read name

end Rendering

open Rendering

def showComponent (c : Component) (props : List (String × Value)) : Rendering Value :=
  match c with
  | .tree body => ofExcept (Tree.build body)
  | .around body => do
      return .list [← ofExcept (Tree.build body), (Value.record props).property "children"]
  | .property name => do
      return (Value.record props).property (← ofExcept (Value.ofJson name).toText)
  | .textOr _ => pure ((Value.record props).property "text")
  | .failing message => do
      throw (.thrown (.error "Error" (← ofExcept (Value.ofJson message).toText) none))
  | .reading context => do
      current (← ofExcept (Value.ofJson context).toText)
  | .forwarding body => do return .list [.text "null", ← ofExcept (Tree.build body)]

def applyFunction (f : Function) (v : Value) : Rendering Value :=
  match f with
  | .bracketed => do return .text ("[" ++ (← ofExcept v.asText) ++ "]")
  | .component c => showComponent c v.entries
  | .constant _ result => pure (Value.ofJson result)
  | _ => pure .undefined

/-- Elements that never have an end tag. -/
def voidTags : List String :=
  ["area", "base", "br", "col", "embed", "hr", "img", "input", "link", "meta", "param", "source",
    "track", "wbr"]

/-- Markup that an element brings in place of its children. -/
def innerMarkup? (props : List (String × Value)) : Option Value :=
  let html := (Value.record props).property "dangerouslySetInnerHTML"
  let inner := html.property "__html"
  if html.isTruthy && !inner.isNullish then some inner else none

def renderTag (render : Value → Rendering String) (tag : String) (props : List (String × Value)) :
    Rendering String := do
  let attributes ← ofExcept (attributesText props)
  if voidTags.contains tag then
    return "<" ++ tag ++ attributes ++ "/>"
  let inner ← match innerMarkup? props with
    | some html => ofExcept html.toText
    | none => render ((Value.record props).property "children")
  return "<" ++ tag ++ attributes ++ ">" ++ inner ++ "</" ++ tag ++ ">"

def renderElement (render : Value → Rendering String) (type : Value)
    (props : List (String × Value)) : Rendering String :=
  let children := (Value.record props).property "children"
  match type with
  | .symbol "react.fragment" => render children
  | .provider name => within name ((Value.record props).property "value") (render children)
  | .consumer name =>
      match children with
      | .function f => do render (← applyFunction f (← current name))
      | _ => throw (.thrown (typeError "not a function"))
  | .function f => do render (← applyFunction f (.record props))
  | .text tag => renderTag render tag props
  | type => do
      throw (.thrown (typeError ("Unsupported element type: " ++ (← ofExcept type.toText))))

def renderAll (render : Value → Rendering String) : List Value → Rendering String
  | [] => pure ""
  | v :: rest => do
      let first ← render v
      return first ++ (← renderAll render rest)

def renderNode : Nat → Value → Rendering String
  | 0, _ => throw .endless
  | steps + 1, v =>
      match v with
      | .undefined | .null | .bool _ => pure ""
      | .list items => renderAll (renderNode steps) items
      | .resolved v => renderNode steps v
      | .rejected e => throw (.thrown e)
      | .unsettled => throw .waiting
      | .element type _ _ props => renderElement (renderNode steps) type props
      | v => if v.isThenable then throw .waiting else escapeText <$> ofExcept v.toText

end JsxPreview.Element

/-! ## Rendered documents -/
namespace JsxPreview.Element

open JsxPreview.Script
open JsxPreview.Markup
open JsxPreview.Preview (RenderOptions)
open JsxPreview.Report

def doctype : String :=
  "<!DOCTYPE html PUBLIC \"-//W3C//DTD XHTML 1.0 Transitional//EN\" " ++
    "\"http://www.w3.org/TR/xhtml1/DTD/xhtml1-transitional.dtd\">"

def document (options : RenderOptions) (markup : String) : String :=
  if options.plainText then plainText markup
  else if options.pretty then indented (doctype ++ markup)
  else doctype ++ markup

def renderDocument (steps : Nat) (options : RenderOptions) (node : Value) : Except Stop String :=
  let (markup, _) := (renderNode steps node).run .initial
  markup.map (document options)

/-- The error that reports why there is no markup, for a rendering that may take some time. -/
def Stop.toError (milliseconds : Nat) : Stop → CompileError
  | thrown e => .runtime (.ofValue e)
  | waiting =>
      .runtime
        { name := "Error"
          message := "The render function returned a promise that never settled" }
  | endless => .timeout .render milliseconds

def renderTree (props : Json.Value) (options : RenderOptions) : Except Stop String := do
  let config := Value.ofJson props
  let body := ((props.get? "tree").getD .null)
  let node ← (create (.function (.component (.tree body))) config []).mapError .thrown
  let steps := 4 * (body.size + 2) * (body.size + 2)
  renderDocument steps options node

end JsxPreview.Element
