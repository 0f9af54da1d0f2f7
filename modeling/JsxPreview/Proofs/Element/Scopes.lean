import JsxPreview.Element.Render

/-! # What contexts hold while a tree is rendered

Rendering sets a context for the time of a provider's children and sets it back.  `renderUnder` has no
state to set: it knows the providers around a node, and a context holds what the nearest provider of it
gives, or what it held outside (`Contexts.under`).  Rendering gives the same markup or the same error,
and leaves every context as it was (`renderNode_scoped`). -/
set_option autoImplicit false
namespace JsxPreview.Element

open JsxPreview.Script JsxPreview.Markup
open JsxPreview.Script.Value (typeError)

/-! ## Rendering without state -/

/-- The providers around a node, the nearest first: each with the context it is for and its value. -/
abbrev Providers : Type := List (String × Value)

/-- What contexts hold under providers: the value of the nearest provider of a context, or what it held
outside when there is none. -/
def Contexts.under (outside : Contexts) (around : Providers) : Contexts where
  read name := (around.lookup name).getD (outside.read name)

/-- What a function gives where contexts hold these values. -/
def applied (f : Function) (v : Value) (cs : Contexts) : Except Stop Value :=
  ((applyFunction f v).run cs).1

def tagUnder (render : Value → Except Stop String) (tag : String) (props : List (String × Value)) :
    Except Stop String := do
  let attributes ← (attributesText props).mapError .thrown
  if voidTags.contains tag then
    return "<" ++ tag ++ attributes ++ "/>"
  let inner ← match innerMarkup? props with
    | some html => html.toText.mapError .thrown
    | none => render ((Value.record props).property "children")
  return "<" ++ tag ++ attributes ++ ">" ++ inner ++ "</" ++ tag ++ ">"

/-- A provider is around its children, and a consumer shows what its context holds there. -/
def elementUnder (outside : Contexts) (render : Providers → Value → Except Stop String)
    (around : Providers) (type : Value) (props : List (String × Value)) : Except Stop String :=
  let children := (Value.record props).property "children"
  match type with
  | .symbol "react.fragment" => render around children
  | .provider name => render ((name, (Value.record props).property "value") :: around) children
  | .consumer name =>
      match children with
      | .function f => do
          render around (← applied f ((outside.under around).read name) (outside.under around))
      | _ => throw (.thrown (typeError "not a function"))
  | .function f => do render around (← applied f (.record props) (outside.under around))
  | .text tag => tagUnder (render around) tag props
  | type => do
      throw (.thrown (typeError ("Unsupported element type: " ++ (← type.toText.mapError .thrown))))

def allUnder (render : Value → Except Stop String) : List Value → Except Stop String
  | [] => pure ""
  | v :: rest => do
      let first ← render v
      return first ++ (← allUnder render rest)

/-- The markup of a node under providers. -/
def renderUnder (outside : Contexts) : Nat → Providers → Value → Except Stop String
  | 0, _, _ => throw .endless
  | steps + 1, around, v =>
      match v with
      | .undefined | .null | .bool _ => pure ""
      | .list items => allUnder (renderUnder outside steps around) items
      | .resolved v => renderUnder outside steps around v
      | .rejected e => throw (.thrown e)
      | .unsettled => throw .waiting
      | .element type _ _ props => elementUnder outside (renderUnder outside steps) around type props
      | v => if v.isThenable then throw .waiting else escapeText <$> v.toText.mapError .thrown

/-! ## Programs that leave contexts alone -/

/-- From contexts that hold these values a program comes to this end, and leaves them as they are. -/
def Ends {α : Type} (act : Rendering α) (cs : Contexts) (r : Except Stop α) : Prop :=
  act.run cs = (r, cs)

namespace Ends

variable {α β : Type} {act : Rendering α} {cs : Contexts} {r : Except Stop α}

theorem pure (a : α) : Ends (Pure.pure a) cs (.ok a) := rfl

theorem throw (stop : Stop) : Ends (MonadExcept.throw stop : Rendering α) cs (.error stop) := rfl

theorem ofExcept (x : Except Value α) : Ends (Rendering.ofExcept x) cs (x.mapError .thrown) := by
  cases x <;> rfl

theorem current (name : String) : Ends (Rendering.current name) cs (.ok (cs.read name)) := rfl

theorem bind {next : α → Rendering β} {next' : α → Except Stop β} (first : Ends act cs r)
    (rest : ∀ a, Ends (next a) cs (next' a)) : Ends (act >>= next) cs (r >>= next') := by
  have run : (act >>= next).run cs =
      (ExceptT.bindCont next (act.run cs).1).run (act.run cs).2 := rfl
  rw [Ends, run, first]
  cases r with
  | ok a => exact rest a
  | error stop => rfl

theorem within {name : String} {v : Value} (inside : Ends act (cs.write name v) r) :
    Ends (Rendering.within name v act) cs r := by
  have run : (Rendering.within name v act).run cs = ((act.run (cs.write name v)).1,
      (act.run (cs.write name v)).2.write name (cs.read name)) := rfl
  rw [Ends, run, inside]
  exact congrArg (Prod.mk r) (Contexts.write_write_read cs name v)

/-- A program that leaves contexts alone ends as it does. -/
theorem ended (ends : Ends act cs r) : Ends act cs (act.run cs).1 := by
  rw [show (act.run cs).1 = r from congrArg Prod.fst ends]
  exact ends

end Ends

/-! ## Functions -/

variable {cs outside : Contexts} {around : Providers}

/-- A component reads contexts at most. -/
theorem showComponent_ends (c : Component) (props : List (String × Value)) :
    ∃ r, Ends (showComponent c props) cs r := by
  cases c with
  | tree body => exact ⟨_, .ofExcept _⟩
  | around body => exact ⟨_, .bind (.ofExcept _) fun _ => .pure _⟩
  | property name => exact ⟨_, .bind (.ofExcept _) fun _ => .pure _⟩
  | textOr default => exact ⟨_, .pure _⟩
  | failing message => exact ⟨_, .bind (.ofExcept _) fun _ => .throw _⟩
  | reading context => exact ⟨_, .bind (.ofExcept _) fun _ => .current _⟩
  | forwarding body => exact ⟨_, .bind (.ofExcept _) fun _ => .pure _⟩

theorem applyFunction_ends (f : Function) (v : Value) (cs : Contexts) :
    Ends (applyFunction f v) cs (applied f v cs) := by
  suffices some : ∃ r, Ends (applyFunction f v) cs r from some.elim fun _ ends => ends.ended
  cases f with
  | bracketed => exact ⟨_, .bind (.ofExcept _) fun _ => .pure _⟩
  | component c => exact showComponent_ends c _
  | constant _ result => exact ⟨_, .pure _⟩
  | nothing | doubled _ | named _ _ | noting _ _ | method _ => exact ⟨_, .pure _⟩

/-- What a component is given that uses a context. -/
theorem applied_reading (name : String) (props : Value) (cs : Contexts) :
    applied (.component (.reading (.text name))) props cs = .ok (cs.read name) := rfl

/-! ## Nodes -/

theorem under_cons (outside : Contexts) (around : Providers) (name : String) (v : Value) :
    outside.under ((name, v) :: around) = (outside.under around).write name v := by
  rw [Contexts.under, Contexts.under, Contexts.write]
  congr 1
  funext other
  rw [List.lookup_cons]
  by_cases same : other = name
  · simp [same]
  · simp [same, beq_eq_false_iff_ne.mpr same]

theorem renderTag_ends {render : Value → Rendering String} {render' : Value → Except Stop String}
    (inside : ∀ v, Ends (render v) cs (render' v)) (tag : String) (props : List (String × Value)) :
    Ends (renderTag render tag props) cs (tagUnder render' tag props) := by
  refine .bind (.ofExcept _) fun attributes => ?_
  split
  case isTrue => exact .pure _
  case isFalse =>
    cases innerMarkup? props with
    | none => exact .bind (inside _) fun _ => .pure _
    | some html => exact .bind (.ofExcept _) fun _ => .pure _

theorem renderAll_ends {render : Value → Rendering String} {render' : Value → Except Stop String}
    (inside : ∀ v, Ends (render v) cs (render' v)) (items : List Value) :
    Ends (renderAll render items) cs (allUnder render' items) := by
  induction items with
  | nil => exact .pure _
  | cons v rest ih => exact .bind (inside v) fun _ => .bind ih fun _ => .pure _

theorem renderElement_ends {render : Value → Rendering String}
    {render' : Providers → Value → Except Stop String}
    (inside : ∀ around v, Ends (render v) (outside.under around) (render' around v))
    (around : Providers) (type : Value) (props : List (String × Value)) :
    Ends (renderElement render type props) (outside.under around)
      (elementUnder outside render' around type props) := by
  unfold renderElement
  split
  case h_1 => exact inside around _
  case h_2 name =>
    refine .within ?_
    rw [← under_cons]
    exact inside _ _
  case h_3 name =>
    rw [elementUnder]
    cases (Value.record props).property "children" with
    | function f =>
        have asked (seen : Value) : Ends (applyFunction f seen >>= render) (outside.under around)
            (applied f seen (outside.under around) >>= render' around) :=
          .bind (applyFunction_ends f seen _) fun shown => inside around shown
        exact (Ends.current name).bind asked
    | _ => exact .throw _
  case h_4 f => exact .bind (applyFunction_ends f _ _) fun shown => inside around shown
  case h_5 tag => exact renderTag_ends (inside around) tag props
  case h_6 fragment provider consumer function tag =>
    unfold elementUnder
    split
    case h_1 => exact absurd rfl fragment
    case h_2 => exact absurd rfl (provider _)
    case h_3 => exact absurd rfl (consumer _)
    case h_4 => exact absurd rfl (function _)
    case h_5 => exact absurd rfl (tag _)
    case h_6 => exact .bind (.ofExcept _) fun _ => .throw _

/-- Anything else shows its text. -/
theorem shown_ends (v : Value) :
    Ends (if v.isThenable then throw .waiting else escapeText <$> Rendering.ofExcept v.toText) cs
      (if v.isThenable then throw .waiting else escapeText <$> v.toText.mapError .thrown) := by
  split
  case isTrue => exact .throw _
  case isFalse => cases v.toText <;> rfl

theorem renderNode_ends (steps : Nat) : ∀ (around : Providers) (v : Value),
    Ends (renderNode steps v) (outside.under around) (renderUnder outside steps around v) := by
  induction steps with
  | zero => exact fun _ _ => .throw _
  | succ steps ih =>
      intro around v
      cases v with
      | undefined | null | bool _ => exact .pure _
      | list items => exact renderAll_ends (ih around) items
      | resolved v => exact ih around v
      | rejected e => exact .throw _
      | unsettled => exact .throw _
      | element type _ _ props => exact renderElement_ends ih around type props
      | number | text | units | symbol | record | error | function | context | provider | consumer |
        iterator | object =>
          simp only [renderNode, renderUnder]
          exact shown_ends _

/-- Around its children a provider counts before the one around it, and behind them no more. -/
example :
    let shown : Value := .element (.function (.component (.reading (.text "c")))) .null .null []
    let provided (v : String) (children : List Value) : Value :=
      .element (.provider "c") .null .null [("value", .text v), ("children", .list children)]
    (renderUnder .initial 9 []
      (.list [provided "1" [shown, provided "2" [shown], shown], shown])).toOption =
        some "121default:c" := by
  decide +kernel

end JsxPreview.Element
