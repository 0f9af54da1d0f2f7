import JsxPreview.Element.Create

/-! # Trees described as data

A described tree names elements by the type of the element, its properties and its children; types are
tags or components of a few kinds.  `build` makes the tree, and `plain` reads data inside properties,
which may hold trees in their turn. -/
set_option autoImplicit false
namespace JsxPreview.Element.Tree

open JsxPreview.Script
open JsxPreview.Script.Value (typeError)

/-- The first of the given names that an object has, with what stands there. -/
def firstField? (fields : List (String × Json.Value)) : List String → Option (String × Json.Value)
  | [] => none
  | name :: rest =>
      match fields.lookup name with
      | some v => some (name, v)
      | none => firstField? fields rest

/-- The context of a name, unless the name is inherited. -/
def contextOf (make : String → Value) (name : Json.Value) : Except Value Value := do
  let name ← (Value.ofJson name).toText
  return if isInherited name then .undefined else make name

def componentNames : List String :=
  ["fn", "async", "class", "echo", "defaults", "throws", "use", "provider", "consumer", "fragment",
    "forward", "memo"]

def typeOf (t : Json.Value) : Except Value Value :=
  match firstField? t.fields componentNames with
  | some ("class", v) => .ok (.function (.component (.around v)))
  | some ("echo", v) => .ok (.function (.component (.property v)))
  | some ("defaults", v) => .ok (.function (.component (.textOr v)))
  | some ("throws", v) => .ok (.function (.component (.failing v)))
  | some ("use", v) => .ok (.function (.component (.reading v)))
  | some ("provider", v) => contextOf .provider v
  | some ("consumer", v) => contextOf .consumer v
  | some ("fragment", _) => .ok (.symbol "react.fragment")
  | some ("forward", v) => .ok (.function (.component (.forwarding v)))
  | some (_, v) => .ok (.function (.component (.tree v)))
  | none => .ok (Value.ofJson t)

def promiseOf (v : Value) : Value :=
  match v with
  | .resolved _ | .rejected _ | .unsettled => v
  | v => if v.isThenable then .unsettled else .resolved v

/-- Whether a list of children that is missing is taken as empty. -/
def isAbsent (v : Json.Value) : Bool := !(Value.ofJson v).isTruthy

theorem sizeOf_of_lookup {name : String} {v : Json.Value} :
    ∀ {fields : List (String × Json.Value)}, fields.lookup name = some v →
      sizeOf v < sizeOf fields := by
  intro fields
  induction fields with
  | nil => intro h; simp at h
  | cons f rest ih =>
      obtain ⟨k, w⟩ := f
      intro h
      rw [List.lookup_cons] at h
      split at h
      · cases h
        simp
        omega
      · have := ih h
        simp
        omega

theorem sizeOf_of_firstField? {names : List String} {name : String} {v : Json.Value}
    {fields : List (String × Json.Value)} (h : firstField? fields names = some (name, v)) :
    sizeOf v < sizeOf fields := by
  induction names with
  | nil => simp [firstField?] at h
  | cons n rest ih =>
      simp only [firstField?] at h
      split at h
      · next heq => cases h; exact sizeOf_of_lookup heq
      · exact ih h

mutual

def plain (v : Json.Value) : Except Value Value :=
  match v with
  | .list items => Value.list <$> plainItems items
  | .object fields =>
      match _h : firstField? fields ["$node", "$fn", "$undefined"] with
      | some ("$node", v) => build v
      | some ("$fn", _) => .ok (.function .nothing)
      | some (_, _) => .ok .undefined
      | none => Value.record <$> plainFields fields
  | v => .ok (Value.ofJson v)
termination_by (sizeOf v, 0)
decreasing_by
  all_goals first
    | (have smaller := sizeOf_of_firstField? _h; simp; omega)
    | (simp; omega)

def plainItems (items : List Json.Value) : Except Value (List Value) :=
  match items with
  | [] => .ok []
  | v :: rest => do return (← plain v) :: (← plainItems rest)
termination_by (sizeOf items, 0)

def plainFields (fields : List (String × Json.Value)) : Except Value (List (String × Value)) :=
  match fields with
  | [] => .ok []
  | (name, v) :: rest => do
      let v ← plain v
      let rest ← plainFields rest
      return if name = "__proto__" then rest else (name, v) :: rest
termination_by (sizeOf fields, 0)

def build (v : Json.Value) : Except Value Value :=
  match v with
  | .list items => Value.list <$> buildItems items
  | .object fields =>
      match _h : firstField? fields ["promise", "reject", "show", "el"] with
      | some ("promise", v) => promiseOf <$> build v
      | some ("reject", v) => do
          return .rejected (.error "Error" (← (Value.ofJson v).toText) none)
      | some ("show", _) => .ok (.function .bracketed)
      | some (_, t) => do
          let props ← match _hp : fields.lookup "props" with
            | some v => plain v
            | none => pure .null
          let type ← typeOf t
          let children ← match _hc : fields.lookup "children" with
            | some (.list items) => buildItems items
            | some v => if isAbsent v then pure [] else throw (typeError "not a function")
            | none => pure []
          create type props children
      | none => plain (.object fields)
  | v => .ok (Value.ofJson v)
termination_by (sizeOf v, 1)
decreasing_by
  all_goals first
    | (have smaller := sizeOf_of_firstField? _h; simp; omega)
    | (have smaller := sizeOf_of_lookup _hp; simp; omega)
    | (have smaller := sizeOf_of_lookup _hc; simp at *; omega)
    | (simp; omega)

def buildItems (items : List Json.Value) : Except Value (List Value) :=
  match items with
  | [] => .ok []
  | v :: rest => do return (← build v) :: (← buildItems rest)
termination_by (sizeOf items, 1)

end

end JsxPreview.Element.Tree
