import JsxPreview.Element.Create
import JsxPreview.Proofs.Script.Fields

/-! # Two ways to make an element

`create` takes properties and children apart, `ofJsx` finds the children among the properties.  Over the
fields of an object both make the same element, and it has every field as it stands, exactly when no field
has a name that every object inherits (`create_eq_ofJsx_iff`): under such a name `create` takes a field for
one that is held back. -/
set_option autoImplicit false
namespace JsxPreview.Element

open JsxPreview.Script

/-! ## Defaults and children -/

section Defaults

variable {props : List (String × Value)}

/-- What the filling in of one default keeps, the filling in of all keeps. -/
theorem fillDefaults_keep {P : List (String × Value) → Prop}
    (kept : ∀ props default, P props → P (fillDefault props default)) (type : Value) (holds : P props) :
    P (fillDefaults type props) := by
  unfold fillDefaults
  extract_lets
  split
  · exact List.foldlRecOn _ _ holds fun props holds default _ => kept props default holds
  · exact holds

/-- A property that is not undefined is not filled in. -/
theorem mem_fillDefaults (distinct : DistinctNames props) {f : String × Value} (member : f ∈ props)
    (defined : f.2.isUndefined = false) (type : Value) : f ∈ fillDefaults type props := by
  refine (fillDefaults_keep (P := fun props => DistinctNames props ∧ f ∈ props)
    (fun props default => ?_) type ⟨distinct, member⟩).2
  rintro ⟨distinct, member⟩
  unfold fillDefault
  split
  case isFalse => exact ⟨distinct, member⟩
  case isTrue missing =>
    refine ⟨distinct.assign, (mem_assign_of_ne fun same => ?_).mpr member⟩
    rw [← same, property_of_mem distinct member, defined] at missing
    exact nomatch missing

/-- Under the name of something inherited no default is filled in. -/
theorem fillDefaults_noInherited (apart : ∀ n ∈ props.map Prod.fst, isInherited n = false)
    (type : Value) : ∀ n ∈ (fillDefaults type props).map Prod.fst, isInherited n = false := by
  refine fillDefaults_keep (P := fun props => ∀ n ∈ props.map Prod.fst, isInherited n = false)
    (fun props default apart => ?_) type apart
  unfold fillDefault
  split
  case isFalse => exact apart
  case isTrue missing =>
    intro n member
    rcases List.mem_cons.mp (names_assign_subset member) with rfl | member
    · refine Bool.eq_false_iff.mpr fun inherits => ?_
      rw [property_of_not_mem fun member => by simp [apart _ member] at inherits] at missing
      unfold inherited at missing
      split_ifs at missing <;> exact nomatch missing
    · exact apart n member

theorem addChildren_cases (children : List Value) :
    children = [] ∧ addChildren children = id ∨ ∃ v, addChildren children = assign "children" v := by
  match children with
  | [] => exact .inl ⟨rfl, rfl⟩
  | [child] => exact .inr ⟨child, rfl⟩
  | _ :: _ :: _ => exact .inr ⟨_, rfl⟩

end Defaults

/-! ## Both ways -/

section Both

variable {type : Value} {fields : List (String × Value)} {children : List Value}

theorem property_of_absent {name : String} (absent : name ∉ fields.map Prod.fst)
    (own : isInherited name = false) : (Value.record fields).property name = .undefined := by
  have proto : name ≠ "__proto__" := by
    rintro rfl
    exact absurd own (by decide)
  have constructor : name ≠ "constructor" := by
    rintro rfl
    exact absurd own (by decide)
  rw [property_of_not_mem absent, inherited, if_neg proto, if_neg constructor, own]
  rfl

theorem create_record (key : "key" ∉ fields.map Prod.fst) (ref : "ref" ∉ fields.map Prod.fst) :
    create type (.record fields) children = .ok (.element type .null .null (fillDefaults type
      (addChildren children (addEntries (fun name => !isReserved name) [] (.record fields))))) := by
  rw [create, refOf, property_of_absent key (by decide), property_of_absent ref (by decide)]
  rfl

theorem ofJsx_record (key : "key" ∉ fields.map Prod.fst) (ref : "ref" ∉ fields.map Prod.fst) :
    ofJsx type (.record fields) .undefined = .ok (.element type .null .null (fillDefaults type
      (addEntries (fun name => name != "key" && name != "ref") [] (.record fields)))) := by
  rw [ofJsx, refOf, property_of_absent key (by decide), property_of_absent ref (by decide)]
  rfl

/-- Fields that are all admitted are taken over as they are walked. -/
theorem addEntries_all {admits : String → Bool} (distinct : DistinctNames fields)
    (settable : ∀ f ∈ fields, f.1 ≠ "__proto__") (admitted : ∀ f ∈ fields, admits f.1 = true) :
    addEntries admits [] (.record fields) = walked fields := by
  have all : (walked fields).filter (fun f => admits f.1) = walked fields :=
    List.filter_eq_self.mpr fun f member => admitted f ((walked_perm fields).mem_iff.mp member)
  rw [addEntries, Value.entries, all, foldl_assign]
  · rfl
  · exact distinct.walked
  · exact fun f member => settable f ((walked_perm fields).mem_iff.mp member)

/-- Children stand among the walked fields where they stand among the fields. -/
theorem walked_addChildren (fields : List (String × Value)) (children : List Value) :
    walked (addChildren children fields) = addChildren children (walked fields) := by
  rcases addChildren_cases children with ⟨-, same⟩ | ⟨v, same⟩
  · rw [same, id, id]
  · rw [same, walked_assign (by decide)]

theorem distinctNames_addChildren (distinct : DistinctNames fields) (children : List Value) :
    DistinctNames (addChildren children fields) := by
  rcases addChildren_cases children with ⟨-, same⟩ | ⟨v, same⟩
  · rwa [same]
  · rw [same]
    exact distinct.assign

theorem names_addChildren (children : List Value) : ∀ n ∈ (addChildren children fields).map Prod.fst,
    n = "children" ∨ n ∈ fields.map Prod.fst := by
  intro n member
  rcases addChildren_cases children with ⟨-, same⟩ | ⟨v, same⟩
  · rw [same] at member
    exact .inr member
  · rw [same] at member
    exact List.mem_cons.mp (names_assign_subset member)

/-- Fields without inherited names reach the element whole, whichever way it is made. -/
theorem create_eq_ofJsx (distinct : DistinctNames fields)
    (plain : ∀ n ∈ fields.map Prod.fst, isReserved n = false) :
    ∃ props, props = fillDefaults type (addChildren children (walked fields)) ∧
      create type (.record fields) children = .ok (.element type .null .null props) ∧
      ofJsx type (.record (addChildren children fields)) .undefined =
        .ok (.element type .null .null props) := by
  have free {n : String} (member : n ∈ fields.map Prod.fst) : n ≠ "key" ∧ n ≠ "ref" ∧ n ≠ "__proto__" := by
    have plain := plain n member
    refine ⟨?_, ?_, ?_⟩ <;> rintro rfl <;> exact absurd plain (by decide)
  have freeAll {n : String} (member : n ∈ (addChildren children fields).map Prod.fst) :
      n ≠ "key" ∧ n ≠ "ref" ∧ n ≠ "__proto__" := by
    rcases names_addChildren children n member with rfl | member
    · decide
    · exact free member
  have name {fields : List (String × Value)} {f : String × Value} (member : f ∈ fields) :
      f.1 ∈ fields.map Prod.fst := List.mem_map.mpr ⟨f, member, rfl⟩
  refine ⟨_, rfl, ?_, ?_⟩
  · rw [create_record (fun member => (free member).1 rfl) (fun member => (free member).2.1 rfl),
      addEntries_all distinct (fun f member => (free (name member)).2.2)
        fun f member => by rw [plain _ (name member)]; rfl]
  · rw [ofJsx_record (fun member => (freeAll member).1 rfl) (fun member => (freeAll member).2.1 rfl),
      addEntries_all (distinctNames_addChildren distinct children) (fun f member => (freeAll (name member)).2.2)
        fun f member => Bool.and_eq_true_iff.mpr
          ⟨bne_iff_ne.mpr (freeAll (name member)).1, bne_iff_ne.mpr (freeAll (name member)).2.1⟩,
      walked_addChildren]

/-- What has the name of something inherited is no property of an element that `create` makes. -/
theorem create_noInherited (key : "key" ∉ fields.map Prod.fst) (ref : "ref" ∉ fields.map Prod.fst) :
    ∃ props, create type (.record fields) children = .ok (.element type .null .null props) ∧
      ∀ n ∈ props.map Prod.fst, isInherited n = false := by
  refine ⟨_, create_record key ref, fillDefaults_noInherited ?_ type⟩
  have admitted : ∀ n ∈ (addEntries (fun name => !isReserved name) [] (.record fields)).map Prod.fst,
      isInherited n = false := by
    rw [addEntries]
    refine List.foldlRecOn
      (motive := fun props : List (String × Value) => ∀ n ∈ props.map Prod.fst, isInherited n = false)
      _ _ (fun _ member => absurd member List.not_mem_nil) fun props holds e member n among => ?_
    rcases List.mem_cons.mp (names_assign_subset among) with rfl | among
    · have free := (List.mem_filter.mp member).2
      simp only [isReserved, Bool.not_or, Bool.and_eq_true, Bool.not_eq_true'] at free
      exact free.2
    · exact holds n among
  intro n member
  rcases names_addChildren children n member with rfl | member
  · decide
  · exact admitted n member

end Both

/-! ## Objects -/

theorem ofJsonFields_eq (P : List (String × Json.Value)) :
    Value.ofJsonFields P = P.map fun f => (f.1, Value.ofJson f.2) := by
  induction P with
  | nil => rfl
  | cons f P ih => rw [Value.ofJsonFields, ih, List.map_cons]

theorem isUndefined_ofJson (v : Json.Value) : (Value.ofJson v).isUndefined = false := by
  cases v <;> rfl

/-- Over the fields of an object, children apart or among them, both ways make one element that has
every field as it stands, exactly when no field has an inherited name. -/
theorem create_eq_ofJsx_iff (type : Value) (P : List (String × Json.Value)) (children : List Value)
    (distinct : DistinctNames P) (own : ∀ f ∈ P, f.1 ∉ ["key", "ref", "__self", "__source"]) :
    (∃ props, create type (.ofJson (.object P)) children = .ok (.element type .null .null props) ∧
        ofJsx type (.record (addChildren children (Value.ofJsonFields P))) .undefined =
          .ok (.element type .null .null props) ∧
        ∀ f ∈ P, (f.1 = "children" → children = []) → (f.1, .ofJson f.2) ∈ props) ↔
      ∀ f ∈ P, isInherited f.1 = false := by
  have names : (Value.ofJsonFields P).map Prod.fst = P.map Prod.fst := by
    rw [ofJsonFields_eq, List.map_map]
    rfl
  have distinct : DistinctNames (Value.ofJsonFields P) := by rwa [DistinctNames, names]
  have absent (name : String) (held : name ∈ ["key", "ref", "__self", "__source"]) :
      name ∉ (Value.ofJsonFields P).map Prod.fst := by
    rw [names]
    intro member
    obtain ⟨f, among, rfl⟩ := List.mem_map.mp member
    exact own f among held
  constructor
  · rintro ⟨props, created, -, whole⟩ f member
    obtain ⟨props', created', free⟩ := @create_noInherited type _ children
      (absent "key" (by decide)) (absent "ref" (by decide))
    rw [Value.ofJson, created'] at created
    cases created
    by_cases isChildren : f.1 = "children"
    · rw [isChildren]
      decide
    · exact free _ (List.mem_map.mpr ⟨_, whole f member fun same => absurd same isChildren, rfl⟩)
  · intro free
    obtain ⟨props, rfl, created, made⟩ := @create_eq_ofJsx type _ children distinct
      (by
        rw [names]
        intro n member
        obtain ⟨f, among, rfl⟩ := List.mem_map.mp member
        rw [isReserved, free f among, Bool.or_false]
        simpa using own f among)
    refine ⟨_, created, made, fun f member behind => ?_⟩
    have here : (f.1, Value.ofJson f.2) ∈ walked (Value.ofJsonFields P) := by
      rw [(walked_perm _).mem_iff, ofJsonFields_eq]
      exact List.mem_map.mpr ⟨f, member, rfl⟩
    refine mem_fillDefaults (distinctNames_addChildren distinct.walked children) ?_ (isUndefined_ofJson f.2) type
    rcases addChildren_cases children with ⟨-, same⟩ | ⟨v, same⟩
    · rwa [same]
    · rw [same]
      refine (mem_assign_of_ne fun isChildren => ?_).mpr here
      rw [behind isChildren] at same
      have added : [] = [("children", v)] := congrFun same []
      exact List.cons_ne_nil _ _ added.symm

/-- Two children, an index among the names, and a default. -/
theorem create_eq_ofJsx_row : ∃ props,
    create (.record [("defaultProps", .record [("wide", .bool true)])])
        (.ofJson (.object [("title", .text "a"), ("7", .null)])) [.text "b", .null] =
      .ok (.element (.record [("defaultProps", .record [("wide", .bool true)])]) .null .null props) ∧
    ofJsx (.record [("defaultProps", .record [("wide", .bool true)])])
        (.record [("title", .text "a"), ("7", .null), ("children", .list [.text "b", .null])])
        .undefined =
      .ok (.element (.record [("defaultProps", .record [("wide", .bool true)])]) .null .null props) ∧
    ∀ f ∈ [("title", Json.Value.text "a"), ("7", .null)], (f.1, .ofJson f.2) ∈ props := by
  obtain ⟨props, created, made, whole⟩ := (create_eq_ofJsx_iff
    (.record [("defaultProps", .record [("wide", .bool true)])])
    [("title", .text "a"), ("7", .null)] [.text "b", .null] (by decide) (by decide)).mpr (by decide)
  refine ⟨props, created, made, fun f member => whole f member ?_⟩
  revert f
  decide

/-- Under the name of something inherited `create` finds no field, and `ofJsx` finds it. -/
theorem create_loses_inherited :
    create (.text "a") (.ofJson (.object [("toString", .text "b")])) [] =
        .ok (.element (.text "a") .null .null []) ∧
      ofJsx (.text "a") (.ofJson (.object [("toString", .text "b")])) .undefined =
        .ok (.element (.text "a") .null .null [("toString", .text "b")]) := by
  have walked : walked (Value.ofJsonFields [("toString", .text "b")]) = [("toString", .text "b")] :=
    List.perm_singleton.mp (walked_perm _)
  constructor
  · rw [Value.ofJson, create_record (by decide) (by decide), addEntries, Value.entries, walked]
    rfl
  · rw [Value.ofJson, ofJsx_record (by decide) (by decide),
      addEntries_all (by decide) (by decide) (by decide), walked]
    rfl

end JsxPreview.Element
