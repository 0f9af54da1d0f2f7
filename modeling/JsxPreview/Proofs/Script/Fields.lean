import JsxPreview.Script.Value
import Mathlib.Data.List.Nodup

/-! # Fields of objects

Setting a field leaves those of other names as they are, and names stay distinct (`mem_assign_of_ne`,
`DistinctNames.assign`).  Scripts walk over all fields of an object, in an order of their own
(`walked_perm`), and a field is read under its name (`property_of_mem`). -/
set_option autoImplicit false
namespace JsxPreview.Script

/-! ## Setting fields -/

/-- No two fields have one name. -/
def DistinctNames {α : Type} (fields : List (String × α)) : Prop := (fields.map Prod.fst).Nodup

instance {α : Type} (fields : List (String × α)) : Decidable (DistinctNames fields) :=
  inferInstanceAs (Decidable (fields.map Prod.fst).Nodup)

section Assign

variable {fields : List (String × Value)} {name : String} {v : Value}

theorem assign_of_not_mem (settable : name ≠ "__proto__") (absent : name ∉ fields.map Prod.fst) :
    assign name v fields = fields ++ [(name, v)] := by
  have none : fields.any (·.1 == name) = false := by
    rw [List.any_eq_false]
    intro f member same
    exact absent (List.mem_map.mpr ⟨f, member, beq_iff_eq.mp same⟩)
  rw [assign, if_neg settable, none, if_neg Bool.false_ne_true]

/-- A field of another name stays as it is. -/
theorem mem_assign_of_ne {f : String × Value} (other : f.1 ≠ name) :
    f ∈ assign name v fields ↔ f ∈ fields := by
  have noField : f ≠ (name, v) := fun same => other (congrArg Prod.fst same)
  unfold assign
  split
  · rfl
  · split
    · rw [List.mem_map]
      constructor
      · rintro ⟨g, member, same⟩
        split at same
        · exact absurd same.symm noField
        · exact same ▸ member
      · intro member
        exact ⟨f, member, if_neg (by simpa using other)⟩
    · simp [noField]

theorem names_assign_subset : (assign name v fields).map Prod.fst ⊆ name :: fields.map Prod.fst := by
  intro n member
  obtain ⟨f, among, rfl⟩ := List.mem_map.mp member
  by_cases same : f.1 = name
  · exact same ▸ List.mem_cons_self ..
  · exact List.mem_cons_of_mem _ (List.mem_map.mpr ⟨f, (mem_assign_of_ne same).mp among, rfl⟩)

theorem DistinctNames.assign (distinct : DistinctNames fields) :
    DistinctNames (Script.assign name v fields) := by
  unfold Script.assign
  split
  · exact distinct
  · split
    case isTrue =>
      have names : (fields.map fun f => if f.1 == name then (name, v) else f).map Prod.fst =
          fields.map Prod.fst := by
        rw [List.map_map]
        refine List.map_congr_left fun f _ => ?_
        by_cases same : f.1 = name <;> simp [same]
      rwa [DistinctNames, names]
    case isFalse absent =>
      have fresh : name ∉ fields.map Prod.fst := by
        intro member
        obtain ⟨f, among, rfl⟩ := List.mem_map.mp member
        exact absent (List.any_eq_true.mpr ⟨f, among, beq_self_eq_true _⟩)
      rw [DistinctNames, List.map_append, List.map_singleton, List.nodup_append]
      refine ⟨distinct, List.nodup_singleton _, ?_⟩
      rintro n member _ new rfl
      rw [List.mem_singleton.mp new] at member
      exact fresh member

/-- Fields that are set one after the other stand in that order. -/
theorem foldl_assign (entries : List (String × Value)) : ∀ {fields : List (String × Value)},
    DistinctNames (fields ++ entries) → (∀ e ∈ entries, e.1 ≠ "__proto__") →
      entries.foldl (fun fields e => assign e.1 e.2 fields) fields = fields ++ entries := by
  induction entries with
  | nil => exact fun _ _ => (List.append_nil _).symm
  | cons e entries ih =>
      intro fields distinct settable
      obtain ⟨here, others⟩ := List.forall_mem_cons.mp settable
      have shape : fields ++ e :: entries = fields ++ [e] ++ entries := by simp
      have fresh : e.1 ∉ fields.map Prod.fst := by
        rw [DistinctNames, List.map_append, List.map_cons, List.nodup_append] at distinct
        exact fun member => distinct.2.2 _ member _ (List.mem_cons_self ..) rfl
      rw [List.foldl_cons, assign_of_not_mem here fresh, shape]
      exact ih (shape ▸ distinct) others

end Assign

/-! ## The order of fields -/

section Walked

variable {α : Type} {fields : List (String × α)}

theorem map_indexed (fields : List (String × α)) :
    (fields.filterMap fun f => (indexOf? f.1).map (·, f)).map Prod.snd =
      fields.filter fun f => (indexOf? f.1).isSome := by
  induction fields with
  | nil => rfl
  | cons f fields ih =>
      cases indexed : indexOf? f.1 with
      | none => simpa [indexed] using ih
      | some n => simpa [indexed] using ih

theorem walked_perm (fields : List (String × α)) : (walked fields).Perm fields := by
  have sorted := (List.mergeSort_perm (fields.filterMap fun f => (indexOf? f.1).map (·, f))
    fun a b => a.1 ≤ b.1).map Prod.snd
  rw [map_indexed] at sorted
  refine (sorted.append_right _).trans ?_
  have others : (fields.filter fun f => (indexOf? f.1).isNone) =
      fields.filter fun f => !(indexOf? f.1).isSome :=
    List.filter_congr fun f _ => by cases indexOf? f.1 <;> rfl
  rw [others]
  exact List.filter_append_perm ..

theorem DistinctNames.walked (distinct : DistinctNames fields) : DistinctNames (Script.walked fields) :=
  ((walked_perm fields).map Prod.fst).nodup_iff.mpr distinct

/-- A field that is no index is set in its place among the walked fields. -/
theorem walked_assign {fields : List (String × Value)} {name : String} {v : Value}
    (noIndex : indexOf? name = none) :
    walked (assign name v fields) = assign name v (walked fields) := by
  unfold assign
  split
  · rfl
  have sameAny : (walked fields).any (·.1 == name) = fields.any (·.1 == name) :=
    (walked_perm fields).any_eq
  rw [sameAny]
  split
  case isFalse =>
    rw [walked, walked, List.filterMap_append, List.filter_append]
    simp [noIndex]
  case isTrue =>
    let set (f : String × Value) : String × Value := if f.1 == name then (name, v) else f
    have sameIndex (f : String × Value) : indexOf? (set f).1 = indexOf? f.1 := by
      by_cases same : f.1 = name <;> simp [set, same]
    have keeps (f : String × Value) (indexed : (indexOf? f.1).isSome) : set f = f := by
      refine if_neg fun same => ?_
      rw [beq_iff_eq.mp same, noIndex] at indexed
      exact nomatch indexed
    have indices : ((fields.map set).filterMap fun f => (indexOf? f.1).map (·, f)) =
        fields.filterMap fun f => (indexOf? f.1).map (·, f) := by
      rw [List.filterMap_map]
      refine List.filterMap_congr fun f _ => ?_
      cases indexed : indexOf? f.1 with
      | none => simp [sameIndex, indexed]
      | some n => simp [indexed, keeps f (by rw [indexed]; rfl)]
    have others : ((fields.map set).filter fun f => (indexOf? f.1).isNone) =
        (fields.filter fun f => (indexOf? f.1).isNone).map set := by
      rw [List.filter_map]
      refine congrArg (List.map set) (List.filter_congr fun f _ => ?_)
      rw [Function.comp_apply, sameIndex]
    have sorted := (List.mergeSort_perm (fields.filterMap fun f => (indexOf? f.1).map (·, f))
      fun a b => a.1 ≤ b.1).map Prod.snd
    rw [map_indexed] at sorted
    have kept := List.map_congr_left fun f member =>
      keeps f (List.mem_filter.mp (sorted.mem_iff.mp member)).2
    rw [List.map_id'] at kept
    change walked (fields.map set) = (walked fields).map set
    rw [walked, walked, indices, others, List.map_append, kept]

end Walked

/-! ## Properties of an object -/

section Properties

variable {fields : List (String × Value)} {name : String} {v : Value}

theorem lookup_of_mem (distinct : DistinctNames fields) (member : (name, v) ∈ fields) :
    fields.lookup name = some v := by
  induction fields with
  | nil => exact absurd member List.not_mem_nil
  | cons f fields ih =>
      obtain ⟨fresh, distinct⟩ := List.nodup_cons.mp distinct
      rcases List.mem_cons.mp member with rfl | member
      · exact List.lookup_cons_self
      · have other : (name == f.1) = false := beq_false_of_ne fun same =>
          fresh (List.mem_map.mpr ⟨(name, v), member, same⟩)
        rw [List.lookup_cons, other]
        exact ih distinct member

theorem property_of_mem (distinct : DistinctNames fields) (member : (name, v) ∈ fields) :
    (Value.record fields).property name = v := by
  change ((walked fields).lookup name).getD (inherited name) = v
  rw [lookup_of_mem distinct.walked ((walked_perm fields).mem_iff.mpr member)]
  rfl

theorem property_of_not_mem (absent : name ∉ fields.map Prod.fst) :
    (Value.record fields).property name = inherited name := by
  have none : (walked fields).lookup name = none := by
    rw [List.lookup_eq_none_iff]
    intro f member
    refine bne_iff_ne.mpr fun same => absent ?_
    exact List.mem_map.mpr ⟨f, (walked_perm fields).mem_iff.mp member, same.symm⟩
  change ((walked fields).lookup name).getD (inherited name) = inherited name
  rw [none]
  rfl

end Properties

end JsxPreview.Script
