/-! # Outcomes of several steps

A computation that can fail succeeds exactly when each of its steps does.  The lemmas take such a
success apart at its first step, and so do proofs about functions that are written with `do`.
`FailsAs` says how a computation can fail, which is how one of its steps can. -/
set_option autoImplicit false
namespace JsxPreview

variable {ε α β : Type}

theorem ok_of_bind {x : Except ε α} {f : α → Except ε β} {b : β} (success : x >>= f = .ok b) :
    ∃ a, x = .ok a ∧ f a = .ok b := by
  cases x with
  | error cause => exact absurd success (by simp [bind, Except.bind])
  | ok a => exact ⟨a, rfl, success⟩

theorem error_of_bind {x : Except ε α} {f : α → Except ε β} {e : ε} (failure : x >>= f = .error e) :
    x = .error e ∨ ∃ a, x = .ok a ∧ f a = .error e := by
  cases x with
  | error cause =>
      cases failure
      exact .inl rfl
  | ok a => exact .inr ⟨a, rfl, failure⟩

theorem bind_of_ok {x : Except ε α} {f : α → Except ε β} {a : α} (success : x = .ok a) :
    x >>= f = f a := by
  rw [success]
  rfl

theorem ok_of_pure {a b : α} (success : (pure a : Except ε α) = .ok b) : a = b := by
  cases success
  rfl

theorem ok_of_mapError {ε' : Type} {x : Except ε α} {f : ε → ε'} {a : α}
    (success : x.mapError f = .ok a) : x = .ok a := by
  cases x with
  | error cause => cases success
  | ok b =>
      cases success
      rfl

theorem error_of_mapError {ε' : Type} {x : Except ε α} {f : ε → ε'} {e : ε'}
    (failure : x.mapError f = .error e) : ∃ cause, x = .error cause ∧ e = f cause := by
  cases x with
  | error cause =>
      cases failure
      exact ⟨cause, rfl, rfl⟩
  | ok a => cases failure

theorem mapError_of_ok {ε' : Type} {x : Except ε α} {f : ε → ε'} {a : α} (success : x = .ok a) :
    x.mapError f = .ok a := by
  rw [success]
  rfl

theorem ok_of_toOption {x : Except ε α} {a : α} (success : x.toOption = some a) : x = .ok a := by
  cases x with
  | error cause => exact absurd success (by simp [Except.toOption])
  | ok b =>
      cases success
      rfl

/-- A computation that fails, if at all, with one of these causes. -/
structure FailsAs (causes : ε → Prop) (x : Except ε α) : Prop where
  cause (e : ε) : x = .error e → causes e

namespace FailsAs

variable {causes : ε → Prop} {x y : Except ε α}

theorem ok (a : α) : FailsAs causes (.ok a : Except ε α) := ⟨nofun⟩

theorem error {e : ε} (cause : causes e) : FailsAs causes (.error e : Except ε α) := by
  refine ⟨?_⟩
  rintro _ ⟨⟩
  exact cause

theorem bind {f : α → Except ε β} (first : FailsAs causes x)
    (rest : ∀ a, x = .ok a → FailsAs causes (f a)) : FailsAs causes (x >>= f) := by
  refine ⟨fun e failure => ?_⟩
  rcases error_of_bind failure with here | ⟨a, success, behind⟩
  · exact first.cause e here
  · exact (rest a success).cause e behind

theorem ite {c : Prop} [Decidable c] (yes : FailsAs causes x) (no : FailsAs causes y) :
    FailsAs causes (if c then x else y) := by
  split
  · exact yes
  · exact no

end FailsAs

end JsxPreview
