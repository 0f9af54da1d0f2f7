import JsxPreview.Sandbox.Call
import JsxPreview.Sandbox.Property

/-! # What actions give

An action that gives a value in a session leaves the session in a certain state (`Gives`), and actions
one behind the other are composed from what each of them gives (`Gives.bind`).  What is called by a name
is what the kind of an object can do, unless the object has a property of its own (`Gives.call`). -/
set_option autoImplicit false
namespace JsxPreview.Sandbox

open JsxPreview.Element (Stop)
open JsxPreview.Script
open Sandboxed

variable {α β : Type} {s s' s'' : Session}

/-! ## Objects in place of others -/

/-- A session with one more object. -/
def Session.added (s : Session) (object : HostObject) (own : List (String × Value)) : Session :=
  { s with held := s.held.push ⟨object, own⟩ }

theorem Session.object_added (s : Session) (object : HostObject) (own : List (String × Value))
    (id : Nat) :
    (s.added object own).object id = if id = s.held.size then object else s.object id := by
  rw [Session.object, Session.object, added, Array.getElem?_push]
  split <;> rfl

theorem Session.own_added (s : Session) (object : HostObject) (own : List (String × Value))
    (id : Nat) : (s.added object own).own id = if id = s.held.size then own else s.own id := by
  rw [Session.own, Session.own, added, Array.getElem?_push]
  split <;> rfl

/-- A session with another object at a place; its own properties stay. -/
def Session.replaced (s : Session) (id : Nat) (object : HostObject) : Session :=
  { s with held := s.held.modify id ({ · with object }) }

theorem Session.own_replaced (s : Session) (id : Nat) (object : HostObject) (other : Nat) :
    (s.replaced id object).own other = s.own other := by
  rw [own, own, replaced, Array.getElem?_modify]
  split
  · cases s.held[other]? <;> rfl
  · rfl

theorem Session.object_replaced (s : Session) (id : Nat) (object : HostObject) (other : Nat) :
    (s.replaced id object).object other =
      if id = other ∧ other < s.held.size then object else s.object other := by
  rw [Session.object, Session.object, replaced, Array.getElem?_modify]
  by_cases same : id = other
  · subst same
    by_cases within : id < s.held.size
    · simp [within]
    · simp [within]
  · simp [same]

theorem Session.lt_of_object {s : Session} {id : Nat} (is : s.object id ≠ .plain) :
    id < s.held.size := by
  refine Nat.lt_of_not_le fun outside => is ?_
  rw [Session.object, Array.getElem?_eq_none outside]
  rfl

/-! ## Actions one behind the other -/

/-- An action gives a value, and leaves the session as it then is. -/
def Gives (x : Sandboxed α) (s : Session) (a : α) (s' : Session) : Prop :=
  x.run.run s = ((.ok a : Except Stop α), s')

namespace Gives

theorem pure (a : α) (s : Session) : Gives (Pure.pure a) s a s := rfl

/-- What comes behind an action that gives a value starts where that leaves the session. -/
theorem run_bind {x : Sandboxed α} {f : α → Sandboxed β} {a : α} (first : Gives x s a s') :
    (x >>= f).run.run s = (f a).run.run s' := by
  simp only [Gives, ExceptT.run_bind, StateT.run_bind] at first ⊢
  rw [first]
  rfl

theorem bind {x : Sandboxed α} {f : α → Sandboxed β} {a : α} {b : β} (first : Gives x s a s')
    (next : Gives (f a) s' b s'') : Gives (x >>= f) s b s'' :=
  first.run_bind.trans next

theorem tryCatch {x : Sandboxed α} {a : α} (given : Gives x s a s') (handle : Stop → Sandboxed α) :
    Gives (MonadExcept.tryCatch x handle) s a s' := by
  rw [Gives, ExceptT.run_tryCatch, StateT.run_bind, given]
  rfl

theorem caught {x : Sandboxed α} {handle : Stop → Sandboxed α} {stop : Stop} {a : α}
    (stopped : x.run.run s = (.error stop, s')) (given : Gives (handle stop) s' a s'') :
    Gives (MonadExcept.tryCatch x handle) s a s'' := by
  rw [Gives, ExceptT.run_tryCatch, StateT.run_bind, stopped]
  exact given

/-- What is done for each item, where none of it changes the session. -/
theorem mapM {γ : Type} {f : α → Sandboxed β} {item : γ → α} {given : γ → β}
    (each : ∀ c, Gives (f (item c)) s (given c) s) (items : List γ) :
    Gives ((items.map item).mapM f) s (items.map given) s := by
  induction items with
  | nil => exact .pure [] s
  | cons c rest ih =>
      rw [List.map_cons, List.mapM_cons]
      exact (each c).bind (ih.bind (.pure _ s))

theorem session (s : Session) : Gives Sandboxed.session s s s := rfl

theorem objectOf (id : Nat) (s : Session) : Gives (Sandboxed.objectOf id) s (s.object id) s := rfl

theorem ownProperty (id : Nat) (name : String) (s : Session) :
    Gives (Sandboxed.ownProperty id name) s (((s.own id).lookup name).getD .undefined) s := rfl

theorem create (object : HostObject) (own : List (String × Value)) (s : Session) :
    Gives (Sandboxed.create object own) s s.held.size (s.added object own) := rfl

theorem make (object : HostObject) (s : Session) :
    Gives (Sandboxed.make object) s (.object s.held.size) (s.added object []) := rfl

theorem replace (id : Nat) (object : HostObject) (s : Session) :
    Gives (Sandboxed.replace id object) s () (s.replaced id object) := rfl

theorem objectAt (id : Nat) (s : Session) :
    Gives (objectAt? (.object id)) s (some (s.object id)) s := rfl

theorem read (fields : List (String × Value)) (name : String) (s : Session) :
    Gives (Sandboxed.read (.record fields) name) s ((Value.record fields).property name) s := rfl

theorem isOn (fields : List (String × Value)) (name : String) (s : Session) :
    Gives (Sandboxed.isOn (.record fields) name) s ((Value.record fields).property name).isTruthy s :=
  rfl

theorem toText (text : String) (s : Session) : Gives (Sandboxed.toText (.text text)) s text s := rfl

/-- What an object does when it is called by a name, unless it has a property under that name. -/
theorem call {id : Nat} {name : String} {m : Method} {args : List Value} {v : Value}
    (known : objectMethod? id (s.object id) name = some m)
    (noLog : ∀ lines, s.object id ≠ .log lines) (free : (s.own id).lookup name = none)
    (given : Gives (m args) s v s') : Gives (call (.object id) name args) s v s' := by
  refine (Gives.ownProperty id name s).bind ?_
  rw [free]
  refine Gives.bind (a := some m) ((Gives.objectOf id s).bind ?_) given
  split
  case h_1 lines log => exact absurd log (noLog lines)
  case h_2 =>
    rw [known]
    exact .pure _ s

end Gives

end JsxPreview.Sandbox
