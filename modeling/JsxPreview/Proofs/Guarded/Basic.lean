import JsxPreview.Proofs.Outcome
import JsxPreview.Source.Erasure.Walk

/-! # Guarded runs

A guarded walker makes sure of what the plain one takes for granted: that a token is there when it is
read by its index, that a stretch is one of the source when it is cut out, that a count does not go
below zero, that a round of a loop moves on, that a call works on a smaller range, and that the
allowance is not used up.  What it cannot make sure of is a `Fault`.  A guarded run that agrees with
a plain one meets no fault and has the same outcome (`Agrees`, `Runs`). -/
set_option autoImplicit false
namespace JsxPreview.Source

open JsxPreview.Text

inductive Fault where
  /-- There is no token with the index. -/
  | token
  /-- The ends are not in order, or not between two characters of the source. -/
  | slice
  /-- A count goes below zero. -/
  | count
  /-- A round of a loop does not move on. -/
  | still
  /-- A call does not work on a smaller range. -/
  | range
  /-- The allowance is used up. -/
  | depth
deriving DecidableEq, Repr

/-- A guarded computation that cannot fail otherwise. -/
abbrev Guarded (α : Type) : Type := Except Fault α

/-- A guarded computation that reads a source. -/
abbrev GuardedRead (α : Type) : Type := ExceptT SyntaxError Guarded α

/-- A guarded step of the walk that finds what to erase. -/
abbrev GuardedErase (α : Type) : Type := StateT Erasure GuardedRead α

namespace Guarded

/-- Goes on if the condition holds. -/
def ensure (c : Prop) [Decidable c] (fault : Fault) : Guarded Unit :=
  if c then .ok () else .error fault

/-- Makes sure that there is a token with the index. -/
def subscript (row : TokenRow) (i : Nat) : Guarded Unit := ensure (i < row.size) .token

theorem ensure_of {c : Prop} [Decidable c] {fault : Fault} (holds : c) : ensure c fault = .ok () :=
  if_pos holds

theorem ok_bind {α β : Type} (a : α) (rest : α → Guarded β) : (Except.ok a : Guarded α) >>= rest =
    rest a :=
  rfl

theorem ensure_bind {α : Type} {c : Prop} [Decidable c] {fault : Fault} (holds : c)
    (rest : Unit → Guarded α) : ensure c fault >>= rest = rest () := by
  rw [ensure_of holds, ok_bind]

theorem subscript_bind {α : Type} {row : TokenRow} {i : Nat} (inRow : i < row.size)
    (rest : Unit → Guarded α) : subscript row i >>= rest = rest () :=
  ensure_bind inRow rest

end Guarded

namespace GuardedRead

def pass {α : Type} (x : Guarded α) : GuardedRead α := ExceptT.lift x

def fail {α : Type} (row : TokenRow) (i : Nat) (cause : SyntaxError.Cause) : GuardedRead α :=
  throw ⟨cause, row.start i⟩

end GuardedRead

namespace GuardedErase

def pass {α : Type} (x : Guarded α) : GuardedErase α := StateT.lift (.pass x)

def fail {α : Type} (row : TokenRow) (i : Nat) (cause : SyntaxError.Cause) : GuardedErase α :=
  StateT.lift (.fail row i cause)

end GuardedErase

/-! ## Agreement -/

/-- The outcome is a value of which something is true, or an error, but not for want of an
allowance. -/
def Ends {α : Type} (x : Except SyntaxError α) (holds : α → Prop) : Prop :=
  match x with
  | .ok a => holds a
  | .error e => e.cause ≠ .tooDeep

/-- A guarded run meets no fault and has the outcome of the plain one. -/
structure Agrees {α : Type} (g : GuardedRead α) (x : Except SyntaxError α) (holds : α → Prop) :
    Prop where
  same : g.run = .ok x
  ends : Ends x holds

namespace Agrees

variable {α β : Type} {g g' : GuardedRead α} {x x' : Except SyntaxError α} {holds : α → Prop}
  {holds' : β → Prop}

theorem pure {a : α} (here : holds a) : Agrees (Pure.pure a) (.ok a) holds := ⟨rfl, here⟩

theorem fail (row : TokenRow) (i : Nat) {cause : SyntaxError.Cause} (real : cause ≠ .tooDeep) :
    Agrees (.fail row i cause) (row.fail i cause) holds :=
  ⟨rfl, real⟩

theorem bind {k : α → GuardedRead β} {f : α → Except SyntaxError β} (first : Agrees g x holds)
    (rest : ∀ a, holds a → Agrees (k a) (f a) holds') : Agrees (g >>= k) (x >>= f) holds' := by
  obtain ⟨same, ends⟩ := first
  have run : (g >>= k).run = g.run >>= ExceptT.bindCont k := rfl
  cases x with
  | error e => exact ⟨by rw [run, same]; rfl, ends⟩
  | ok a =>
      obtain ⟨sameRest, endsRest⟩ := rest a ends
      refine ⟨?_, endsRest⟩
      rw [run, same]
      exact sameRest

theorem ite {c : Prop} [Decidable c] (yes : c → Agrees g x holds) (no : ¬ c → Agrees g' x' holds) :
    Agrees (if c then g else g') (if c then x else x') holds := by
  split
  case isTrue here => exact yes here
  case isFalse here => exact no here

theorem pass {p : Guarded β} {b : β} {k : β → GuardedRead α} (sure : p = .ok b)
    (rest : Agrees (k b) x holds) : Agrees (.pass p >>= k) x holds := by
  subst sure
  exact rest

theorem ensure {c : Prop} [Decidable c] {fault : Fault} {k : Unit → GuardedRead α} (here : c)
    (rest : Agrees (k ()) x holds) : Agrees (.pass (Guarded.ensure c fault) >>= k) x holds :=
  .pass (Guarded.ensure_of here) rest

theorem mono {holds' : α → Prop} (agrees : Agrees g x holds) (weaker : ∀ a, holds a → holds' a) :
    Agrees g x holds' := by
  obtain ⟨same, ends⟩ := agrees
  refine ⟨same, ?_⟩
  cases x with
  | error e => exact ends
  | ok a => exact weaker a ends

end Agrees

/-- A guarded step agrees with a plain one wherever it starts. -/
def Runs {α : Type} (g : GuardedErase α) (x : Erase α) (holds : α → Prop) : Prop :=
  ∀ e, Agrees (g.run e) (x.run e) fun r => holds r.1

namespace Runs

variable {α β : Type} {g g' : GuardedErase α} {x x' : Erase α} {holds : α → Prop}
  {holds' : β → Prop}

theorem pure {a : α} (here : holds a) : Runs (Pure.pure a) (Pure.pure a) holds :=
  fun _ => .pure here

theorem fail (row : TokenRow) (i : Nat) {cause : SyntaxError.Cause} (real : cause ≠ .tooDeep) :
    Runs (.fail row i cause) (Erase.fail row i cause) holds :=
  fun _ => ⟨rfl, real⟩

theorem bind {k : α → GuardedErase β} {f : α → Erase β} (first : Runs g x holds)
    (rest : ∀ a, holds a → Runs (k a) (f a) holds') : Runs (g >>= k) (x >>= f) holds' :=
  fun e => .bind (first e) fun r here => rest r.1 here r.2

theorem ite {c : Prop} [Decidable c] (yes : c → Runs g x holds) (no : ¬ c → Runs g' x' holds) :
    Runs (if c then g else g') (if c then x else x') holds := by
  split
  case isTrue here => exact yes here
  case isFalse here => exact no here

theorem pass {p : Guarded β} {b : β} {k : β → GuardedErase α} (sure : p = .ok b)
    (rest : Runs (k b) x holds) : Runs (.pass p >>= k) x holds := by
  subst sure
  exact rest

theorem ensure {c : Prop} [Decidable c] {fault : Fault} {k : Unit → GuardedErase α} (here : c)
    (rest : Runs (k ()) x holds) : Runs (.pass (Guarded.ensure c fault) >>= k) x holds :=
  .pass (Guarded.ensure_of here) rest

theorem mono {holds' : α → Prop} (runs : Runs g x holds) (weaker : ∀ a, holds a → holds' a) :
    Runs g x holds' :=
  fun e => (runs e).mono fun r => weaker r.1

theorem state {k : Erasure → GuardedErase α} {f : Erasure → Erase α}
    (rest : ∀ e, Runs (k e) (f e) holds) : Runs (get >>= k) (get >>= f) holds :=
  fun e => rest e e

theorem update (f : Erasure → Erasure) {k : Unit → GuardedErase α} {h : Unit → Erase α}
    (rest : Runs (k ()) (h ()) holds) : Runs (modify f >>= k) (modify f >>= h) holds :=
  fun e => rest (f e)

end Runs

end JsxPreview.Source
