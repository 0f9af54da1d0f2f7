import JsxPreview.Proofs.Sandbox.Gives
import JsxPreview.Proofs.Url.Form

/-! # Queries in a session

A query that is made of pairs and then changed by calls holds pairs after each of them
(`gives_perform`).  Written as a text and read anew it has the same pairs, and setting a name or sorting
moves no other pair (`queries_kept`). -/
set_option autoImplicit false
namespace JsxPreview.Sandbox.Pairs

open JsxPreview.Script
open JsxPreview.Text
open Sandboxed
open Url (Query)

/-! ## Calls of a query -/

inductive QueryCall where
  | append (name value : String)
  | delete (name : String)
  | set (name value : String)
  | sort

namespace QueryCall

def perform (p : Value) : QueryCall → Sandboxed Value
  | append name value => call p "append" [.text name, .text value]
  | delete name => call p "delete" [.text name]
  | set name value => call p "set" [.text name, .text value]
  | sort => call p "sort" []

def change (q : Query) : QueryCall → Query
  | append name value => q.append name value
  | delete name => q.delete name
  | set name value => q.set name value
  | sort => q.sort

end QueryCall

def changeAll (p : Value) : List QueryCall → Sandboxed Unit
  | [] => return ()
  | c :: rest => do
      let _ ← c.perform p
      changeAll p rest

/-- Makes a query of pairs, and then the calls of it. -/
def makeAndChange (pairs : List (String × String)) (calls : List QueryCall) : Sandboxed Value := do
  let p ← construct .query [.list (pairs.map pairValue)]
  changeAll p calls
  return p

/-- Makes a query of the text of another one. -/
def readAnew (p : Value) : Sandboxed Value := do construct .query [← call p "toString" []]

/-! ## What a query holds -/

/-- A query of its own, which no URL is written from. -/
structure Holds (s : Session) (p : Nat) (q : Query) : Prop where
  object : s.object p = .query q none
  own : s.own p = []

variable {s : Session} {p : Nat} {q : Query}

theorem Holds.added (holds : Holds s p q) (object : HostObject) : Holds (s.added object []) p q := by
  have within := Session.lt_of_object (by rw [holds.object]; exact nofun)
  refine ⟨?_, ?_⟩
  · rw [Session.object_added, if_neg (Nat.ne_of_lt within), holds.object]
  · rw [Session.own_added, if_neg (Nat.ne_of_lt within), holds.own]

theorem Holds.made (s : Session) (q : Query) :
    Holds (s.added (.query q none) []) s.held.size q :=
  ⟨by rw [Session.object_added, if_pos rfl], by rw [Session.own_added, if_pos rfl]⟩

theorem Holds.replaced (holds : Holds s p q) (q' : Query) :
    Holds (s.replaced p (.query q' none)) p q' := by
  have within := Session.lt_of_object (by rw [holds.object]; exact nofun)
  refine ⟨?_, ?_⟩
  · rw [Session.object_replaced, if_pos ⟨rfl, within⟩]
  · rw [Session.own_replaced, holds.own]

theorem Holds.call (holds : Holds s p q) {name : String} {m : Method} {args : List Value} {v : Value}
    {s' : Session} (known : queryMethod? p q none name = some m) (given : Gives (m args) s v s') :
    Gives (call (.object p) name args) s v s' := by
  refine .call (m := m) ?_ ?_ ?_ given
  · rw [holds.object]
    exact known
  · rw [holds.object]
    exact nofun
  · rw [holds.own]
    rfl

theorem gives_changeQuery (q : Query) (s : Session) :
    Gives (changeQuery p none q) s .undefined (s.replaced p (.query q none)) :=
  (Gives.replace p _ s).bind (.pure _ _)

/-- Each call changes the pairs, and nothing else. -/
theorem gives_perform (holds : Holds s p q) (c : QueryCall) : ∃ s',
    Gives (c.perform (.object p)) s .undefined s' ∧ Holds s' p (c.change q) := by
  cases c with
  | append name value =>
      refine ⟨_, holds.call rfl ?_, holds.replaced _⟩
      exact (Gives.toText name s).bind ((Gives.toText value s).bind (gives_changeQuery _ s))
  | delete name =>
      refine ⟨_, holds.call rfl ?_, holds.replaced _⟩
      exact (Gives.toText name s).bind (gives_changeQuery _ s)
  | set name value =>
      refine ⟨_, holds.call rfl ?_, holds.replaced _⟩
      exact (Gives.toText name s).bind ((Gives.toText value s).bind (gives_changeQuery _ s))
  | sort => exact ⟨_, holds.call rfl (gives_changeQuery _ s), holds.replaced _⟩

theorem gives_changeAll (holds : Holds s p q) (calls : List QueryCall) : ∃ s',
    Gives (changeAll (.object p) calls) s () s' ∧ Holds s' p (calls.foldl QueryCall.change q) := by
  induction calls generalizing s q with
  | nil => exact ⟨s, .pure () s, holds⟩
  | cons c rest ih =>
      obtain ⟨s₁, given, holds⟩ := gives_perform holds c
      obtain ⟨s₂, later, holds⟩ := ih holds
      exact ⟨s₂, given.bind later, holds⟩

/-! ## Making queries -/

theorem pairValue_name (p : String × String) : (pairValue p).property "0" = .text p.1 := rfl

theorem pairValue_value (p : String × String) : (pairValue p).property "1" = .text p.2 := by
  have first : ("1" == Nat.repr 0) = false := by decide
  have second : ("1" == Nat.repr 1) = true := by decide
  simp [pairValue, Value.property, Value.entries, Value.numbered, List.lookup_cons, first, second]

theorem gives_make (pairs : List (String × String)) (s : Session) :
    Gives (construct .query [.list (pairs.map pairValue)]) s (.object s.held.size)
      (s.added (.query ⟨pairs⟩ none) []) := by
  have walked : Gives (initial (.list (pairs.map pairValue))) s
      (pairs.map fun p => (Value.text p.1, Value.text p.2)) s := by
    refine Gives.mapM (fun p => ?_) pairs
    rw [← pairValue_name, ← pairValue_value]
    exact .pure _ s
  have texts : Gives ((pairs.map fun p => (Value.text p.1, Value.text p.2)).mapM fun p =>
      do return (← toText p.1, ← toText p.2)) s (pairs.map id) s := by
    refine Gives.mapM (fun p => ?_) pairs
    exact (Gives.toText p.1 s).bind ((Gives.toText p.2 s).bind (.pure p s))
  rw [List.map_id] at texts
  exact walked.bind (texts.bind (Gives.make _ s))

theorem gives_readAnew (holds : Holds s p q) : Gives (readAnew (.object p)) s
    (.object s.held.size) (s.added (.query q none) []) := by
  have written : Gives (call (.object p) "toString" []) s (.text q.text) s :=
    holds.call rfl (.pure _ s)
  have made : Gives (construct .query [.text q.text]) s (.object s.held.size)
      (s.added (.query (Query.parse q.text) none) []) := Gives.make _ s
  rw [Query.parse_text] at made
  exact written.bind made

/-! ## What is kept -/

/-- A query is made of any pairs and changed by any calls.  Then the query that is made of its text has
exactly its pairs, in their order.  Setting a name leaves one pair of that name, with the value, where the
first one of it stood or, if there was none, behind all others, and the other pairs stay in their order.
Sorting brings the names into the order of their UTF-16 units, and keeps the order of the pairs of each
name. -/
theorem queries_kept (pairs : List (String × String)) (calls : List QueryCall) (s : Session) :
    ∃ p q s₁, Gives (makeAndChange pairs calls) s (.object p) s₁ ∧ Holds s₁ p q ∧
      q = calls.foldl QueryCall.change ⟨pairs⟩ ∧
      (∃ copy s₂, Gives (readAnew (.object p)) s₁ (.object copy) s₂ ∧ Holds s₂ copy q ∧
        Holds s₂ p q) ∧
      (∀ name value, ∃ q' s₂,
        Gives (call (.object p) "set" [.text name, .text value]) s₁ .undefined s₂ ∧
        Holds s₂ p q' ∧ q'.pairs.filter (·.1 == name) = [(name, value)] ∧
        q'.pairs.findIdx (·.1 == name) = q.pairs.findIdx (·.1 == name) ∧
        q'.pairs.filter (·.1 != name) = q.pairs.filter (·.1 != name)) ∧
      ∃ q' s₂, Gives (call (.object p) "sort" []) s₁ .undefined s₂ ∧ Holds s₂ p q' ∧
        (q'.pairs.Pairwise fun a b => Text.toUnits a.1.toList ≤ Text.toUnits b.1.toList) ∧
        ∀ name, q'.pairs.filter (·.1 == name) = q.pairs.filter (·.1 == name) := by
  obtain ⟨s₁, changed, holds⟩ := gives_changeAll (Holds.made s ⟨pairs⟩) calls
  refine ⟨s.held.size, _, s₁, (gives_make pairs s).bind (changed.bind (.pure _ s₁)), holds, rfl,
    ⟨_, _, gives_readAnew holds, .made s₁ _, holds.added _⟩, fun name value => ?_, ?_⟩
  · obtain ⟨s₂, given, after⟩ := gives_perform holds (.set name value)
    exact ⟨_, s₂, given, after, Query.filter_setPairs .., Query.findIdx_setPairs ..,
      Query.filter_setPairs_others ..⟩
  · obtain ⟨s₂, given, after⟩ := gives_perform holds .sort
    exact ⟨_, s₂, given, after, Query.sort_ascending _, Query.filter_sort _⟩

end JsxPreview.Sandbox.Pairs
