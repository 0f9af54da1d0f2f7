import JsxPreview.Sandbox.Property
import JsxPreview.Url.Setter

/-! # URLs, queries and headers in a session

A URL is read as it would be written: after each change it is read anew.  Setting the whole URL or its
search gives it a new query. -/
set_option autoImplicit false
namespace JsxPreview.Sandbox.Address

open JsxPreview.Script
open Sandboxed

def invalid {α : Type} (input : String) : Sandboxed α := throwType ("Invalid URL: " ++ input)

def resolve? (args : List Value) : Sandboxed (Option Url) := do
  let base := argument args 1
  let input ← toText (argument args 0)
  let base ← if base.isUndefined then pure none else some <$> toText base
  return Url.resolve? input base

def construct : Method := fun args => do
  match ← resolve? args with
  | some u => make (.url u none)
  | none => invalid (← toText (argument args 0))

def canParse : Method := fun args => do return .bool (← resolve? args).isSome

/-- Sets a part of a URL.  A part that cannot be what it is set to stays as it is. -/
def setPart (id : Nat) (u : Url) (query : Option Nat) (part : Url.Part) (v : Value) :
    Sandboxed Unit := do
  let changed := (u.change? part (← toText v)).getD u
  replace id (.url changed (if part = .search then none else query))

def setHref (id : Nat) (v : Value) : Sandboxed Unit := do
  let s ← toText v
  match Url.resolve? s none with
  | some u => replace id (.url u none)
  | none => invalid s

/-- Sets what is read of a URL; what cannot be set is left alone. -/
def set? (id : Nat) (u : Url) (query : Option Nat) (name : String) :
    Option (Value → Sandboxed Unit) :=
  match name, Url.Part.ofName? name with
  | "href", _ => some (setHref id)
  | "origin", _ | "searchParams", _ => some fun _ => pure ()
  | _, some part => some (setPart id u query part)
  | _, none => none

def method? (u : Url) : String → Option Method
  | "toString" | "toJSON" => some fun _ => pure (.text u.href)
  | _ => none

def kindMethod? : String → Option Method
  | "canParse" => some canParse
  | _ => none

end JsxPreview.Sandbox.Address

/-! ## Queries and headers

Both are made from a list of pairs, from an object with a field a pair, or from nothing, and both are
walked over as pairs.  A query that belongs to a URL writes itself into it whenever it changes. -/

namespace JsxPreview.Sandbox.Pairs

open JsxPreview.Script
open Sandboxed

def initial (v : Value) : Sandboxed (List (Value × Value)) := do
  if v.isNullish then return []
  match ← walk? v with
  | some pairs => pairs.mapM fun p => do return (← read p "0", ← read p "1")
  | none => return (← fieldsOf v).map fun f => (.text f.1, f.2)

/-- Hands the pairs to a function one by one, each with its value first. -/
def forEach (pairs : List (String × String)) : Method := fun args => do
  for p in pairs do
    let _ ← apply (argument args 0) [.text p.2, .text p.1]
  return .undefined

def walkMethod? (pairs : List (String × String)) : String → Option Method
  | "forEach" => some (forEach pairs)
  | "keys" => some fun _ => pure (.iterator (pairs.map fun p => .text p.1))
  | "values" => some fun _ => pure (.iterator (pairs.map fun p => .text p.2))
  | "entries" => some fun _ => pure (.iterator (pairs.map pairValue))
  | _ => none

/-! ### Queries -/

/-- Writes a query into the URL that it belongs to. -/
def writeInto (id : Nat) (q : Url.Query) : Sandboxed Unit := do
  match ← objectOf id with
  | .url u query =>
      if let some u := u.change? .search q.text then replace id (.url u query)
  | _ => pure ()

def changeQuery (id : Nat) (url : Option Nat) (q : Url.Query) : Sandboxed Value := do
  replace id (.query q url)
  if let some url := url then writeInto url q
  return .undefined

def makeQuery : Method := fun args => do
  match argument args 0 with
  | .text s => make (.query (.parse s) none)
  | v =>
      let pairs ← (← initial v).mapM fun p => do return (← toText p.1, ← toText p.2)
      make (.query ⟨pairs⟩ none)

def queryMethod? (id : Nat) (q : Url.Query) (url : Option Nat) (name : String) : Option Method :=
  match name with
  | "append" => some fun args => do
      changeQuery id url (q.append (← toText (argument args 0)) (← toText (argument args 1)))
  | "delete" => some fun args => do changeQuery id url (q.delete (← toText (argument args 0)))
  | "get" => some fun args => do
      return ((q.get? (← toText (argument args 0))).map Value.text).getD .null
  | "getAll" => some fun args => do
      return .list ((q.getAll (← toText (argument args 0))).map .text)
  | "has" => some fun args => do return .bool (q.get? (← toText (argument args 0))).isSome
  | "set" => some fun args => do
      changeQuery id url (q.set (← toText (argument args 0)) (← toText (argument args 1)))
  | "sort" => some fun _ => changeQuery id url q.sort
  | "toString" => some fun _ => pure (.text q.text)
  | name => walkMethod? q.pairs name

/-! ### Headers -/

def makeHeaders : Method := fun args => do
  let pairs ← initial (argument args 0)
  let headers ← pairs.foldlM
    (fun (h : Headers) p => do return h.append (← toText p.1) (← toText p.2)) {}
  make (.headers headers)

def changeHeaders (id : Nat) (h : Headers) : Sandboxed Value := do
  replace id (.headers h)
  return .undefined

def headersMethod? (id : Nat) (h : Headers) (name : String) : Option Method :=
  match name with
  | "append" => some fun args => do
      changeHeaders id (h.append (← toText (argument args 0)) (← toText (argument args 1)))
  | "delete" => some fun args => do changeHeaders id (h.delete (← toText (argument args 0)))
  | "get" => some fun args => do
      return ((h.get? (← toText (argument args 0))).map Value.text).getD .null
  | "has" => some fun args => do return .bool (h.get? (← toText (argument args 0))).isSome
  | "set" => some fun args => do
      changeHeaders id (h.set (← toText (argument args 0)) (← toText (argument args 1)))
  | name => walkMethod? h.entries name

end JsxPreview.Sandbox.Pairs
