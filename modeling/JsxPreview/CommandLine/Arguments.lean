/-! # Reading arguments

A command has options and may have one argument that stands by itself.  An option is named in full after
two hyphens or by a letter after one, and its value follows it or an equals sign.  A value counts when
the next argument is seen (`settle`): it may be missing, given twice, or refused. -/
set_option autoImplicit false
namespace JsxPreview.CommandLine

inductive UsageError where
  | unknownArgument
  | unknownCommand
  | missingValue
  | refusedValue
  | missingArgument
  | repeatedOption
  | unneededValue
  | helpAsked
  | versionAsked
  | nothingGiven
deriving DecidableEq, Repr

def UsageError.message : UsageError → String
  | unknownArgument => "There is an argument that nothing knows"
  | unknownCommand => "There is no such command"
  | missingValue => "An option or an argument has no value"
  | refusedValue => "A value cannot be read"
  | missingArgument => "An argument is missing"
  | repeatedOption => "An option is given twice"
  | unneededValue => "An option has a value that it does not take"
  | helpAsked | nothingGiven => "Commands: compile [options] ENTRY, serve [options]"
  | versionAsked => "template-preview"

def UsageError.isAsked (e : UsageError) : Bool := e = .helpAsked || e = .versionAsked

inductive OptionKind where
  | flag
  | value (refuses : String → Option UsageError)
  | ends (outcome : UsageError)

structure OptionSpec where
  name : String
  letter : Option Char := none
  kind : OptionKind

structure CommandSpec where
  options : List OptionSpec
  /-- The argument that stands by itself, and what it refuses. -/
  argument : Option (String × (String → Option UsageError)) := none

namespace CommandSpec

def helpOption : OptionSpec := ⟨"help", some 'h', .ends .helpAsked⟩

def allOptions (spec : CommandSpec) : List OptionSpec := helpOption :: spec.options

def named? (spec : CommandSpec) (name : String) : Option OptionSpec :=
  spec.allOptions.find? (·.name == name)

def lettered? (spec : CommandSpec) (letter : Char) : Option OptionSpec :=
  spec.allOptions.find? (·.letter == some letter)

end CommandSpec

/-- A value on its way: what it is for, and the value unless that is still to come. -/
structure Pending where
  name : String
  value : Option String
  refuses : String → Option UsageError

structure Given where
  values : List (String × String) := []
  pending : Option Pending := none
  /-- Whether two hyphens alone have been seen, behind which there are no options. -/
  closed : Bool := false
  hasArgument : Bool := false

namespace Given

def has (g : Given) (name : String) : Bool := g.values.any (·.1 == name)

def add (g : Given) (name value : String) (refuses : String → Option UsageError) :
    Except UsageError Given :=
  if g.has name then .error .repeatedOption
  else match refuses value with
    | some e => .error e
    | none => .ok { g with values := g.values ++ [(name, value)] }

def settle (g : Given) : Except UsageError Given :=
  match g.pending with
  | none => .ok g
  | some p =>
      match p.value with
      | none => .error .missingValue
      | some v => { g with pending := none }.add p.name v p.refuses

def awaitsValue (g : Given) : Bool := g.pending.any (·.value.isNone)

/-- Takes an option, with a value if one is attached to it. -/
def takeOption (g : Given) (o : OptionSpec) (attached : Option String) :
    Except UsageError Given :=
  match o.kind, attached with
  | .value refuses, none => do
      return { ← g.settle with pending := some ⟨o.name, none, refuses⟩ }
  | .value refuses, some v => do (← g.settle).add o.name v refuses
  | _, some _ => .error .unneededValue
  | .flag, none => do (← g.settle).add o.name "true" fun _ => none
  | .ends outcome, none => do
      let _ ← g.settle
      throw outcome

/-- The text up to an equals sign, and the text behind one. -/
def splitAtEquals (s : List Char) : List Char × Option (List Char) :=
  let name := s.takeWhile (· != '=')
  (name, (s.drop name.length).tail?)

def takeLong (spec : CommandSpec) (g : Given) (s : List Char) : Except UsageError Given :=
  let (name, value) := splitAtEquals s
  match spec.named? (String.ofList name) with
  | none => .error .unknownArgument
  | some o => g.takeOption o (value.map String.ofList)

/-- Takes options that are letters; what stands behind one with a value is that value. -/
def takeLetters (spec : CommandSpec) (g : Given) : List Char → Except UsageError Given
  | [] => .ok g
  | c :: rest =>
      match spec.lettered? c with
      | none => .error .unknownArgument
      | some o =>
          match o.kind, rest with
          | .value _, [] => g.takeOption o none
          | .value _, '=' :: value => g.takeOption o (some (String.ofList value))
          | .value _, value => g.takeOption o (some (String.ofList value))
          | _, rest => do takeLetters spec (← g.takeOption o none) rest

def takeArgument (spec : CommandSpec) (g : Given) (s : String) : Except UsageError Given :=
  match spec.argument with
  | none => .error .unknownArgument
  | some (name, refuses) =>
      if g.hasArgument then .error .unknownArgument
      else do
        return { ← g.settle with
          pending := some ⟨name, some s, refuses⟩, hasArgument := true }

def take (spec : CommandSpec) (g : Given) (s : String) : Except UsageError Given :=
  if g.closed then g.takeArgument spec s
  else match s.toList with
    | ['-', '-'] => .ok { g with closed := true }
    | '-' :: '-' :: name => g.takeLong spec name
    | '-' :: c :: letters => g.takeLetters spec (c :: letters)
    | _ =>
        match g.pending with
        | some ⟨name, none, refuses⟩ =>
            .ok { g with pending := some ⟨name, some s, refuses⟩ }
        | _ => g.takeArgument spec s

def valueOf? (g : Given) (name : String) : Option String := g.values.lookup name

end Given

def CommandSpec.read (spec : CommandSpec) (arguments : List String) : Except UsageError Given := do
  let g ← (← arguments.foldlM (Given.take spec) {}).settle
  match spec.argument with
  | some (name, _) => if g.has name then return g else throw .missingArgument
  | none => return g

end JsxPreview.CommandLine
