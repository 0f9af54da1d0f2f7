import JsxPreview.CommandLine.Arguments
import JsxPreview.Preview.Compiler
import JsxPreview.Url.Host

/-! # Commands

One command compiles a template and says what came of it, the other serves previews. -/
set_option autoImplicit false

/-! ## Addresses to listen on

An address is a host and a port: four numbers, or eight groups in brackets, which a number for the zone
may follow.  Groups that hold four numbers are written with those. -/
namespace JsxPreview.CommandLine

open JsxPreview.Text JsxPreview.Url.Host

inductive HostAddress where
  | four (numbers : List Nat)
  | six (groups : List Nat) (zone : Nat)
deriving DecidableEq, Repr

structure Address where
  host : HostAddress
  port : Nat
deriving DecidableEq, Repr

/-- Reads digits, of which there is at least one, as a number below a bound. -/
def readBelow? (bound : Nat) (s : List Char) : Option Nat :=
  if s.isEmpty then none else (readDigits 10 0 s).filter (· < bound)

def readFour? (s : List Char) : Option HostAddress :=
  match (splitOn '.' s).mapM readByte with
  | some [a, b, c, d] => some (.four [a, b, c, d])
  | _ => none

def readSix? (s : List Char) : Option HostAddress :=
  match splitOn '%' s with
  | [groups] => do return .six (← readIpv6 groups) 0
  | [groups, zone] => do return .six (← readIpv6 groups) (← readBelow? (Nat.pow 2 32) zone)
  | _ => none

def Address.parse? (text : String) : Option Address :=
  match text.toList with
  | '[' :: s =>
      let inside := s.takeWhile (· != ']')
      match s.drop inside.length with
      | ']' :: ':' :: port => do return ⟨← readSix? inside, ← readBelow? (Nat.pow 2 16) port⟩
      | _ => none
  | s =>
      match splitOn ':' s with
      | [host, port] => do return ⟨← readFour? host, ← readBelow? (Nat.pow 2 16) port⟩
      | _ => none

def showFour (numbers : List Nat) : String := String.intercalate "." (numbers.map toString)

def HostAddress.text : HostAddress → String
  | .four numbers => showFour numbers
  | .six groups zone =>
      let shown := match groups with
        | [0, 0, 0, 0, 0, 0xffff, a, b] =>
            "::ffff:" ++ showFour [a / 256, a % 256, b / 256, b % 256]
        | groups => String.ofList (showIpv6 groups)
      "[" ++ shown ++ (if zone = 0 then "" else "%" ++ toString zone) ++ "]"

def Address.text (a : Address) : String := a.host.text ++ ":" ++ toString a.port

end JsxPreview.CommandLine

/-! ## Commands -/
namespace JsxPreview.CommandLine

open JsxPreview.Text JsxPreview.Preview JsxPreview.Report

structure CompileCommand where
  entry : String
  overrideSet : Option String := none
  overrideApi : Option String := none
  requireOverrides : Bool := false
  render : Bool := false
  props : String := "\x7b\x7d"
  plainText : Bool := false
  pretty : Bool := false
  /-- Seconds for bundling and execution together. -/
  timeout : Nat := 10
deriving DecidableEq, Repr

structure ServeCommand where
  address : Address := ⟨.four [0, 0, 0, 0], 3000⟩
  maxConcurrent : Nat := 10
  timeout : Nat := 10
  overrideApi : Option String := none
  requireOverrides : Bool := false
  noCache : Bool := false
deriving DecidableEq, Repr

inductive Command where
  | compile (c : CompileCommand)
  | serve (c : ServeCommand)
deriving DecidableEq, Repr

/-- Reads a number of at most sixty-four bits. -/
def readNumber? (s : String) : Option Nat := readUnsigned 10 (Nat.pow 2 64) s.toList

def anyText : OptionKind := .value fun _ => none

def readable {α : Type} (read : String → Option α) : OptionKind :=
  .value fun s => if (read s).isSome then none else some .refusedValue

def sharedOptions : List OptionSpec :=
  [⟨"timeout", none, readable readNumber?⟩, ⟨"override-api", none, anyText⟩,
    ⟨"require-overrides", none, .flag⟩]

def compileSpec : CommandSpec where
  options := sharedOptions ++
    [⟨"override-set", none, anyText⟩, ⟨"render", none, .flag⟩, ⟨"props", none, anyText⟩,
      ⟨"plain-text", none, .flag⟩, ⟨"pretty", none, .flag⟩]
  argument := some ("entry", fun s => if s.isEmpty then some .missingValue else none)

def serveSpec : CommandSpec where
  options := sharedOptions ++
    [⟨"addr", some 'a', readable Address.parse?⟩,
      ⟨"max-concurrent", some 'm', readable readNumber?⟩, ⟨"no-cache", none, .flag⟩]

def CompileCommand.ofGiven (g : Given) : CompileCommand :=
  { entry := (g.valueOf? "entry").getD ""
    overrideSet := g.valueOf? "override-set"
    overrideApi := g.valueOf? "override-api"
    requireOverrides := g.has "require-overrides"
    render := g.has "render"
    props := (g.valueOf? "props").getD "\x7b\x7d"
    plainText := g.has "plain-text"
    pretty := g.has "pretty"
    timeout := (g.valueOf? "timeout" >>= readNumber?).getD 10 }

def ServeCommand.ofGiven (g : Given) : ServeCommand :=
  let default : ServeCommand := {}
  { address := (g.valueOf? "addr" >>= Address.parse?).getD default.address
    maxConcurrent := (g.valueOf? "max-concurrent" >>= readNumber?).getD default.maxConcurrent
    timeout := (g.valueOf? "timeout" >>= readNumber?).getD default.timeout
    overrideApi := g.valueOf? "override-api"
    requireOverrides := g.has "require-overrides"
    noCache := g.has "no-cache" }

/-- What may stand in front of a command. -/
def programSpec : CommandSpec where
  options := [⟨"version", some 'V', .ends .versionAsked⟩]

def commandNames : List String := ["compile", "serve", "help"]

def readHelp : List String → UsageError
  | [] => .helpAsked
  | [name] => if commandNames.contains name then .helpAsked else .unknownCommand
  | _ => .unknownCommand

namespace Command

/-- Reads a command line; `closed` says whether two hyphens alone have been seen. -/
def readFrom (closed : Bool) : List String → Except UsageError Command
  | [] => .error .nothingGiven
  | s :: rest =>
      if closed then
        .error (if commandNames.contains s then .unknownArgument else .unknownCommand)
      else if s = "compile" then do
        return .compile (.ofGiven (← compileSpec.read rest))
      else if s = "serve" then do return .serve (.ofGiven (← serveSpec.read rest))
      else if s = "help" then .error (readHelp rest)
      else match s.toList with
        | ['-', '-'] => readFrom true rest
        | '-' :: _ :: _ => do
            let _ ← ({} : Given).take programSpec s
            readFrom false rest
        | _ => .error .unknownCommand

def read (arguments : List String) : Except UsageError Command := readFrom false arguments

end Command

def configFor (timeout : Nat) (overrideApi : Option String) (requireOverrides : Bool) : Config :=
  let service : ServiceAddress := match overrideApi with
    | some url => { url }
    | none => {}
  { service, timeout := timeout * 1000, policy := if requireOverrides then .fail else .fallBackToDisk }

def ServeCommand.config (c : ServeCommand) : Config :=
  { configFor c.timeout c.overrideApi c.requireOverrides with
    slots := max c.maxConcurrent 1, cacheEnabled := !c.noCache }

def CompileCommand.config (c : CompileCommand) : Config :=
  { configFor c.timeout c.overrideApi c.requireOverrides with slots := 1 }

inductive StartError where
  | invalidProps (failure : Json.Failure)
  | compiler (e : CompileError)

def StartError.message : StartError → String
  | invalidProps _ => "The properties are not JSON"
  | compiler e => "Compiler error: " ++ e.message

def CompileCommand.run (c : CompileCommand) (w : Workplace) :
    Except StartError (Except ErrorObject Payload) := do
  let props ← (Json.parse c.props).mapError .invalidProps
  match c.config.fault? with
  | some e => throw (.compiler e)
  | none =>
      let render := if c.render then some (props.canonical, ⟨c.pretty, c.plainText⟩) else none
      return (preview c.config w ⟨c.entry, c.overrideSet⟩ render).result

def printed : Except ErrorObject Payload → Json.Value
  | .ok payload => payload.toJson
  | .error e => e.envelope

end JsxPreview.CommandLine
