import JsxPreview.CommandLine.Command
import JsxPreview.Json.Value
import JsxPreview.Preview.Server

/-! # The program

`compile` compiles the template that the arguments name, on the files below the working directory, and
prints what came of it.  `serve` answers requests, one a line, each a JSON object with the fields
`method`, `path`, `contentType` and `body`. -/
set_option autoImplicit false
namespace JsxPreview

open JsxPreview.CommandLine
open JsxPreview.Preview

/-- Adds what some directory of the disk holds to a tree, hidden directories apart. -/
partial def addEntries (tree : Files.Tree) (entries : Array IO.FS.DirEntry) : IO Files.Tree := do
  let mut tree := tree
  for entry in entries do
    let path : Path := ⟨entry.path.toString⟩
    if ← entry.path.isDir then
      if !entry.fileName.startsWith "." then
        tree ← addEntries (tree.write path .directory) (← entry.path.readDir)
    else
      tree := tree.write path (.bytes (← IO.FS.readBinFile entry.path).toList)
  return tree

def readWorkplace : IO Workplace := do
  let directory ← IO.currentDir
  return { files := ← addEntries {} (← directory.readDir), directory := ⟨directory.toString⟩ }

def runCompile (c : CompileCommand) : IO UInt32 := do
  match c.run (← readWorkplace) with
  | .error e =>
      IO.eprintln e.message
      return 1
  | .ok outcome =>
      IO.println ((printed outcome).indented 0)
      return if outcome.isOk then 0 else 1

def answerRequest (config : Config) (w : Workplace) (line : String) : String :=
  match Json.parse line with
  | .error _ => "\x7b\"status\":400\x7d"
  | .ok v =>
      let field (name : String) : Option String := v.get? name >>= Json.Value.text?
      let response := answer config w
        { method := (field "method").getD "GET"
          path := (field "path").getD "/"
          contentType := field "contentType"
          body := (field "body").getD "" }
      (Json.Value.object [("status", .nat response.status),
        ("body", response.body.getD .null)]).print

partial def serveLines (config : Config) : IO Unit := do
  let line ← (← IO.getStdin).getLine
  if !line.isEmpty then
    let out ← IO.getStdout
    out.putStrLn (answerRequest config (← readWorkplace) line)
    out.flush
    serveLines config

end JsxPreview

open JsxPreview JsxPreview.CommandLine in
def main (arguments : List String) : IO UInt32 := do
  match Command.read arguments with
  | .error e =>
      if e.isAsked then IO.println e.message else IO.eprintln e.message
      return if e.isAsked then 0 else 2
  | .ok (.compile c) => runCompile c
  | .ok (.serve c) =>
      match c.config.fault? with
      | some e =>
          IO.eprintln e.message
          return 1
      | none =>
          serveLines c.config
          return 0
