import JsxPreview.Bundle.Artifact
import JsxPreview.Bundle.Failure
import JsxPreview.Bundle.Graph
import JsxPreview.Bundle.Module
import JsxPreview.Bundle.Renderer
import JsxPreview.Bundle.Specifier
import JsxPreview.Codec.Encoding
import JsxPreview.Codec.StreamDecoder
import JsxPreview.CommandLine.Arguments
import JsxPreview.CommandLine.Command
import JsxPreview.Element.Create
import JsxPreview.Element.Render
import JsxPreview.Element.Tree
import JsxPreview.Files.OverrideBatch
import JsxPreview.Files.Overrides
import JsxPreview.Files.Tree
import JsxPreview.Json.Expected
import JsxPreview.Json.Reader
import JsxPreview.Json.Shape
import JsxPreview.Json.Value
import JsxPreview.Main
import JsxPreview.Markup.Attribute
import JsxPreview.Markup.Layout
import JsxPreview.Number.Double
import JsxPreview.Path.Basic
import JsxPreview.Preview.Compiler
import JsxPreview.Preview.Payload
import JsxPreview.Preview.Request
import JsxPreview.Preview.Server
import JsxPreview.Proofs.Analysis.Edits
import JsxPreview.Proofs.Analysis.Exports
import JsxPreview.Proofs.Analysis.Origins
import JsxPreview.Proofs.Analysis.Patterns
import JsxPreview.Proofs.Analysis.Recorded
import JsxPreview.Proofs.Analysis.Refusals
import JsxPreview.Proofs.Analysis.Rows
import JsxPreview.Proofs.Analysis.Stretches
import JsxPreview.Proofs.Analysis.Uses
import JsxPreview.Proofs.Analysis.Whole
import JsxPreview.Proofs.Bundle.Bases
import JsxPreview.Proofs.Bundle.Closure
import JsxPreview.Proofs.Bundle.History
import JsxPreview.Proofs.Bundle.Identity
import JsxPreview.Proofs.Bundle.Linking
import JsxPreview.Proofs.Bundle.Mapped
import JsxPreview.Proofs.Bundle.Overlay
import JsxPreview.Proofs.Bundle.Publishing
import JsxPreview.Proofs.Bundle.Reach
import JsxPreview.Proofs.Bundle.Rebasing
import JsxPreview.Proofs.Bundle.Refusals
import JsxPreview.Proofs.Bundle.Simulation
import JsxPreview.Proofs.Codec.Chunks
import JsxPreview.Proofs.Codec.Encodings
import JsxPreview.Proofs.Element.Create
import JsxPreview.Proofs.Element.PlainText
import JsxPreview.Proofs.Element.Scopes
import JsxPreview.Proofs.Emission.Applied
import JsxPreview.Proofs.Emission.Calls
import JsxPreview.Proofs.Emission.Chunks
import JsxPreview.Proofs.Emission.Copies
import JsxPreview.Proofs.Emission.Factory
import JsxPreview.Proofs.Emission.Splice
import JsxPreview.Proofs.Erasure.Cuts
import JsxPreview.Proofs.Erasure.Elision
import JsxPreview.Proofs.Erasure.Erasable
import JsxPreview.Proofs.Erasure.Expression
import JsxPreview.Proofs.Erasure.Growth
import JsxPreview.Proofs.Erasure.Moves
import JsxPreview.Proofs.Erasure.Names
import JsxPreview.Proofs.Erasure.Order
import JsxPreview.Proofs.Erasure.Plain
import JsxPreview.Proofs.Erasure.Quiet
import JsxPreview.Proofs.Files.Places
import JsxPreview.Proofs.Files.Publishing
import JsxPreview.Proofs.Files.Stamps
import JsxPreview.Proofs.Files.Targets
import JsxPreview.Proofs.Files.Writing
import JsxPreview.Proofs.Guarded.Basic
import JsxPreview.Proofs.Guarded.Binding
import JsxPreview.Proofs.Guarded.Declaration
import JsxPreview.Proofs.Guarded.Expression
import JsxPreview.Proofs.Guarded.Extent
import JsxPreview.Proofs.Guarded.Module
import JsxPreview.Proofs.Guarded.Room
import JsxPreview.Proofs.Guarded.Search
import JsxPreview.Proofs.Guarded.Usage
import JsxPreview.Proofs.Guarded.Walk
import JsxPreview.Proofs.JsxText
import JsxPreview.Proofs.Markup.Data
import JsxPreview.Proofs.Markup.Marks
import JsxPreview.Proofs.Markup.Paragraphs
import JsxPreview.Proofs.Markup.Pieces
import JsxPreview.Proofs.Markup.PlainText
import JsxPreview.Proofs.Outcome
import JsxPreview.Proofs.Path.Diff
import JsxPreview.Proofs.Path.Laws
import JsxPreview.Proofs.Path.Names
import JsxPreview.Proofs.Path.Parts
import JsxPreview.Proofs.Path.Relative
import JsxPreview.Proofs.References
import JsxPreview.Proofs.Removal
import JsxPreview.Proofs.Report.Frames
import JsxPreview.Proofs.Rescan.Agreement
import JsxPreview.Proofs.Rescan.Alignment
import JsxPreview.Proofs.Rescan.Cursors
import JsxPreview.Proofs.Rescan.Left
import JsxPreview.Proofs.Rescan.Rereads
import JsxPreview.Proofs.Rescan.Rescanned
import JsxPreview.Proofs.Sandbox.Buffers
import JsxPreview.Proofs.Sandbox.Exchange
import JsxPreview.Proofs.Sandbox.Gives
import JsxPreview.Proofs.Sandbox.Queries
import JsxPreview.Proofs.Sandbox.TextDecoding
import JsxPreview.Proofs.Scanner.Extension
import JsxPreview.Proofs.Scanner.Layout
import JsxPreview.Proofs.Scanner.Leaves
import JsxPreview.Proofs.Scanner.Literals
import JsxPreview.Proofs.Scanner.Nesting
import JsxPreview.Proofs.Scanner.Printing
import JsxPreview.Proofs.Scanner.Progress
import JsxPreview.Proofs.Scanner.Reading
import JsxPreview.Proofs.Scanner.Rows
import JsxPreview.Proofs.Scanner.Segments
import JsxPreview.Proofs.Scanner.Separation
import JsxPreview.Proofs.Scanner.Shift
import JsxPreview.Proofs.Scanner.Spans
import JsxPreview.Proofs.Scanner.Spelling
import JsxPreview.Proofs.Scanner.Termination
import JsxPreview.Proofs.Scanner.Tiling
import JsxPreview.Proofs.Script.Fields
import JsxPreview.Proofs.SourceMap.Calls
import JsxPreview.Proofs.SourceMap.Exactness
import JsxPreview.Proofs.SourceMap.Lookup
import JsxPreview.Proofs.SourceMap.RoundTrip
import JsxPreview.Proofs.SourceMap.Vlq
import JsxPreview.Proofs.SourceMap.Writer
import JsxPreview.Proofs.StringValues
import JsxPreview.Proofs.Text.Lossy
import JsxPreview.Proofs.Text.Numerals
import JsxPreview.Proofs.Text.Places
import JsxPreview.Proofs.Text.Split
import JsxPreview.Proofs.Text.Utf8
import JsxPreview.Proofs.TypeErasure
import JsxPreview.Proofs.Types.Angles
import JsxPreview.Proofs.Types.Contexts
import JsxPreview.Proofs.Types.Erased
import JsxPreview.Proofs.Types.Extent
import JsxPreview.Proofs.Types.Grammar
import JsxPreview.Proofs.Url.Form
import JsxPreview.Report.Envelope
import JsxPreview.Report.Thrown
import JsxPreview.Report.Translation
import JsxPreview.Sandbox.Address
import JsxPreview.Sandbox.Answer
import JsxPreview.Sandbox.Bytes
import JsxPreview.Sandbox.Call
import JsxPreview.Sandbox.Elements
import JsxPreview.Sandbox.Form
import JsxPreview.Sandbox.Property
import JsxPreview.Sandbox.Session
import JsxPreview.Sandbox.Steps
import JsxPreview.Sandbox.Streams
import JsxPreview.Sandbox.TextCodec
import JsxPreview.Script.Number
import JsxPreview.Script.Text
import JsxPreview.Script.Value
import JsxPreview.Source.Analysis
import JsxPreview.Source.Binding
import JsxPreview.Source.Declaration
import JsxPreview.Source.Emission
import JsxPreview.Source.Erasure.Basic
import JsxPreview.Source.Erasure.Declaration
import JsxPreview.Source.Erasure.Walk
import JsxPreview.Source.Error
import JsxPreview.Source.JsxText
import JsxPreview.Source.Lexeme
import JsxPreview.Source.Lexer
import JsxPreview.Source.Module
import JsxPreview.Source.Token
import JsxPreview.Source.TokenRow
import JsxPreview.Source.TypeExtent
import JsxPreview.Source.Usage
import JsxPreview.SourceMap.Builder
import JsxPreview.SourceMap.Document
import JsxPreview.SourceMap.Vlq
import JsxPreview.Text.Bytes
import JsxPreview.Text.Characters
import JsxPreview.Text.Letter
import JsxPreview.Text.Lines
import JsxPreview.Text.Lowercase
import JsxPreview.Text.Printable
import JsxPreview.Text.Split
import JsxPreview.Text.Utf8
import JsxPreview.Url.Basic
import JsxPreview.Url.Form
import JsxPreview.Url.Host
import JsxPreview.Url.Parser
import JsxPreview.Url.Setter
