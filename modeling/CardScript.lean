import CardScript.Chunk.Basic
import CardScript.Chunk.Pinning
import CardScript.Chunk.Reading
import CardScript.Chunk.Segment
import CardScript.Chunk.Writing
import CardScript.CommandLine.Arguments
import CardScript.CommandLine.Report
import CardScript.Draws
import CardScript.Editing
import CardScript.Failure
import CardScript.Json.Basic
import CardScript.Json.Fields
import CardScript.Json.Magnitude
import CardScript.Json.Reader
import CardScript.Json.Writer
import CardScript.Main
import CardScript.Number.Binary64
import CardScript.Number.Numeral
import CardScript.Number.Shortest
import CardScript.Number.Word
import CardScript.Part.Access
import CardScript.Part.Basic
import CardScript.Part.Finding
import CardScript.Part.Specifier
import CardScript.Proofs.Chunk.Lossless
import CardScript.Proofs.Chunk.Offsets
import CardScript.Proofs.Chunk.Pinned
import CardScript.Proofs.Chunk.Refusal
import CardScript.Proofs.Chunk.Rows
import CardScript.Proofs.Chunk.Segmentation
import CardScript.Proofs.Chunk.Splicing
import CardScript.Proofs.Chunk.Words
import CardScript.Proofs.Chunk.WriteBack
import CardScript.Proofs.Editing
import CardScript.Proofs.Number.Bits
import CardScript.Proofs.Number.Conversion
import CardScript.Proofs.Number.Grammar
import CardScript.Proofs.Number.Nearest
import CardScript.Proofs.Number.Numerals
import CardScript.Proofs.Number.Overflow
import CardScript.Proofs.Number.ReadBack
import CardScript.Proofs.Number.Rounding
import CardScript.Proofs.Part.Candidates
import CardScript.Proofs.Part.Finding
import CardScript.Proofs.Part.Numbering
import CardScript.Proofs.Part.Relative
import CardScript.Proofs.Part.Resolution
import CardScript.Proofs.Part.Segments
import CardScript.Proofs.Script.Aborting
import CardScript.Proofs.Script.Accord
import CardScript.Proofs.Script.Addressing
import CardScript.Proofs.Script.Aggregates
import CardScript.Proofs.Script.Arithmetic
import CardScript.Proofs.Script.Atomicity
import CardScript.Proofs.Script.Builtins
import CardScript.Proofs.Script.CallStack
import CardScript.Proofs.Script.Counting
import CardScript.Proofs.Script.Course
import CardScript.Proofs.Script.Delivery
import CardScript.Proofs.Script.ErrorPlaces
import CardScript.Proofs.Script.Exit
import CardScript.Proofs.Script.FrameOps
import CardScript.Proofs.Script.Going
import CardScript.Proofs.Script.Interpreter
import CardScript.Proofs.Script.Law
import CardScript.Proofs.Script.Lawful
import CardScript.Proofs.Script.Looping
import CardScript.Proofs.Script.Noninterference
import CardScript.Proofs.Script.NumberFunctions
import CardScript.Proofs.Script.Occurrence
import CardScript.Proofs.Script.Passing
import CardScript.Proofs.Script.Sending
import CardScript.Proofs.Script.Soundness
import CardScript.Proofs.Script.Termination
import CardScript.Proofs.Script.Whereabouts
import CardScript.Proofs.Script.Writing
import CardScript.Proofs.Script.WritingBack
import CardScript.Proofs.Stack.Atomicity
import CardScript.Proofs.Stack.BackgroundOrder
import CardScript.Proofs.Stack.Coherence
import CardScript.Proofs.Stack.Editing
import CardScript.Proofs.Stack.FieldTexts
import CardScript.Proofs.Stack.Opening
import CardScript.Proofs.Stack.Reachable
import CardScript.Proofs.Stack.Snapshots
import CardScript.Proofs.Syntax.RoundTrip
import CardScript.Proofs.Text.CaseContext
import CardScript.Proofs.Text.LetterCase
import CardScript.Proofs.Text.Letters
import CardScript.Proofs.Value.Identity
import CardScript.Proofs.Value.Integers
import CardScript.Proofs.Value.Lists
import CardScript.Proofs.Value.Reading
import CardScript.Proofs.World.History
import CardScript.Proofs.World.Properties
import CardScript.Script.Action
import CardScript.Script.Address
import CardScript.Script.Builtin
import CardScript.Script.Command
import CardScript.Script.Context
import CardScript.Script.Expression
import CardScript.Script.Frame
import CardScript.Script.Message
import CardScript.Script.Navigation
import CardScript.Script.Run
import CardScript.Settings.Basic
import CardScript.Settings.Document
import CardScript.Stack.Basic
import CardScript.Stack.Editing
import CardScript.Stack.Opening
import CardScript.Stack.PropertyTable
import CardScript.Stack.Snapshot
import CardScript.Symbol
import CardScript.Syntax.Basic
import CardScript.Syntax.Building
import CardScript.Syntax.Decoding
import CardScript.Syntax.Encoding
import CardScript.Syntax.Words
import CardScript.Text.Blank
import CardScript.Text.CaseData
import CardScript.Text.Dictionary
import CardScript.Text.Lowercase
import CardScript.Text.PrintData
import CardScript.Text.Quoted
import CardScript.Text.Search
import CardScript.Toml.Basic
import CardScript.Toml.Quoting
import CardScript.Toml.Reader
import CardScript.Toml.Scalar
import CardScript.Value.Arithmetic
import CardScript.Value.Basic
import CardScript.Value.Comparison
import CardScript.Value.Listing
import CardScript.World.Basic
import CardScript.World.Clock
import CardScript.World.Desktop
import CardScript.World.Globals
import CardScript.World.Interrupt
