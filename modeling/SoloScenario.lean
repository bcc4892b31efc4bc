import SoloScenario.Command.Arguments
import SoloScenario.Command.LogLevel
import SoloScenario.Command.Outlet
import SoloScenario.Command.Run
import SoloScenario.Compile.Failure
import SoloScenario.Compile.Options
import SoloScenario.Compile.Report
import SoloScenario.Compile.Run
import SoloScenario.Dialect.Basic
import SoloScenario.Dialect.Table
import SoloScenario.Document.Basic
import SoloScenario.Document.Read
import SoloScenario.Feature.Basic
import SoloScenario.Feature.Filter
import SoloScenario.Feature.Render
import SoloScenario.Feature.Split
import SoloScenario.Files.Discovery
import SoloScenario.Files.Disk
import SoloScenario.Files.Path
import SoloScenario.Files.Pattern
import SoloScenario.Grammar.DocString
import SoloScenario.Grammar.Gap
import SoloScenario.Grammar.Keyword
import SoloScenario.Grammar.Reader
import SoloScenario.Grammar.Section
import SoloScenario.Grammar.Step
import SoloScenario.Grammar.Table
import SoloScenario.Json.Printer
import SoloScenario.Json.Reader
import SoloScenario.Json.Token
import SoloScenario.Json.Value
import SoloScenario.Main
import SoloScenario.Output.FileName
import SoloScenario.Output.StampClock
import SoloScenario.Proofs.Command.Endings
import SoloScenario.Proofs.Command.Printing
import SoloScenario.Proofs.Compile.Accounts
import SoloScenario.Proofs.Compile.Checks
import SoloScenario.Proofs.Compile.Confinement
import SoloScenario.Proofs.Compile.Failures
import SoloScenario.Proofs.Compile.Ledger
import SoloScenario.Proofs.Compile.Order
import SoloScenario.Proofs.Compile.Passage
import SoloScenario.Proofs.Compile.Repetition
import SoloScenario.Proofs.Dialect.Clear
import SoloScenario.Proofs.Dialect.Unbroken
import SoloScenario.Proofs.Document.Inheritance
import SoloScenario.Proofs.Document.LineBreaks
import SoloScenario.Proofs.Document.Reprint
import SoloScenario.Proofs.Document.RoundTrip
import SoloScenario.Proofs.Document.StepPlaces
import SoloScenario.Proofs.Feature.Conservation
import SoloScenario.Proofs.Feature.Groups
import SoloScenario.Proofs.Feature.Stages
import SoloScenario.Proofs.Files.Detours
import SoloScenario.Proofs.Files.Inside
import SoloScenario.Proofs.Files.OrderedUnion
import SoloScenario.Proofs.Files.Outline
import SoloScenario.Proofs.Files.Paths
import SoloScenario.Proofs.Files.Reordering
import SoloScenario.Proofs.Files.Repeats
import SoloScenario.Proofs.Files.Search
import SoloScenario.Proofs.Files.Writing
import SoloScenario.Proofs.Grammar.Arguments
import SoloScenario.Proofs.Grammar.DocStrings
import SoloScenario.Proofs.Grammar.Documents
import SoloScenario.Proofs.Grammar.Lines
import SoloScenario.Proofs.Grammar.ReadBack
import SoloScenario.Proofs.Grammar.Reading
import SoloScenario.Proofs.Grammar.Remainders
import SoloScenario.Proofs.Grammar.Respelling
import SoloScenario.Proofs.Grammar.Scenarios
import SoloScenario.Proofs.Grammar.Sections
import SoloScenario.Proofs.Grammar.Starts
import SoloScenario.Proofs.Grammar.Steady
import SoloScenario.Proofs.Grammar.SteadyRules
import SoloScenario.Proofs.Grammar.StepLines
import SoloScenario.Proofs.Grammar.Steps
import SoloScenario.Proofs.Grammar.Yields
import SoloScenario.Proofs.Json.RoundTrip
import SoloScenario.Proofs.Output.Drift
import SoloScenario.Proofs.Output.FileNames
import SoloScenario.Proofs.Output.Stamps
import SoloScenario.Proofs.Output.Stems
import SoloScenario.Proofs.TagExpr.ByteReader
import SoloScenario.Proofs.TagExpr.Composition
import SoloScenario.Proofs.TagExpr.Coverage
import SoloScenario.Proofs.TagExpr.Faults
import SoloScenario.Proofs.TagExpr.Grammar
import SoloScenario.Proofs.TagExpr.Lexical
import SoloScenario.Proofs.TagExpr.Places
import SoloScenario.Proofs.TagExpr.RoundTrip
import SoloScenario.Proofs.Text.BlankLines
import SoloScenario.Proofs.Text.Margins
import SoloScenario.Proofs.Text.Respelling
import SoloScenario.TagExpr.Basic
import SoloScenario.TagExpr.ByteReader
import SoloScenario.TagExpr.Escape
import SoloScenario.TagExpr.Parser
import SoloScenario.TagExpr.Printer
import SoloScenario.TagExpr.Scan
import SoloScenario.TagExpr.Token
import SoloScenario.Text.Blank
import SoloScenario.Text.Lines
import SoloScenario.Text.Margin
import SoloScenario.Text.Pieces
import SoloScenario.Text.Position
