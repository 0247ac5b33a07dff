import NovelScript.Bytes
import NovelScript.Bytes.LittleEndian
import NovelScript.Operand.Shape
import NovelScript.Operand.Value
import NovelScript.Script.Command
import NovelScript.Script.FormatError
import NovelScript.Operand.Read
import NovelScript.Script.Cursor
import NovelScript.Script.Tree
import NovelScript.Jump.Hint
import NovelScript.Line.Escape
import NovelScript.Line.Replacement
import NovelScript.Line.Split
import NovelScript.Decimal.Positional
import NovelScript.Dump
import NovelScript.Inject
import NovelScript.RoundTrip
import NovelScript.Summary
import NovelScript.Toml.Node
import NovelScript.Toml.Quoted
import NovelScript.Tagging.Profile
import NovelScript.Files.Access
import NovelScript.Files.Tree
import NovelScript.Log
import NovelScript.Files.Host
import NovelScript.Files.Task
import NovelScript.CommandLine.Invocation
import NovelScript.CommandLine.Run
import NovelScript.Main
import NovelScript.Proofs.Trace
import NovelScript.Proofs.Assembly
import NovelScript.Proofs.Ledger
import NovelScript.Proofs.Tiling
import NovelScript.Proofs.TextUnit
import NovelScript.Proofs.Placement
import NovelScript.Proofs.Relocation
import NovelScript.Proofs.Substitution
import NovelScript.Proofs.JumpTarget
import NovelScript.Proofs.Layout
import NovelScript.Proofs.Rebuild
import NovelScript.Proofs.Structure
import NovelScript.Proofs.Escape
import NovelScript.Proofs.DumpLines
import NovelScript.Proofs.RoundTrip
import NovelScript.Proofs.EventOrder
import NovelScript.Proofs.Truncation
import NovelScript.Proofs.WellFormed
import NovelScript.Proofs.Redump
import NovelScript.Proofs.LineCount
import NovelScript.Proofs.Undo
import NovelScript.Proofs.Guards
import NovelScript.Proofs.SubstitutionInvariant
import NovelScript.Proofs.FileTree
import NovelScript.Proofs.TaskEffect
import NovelScript.Proofs.FailedDump
import NovelScript.Proofs.RuleIndependence
import NovelScript.Proofs.LineByLine
import NovelScript.Proofs.Counts
import NovelScript.Proofs.FileCalls
import NovelScript.Proofs.Composition
import NovelScript.Proofs.JumpRange
import NovelScript.Proofs.ReportLines
import NovelScript.Proofs.LedgerRecords
import NovelScript.Proofs.SeatedSites
import NovelScript.Proofs.LineSplitting
import NovelScript.Proofs.TextPlausibility
import NovelScript.Proofs.RelativeTarget
