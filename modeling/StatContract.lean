import StatContract.Checker.Aggregate
import StatContract.Checker.Final
import StatContract.Checker.Module
import StatContract.Checker.Signature
import StatContract.Code.Expr
import StatContract.Code.Layout
import StatContract.Code.Stmt
import StatContract.Command.Line
import StatContract.Command.Option
import StatContract.Command.Run
import StatContract.Config.Basic
import StatContract.Config.Discovery
import StatContract.Cost.Model
import StatContract.Decimal.Layout
import StatContract.Decimal.Reader
import StatContract.Decimal.Shortest
import StatContract.Diagnostic
import StatContract.Domain
import StatContract.File.Access
import StatContract.File.Path
import StatContract.File.Tree
import StatContract.Json.Basic
import StatContract.Json.Number
import StatContract.Json.Printer
import StatContract.Json.Reader
import StatContract.Json.Token
import StatContract.Lowering.Clause
import StatContract.Lowering.Context
import StatContract.Lowering.Library
import StatContract.Lowering.Term
import StatContract.Main
import StatContract.Mismatch
import StatContract.Operator
import StatContract.Plan.Entry
import StatContract.Plan.Quantile
import StatContract.Plan.Samples
import StatContract.Proofs.Typing.Erasure
import StatContract.Proofs.Typing.Rules
import StatContract.Report
import StatContract.Span
import StatContract.Spec.Basic
import StatContract.Spec.Domain
import StatContract.Spec.Nodes
import StatContract.Spec.Printer
import StatContract.Spec.Reader
import StatContract.Spec.Schema
import StatContract.Spec.Writer
import StatContract.SpecError
import StatContract.Text.Blank
import StatContract.Text.CharTable
import StatContract.Text.Mark
import StatContract.Text.Padding
import StatContract.Text.Quoted
import StatContract.Text.Unassigned
import StatContract.Toml.Basic
import StatContract.Toml.Document
import StatContract.Toml.Lexeme
import StatContract.Typing.Analysis
import StatContract.Typing.Env
import StatContract.ValueType
import StatContract.Proofs.Typing.Analysis
import StatContract.Proofs.Lowering.Failure
import StatContract.Proofs.Checker.Prefilter
import StatContract.Proofs.Lowering.Emission
import StatContract.Proofs.Code.Execution
import StatContract.Proofs.Code.Value
import StatContract.Proofs.Spec.Names
import StatContract.Proofs.Spec.Trials
import StatContract.Proofs.Spec.Truth
import StatContract.Proofs.Lowering.Meaning
import StatContract.Proofs.Code.Access
import StatContract.Proofs.Lowering.Hygiene
import StatContract.Proofs.Lowering.Modes
import StatContract.Proofs.Checker.TrialBounds
import StatContract.Proofs.Code.Record
import StatContract.Proofs.Code.Lexeme
import StatContract.Proofs.Code.Arithmetic
import StatContract.Proofs.Cost.Rules
import StatContract.Proofs.Lowering.ForAll
import StatContract.Proofs.Cost.Expression
import StatContract.Proofs.Spec.Exposure
import StatContract.Proofs.Typing.Inspection
import StatContract.Proofs.Lowering.Watch
import StatContract.Proofs.Lowering.Scopes
import StatContract.Proofs.Json.Arrangement
import StatContract.Proofs.Spec.Style
import StatContract.Proofs.Spec.Members
import StatContract.Proofs.Spec.RoundTrip
import StatContract.Proofs.Code.Evaluation
import StatContract.Proofs.Lowering.Frame
import StatContract.Proofs.Lowering.Evidence
import StatContract.Proofs.Typing.Relevance
import StatContract.Proofs.Checker.TrialLoops
import StatContract.Proofs.Plan.Tests
import StatContract.Proofs.Checker.Shape
import StatContract.Proofs.Lowering.Acceptance
import StatContract.Proofs.Lowering.Restoration
import StatContract.Proofs.Typing.Progress
import StatContract.Proofs.Cost.Acceptance
import StatContract.Proofs.Typing.Sites
import StatContract.Proofs.Checker.Diagnosis
import StatContract.Proofs.Checker.Hidden
import StatContract.Proofs.Lowering.Samples
import StatContract.Proofs.Lowering.Rounds
import StatContract.Proofs.Cost.Language
import StatContract.Proofs.Cost.Parameters
import StatContract.Proofs.Code.Assignment
import StatContract.Proofs.Lowering.Grouping
import StatContract.Proofs.Lowering.Validity
import StatContract.Proofs.Checker.Wording
import StatContract.Proofs.Code.Outline
import StatContract.Proofs.Command.Output
import StatContract.Proofs.Spec.Readability
import StatContract.Proofs.Config.Discovery
