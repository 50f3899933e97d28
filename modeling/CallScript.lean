import CallScript.CommandLine.Log
import CallScript.CommandLine.Options
import CallScript.CommandLine.Run
import CallScript.Decimal.Dyadic
import CallScript.Decimal.Nearest
import CallScript.Decimal.Notation
import CallScript.Decimal.Pattern
import CallScript.Decimal.Shortest
import CallScript.Eval.Basic
import CallScript.Eval.Form
import CallScript.Eval.Native
import CallScript.Expr.Equality
import CallScript.Expr.Print
import CallScript.Fault
import CallScript.Grammar.Parse
import CallScript.Grammar.Token
import CallScript.Main
import CallScript.Proofs.Grammar.Derivation
import CallScript.Proofs.Text.Run
import CallScript.Report.Diagnostic
import CallScript.Report.Raised
import CallScript.Report.Reporter
import CallScript.Session.Basic
import CallScript.Shell.Basic
import CallScript.Shell.Line
import CallScript.Store.Frame
import CallScript.Store.World
import CallScript.Term
import CallScript.Text.Blank
import CallScript.Text.Character
import CallScript.Text.Quoted
import CallScript.Text.Utf8
import CallScript.Value.Equality
import CallScript.Value.Text
import CallScript.Proofs.Grammar.Reading
import CallScript.Proofs.Grammar.Acceptance
import CallScript.Proofs.Decimal.Integral
import CallScript.Proofs.Expr.WellFormed
import CallScript.Proofs.Grammar.RoundTrip
import CallScript.Proofs.Eval.Outcome
import CallScript.Proofs.Eval.Rules
import CallScript.Proofs.Value.Depth
import CallScript.Proofs.Eval.Step
import CallScript.Proofs.Eval.Soundness
import CallScript.Proofs.Eval.Native
import CallScript.Proofs.Eval.Completeness
import CallScript.Proofs.Store.Maintains
import CallScript.Proofs.Store.Writes
import CallScript.Proofs.Eval.Isolation
import CallScript.Proofs.Session.Isolation
import CallScript.Proofs.Store.Within
import CallScript.Proofs.Store.Yields
import CallScript.Proofs.Eval.Within
import CallScript.Proofs.Session.Step
import CallScript.Proofs.Session.Errors
import CallScript.Proofs.Store.Parallel
import CallScript.Proofs.Expr.Reads
import CallScript.Proofs.Value.Alike
import CallScript.Proofs.Store.Beside
import CallScript.Proofs.Eval.Parallel
import CallScript.Proofs.Eval.Hidden
import CallScript.Proofs.Session.Repeat
import CallScript.Proofs.Eval.Record
import CallScript.Proofs.Shell.Balance
import CallScript.Proofs.Grammar.TrailingBlanks
import CallScript.Proofs.Report.Place
import CallScript.Proofs.Shell.Trimmed
import CallScript.Proofs.CommandLine.Options
import CallScript.Proofs.CommandLine.Log
import CallScript.Proofs.Session.FirstRun
import CallScript.Proofs.Session.Guarded
import CallScript.Proofs.CommandLine.Hosts
import CallScript.Proofs.Grammar.Placement
import CallScript.Proofs.Shell.Continuation
import CallScript.Proofs.Report.Traces
import CallScript.Proofs.Shell.AtRest
import CallScript.Proofs.Shell.Entry
import CallScript.Proofs.Session.Batch
import CallScript.Proofs.Session.Accounting
import CallScript.Proofs.Grammar.Joined
import CallScript.Proofs.Eval.ButLog
import CallScript.Proofs.Session.Progress
import CallScript.Proofs.Session.Split
import CallScript.Proofs.Eval.Deeper
import CallScript.Proofs.Value.Equivalence
import CallScript.Proofs.Grammar.Refusal
import CallScript.Proofs.Grammar.Viable
import CallScript.Proofs.Grammar.ClosedUp
import CallScript.Proofs.Shell.Lines
import CallScript.Proofs.Decimal.Reading
import CallScript.Proofs.Decimal.Interval
import CallScript.Proofs.Decimal.Numeral
import CallScript.Proofs.Value.NumberText
import CallScript.Proofs.Value.Shown
import CallScript.Proofs.Store.Invariant
import CallScript.Proofs.Eval.Invariant
import CallScript.Proofs.Session.Invariant
import CallScript.Proofs.Eval.Strings
import CallScript.Proofs.Session.Strings
import CallScript.Proofs.Report.Excerpt
import CallScript.Proofs.Shell.Console
import CallScript.Proofs.Shell.Located
import CallScript.Proofs.Store.Chain
import CallScript.Proofs.Store.Scoping
import CallScript.Proofs.Store.Objects
import CallScript.Proofs.Value.ByType
import CallScript.Proofs.Session.Equality
import CallScript.Proofs.Session.Deeper
import CallScript.Proofs.Eval.Operands
import CallScript.Proofs.Eval.Loopless
import CallScript.Proofs.Report.History
import CallScript.Proofs.Grammar.BetweenTokens
import CallScript.Proofs.Grammar.Progress
import CallScript.Proofs.Session.Quotations
import CallScript.Proofs.Shell.Continued
import CallScript.Proofs.Expr.Walk
import CallScript.Proofs.Expr.Outline
