import DeadCast.About
import DeadCast.Audit.Basic
import DeadCast.CommandLine.Basic
import DeadCast.CommandLine.Parse
import DeadCast.CommandLine.Program
import DeadCast.Datum.Basic
import DeadCast.Datum.Order
import DeadCast.Datum.Ranges
import DeadCast.Datum.Use
import DeadCast.Dump.Basic
import DeadCast.Dump.CastSite
import DeadCast.Dump.EnumBody
import DeadCast.Dump.Known
import DeadCast.Dump.Literal
import DeadCast.Dump.Ranges
import DeadCast.Enumeration.Basic
import DeadCast.Enumeration.Catalogue
import DeadCast.Fault
import DeadCast.Finding.Basic
import DeadCast.Finding.Ledger
import DeadCast.Finding.Line
import DeadCast.Interval.Basic
import DeadCast.IntervalSet.Basic
import DeadCast.IntervalSet.Coalesce
import DeadCast.IntervalSet.Exclude
import DeadCast.Log
import DeadCast.Main
import DeadCast.Number.Ascending
import DeadCast.Number.Binary64
import DeadCast.Number.Decimal
import DeadCast.Number.Fixed
import DeadCast.Number.Reading
import DeadCast.Number.Rounding
import DeadCast.Number.Shortest
import DeadCast.Options
import DeadCast.Proofs.Audit.Accounting
import DeadCast.Proofs.Audit.Course
import DeadCast.Proofs.Audit.History
import DeadCast.Proofs.Audit.Visit
import DeadCast.Proofs.Audit.Warning
import DeadCast.Proofs.Datum.Equality
import DeadCast.Proofs.Datum.Order
import DeadCast.Proofs.Dump.BodyWalk
import DeadCast.Proofs.Dump.CastSite
import DeadCast.Proofs.Dump.EnumBody
import DeadCast.Proofs.Dump.FactOrder
import DeadCast.Proofs.Dump.ForwardBody
import DeadCast.Proofs.Dump.Known
import DeadCast.Proofs.Dump.Literal
import DeadCast.Proofs.Dump.OperandRange
import DeadCast.Proofs.Dump.PathCover
import DeadCast.Proofs.Dump.RangeExactness
import DeadCast.Proofs.Dump.UnreadableFacts
import DeadCast.Proofs.Enumeration.Catalogue
import DeadCast.Proofs.Enumeration.Usage
import DeadCast.Proofs.Finding.Ledger
import DeadCast.Proofs.Finding.Line
import DeadCast.Proofs.Finding.Repetition
import DeadCast.Proofs.Interval.Membership
import DeadCast.Proofs.IntervalSet.Canonical
import DeadCast.Proofs.IntervalSet.Coalesce
import DeadCast.Proofs.IntervalSet.Composition
import DeadCast.Proofs.IntervalSet.Difference
import DeadCast.Proofs.IntervalSet.Exclude
import DeadCast.Proofs.IntervalSet.Representation
import DeadCast.Proofs.Number.Ascending
import DeadCast.Proofs.Number.Decimal
import DeadCast.Proofs.Run.Addon
import DeadCast.Proofs.Run.Completion
import DeadCast.Proofs.Run.Exactness
import DeadCast.Proofs.Run.Isolation
import DeadCast.Proofs.Run.Lifecycle
import DeadCast.Proofs.Run.Mirror
import DeadCast.Proofs.Run.Printing
import DeadCast.Proofs.Run.Session
import DeadCast.Proofs.Solver.Exactness
import DeadCast.Proofs.Solver.Hull
import DeadCast.Proofs.Solver.Optimum
import DeadCast.Proofs.Solver.Words
import DeadCast.Proofs.Text.JsonReader
import DeadCast.Proofs.Text.JsonRoundTrip
import DeadCast.Proofs.Text.Numeral
import DeadCast.Proofs.Traversal
import DeadCast.Proofs.Verdict
import DeadCast.Run.Addon
import DeadCast.Run.Report
import DeadCast.Run.Session
import DeadCast.Severity
import DeadCast.Solver.Elementary
import DeadCast.Solver.Formula
import DeadCast.Solver.Objective
import DeadCast.Solver.Query
import DeadCast.Text.Digit
import DeadCast.Text.Json
import DeadCast.Text.Numeral
import DeadCast.Text.Quoted
import DeadCast.Text.Visible
import DeadCast.Verdict
