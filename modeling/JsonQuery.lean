import JsonQuery.Session
import JsonQuery.Function.Sample
import JsonQuery.Journal.Recorder
import JsonQuery.Definitions.Run
import JsonQuery.Proofs.Expr.Printer
import JsonQuery.Proofs.Eval.Agreement
import JsonQuery.Proofs.Eval.DepthLimit
import JsonQuery.Proofs.Expr.Embedding
import JsonQuery.Proofs.Eval.Failures
import JsonQuery.Proofs.Eval.Containment
import JsonQuery.Proofs.Token.Append
import JsonQuery.Proofs.Eval.Moved
import JsonQuery.Proofs.Expr.Length
import JsonQuery.Proofs.Eval.Pipes
import JsonQuery.Proofs.Expr.Finality
import JsonQuery.Proofs.Expr.Layout
import JsonQuery.Proofs.Expr.Cutoff
import JsonQuery.Proofs.Eval.Cutoff
import JsonQuery.Proofs.Eval.Tables
import JsonQuery.Proofs.Definitions.Stored
import JsonQuery.Proofs.Session.Scans
import JsonQuery.Proofs.Expr.Alternatives
import JsonQuery.Proofs.Settings.Loading
import JsonQuery.Proofs.Journal.Nesting
import JsonQuery.Proofs.Eval.Sorting
import JsonQuery.Proofs.Eval.Comparisons
import JsonQuery.Proofs.Eval.Numerals
import JsonQuery.Proofs.Eval.Slices
import JsonQuery.Proofs.Eval.Sliced
import JsonQuery.Proofs.Token.Quotations
import JsonQuery.Proofs.Expr.Walk
import JsonQuery.Proofs.Expr.Operands
import JsonQuery.Proofs.Number.Magnitude
import JsonQuery.Proofs.Json.Numbers
import JsonQuery.Proofs.Expr.Literals
import JsonQuery.Proofs.Eval.ItemByItem
import JsonQuery.Proofs.Eval.AbsentChildren
import JsonQuery.Proofs.Function.Signatures
import JsonQuery.Proofs.Eval.Merging
import JsonQuery.Proofs.Eval.Shapes
import JsonQuery.Proofs.Text.Lines
import JsonQuery.Proofs.Definitions.Locations
import JsonQuery.Proofs.Expr.OnePass
import JsonQuery.Proofs.Expr.Restore
