import Reckoner.Text.Character
import Reckoner.Text.DecimalDigit
import Reckoner.Text.Blank
import Reckoner.Double.Basic
import Reckoner.Decimal.Basic
import Reckoner.Decimal.Layout
import Reckoner.Decimal.Places
import Reckoner.Text.Quoted
import Reckoner.Text.Numeral
import Reckoner.Function.Basic
import Reckoner.Fault.Mishap
import Reckoner.Table
import Reckoner.Traced
import Reckoner.Expression.Canonical
import Reckoner.Expression.Check
import Reckoner.Operation.Fraction
import Reckoner.Function.Value
import Reckoner.Evaluation.Groups
import Reckoner.Json.Writer
import Reckoner.Json.Reader
import Reckoner.Session.Basic
import Reckoner.Settings.Shared
import Reckoner.Main
import Reckoner.Proofs.Evaluation.Precedence
import Reckoner.Proofs.Evaluation.Powers
import Reckoner.Proofs.Evaluation.CallOperand
import Reckoner.Proofs.Evaluation.Recursion
import Reckoner.Proofs.Evaluation.Progress
import Reckoner.Proofs.Evaluation.Alternating
import Reckoner.Proofs.Evaluation.Callable
import Reckoner.Proofs.Evaluation.Faults
import Reckoner.Proofs.Session.Execution
import Reckoner.Proofs.Evaluation.Agreement
import Reckoner.Proofs.Evaluation.Juxtaposed
import Reckoner.Proofs.Evaluation.LoneArgument
import Reckoner.Proofs.Expression.Language
import Reckoner.Proofs.Expression.Repeated
import Reckoner.Proofs.Settings.Mishaps
import Reckoner.Proofs.Evaluation.Loops
import Reckoner.Proofs.Session.History
import Reckoner.Proofs.Decimal.Written
import Reckoner.Proofs.Evaluation.Plain
import Reckoner.Proofs.Expression.Wrapped
import Reckoner.Proofs.Evaluation.Wrapped
import Reckoner.Proofs.Session.Wrapped
import Reckoner.Proofs.Session.Angles
import Reckoner.Proofs.Session.LastEvent
import Reckoner.Proofs.Settings.Contents
import Reckoner.Proofs.CommandLine.Saved
import Reckoner.Proofs.Settings.Shared
import Reckoner.Proofs.CommandLine.Dialogue
import Reckoner.Proofs.Session.NotANumber
import Reckoner.Proofs.Expression.Glyphs
import Reckoner.Proofs.Session.Scientific
import Reckoner.Proofs.Expression.Scientific
import Reckoner.Proofs.Evaluation.Reduced
import Reckoner.Proofs.Evaluation.FirstRank
import Reckoner.Proofs.Evaluation.Enclosing
import Reckoner.Proofs.Expression.RootGlyph
import Reckoner.Proofs.Session.RootGlyph
import Reckoner.Proofs.Expression.SignRuns
import Reckoner.Proofs.Expression.Products
import Reckoner.Proofs.Operation.Roots
import Reckoner.Proofs.Decimal.Whole
import Reckoner.Proofs.Operation.Fraction
import Reckoner.Proofs.Session.Fractions
import Reckoner.Proofs.Session.Spaces
import Reckoner.Proofs.Evaluation.Sites
import Reckoner.Proofs.Evaluation.Splices
import Reckoner.Proofs.Evaluation.Pairs
import Reckoner.Proofs.Evaluation.Marks
