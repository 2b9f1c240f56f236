import TypedFlow.Ty.Equality
import TypedFlow.Ty.Difference
import TypedFlow.Expr.Text
import TypedFlow.Schedule.Cycle
import TypedFlow.Main
import TypedFlow.Proofs.Effects
import TypedFlow.Proofs.Schedule.Adjacency
import TypedFlow.Proofs.Schedule.Index
import TypedFlow.Proofs.Schedule.Reachable
import TypedFlow.Proofs.Schedule.PostOrder
import TypedFlow.Proofs.Schedule.Paths
import TypedFlow.Proofs.Schedule.Cycle
import TypedFlow.Proofs.Pipeline.Structure
import TypedFlow.Proofs.Pipeline.Typing
import TypedFlow.Proofs.Pipeline.Change
import TypedFlow.Proofs.Pipeline.Query
import TypedFlow.Proofs.Pipeline.Fitting
import TypedFlow.Proofs.Pipeline.Trial
import TypedFlow.Proofs.Pipeline.Admission
import TypedFlow.Proofs.Pipeline.Session
import TypedFlow.Proofs.Pipeline.Runs
import TypedFlow.Proofs.Number.Nearest
import TypedFlow.Proofs.Interval.Members
import TypedFlow.Proofs.Interval.Integers
import TypedFlow.Proofs.Interval.Operations
import TypedFlow.Proofs.Interval.Sorting
import TypedFlow.Proofs.NumericSet.Members
import TypedFlow.Proofs.NumericSet.Operations
import TypedFlow.Proofs.NumericSet.Emptiness
import TypedFlow.Proofs.NumericSet.Canonical
import TypedFlow.Proofs.NumericSet.Containment
import TypedFlow.Proofs.Dictionary
import TypedFlow.Proofs.Ty.Members
import TypedFlow.Proofs.Ty.Probe
import TypedFlow.Proofs.Ty.Subtype
import TypedFlow.Proofs.Ty.Union
import TypedFlow.Proofs.Ty.Intersection
import TypedFlow.Proofs.Ty.Minimal
import TypedFlow.Proofs.Ty.Layers
import TypedFlow.Proofs.Ty.Algebra
import TypedFlow.Proofs.Ty.Reduced
import TypedFlow.Proofs.Ty.Exactness
import TypedFlow.Proofs.Ty.Lattice
import TypedFlow.Proofs.Ty.Tidy
import TypedFlow.Proofs.Ty.Equality
import TypedFlow.Proofs.Ty.Gathering
import TypedFlow.Proofs.Ty.Difference
import TypedFlow.Proofs.Ty.Disjointness
import TypedFlow.Proofs.Ty.Overlap
import TypedFlow.Proofs.Ty.Narrowing
import TypedFlow.Proofs.Pipeline.Revalidation
import TypedFlow.Proofs.Pipeline.Plans
import TypedFlow.Proofs.Pipeline.Outcomes
import TypedFlow.Proofs.Pipeline.Accounting
import TypedFlow.Proofs.Source.Reader
import TypedFlow.Proofs.Expr.WellFormed
import TypedFlow.Proofs.Declaration.WellFormed
import TypedFlow.Proofs.Scope.Lookup
import TypedFlow.Proofs.Scope.Trails
import TypedFlow.Proofs.Evaluation.Judgements
import TypedFlow.Proofs.Evaluation.References
import TypedFlow.Proofs.Evaluation.Limits
import TypedFlow.Proofs.Scope.Build
import TypedFlow.Proofs.Scope.Recursion
import TypedFlow.Proofs.Evaluation.Results
import TypedFlow.Proofs.Scope.Disjointness
import TypedFlow.Proofs.Pipeline.References
import TypedFlow.Proofs.Pipeline.Narrowing
import TypedFlow.Proofs.Source.Scanning
import TypedFlow.Proofs.Source.Numerals
import TypedFlow.Proofs.Expr.Tokens
import TypedFlow.Proofs.Source.Giving
import TypedFlow.Proofs.Source.Levels
import TypedFlow.Proofs.Source.Taking
import TypedFlow.Proofs.Expr.Legible
import TypedFlow.Proofs.Expr.RoundTrip
import TypedFlow.Proofs.Expr.Grammar
import TypedFlow.Proofs.Expr.Completeness
import TypedFlow.Proofs.Expr.Levels
import TypedFlow.Proofs.Expr.Soundness
import TypedFlow.Proofs.Expr.Acceptance
import TypedFlow.Proofs.Number.Exact
import TypedFlow.Proofs.Declaration.Height
import TypedFlow.Proofs.Interval.Arithmetic
import TypedFlow.Proofs.NumericSet.Arithmetic
import TypedFlow.Proofs.NumericSet.Exactness
import TypedFlow.Proofs.Evaluation.Agreement
import TypedFlow.Proofs.Evaluation.Runs
import TypedFlow.Proofs.Scope.Layering
import TypedFlow.Proofs.Evaluation.Builtins
import TypedFlow.Proofs.Source.Layout
import TypedFlow.Proofs.Source.Extending
import TypedFlow.Proofs.Expr.Extending
import TypedFlow.Proofs.Source.Joining
import TypedFlow.Proofs.Declaration.Composition
import TypedFlow.Proofs.Scope.Sources
import TypedFlow.Proofs.NumericSet.Tightness
import TypedFlow.Proofs.Expr.Numeric
import TypedFlow.Proofs.Scope.Prelude
import TypedFlow.Proofs.Ty.Numbers
import TypedFlow.Proofs.Evaluation.Numeric
