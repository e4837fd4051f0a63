import RangeTyping.Analysis.Basic
import RangeTyping.Analysis.Body
import RangeTyping.Analysis.Conversion
import RangeTyping.Analysis.Functions
import RangeTyping.Analysis.Overload
import RangeTyping.Analysis.Structs
import RangeTyping.Builtins
import RangeTyping.Cast.Basic
import RangeTyping.Cast.Graph
import RangeTyping.Cast.Resolve
import RangeTyping.Cast.Search
import RangeTyping.Diagnostic
import RangeTyping.Failure
import RangeTyping.Location
import RangeTyping.Operator
import RangeTyping.Options
import RangeTyping.Range.Arithmetic
import RangeTyping.Range.Basic
import RangeTyping.Range.Checked
import RangeTyping.Range.Comparison
import RangeTyping.Range.Conversion
import RangeTyping.Scalar
import RangeTyping.Scope.Basic
import RangeTyping.Scope.Context
import RangeTyping.Scope.Forest
import RangeTyping.Session
import RangeTyping.Source.Builder
import RangeTyping.Source.Number
import RangeTyping.Source.Outline
import RangeTyping.Source.Tree
import RangeTyping.Text.Hidden
import RangeTyping.Text.Quoted
import RangeTyping.Ty.Basic
import RangeTyping.Ty.Equality
import RangeTyping.Ty.Inspect
import RangeTyping.Ty.Layout
import RangeTyping.Ty.Store
import RangeTyping.Ty.Symbol
import RangeTyping.Typed.Basic
import RangeTyping.Typed.Event
import RangeTyping.Typed.Numbering
import RangeTyping.Proofs.Outcome
import RangeTyping.Proofs.Range.Bounds
import RangeTyping.Proofs.Evaluation.Number
import RangeTyping.Proofs.Range.Soundness
import RangeTyping.Proofs.Builtins
import RangeTyping.Proofs.Setting
import RangeTyping.Proofs.Equality
import RangeTyping.Proofs.Cast.Trace
import RangeTyping.Proofs.Cast.Chain
import RangeTyping.Proofs.Cast.Context
import RangeTyping.Proofs.Cast.Value
import RangeTyping.Proofs.Tree.Rules
import RangeTyping.Proofs.Analysis.Surroundings
import RangeTyping.Proofs.Analysis.Conversion
import RangeTyping.Proofs.Analysis.Overload
import RangeTyping.Proofs.Analysis.Forms
import RangeTyping.Proofs.Analysis.Body
import RangeTyping.Proofs.Analysis.Registration
import RangeTyping.Proofs.Analysis.Module
import RangeTyping.Proofs.Typing
import RangeTyping.Proofs.Stream.Control
import RangeTyping.Proofs.Stream.WellFormed
import RangeTyping.Proofs.Evaluation.Tree
import RangeTyping.Proofs.Evaluation.Invariant
import RangeTyping.Proofs.Evaluation.Soundness
import RangeTyping.Proofs.Replay.Machine
import RangeTyping.Proofs.Replay.Simulation
import RangeTyping.Proofs.Ranges
import RangeTyping.Proofs.Analysis.Names
import RangeTyping.Proofs.Symbols
import RangeTyping.Proofs.Intact.Basic
import RangeTyping.Proofs.Intact.Range
import RangeTyping.Proofs.Intact.Search
import RangeTyping.Proofs.Cast.Table
import RangeTyping.Proofs.Intact.Body
import RangeTyping.Proofs.Intact.Module
import RangeTyping.Proofs.Analysis.Unambiguous
import RangeTyping.Proofs.Budget.Metered
import RangeTyping.Proofs.Renaming.Basic
import RangeTyping.Proofs.Renaming.Runs
import RangeTyping.Proofs.Renaming.Cast
import RangeTyping.Proofs.Renaming.Conversion
import RangeTyping.Proofs.Renaming.Overload
import RangeTyping.Proofs.Renaming.Body
import RangeTyping.Proofs.Renaming.Functions
import RangeTyping.Proofs.Order.Structs
import RangeTyping.Proofs.Order.Registration
import RangeTyping.Proofs.Order.Module
import RangeTyping.Proofs.Budget.Monotone
import RangeTyping.Proofs.Renaming.Events
import RangeTyping.Proofs.Isolation.Types
import RangeTyping.Proofs.Isolation.Structs
import RangeTyping.Proofs.Isolation.Overload
import RangeTyping.Proofs.Isolation.Body
import RangeTyping.Proofs.Isolation.Functions
import RangeTyping.Proofs.Isolation.Root
import RangeTyping.Proofs.Isolation.Session
import RangeTyping.Proofs.Budget.Choice
import RangeTyping.Proofs.Cast.Class
import RangeTyping.Proofs.Cast.Arrangement
import RangeTyping.Proofs.Analysis.Functions
import RangeTyping.Proofs.Budget.Elaboration
import RangeTyping.Proofs.Stream.Stores
import RangeTyping.Proofs.Recovery.Functions
import RangeTyping.Proofs.Recovery.Module
import RangeTyping.Proofs.Range.Precision
import RangeTyping.Proofs.Range.Products
import RangeTyping.Proofs.Scope.Nesting
import RangeTyping.Proofs.Scope.Sharing
import RangeTyping.Proofs.Cast.Walk
import RangeTyping.Proofs.Cast.WalkCount
import RangeTyping.Proofs.Cast.Reference
import RangeTyping.Proofs.Range.Conversion
import RangeTyping.Proofs.Structs.Layout
import RangeTyping.Proofs.Structs.Definition
import RangeTyping.Proofs.Structs.Overflow
import RangeTyping.Proofs.Intact.Session
import RangeTyping.Proofs.Cast.Routes
import RangeTyping.Proofs.Range.Comparison
import RangeTyping.Proofs.Cast.Bits
import RangeTyping.Proofs.Cast.Reachability
import RangeTyping.Proofs.Symbols.Writing
import RangeTyping.Proofs.Symbols.Reading
import RangeTyping.Proofs.Symbols.Canonical
