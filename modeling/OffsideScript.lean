import OffsideScript.Main
import OffsideScript.Tree.Display
import OffsideScript.Tree.Reference
import OffsideScript.Text.Expectation
import OffsideScript.Proofs.Outcome
import OffsideScript.Proofs.Machine.Blind
import OffsideScript.Proofs.Machine.Trace
import OffsideScript.Proofs.Machine.Mirror
import OffsideScript.Proofs.Machine.Elementary
import OffsideScript.Proofs.Machine.Control
import OffsideScript.Proofs.Scope.Table
import OffsideScript.Proofs.Grammar.NodeOrder
import OffsideScript.Proofs.Scope.Environment
import OffsideScript.Proofs.Scope.World
import OffsideScript.Proofs.Scope.Invariant
import OffsideScript.Proofs.Scope.Resolution
import OffsideScript.Proofs.Scope.Placement
import OffsideScript.Proofs.Grammar.Plan
import OffsideScript.Proofs.Grammar.Progress
import OffsideScript.Proofs.Grammar.Derivation
import OffsideScript.Proofs.Grammar.Soundness
import OffsideScript.Proofs.Grammar.Harvest
import OffsideScript.Proofs.Grammar.Lookahead
import OffsideScript.Proofs.Grammar.Completeness.Expression
import OffsideScript.Proofs.Grammar.Completeness.Statement
import OffsideScript.Proofs.Token.Spelling
import OffsideScript.Proofs.Token.Writing
import OffsideScript.Proofs.Token.Cutting
import OffsideScript.Proofs.Token.Passing
import OffsideScript.Proofs.Token.Seam
import OffsideScript.Proofs.Token.Lines
import OffsideScript.Proofs.Grammar.Relabel
import OffsideScript.Proofs.Machine.Transfer
import OffsideScript.Proofs.Scope.Extension
import OffsideScript.Proofs.Concatenation
import OffsideScript.Proofs.Session
import OffsideScript.Proofs.Grammar.RoundTrip
import OffsideScript.Proofs.Value.Key
import OffsideScript.Proofs.Value.OrderedMap
import OffsideScript.Proofs.Machine.Regime
import OffsideScript.Proofs.Heap.Reach
import OffsideScript.Proofs.Machine.Confinement
import OffsideScript.Proofs.Scope.Names
import OffsideScript.Proofs.Grammar.BlockEnds
import OffsideScript.Proofs.Token.Nesting
import OffsideScript.Proofs.Grammar.Walk
import OffsideScript.Proofs.Grammar.Containment
import OffsideScript.Proofs.Token.Content
import OffsideScript.Proofs.Token.Offside
import OffsideScript.Proofs.Token.Blocks
import OffsideScript.Proofs.Token.BlockLines
import OffsideScript.Proofs.Machine.Code
import OffsideScript.Proofs.Machine.Configuration
import OffsideScript.Proofs.Scope.Lexical
import OffsideScript.Proofs.Heap.Development
import OffsideScript.Proofs.Machine.Calls
import OffsideScript.Proofs.Machine.Termination
import OffsideScript.Proofs.Machine.Truncation
import OffsideScript.Proofs.Grammar.Bounds
import OffsideScript.Proofs.Heap.Unfolding
import OffsideScript.Proofs.Scope.Recording
import OffsideScript.Proofs.Scope.Assignment
import OffsideScript.Proofs.Token.Covering
import OffsideScript.Proofs.Grammar.Places
import OffsideScript.Proofs.Token.IdleLines
import OffsideScript.Proofs.Token.LineStyles
import OffsideScript.Proofs.Token.Endings
import OffsideScript.Proofs.Token.Reindenting
import OffsideScript.Proofs.Token.Separators
import OffsideScript.Proofs.Token.Joining
import OffsideScript.Proofs.Number.Pattern
import OffsideScript.Proofs.Value.Identity
import OffsideScript.Proofs.Number.Decimal
import OffsideScript.Proofs.Number.Rounding
import OffsideScript.Proofs.Number.Sign
import OffsideScript.Proofs.Tree.Shape
import OffsideScript.Proofs.Tree.Nodes
import OffsideScript.Proofs.Tree.Display
import OffsideScript.Proofs.Tree.Legible
import OffsideScript.Proofs.Tree.Unambiguous
import OffsideScript.Proofs.Tree.Parts
import OffsideScript.Proofs.Machine.Interpretation
import OffsideScript.Proofs.Machine.Analysis
