import BlockForge.Decimal.Layout
import BlockForge.Decimal.Shortest
import BlockForge.Diagnostic.Basic
import BlockForge.Diagnostic.Code
import BlockForge.Diagnostic.Queue
import BlockForge.Ir.Builder
import BlockForge.Ir.Graph
import BlockForge.Ir.Id
import BlockForge.Ir.Inst
import BlockForge.Ir.Layout
import BlockForge.Ir.Module
import BlockForge.Ir.Printer
import BlockForge.Ir.Ty
import BlockForge.Ir.Verify
import BlockForge.Lowering.Allocator
import BlockForge.Lowering.Calls
import BlockForge.Lowering.Config
import BlockForge.Lowering.Expr
import BlockForge.Lowering.Fold
import BlockForge.Lowering.Operators
import BlockForge.Lowering.Problem
import BlockForge.Lowering.Program
import BlockForge.Lowering.Reach
import BlockForge.Lowering.Records
import BlockForge.Lowering.Repr
import BlockForge.Lowering.Scope
import BlockForge.Lowering.Sequence
import BlockForge.Lowering.State
import BlockForge.Lowering.Stmt
import BlockForge.Lowering.Tables
import BlockForge.Lowering.Vector
import BlockForge.Lowering.VectorCode
import BlockForge.Machine.Arith
import BlockForge.Machine.Fault
import BlockForge.Machine.Host
import BlockForge.Machine.Memory
import BlockForge.Machine.Session
import BlockForge.Machine.State
import BlockForge.Machine.Step
import BlockForge.Machine.Value
import BlockForge.Numeric.Binary64
import BlockForge.Numeric.Power
import BlockForge.Numeric.Wide
import BlockForge.Numeric.Word
import BlockForge.Source.Builder
import BlockForge.Source.Name
import BlockForge.Source.Node
import BlockForge.Source.Operator
import BlockForge.Source.Span
import BlockForge.Source.Tree
import BlockForge.Source.TypeExpr
import BlockForge.Text.Blank
import BlockForge.Text.Utf8
import BlockForge.Types.Basic
import BlockForge.Types.Conversion
import BlockForge.Types.Flags
import BlockForge.Types.Layout
import BlockForge.Types.Literal
import BlockForge.Proofs.Ir.Code
import BlockForge.Proofs.Ir.Typing
import BlockForge.Proofs.Ir.Building
import BlockForge.Proofs.Ir.Emission
import BlockForge.Proofs.Ir.Flow
import BlockForge.Proofs.Lowering.Sequence
import BlockForge.Proofs.Lowering.VectorCode
import BlockForge.Proofs.Lowering.State
import BlockForge.Proofs.Lowering.Operators
import BlockForge.Proofs.Lowering.Expressions
import BlockForge.Proofs.Lowering.Statements
import BlockForge.Proofs.Ir.Verified
import BlockForge.Proofs.Lowering.Tables
import BlockForge.Proofs.Lowering.Program
import BlockForge.Proofs.Machine.Steps
import BlockForge.Proofs.Ir.Shape
import BlockForge.Proofs.Lowering.Shape
import BlockForge.Proofs.Lowering.Judgement
import BlockForge.Proofs.Lowering.Completion
import BlockForge.Proofs.Lowering.Walk
import BlockForge.Proofs.Lowering.Paths
import BlockForge.Proofs.Lowering.Branches
import BlockForge.Proofs.Lowering.Loops
import BlockForge.Proofs.Lowering.Bodies
import BlockForge.Proofs.Lowering.Definitions
import BlockForge.Proofs.Lowering.Coverage
import BlockForge.Proofs.Lowering.Accepted
import BlockForge.Proofs.Machine.Frames
import BlockForge.Proofs.Lowering.Names
import BlockForge.Proofs.Lowering.EntryPoint
import BlockForge.Proofs.Lowering.Sealed
import BlockForge.Proofs.Machine.Structure
import BlockForge.Proofs.Lowering.Lookups
import BlockForge.Proofs.Lowering.Undefined
import BlockForge.Proofs.Lowering.Symbols
import BlockForge.Proofs.Machine.Addresses
import BlockForge.Proofs.Machine.Cleanup
import BlockForge.Proofs.Machine.Fuel
import BlockForge.Proofs.Machine.Entry
import BlockForge.Proofs.Reference.Integers
import BlockForge.Proofs.Simulation.Folding
import BlockForge.Proofs.Ir.Twins
import BlockForge.Proofs.Lowering.Independence
import BlockForge.Proofs.Reference.Literals
import BlockForge.Proofs.Simulation.Exactness
import BlockForge.Proofs.Machine.Ending
import BlockForge.Proofs.Machine.Slots
import BlockForge.Proofs.Machine.Branching
import BlockForge.Proofs.Simulation.Computing
import BlockForge.Proofs.Simulation.Division
import BlockForge.Proofs.Reference.Widths
import BlockForge.Proofs.Simulation.Casts
import BlockForge.Proofs.Simulation.Bounds
import BlockForge.Proofs.Lowering.Declarations
import BlockForge.Proofs.Lowering.Dispatch
import BlockForge.Proofs.Lowering.Wrapper
import BlockForge.Proofs.Lowering.Capacity
import BlockForge.Proofs.Ir.Layout
import BlockForge.Proofs.Ir.Search
import BlockForge.Proofs.Ir.Operations
import BlockForge.Proofs.Ir.Frozen
import BlockForge.Proofs.Lowering.Cache
import BlockForge.Proofs.Machine.Contents
import BlockForge.Proofs.Machine.History
import BlockForge.Proofs.Ir.Tandem
import BlockForge.Proofs.Lowering.Tandem.Expressions
import BlockForge.Proofs.Lowering.Tandem.Statements
import BlockForge.Proofs.Lowering.Allocators
import BlockForge.Proofs.Ir.Printed
import BlockForge.Proofs.Ir.Tidy
import BlockForge.Proofs.Lowering.Unambiguous
import BlockForge.Proofs.Lowering.Renumbering.Program
import BlockForge.Proofs.Diagnostic.Queue
import BlockForge.Proofs.Source.TypeText
import BlockForge.Proofs.Lowering.TypeNames
import BlockForge.Proofs.Ir.Confined
import BlockForge.Proofs.Lowering.Confined
import BlockForge.Proofs.Lowering.Concord
import BlockForge.Proofs.Lowering.Uniform
import BlockForge.Proofs.Lowering.SingleExit
import BlockForge.Proofs.Lowering.Symmetry
import BlockForge.Proofs.Source.Interning
import BlockForge.Proofs.Source.Unfolding
import BlockForge.Proofs.Lowering.Discreet.Program
import BlockForge.Proofs.Machine.Cells
import BlockForge.Proofs.Machine.Detours
import BlockForge.Proofs.Reference.Evaluation
import BlockForge.Proofs.Simulation.Binary
import BlockForge.Proofs.Simulation.Calls
import BlockForge.Proofs.Simulation.Creation
import BlockForge.Proofs.Simulation.Expressions
