import FrontEnd.Compilation
import FrontEnd.Diagnostic.Render
import FrontEnd.Grammar.Overflow
import FrontEnd.Source.Reader
import FrontEnd.Source.Slice
import FrontEnd.Proofs.Action
import FrontEnd.Proofs.Program.Place
import FrontEnd.Proofs.Scope.Exact
import FrontEnd.Proofs.Symbol.Growth
import FrontEnd.Proofs.Symbol.Registered
import FrontEnd.Proofs.Program.TypeName
import FrontEnd.Proofs.Symbol.Reading
import FrontEnd.Proofs.Symbol.Resolving
import FrontEnd.Proofs.Symbol.Scoping
import FrontEnd.Proofs.Grammar.Numbering
import FrontEnd.Proofs.Grammar.NumberedExpr
import FrontEnd.Proofs.Grammar.NumberedFile
import FrontEnd.Proofs.References
import FrontEnd.Proofs.Program.Lexemes
import FrontEnd.Proofs.Program.Printable
import FrontEnd.Proofs.Grammar.ArgumentList
import FrontEnd.Proofs.Grammar.Judging
import FrontEnd.Proofs.Grammar.Taking
import FrontEnd.Proofs.Grammar.Agreement
import FrontEnd.Proofs.Grammar.Carrying
import FrontEnd.Proofs.Symbol.PathMap
import FrontEnd.Proofs.Grammar.CarryingFile
import FrontEnd.Proofs.Symbol.Reordering
import FrontEnd.Proofs.Program.Relabelled
import FrontEnd.Proofs.Scope.Invariance
import FrontEnd.Proofs.Symbol.Invariance
import FrontEnd.Proofs.UnitOrder
import FrontEnd.Proofs.Grammar.Progress
import FrontEnd.Proofs.Grammar.ProgressFile
import FrontEnd.Proofs.Token.Scanned
import FrontEnd.Proofs.Grammar.Ensuring
import FrontEnd.Proofs.Grammar.EnsuringFile
import FrontEnd.Proofs.Grammar.Yielding
import FrontEnd.Proofs.Grammar.YieldingName
import FrontEnd.Proofs.Grammar.YieldingExpr
import FrontEnd.Proofs.Grammar.YieldingStmt
import FrontEnd.Proofs.Grammar.YieldingFile
import FrontEnd.Proofs.Program.Plain
import FrontEnd.Proofs.Printing
import FrontEnd.Proofs.Token.Coverage
import FrontEnd.Proofs.Grammar.Placing
import FrontEnd.Proofs.Symbol.Relabelled
import FrontEnd.Proofs.Scope.Relabelled
import FrontEnd.Proofs.Symbol.Repositioned
import FrontEnd.Proofs.Layout
import FrontEnd.Proofs.Symbol.Held
import FrontEnd.Proofs.Declarations
import FrontEnd.Proofs.TypeReferences
import FrontEnd.Proofs.Symbol.Idempotence
import FrontEnd.Proofs.Uses
import FrontEnd.Proofs.Program.Occurrence
import FrontEnd.Proofs.Grammar.Giving
import FrontEnd.Proofs.SharedNumbers
import FrontEnd.Proofs.Grammar.Echoing
import FrontEnd.Proofs.Grammar.EchoingExpr
import FrontEnd.Proofs.ListElements
import FrontEnd.Proofs.Token.Joined
import FrontEnd.Proofs.FaultPositions
import FrontEnd.Proofs.Symbol.Apart
import FrontEnd.Proofs.FurtherUnit
import FrontEnd.Proofs.Grammar.Indexing
import FrontEnd.Proofs.Grammar.Rooting
import FrontEnd.Proofs.Grammar.RootingFile
import FrontEnd.Proofs.Token.Slicing
import FrontEnd.Proofs.Guarded
import FrontEnd.Proofs.Symbol.Arena
import FrontEnd.Proofs.Symbol.Enrolling
import FrontEnd.Proofs.Symbol.Following
import FrontEnd.Proofs.Scope.Guarding
import FrontEnd.Proofs.NothingMissed
import FrontEnd.Proofs.Grammar.Recognition
import FrontEnd.Proofs.Token.Leftmost
import FrontEnd.Proofs.Symbol.BuiltTree
import FrontEnd.Proofs.Grammar.Climbing
import FrontEnd.Proofs.Token.Rereading
import FrontEnd.Proofs.Token.Longest
import FrontEnd.Proofs.CompoundAssignment
import FrontEnd.Proofs.Program.Declared
import FrontEnd.Proofs.Symbol.ClaimedPaths
import FrontEnd.Proofs.Symbol.Compatibility
import FrontEnd.Proofs.FirstNumber
import FrontEnd.Proofs.Scope.Faults
import FrontEnd.Proofs.Grammar.Marking
import FrontEnd.Proofs.Scope.FirstFault
import FrontEnd.Proofs.Grammar.Confining
import FrontEnd.Proofs.Grammar.ConfiningFile
import FrontEnd.Proofs.Grammar.Spanning
import FrontEnd.Proofs.Token.Stretch
import FrontEnd.Proofs.Grammar.Alone
import FrontEnd.Proofs.FaithfulSpans
import FrontEnd.Proofs.WellFormed
import FrontEnd.Proofs.Grammar.Consuming
import FrontEnd.Proofs.Grammar.Spelling
import FrontEnd.Proofs.TypeArguments
import FrontEnd.Proofs.Program.Data
import FrontEnd.Proofs.Grammar.Keeping
import FrontEnd.Proofs.Grammar.KeepingExpr
import FrontEnd.Proofs.Grammar.KeepingFile
import FrontEnd.Proofs.NothingDropped
import FrontEnd.Proofs.Program.DataWithin
import FrontEnd.Proofs.Token.Writing
import FrontEnd.Proofs.WrittenNames
import FrontEnd.Proofs.Grammar.Tracing
import FrontEnd.Proofs.Grammar.TracingFile
import FrontEnd.Proofs.Grammar.Wrapping
import FrontEnd.Proofs.Methods
import FrontEnd.Proofs.NumberLiterals
import FrontEnd.Proofs.WrittenIntegers
import FrontEnd.Proofs.VariableDeclarations
import FrontEnd.Proofs.LineOfOffset
import FrontEnd.Proofs.GrammarFaults
import FrontEnd.Proofs.CaretColumn
import FrontEnd.Proofs.ExpressionSpans
import FrontEnd.Proofs.Scope.Restored
import FrontEnd.Proofs.MovedReader
