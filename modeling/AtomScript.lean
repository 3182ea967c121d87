import AtomScript.Error
import AtomScript.Eval.Basic
import AtomScript.Eval.Monad
import AtomScript.Eval.Operator
import AtomScript.Heap.Basic
import AtomScript.Heap.Detach
import AtomScript.Heap.Equality
import AtomScript.Heap.Inspect
import AtomScript.Heap.Order
import AtomScript.Heap.Table
import AtomScript.Library.Arguments
import AtomScript.Library.Dictionary
import AtomScript.Library.Dispatch
import AtomScript.Library.Native
import AtomScript.Library.Plain
import AtomScript.Library.Sequence
import AtomScript.Library.Traversal
import AtomScript.Main
import AtomScript.Number.Basic
import AtomScript.Number.Printer
import AtomScript.Number.Reader
import AtomScript.Number.Shortest
import AtomScript.Program.Basic
import AtomScript.Program.Parser
import AtomScript.Program.Printer
import AtomScript.Program.Template
import AtomScript.Proofs.Eval.Evaluator
import AtomScript.Proofs.Eval.Family
import AtomScript.Proofs.Eval.Footprint
import AtomScript.Proofs.Eval.Interpolation
import AtomScript.Proofs.Eval.Logic
import AtomScript.Proofs.Eval.Names
import AtomScript.Proofs.Eval.Native
import AtomScript.Proofs.Eval.Overflow
import AtomScript.Proofs.Eval.Realm
import AtomScript.Proofs.Eval.Regime
import AtomScript.Proofs.Eval.Run
import AtomScript.Proofs.Heap.Cells
import AtomScript.Proofs.Heap.Copying
import AtomScript.Proofs.Heap.Detached
import AtomScript.Proofs.Heap.Equality
import AtomScript.Proofs.Heap.Filed
import AtomScript.Proofs.Heap.Lookup
import AtomScript.Proofs.Heap.Order
import AtomScript.Proofs.Heap.Reach
import AtomScript.Proofs.Heap.Rendering
import AtomScript.Proofs.Heap.Sealed
import AtomScript.Proofs.Heap.Shift
import AtomScript.Proofs.Heap.Twin
import AtomScript.Proofs.Heap.Unfolding
import AtomScript.Proofs.Library.Dictionary
import AtomScript.Proofs.Library.Listing
import AtomScript.Proofs.Library.Sequence
import AtomScript.Proofs.Library.Sorting
import AtomScript.Proofs.Library.Splitting
import AtomScript.Proofs.Library.Traversal
import AtomScript.Proofs.Mirror.Basic
import AtomScript.Proofs.Mirror.Evaluator
import AtomScript.Proofs.Mirror.Native
import AtomScript.Proofs.Program.Grammar
import AtomScript.Proofs.Program.HostStack
import AtomScript.Proofs.Program.Indifference
import AtomScript.Proofs.Program.Joined
import AtomScript.Proofs.Program.Literal
import AtomScript.Proofs.Program.Markers
import AtomScript.Proofs.Program.Precedence
import AtomScript.Proofs.Program.Progress
import AtomScript.Proofs.Program.Reading
import AtomScript.Proofs.Program.Refusal
import AtomScript.Proofs.Program.RoundTrip
import AtomScript.Proofs.Program.Signals
import AtomScript.Proofs.Program.Soundness
import AtomScript.Proofs.Program.Spelling
import AtomScript.Proofs.Program.Steps
import AtomScript.Proofs.Program.Template
import AtomScript.Proofs.Program.Termination
import AtomScript.Proofs.Program.WellFormed
import AtomScript.Proofs.Scope.Basic
import AtomScript.Proofs.Scope.History
import AtomScript.Proofs.Scope.Listing
import AtomScript.Proofs.Scope.Outwards
import AtomScript.Proofs.Scope.Resolution
import AtomScript.Proofs.Scope.Shift
import AtomScript.Proofs.Session.Batch
import AtomScript.Proofs.Session.BindingForms
import AtomScript.Proofs.Session.Builtins
import AtomScript.Proofs.Session.CallDepth
import AtomScript.Proofs.Session.Closed
import AtomScript.Proofs.Session.Console
import AtomScript.Proofs.Session.ControlFlow
import AtomScript.Proofs.Session.Destructuring
import AtomScript.Proofs.Session.Global
import AtomScript.Proofs.Session.Keys
import AtomScript.Proofs.Session.Limit
import AtomScript.Proofs.Session.Memory
import AtomScript.Proofs.Session.Numerals
import AtomScript.Proofs.Session.Reached
import AtomScript.Proofs.Session.Reset
import AtomScript.Proofs.Session.SyntaxErrors
import AtomScript.Proofs.Shell.Dispatch
import AtomScript.Proofs.Shell.Operators
import AtomScript.Proofs.Text.Occurrence
import AtomScript.Proofs.Text.Replace
import AtomScript.Proofs.Token.Joined
import AtomScript.Proofs.Token.Layout
import AtomScript.Proofs.Token.Lexeme
import AtomScript.Proofs.Token.Numeral
import AtomScript.Proofs.Token.Scan
import AtomScript.Proofs.Token.Spaced
import AtomScript.Scope
import AtomScript.Session
import AtomScript.Shell.Builtin
import AtomScript.Shell.Clock
import AtomScript.Shell.Command
import AtomScript.Shell.FileEvent
import AtomScript.Shell.Interaction
import AtomScript.Shell.Invocation
import AtomScript.Shell.Limit
import AtomScript.Shell.Options
import AtomScript.Shell.Style
import AtomScript.Text.Blank
import AtomScript.Text.Case
import AtomScript.Text.CodeRange
import AtomScript.Text.Letter
import AtomScript.Text.Quoted
import AtomScript.Text.Search
import AtomScript.Token.Basic
import AtomScript.Token.Lexer
import AtomScript.Value
