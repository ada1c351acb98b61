import AbstractVM.Lib.Grid
import AbstractVM.Lib.DecimalText
import AbstractVM.Lib.ListSort
import AbstractVM.Lib.WeakOrder
import AbstractVM.Lib.Ledger
import AbstractVM.Lib.Cpp
import AbstractVM.Lib.Machine
import AbstractVM.Exceptions
import AbstractVM.Operand
import AbstractVM.OperandFactory
import AbstractVM.Operators
import AbstractVM.Cell
import AbstractVM.Arithmetic
import AbstractVM.Compare
import AbstractVM.Conversions
import AbstractVM.Checked
import AbstractVM.Literals
import AbstractVM.Lexer
import AbstractVM.Parser
import AbstractVM.CommandsExecutor
import AbstractVM.Main
import AbstractVM.Execution
import AbstractVM.FrontEnd
import AbstractVM.Report
import AbstractVM.Comments
import AbstractVM.Grammar
import AbstractVM.Executable
import AbstractVM.Outcomes
import AbstractVM.Depth
import AbstractVM.Postfix
import AbstractVM.PushAssert
import AbstractVM.Erasure
import AbstractVM.Ownership
import AbstractVM.Widening
import AbstractVM.Rendering
import AbstractVM.Frame
import AbstractVM.Sorting
import AbstractVM.Comparator
import AbstractVM.RealArithmetic
import AbstractVM.Division
import AbstractVM.PushBack
import AbstractVM.Copying
import AbstractVM.Commands
import AbstractVM.Denotation
import AbstractVM.SortedStacks
import AbstractVM.Concatenation
import AbstractVM.Sources
import AbstractVM.Output
import AbstractVM.Checkpoint
import AbstractVM.Unbounded
import AbstractVM.Readable
import AbstractVM.Types
import AbstractVM.StandardError
import AbstractVM.Process
import AbstractVM.Observers
import AbstractVM.CarriageReturn
import AbstractVM.Replacement
import AbstractVM.Census
