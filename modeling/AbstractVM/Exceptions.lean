import AbstractVM.Lib.Cpp
import AbstractVM.Lib.ListSort
/-!
# Errors and their report (`Exceptions.hpp`, `Exceptions.cpp`)

| here | there |
| --- | --- |
| `ErrorType`, `Error`, `AVMException` | `e_ErrorType`, `struct Error` and the exception classes (`Exceptions.hpp:8-146`); an exception is its type and its `error_part` |
| `AVMException.pushError` | the record appended to `errors_` (`Exceptions.cpp:81-87`) |
| `sortErrors`, `builtErrorMessage`, `printErrors` | `Exceptions.cpp:32-79` |

`errors_` itself is not a global here: the phases return the records they push, in order.
-/

namespace AbstractVM

open DecimalText (Text)

/-- `e_ErrorType`. -/
inductive ErrorType
  | InvalidTypeException
  | MissingParException
  | UnknownInstructionException
  | OverflowException
  | UnderflowException
  | EmtpyStackException
  | DivModByZeroException
  | NoExitException
  | FalseAssertException
  | ImpossibleInstructionException
  | InvalidValueFormatException
  | NoValueExpectedException
  | InvalidPrintException
deriving DecidableEq, Repr

structure AVMException where
  type : ErrorType
  error_part : Text
deriving DecidableEq, Repr

structure Error where
  line : ℕ
  type : ErrorType
  error_part : Text
deriving DecidableEq, Repr

/-! The exception classes, each with its own error type. -/

def InvalidTypeException (error_part : Text) : AVMException := ⟨.InvalidTypeException, error_part⟩
def MissingParException (error_part : Text) : AVMException := ⟨.MissingParException, error_part⟩
def UnknownInstructionException (error_part : Text) : AVMException :=
  ⟨.UnknownInstructionException, error_part⟩
def OverflowException (error_part : Text) : AVMException := ⟨.OverflowException, error_part⟩
def UnderflowException (error_part : Text) : AVMException := ⟨.UnderflowException, error_part⟩
def EmtpyStackException : AVMException := ⟨.EmtpyStackException, []⟩
def DivModByZeroException : AVMException := ⟨.DivModByZeroException, []⟩
def NoExitException : AVMException := ⟨.NoExitException, []⟩
def FalseAssertException : AVMException := ⟨.FalseAssertException, []⟩
def ImpossibleInstructionException (error_part : Text) : AVMException :=
  ⟨.ImpossibleInstructionException, error_part⟩
def InvalidValueFormatException (error_part : Text) : AVMException :=
  ⟨.InvalidValueFormatException, error_part⟩
def NoValueExpectedException : AVMException := ⟨.NoValueExpectedException, []⟩
def InvalidPrintException (error_part : Text) : AVMException := ⟨.InvalidPrintException, error_part⟩

/-- The record `pushError(line)` appends to `errors_`. -/
def AVMException.pushError (e : AVMException) (line : ℕ) : Error := ⟨line, e.type, e.error_part⟩

/-- The `explain` table. It has an entry for every error type. -/
def explain : ErrorType → Text
  | .InvalidTypeException => "syntax error : unknown type".toList
  | .MissingParException => "syntax error : missing parenthesis".toList
  | .UnknownInstructionException => "unknown instruction".toList
  | .OverflowException => "overflow".toList
  | .UnderflowException => "underflow".toList
  | .EmtpyStackException => "impossible instruction, the stack is empty".toList
  | .DivModByZeroException => "division or modulo by 0".toList
  | .NoExitException => "no exit instruction at the end of the program".toList
  | .FalseAssertException => "the execution stoped because of a false assertion".toList
  | .ImpossibleInstructionException =>
    ("the stack is composed of strictly less than two values when an arithmetic instruction " ++
      "is executed").toList
  | .InvalidValueFormatException => "invalid value format for the given type".toList
  | .NoValueExpectedException => "no value expected for this instruction".toList
  | .InvalidPrintException => "impossible to print".toList

def builtErrorMessage (error : Error) : Text :=
  "Error line ".toList ++ Nat.toDigits 10 error.line ++ ": ".toList ++ explain error.type ++
    (if error.error_part = [] then [] else " --> ".toList ++ error.error_part)

/-- A line of output: the text and the `std::endl`. -/
def endl (t : Text) : Text := t ++ ['\n']

def compareByLine (a b : Error) : Bool := a.line < b.line

/-- `errors_.sort(compareByLine)`; this comparator cannot throw. -/
def sortErrors (errors : List Error) : List Error :=
  match ListSort.listSort (ε := Empty) (fun a b => .ok (compareByLine a b)) errors with
  | .ok l => l
  | .error e => nomatch e

/-- What `printErrors` writes on `std::cerr`. -/
def printErrors (errors : List Error) : Text :=
  (sortErrors errors).flatMap fun error => endl (builtErrorMessage error)

/-- How a piece of C++ code can fail here: an exception of the program, an exception of the
library, or the dereference of a null pointer (undefined behaviour, kept as an outcome of its own). -/
inductive Fault
  | avm (e : AVMException)
  | std (e : Cpp.StdException)
  | nullDeref
deriving DecidableEq, Repr

def ofAvm {α : Type} : Except AVMException α → Except Fault α := Except.mapError Fault.avm
def ofStd {α : Type} : Except Cpp.StdException α → Except Fault α := Except.mapError Fault.std

section
variable {α : Type}

@[simp] theorem ofAvm_ok (a : α) : ofAvm (.ok a) = .ok a := rfl
@[simp] theorem ofAvm_error (e : AVMException) : ofAvm (.error e : Except _ α) = .error (.avm e) := rfl
@[simp] theorem ofStd_ok (a : α) : ofStd (.ok a) = .ok a := rfl
@[simp] theorem ofStd_error (e : Cpp.StdException) :
    ofStd (.error e : Except _ α) = .error (.std e) := rfl

end

end AbstractVM
