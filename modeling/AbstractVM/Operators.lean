import AbstractVM.OperandFactory
/-!
# The operators of `Operand<T>` (`Operand.tpp:81-246`)

| here | there |
| --- | --- |
| `arith` | the common body of `operator+`, `operator-`, `operator*` (`:81-142`) |
| `divArith` | the common body of `operator/`, `operator%` (`:144-195`), which check the divisor first |
| `compareWith` | the common body of `operator==`, `operator<`, `operator>` (`:197-246`) |

The receiver enters with its `value_`, the argument with its `str_` read back. `operator%` calls
`fmod` unqualified, which with `<cmath>` alone is the function of the C library.
-/

namespace AbstractVM

open DecimalText (Text)
open Cpp

namespace Operand

/-- The wider of the two types: `e = rhs.getType(); if (type_ >= e) e = type_;`. -/
def widest (lhs rhs : Operand) : OperandType :=
  if rhs.getType ≤ lhs.type_ then lhs.type_ else rhs.getType

def arith (iop : ℤ → ℤ → ℤ) (rop : SRat → SRat → SRat) (lhs rhs : Operand) :
    Except Fault (Option Operand) :=
  let e := widest lhs rhs
  if e < .Float then do
    let r ← ofStd (stoll rhs.toString)
    ofAvm (createOperand e (toStringInt (wrap 64 (iop lhs.value_.toInt64 r))))
  else do
    let r ← ofStd (stold rhs.toString)
    ofAvm (createOperand e (toStringReal (rop lhs.value_.toDouble r)))

def add : Operand → Operand → Except Fault (Option Operand) := arith (· + ·) SRat.add
def sub : Operand → Operand → Except Fault (Option Operand) := arith (· - ·) SRat.sub
def mul : Operand → Operand → Except Fault (Option Operand) := arith (· * ·) SRat.mul

def divArith (iop : ℤ → ℤ → ℤ) (rop : SRat → SRat → SRat) (lhs rhs : Operand) :
    Except Fault (Option Operand) :=
  let e := widest lhs rhs
  if e < .Float then do
    let divisor ← ofStd (stoll rhs.toString)
    if divisor = 0 then .error (.avm DivModByZeroException)
    else ofAvm (createOperand e (toStringInt (wrap 64 (iop lhs.value_.toInt64 divisor))))
  else do
    let divisor ← ofStd (stold rhs.toString)
    if divisor.toRat = 0 then .error (.avm DivModByZeroException)
    else ofAvm (createOperand e (toStringReal (rop lhs.value_.toDouble divisor)))

def div : Operand → Operand → Except Fault (Option Operand) := divArith Int.tdiv SRat.div
def mod : Operand → Operand → Except Fault (Option Operand) := divArith Int.tmod fmod

def compareWith (ri : ℤ → ℤ → Bool) (rr : ℚ → ℚ → Bool) (lhs rhs : Operand) : Except Fault Bool :=
  let e := widest lhs rhs
  if e < .Float then do
    let r ← ofStd (stoi rhs.toString)
    .ok (ri lhs.value_.toInt32 r)
  else if e = .Float then do
    let r ← ofStd (stof rhs.toString)
    .ok (rr lhs.value_.toFloat.toRat r.toRat)
  else do
    let r ← ofStd (stod rhs.toString)
    .ok (rr lhs.value_.toDouble.toRat r.toRat)

def eq : Operand → Operand → Except Fault Bool :=
  compareWith (fun a b => decide (a = b)) (fun a b => decide (a = b))
def lt : Operand → Operand → Except Fault Bool :=
  compareWith (fun a b => decide (a < b)) (fun a b => decide (a < b))
def gt : Operand → Operand → Except Fault Bool :=
  compareWith (fun a b => decide (a > b)) (fun a b => decide (a > b))

end Operand

end AbstractVM
