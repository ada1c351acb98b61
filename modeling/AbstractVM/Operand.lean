import AbstractVM.Exceptions
/-!
# Operands (`IOperand.hpp`, `Operand.hpp`, the constructor of `Operand.tpp`)

| here | there |
| --- | --- |
| `OperandType` | `e_OperandType` (`IOperand.hpp:8`), compared by its enumeration order |
| `IntType`, `RealType`, `Value` | the template argument `T` with the `value_` of that type |
| `Operand`, `Operand.new` | the four fields of `Operand<T>`, and `Operand<T>::Operand(T value)` (`Operand.tpp:13-41`) |
| `Value.toInt64` … | the `static_cast`s applied to `value_` |
-/

namespace AbstractVM

open DecimalText (Text)
open Cpp

/-- `e_OperandType`. -/
inductive OperandType
  | Int8 | Int16 | Int32 | Float | Double | NoType
deriving DecidableEq, Repr

namespace OperandType

def toNat : OperandType → ℕ
  | Int8 => 0 | Int16 => 1 | Int32 => 2 | Float => 3 | Double => 4 | NoType => 5

instance : LE OperandType := ⟨fun a b => a.toNat ≤ b.toNat⟩
instance : LT OperandType := ⟨fun a b => a.toNat < b.toNat⟩
instance (a b : OperandType) : Decidable (a ≤ b) := inferInstanceAs (Decidable (a.toNat ≤ b.toNat))
instance (a b : OperandType) : Decidable (a < b) := inferInstanceAs (Decidable (a.toNat < b.toNat))

end OperandType

/-- The integral template arguments. -/
inductive IntType
  | int8_t | int16_t | int32_t
deriving DecidableEq, Repr

namespace IntType

def bits : IntType → ℕ
  | int8_t => 8 | int16_t => 16 | int32_t => 32

def tag : IntType → OperandType
  | int8_t => .Int8 | int16_t => .Int16 | int32_t => .Int32

/-- `std::numeric_limits<T>::max()` and `min()`. -/
def max (T : IntType) : ℤ := 2 ^ (T.bits - 1) - 1
def min (T : IntType) : ℤ := -2 ^ (T.bits - 1)

end IntType

/-- The floating template arguments. -/
inductive RealType
  | float | double
deriving DecidableEq, Repr

namespace RealType

def type : RealType → FloatType
  | float => floatType | double => doubleType

def tag : RealType → OperandType
  | float => .Float | double => .Double

/-- `std::numeric_limits<T>::digits10`. -/
def digits10 : RealType → ℕ
  | float => 6 | double => 15

theorem digits10_pos : ∀ T : RealType, 0 < T.digits10
  | float => by decide
  | double => by decide

end RealType

/-- A `value_`, with the `T` it is a value of. -/
inductive Value
  | int (T : IntType) (v : ℤ)
  | real (T : RealType) (v : SRat)
deriving DecidableEq

namespace Value

/-- `static_cast<int64_t>(value_)`; on a floating value (a branch never taken) it truncates. -/
def toInt64 : Value → ℤ
  | int _ v => v
  | real _ v => v.trunc

/-- `static_cast<int32_t>(value_)`. -/
def toInt32 (v : Value) : ℤ := wrap 32 v.toInt64

/-- `static_cast<double>(value_)` and `static_cast<long double>(value_)`: exact for the five types. -/
def toDouble : Value → SRat
  | int _ v => SRat.ofInt v
  | real _ v => v

/-- `static_cast<float>(value_)`. -/
def toFloat (v : Value) : SRat := floatType.cast v.toDouble

def tag : Value → OperandType
  | int T _ => T.tag
  | real T _ => T.tag

end Value

/-- `Operand<T>`. -/
structure Operand where
  value_ : Value
  str_ : Text
  type_ : OperandType
  precision_ : ℕ
deriving DecidableEq

namespace Operand

/-- `operator<<` at `std::setprecision(digits10)`. -/
def render (T : RealType) (x : SRat) : Text :=
  DecimalText.generalText T.digits10 T.digits10_pos x.neg x.mag

/-- `Operand<T>::Operand(T value)`. -/
def new : Value → Operand
  | .int T v => ⟨.int T v, toStringInt v, T.tag, 0⟩
  | .real T v => ⟨.real T v, render T v, T.tag, T.digits10⟩

def getType (o : Operand) : OperandType := o.type_
def toString (o : Operand) : Text := o.str_
def getPrecision (o : Operand) : ℕ := o.precision_

@[simp] theorem getType_new (v : Value) : (new v).getType = v.tag := by cases v <;> rfl
@[simp] theorem type_new (v : Value) : (new v).type_ = v.tag := by cases v <;> rfl
@[simp] theorem value_new (v : Value) : (new v).value_ = v := by cases v <;> rfl
@[simp] theorem toString_new_int (T : IntType) (z : ℤ) :
    (new (.int T z)).toString = toStringInt z := rfl
@[simp] theorem toString_new_real (T : RealType) (x : SRat) :
    (new (.real T x)).toString = render T x := rfl

end Operand

end AbstractVM
