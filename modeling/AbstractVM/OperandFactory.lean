import AbstractVM.Operand
/-!
# The factory (`OperandFactory.cpp`)

| here | there |
| --- | --- |
| `createOperand` | `OperandFactory::createOperand` (`:9-31`) |
| `isValidValue`, `scanValue` | `isValidValue` (`:41-75`), its loop over the characters |
| `createInt` | the common body of `createInt8`, `createInt16`, `createInt32` (`:77-147`) |
| `createReal` | the common body of `createFloat`, `createDouble` (`:149-195`) |
-/

namespace AbstractVM

open DecimalText (Text)
open Cpp

/-- The loop of `isValidValue`, from its current character on. -/
def scanValue (hasDot hasExp : Bool) : Text → Bool
  | [] => true
  | c :: str =>
    if c = '.' then
      if hasDot || hasExp then false else scanValue true hasExp str
    else if c = 'e' then
      if hasExp then false else scanValue hasDot true str
    else if !c.isDigit then false
    else scanValue hasDot hasExp str

def isValidValue (type : OperandType) (str : Text) : Bool :=
  let isInt := decide (type < .Float)
  match str with
  | [] => false
  | c :: rest =>
    let digits := if c = '+' ∨ c = '-' then rest else c :: rest
    if digits = [] then false else scanValue isInt isInt digits

/-- `createInt8` and its siblings: `T`, and the end of their error text. -/
def createInt (T : IntType) (notType : Text) (value : Text) : Except AVMException Operand :=
  match stoll value with
  | .error .invalid_argument => .error (InvalidValueFormatException value)
  | .error .out_of_range => .error (OverflowException (value ++ notType))
  | .ok num =>
    if num > T.max then .error (OverflowException (value ++ notType))
    else if num < T.min then .error (UnderflowException (value ++ notType))
    else .ok (Operand.new (.int T (wrap T.bits num)))

def createInt8 : Text → Except AVMException Operand := createInt .int8_t " is not int8 type".toList
def createInt16 : Text → Except AVMException Operand :=
  createInt .int16_t " is not int16 type".toList
def createInt32 : Text → Except AVMException Operand :=
  createInt .int32_t " is not int32 type".toList

/-- `createFloat` and `createDouble`; `lowest()` is `-max()`. -/
def createReal (T : RealType) (notType : Text) (value : Text) : Except AVMException Operand :=
  match stold value with
  | .error .invalid_argument => .error (InvalidValueFormatException value)
  | .error .out_of_range => .error (OverflowException (value ++ notType))
  | .ok num =>
    if num.toRat > T.type.max then .error (OverflowException (value ++ notType))
    else if num.toRat < -T.type.max then .error (UnderflowException (value ++ notType))
    else .ok (Operand.new (.real T (T.type.cast num)))

def createFloat : Text → Except AVMException Operand := createReal .float " is not float type".toList
def createDouble : Text → Except AVMException Operand :=
  createReal .double " is not double type".toList

/-- `none` is the null pointer of the `default` branch. -/
def createOperand (type : OperandType) (value : Text) : Except AVMException (Option Operand) :=
  if value = [] then .error (InvalidValueFormatException "cannot be empty".toList)
  else if !isValidValue type value then .error (InvalidValueFormatException value)
  else match type with
    | .Int8 => (createInt8 value).map some
    | .Int16 => (createInt16 value).map some
    | .Int32 => (createInt32 value).map some
    | .Float => (createFloat value).map some
    | .Double => (createDouble value).map some
    | .NoType => .ok none

end AbstractVM
