import AbstractVM.Lexer
import AbstractVM.OperandFactory
/-!
# The parser (`Parser.hpp`, `Parser.cpp`)

| here | there |
| --- | --- |
| `Operation`, `ParsedInstr` | `e_Operation`, `t_ParsedInstr`; the operand pointer's type is a parameter |
| `toOperation`, `toType` | `Parser::toOperation` (`:16-39`), `Parser::toType` (`:41-56`), over the same tables |
| `tryPush` | `try { x = …; } catch (AVMException &e) { e.pushError(line); }` |
| `parseToken`, `parse` | the loop body and the loop of `Parser::parse` (`:58-102`) |
-/

namespace AbstractVM

open DecimalText (Text)

/-- `e_Operation`. -/
inductive Operation
  | PUSH | ASSERT | POP | SWAP | DUMP | ADD | SUB | MUL | DIV | MOD | PRINT | EXIT | SORT | NONE
deriving DecidableEq, Repr

namespace Operation

def toNat : Operation → ℕ
  | PUSH => 0 | ASSERT => 1 | POP => 2 | SWAP => 3 | DUMP => 4 | ADD => 5 | SUB => 6 | MUL => 7
  | DIV => 8 | MOD => 9 | PRINT => 10 | EXIT => 11 | SORT => 12 | NONE => 13

instance : LE Operation := ⟨fun a b => a.toNat ≤ b.toNat⟩
instance (a b : Operation) : Decidable (a ≤ b) := inferInstanceAs (Decidable (a.toNat ≤ b.toNat))

end Operation

def opMap : List (Text × Operation) :=
  [("push".toList, .PUSH), ("pop".toList, .POP), ("swap".toList, .SWAP), ("dump".toList, .DUMP),
    ("assert".toList, .ASSERT), ("add".toList, .ADD), ("sub".toList, .SUB), ("mul".toList, .MUL),
    ("div".toList, .DIV), ("mod".toList, .MOD), ("print".toList, .PRINT), ("sort".toList, .SORT),
    ("exit".toList, .EXIT)]

def typeMap : List (Text × OperandType) :=
  [("int8".toList, .Int8), ("int16".toList, .Int16), ("int32".toList, .Int32),
    ("float".toList, .Float), ("double".toList, .Double)]

def toOperation (opStr : Text) : Except AVMException Operation :=
  match opMap.find? fun p => p.1 = opStr with
  | some p => .ok p.2
  | none => .error (UnknownInstructionException opStr)

def toType (type : Text) : Except AVMException OperandType :=
  match typeMap.find? fun p => p.1 = type with
  | some p => .ok p.2
  | none => .error (InvalidTypeException type)

theorem mem_of_find? {α : Type} {table : List (Text × α)} {w : Text} {p : Text × α}
    (h : (table.find? fun p => p.1 = w) = some p) : (w, p.2) ∈ table := by
  have hw : p.1 = w := by simpa using List.find?_some h
  rw [← hw]
  exact List.mem_of_find?_eq_some h

/-- The tables have no name twice. -/
theorem toOperation_eq_ok {w : Text} {op : Operation} :
    toOperation w = .ok op ↔ (w, op) ∈ opMap := by
  constructor
  · intro h
    unfold toOperation at h
    split at h
    · rename_i p hp
      cases h
      exact mem_of_find? hp
    · cases h
  · intro h
    have hall : ∀ p ∈ opMap, toOperation p.1 = .ok p.2 := by decide
    exact hall _ h

theorem toType_eq_ok {t : Text} {type : OperandType} :
    toType t = .ok type ↔ (t, type) ∈ typeMap := by
  constructor
  · intro h
    unfold toType at h
    split at h
    · rename_i p hp
      cases h
      exact mem_of_find? hp
    · cases h
  · intro h
    have hall : ∀ p ∈ typeMap, toType p.1 = .ok p.2 := by decide
    exact hall _ h

theorem toOperation_error {w : Text} {e : AVMException} (h : toOperation w = .error e) :
    e = UnknownInstructionException w := by
  unfold toOperation at h
  split at h
  · cases h
  · cases h; rfl

theorem toType_error {t : Text} {e : AVMException} (h : toType t = .error e) :
    e = InvalidTypeException t := by
  unfold toType at h
  split at h
  · cases h
  · cases h; rfl

structure ParsedInstr (P : Type) where
  instruction : Operation
  operandType : OperandType
  operand : Option P
  line : ℕ
deriving DecidableEq

/-- The value assigned in the `try`, or the placeholder and the record of the error. -/
def tryPush {α : Type} (line : ℕ) (placeholder : α) : Except AVMException α → α × List Error
  | .ok a => (a, [])
  | .error e => (placeholder, [e.pushError line])

def parseToken (lexToken : LexToken) : ParsedInstr Operand × List Error :=
  let line := lexToken.line
  let op := tryPush line .NONE (toOperation lexToken.instruction)
  if op.1 ≤ .ASSERT then
    let type := tryPush line .NoType (toType lexToken.operandType)
    let operand := tryPush line none (createOperand type.1 lexToken.literal)
    (⟨op.1, type.1, operand.1, line⟩, op.2 ++ type.2 ++ operand.2)
  else if lexToken.operandType ≠ [] ∨ lexToken.literal ≠ [] then
    (⟨op.1, .NoType, none, line⟩, op.2 ++ [NoValueExpectedException.pushError line])
  else (⟨op.1, .NoType, none, line⟩, op.2)

def parse (lexTokens : List LexToken) : List (ParsedInstr Operand) × List Error :=
  (lexTokens.map fun t => (parseToken t).1, lexTokens.flatMap fun t => (parseToken t).2)

end AbstractVM
