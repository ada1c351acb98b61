import AbstractVM.Parser
import AbstractVM.Operators
/-!
# The stack machine (`CommandsExecutor.hpp`, `CommandsExecutor.cpp`)

| here | there |
| --- | --- |
| `Memory` | `new`, `delete` and `*`, over a type `P` of non-null pointers; a pointer is an `Option P` |
| `VM` | the members of `CommandsExecutor`, with what it wrote on `std::cout` |
| `push` … `exit` | the thirteen instructions (`:36-197`); `arithmetic` is the common body of `add` … `mod` |
| `argOps`, `noArgOps`, `execInstr` | the two dispatch tables and the loop body of `execute` (`:199-236`) |
| `executeLoop` | the `try` block of `execute`: how it ends, at which line |
| `destroy` | `~CommandsExecutor` (`:17-34`) |

The head of `stack_` is `stack_.back()`. `plain` is the memory in which a pointer is its operand.
-/

namespace AbstractVM

open DecimalText (Text)
open Cpp

/-- How operands are created, deleted and read. `M` is the state of the allocator. -/
structure Memory (P M : Type) where
  new : Operand → M → P × M
  delete : P → M → M
  deref : P → Operand

/-- The memory that remembers nothing. -/
def plain : Memory Operand Unit := ⟨fun o m => (o, m), fun _ m => m, id⟩

structure VM (P M : Type) where
  stack_ : List (Option P)
  exit_ : Bool
  right_ : Option P
  left_ : Option P
  cout : Text
  mem : M
deriving DecidableEq

/-- An instruction ends normally, or with a fault and the state it leaves behind. -/
abbrev Result (P M : Type) := Except (Fault × VM P M) (VM P M)

section
variable {P M : Type} (μ : Memory P M)

/-- `delete`, which does nothing on the null pointer. -/
def Memory.deletePtr : Option P → M → M
  | none, m => m
  | some p, m => μ.delete p m

/-- The pointer to a new operand; the null pointer when none was made. -/
def Memory.newPtr : Option Operand → M → Option P × M
  | none, m => (none, m)
  | some o, m => (some (μ.new o m).1, (μ.new o m).2)

def VM.init (m : M) : VM P M := ⟨[], false, none, none, [], m⟩

/-- `delete operand`. -/
def VM.delete (s : VM P M) (operand : Option P) : VM P M :=
  { s with mem := μ.deletePtr operand s.mem }

namespace CommandsExecutor

def push (operand : Option P) (s : VM P M) : Result P M :=
  .ok { s with stack_ := operand :: s.stack_ }

def assert (operand : Option P) (s : VM P M) : Result P M :=
  match s.stack_ with
  | [] => .error (.avm EmtpyStackException, s.delete μ operand)
  | top :: _ =>
    match top, operand with
    | some t, some o =>
      match Operand.eq (μ.deref t) (μ.deref o) with
      | .error e => .error (e, s)
      | .ok false => .error (.avm FalseAssertException, s.delete μ operand)
      | .ok true => .ok (s.delete μ operand)
    | _, _ => .error (.nullDeref, s)

def pop (s : VM P M) : Result P M :=
  match s.stack_ with
  | [] => .error (.avm EmtpyStackException, s)
  | del :: rest => .ok ({ s with stack_ := rest }.delete μ del)

def swap (s : VM P M) : Result P M :=
  match s.stack_ with
  | right :: left :: rest =>
    .ok { s with stack_ := left :: right :: rest, left_ := none, right_ := none }
  | _ => .error (.avm (ImpossibleInstructionException "swap".toList), s)

def dump (s : VM P M) : Result P M :=
  .ok { s with cout := s.cout ++ s.stack_.flatMap fun
    | some p => endl (μ.deref p).toString
    | none => [] }

/-- `right_` and `left_` are popped before the operator runs, so they hold the operands when it
throws; they are deleted once the result is on the stack. -/
def arithmetic (name : Text) (op : Operand → Operand → Except Fault (Option Operand))
    (s : VM P M) : Result P M :=
  match s.stack_ with
  | right :: left :: rest =>
    let s := { s with stack_ := rest, right_ := right, left_ := left }
    match left, right with
    | some l, some r =>
      match op (μ.deref l) (μ.deref r) with
      | .error e => .error (e, s)
      | .ok result =>
        let created := μ.newPtr result s.mem
        let s := { s with stack_ := created.1 :: rest, mem := created.2 }
        let s := { s.delete μ left with left_ := none }
        .ok { s.delete μ right with right_ := none }
    | _, _ => .error (.nullDeref, s)
  | _ => .error (.avm (ImpossibleInstructionException name), s)

def add : VM P M → Result P M := arithmetic μ "add".toList Operand.add
def sub : VM P M → Result P M := arithmetic μ "sub".toList Operand.sub
def mul : VM P M → Result P M := arithmetic μ "mul".toList Operand.mul
def div : VM P M → Result P M := arithmetic μ "div".toList Operand.div
def mod : VM P M → Result P M := arithmetic μ "mod".toList Operand.mod

def print (s : VM P M) : Result P M :=
  match s.stack_ with
  | [] => .error (.avm EmtpyStackException, s)
  | none :: _ => .error (.nullDeref, s)
  | some p :: _ =>
    let operand := μ.deref p
    if operand.getType ≠ .Int8 then
      .error (.avm (InvalidPrintException "not an int8".toList), s)
    else match stoi operand.toString with
      | .error e => .error (.std e, s)
      | .ok z =>
        let number := wrap 8 z
        if !isprint number then
          .error (.avm (InvalidPrintException (operand.toString ++ " is not printable".toList)), s)
        else .ok { s with cout := s.cout ++ endl [Char.ofNat number.toNat] }

def compareForStack (a b : Option P) : Except Fault Bool :=
  match a, b with
  | some a, some b => Operand.lt (μ.deref a) (μ.deref b)
  | _, _ => .error .nullDeref

/-- `stack_.sort(compareForStack)`, from the front of the list to its back. -/
def sort (s : VM P M) : Result P M :=
  match ListSort.listSort (compareForStack μ) s.stack_.reverse with
  | .ok l => .ok { s with stack_ := l.reverse }
  | .error e => .error (e, s)

def exit (s : VM P M) : Result P M := .ok { s with exit_ := true }

def argOps : Operation → Option (Option P → VM P M → Result P M)
  | .PUSH => some push
  | .ASSERT => some (assert μ)
  | _ => none

def noArgOps : Operation → Option (VM P M → Result P M)
  | .POP => some (pop μ)
  | .SWAP => some swap
  | .DUMP => some (dump μ)
  | .ADD => some (add μ)
  | .SUB => some (sub μ)
  | .MUL => some (mul μ)
  | .DIV => some (div μ)
  | .MOD => some (mod μ)
  | .PRINT => some (print μ)
  | .SORT => some (sort μ)
  | .EXIT => some exit
  | _ => none

/-- One round of the loop of `execute`; an operation in neither table does nothing. -/
def execInstr (instr : ParsedInstr P) (s : VM P M) : Result P M :=
  match argOps μ instr.instruction with
  | some fn => fn instr.operand s
  | none =>
    match noArgOps μ instr.instruction with
    | some fn => fn s
    | none => .ok s

/-- `instr.operand = nullptr`. -/
def release (instr : ParsedInstr P) : ParsedInstr P := { instr with operand := none }

inductive Ending
  | exited
  | threw (f : Fault)
deriving DecidableEq

/-- How the `try` block of `execute` ends: the machine, the instruction list with the operand
fields that were reset, and the variable `line`. -/
structure ExecEnd (P M : Type) where
  ending : Ending
  line : ℕ
  vm : VM P M
  instructions : List (ParsedInstr P)
deriving DecidableEq

def executeLoop (line : ℕ) : List (ParsedInstr P) → VM P M → ExecEnd P M
  | [], s => ⟨.threw (.avm NoExitException), line, s, []⟩
  | instr :: rest, s =>
    match execInstr μ instr s with
    | .error (f, s') =>
      -- an operand handed to `push` or `assert` has left its field before the call
      let instr := if (argOps μ instr.instruction).isSome then release instr else instr
      ⟨.threw f, instr.line, s', instr :: rest⟩
    | .ok s' =>
      if s'.exit_ then ⟨.exited, instr.line, s', release instr :: rest⟩
      else
        let r := executeLoop instr.line rest s'
        { r with instructions := release instr :: r.instructions }

def execute (instructions : List (ParsedInstr P)) (m : M) : ExecEnd P M :=
  executeLoop μ 0 instructions (VM.init m)

/-- `~CommandsExecutor`. -/
def destroy (s : VM P M) : M :=
  let m := s.stack_.reverse.foldl (fun m operand => μ.deletePtr operand m) s.mem
  μ.deletePtr s.right_ (μ.deletePtr s.left_ m)

end CommandsExecutor

/-- `Parser::cleanTokens` (`Parser.cpp:104-109`). -/
def cleanTokens (tokens : List (ParsedInstr P)) (m : M) : M :=
  tokens.foldl (fun m token => μ.deletePtr token.operand m) m

end

end AbstractVM
