import AbstractVM.CommandsExecutor
/-!
# The program (`main.cpp`)

`avm` is `main` once the input stream is open: the lexer, the parser, then either the report of
the errors or the execution, then `cleanTokens`, and at the end of the process the destructor of
the executor. An exception that `execute` does not catch ends the process (`terminated`).
-/

namespace AbstractVM

open DecimalText (Text)
open CommandsExecutor

/-- What the process leaves behind. -/
inductive Outcome
  | exited (stdout stderr : Text) (status : ℕ)
  | terminated (stdout : Text) (f : Fault)
deriving DecidableEq

/-- The instruction list and `errors_` after the lexer and the parser. -/
def frontEnd (cin : Bool) (input : Text) : List (ParsedInstr Operand) × List Error :=
  let lexed := lexicalAnalisys cin input
  let parsed := parse lexed.1
  (parsed.1, lexed.2 ++ parsed.2)

section
variable {P M : Type} (μ : Memory P M)

/-- The operands `parse` creates, each stored in the field of its instruction, in order. -/
def createOperands : List (ParsedInstr Operand) → M → List (ParsedInstr P) × M
  | [], m => ([], m)
  | i :: is, m =>
    let created := μ.newPtr i.operand m
    let rest := createOperands is created.2
    (⟨i.instruction, i.operandType, created.1, i.line⟩ :: rest.1, rest.2)

/-- What `execute` and `main` make of the end of the `try` block. -/
def outcome (r : ExecEnd P M) : Outcome :=
  match r.ending with
  | .exited => .exited r.vm.cout [] 0
  | .threw (.avm e) => .exited r.vm.cout (endl (builtErrorMessage (e.pushError r.line))) 1
  | .threw f => .terminated r.vm.cout f

/-- `main`, and the memory when the process has ended. -/
def avm (m : M) (cin : Bool) (input : Text) : Outcome × M :=
  let front := frontEnd cin input
  let parstokens := createOperands μ front.1 m
  if front.2 ≠ [] then
    (.exited [] (printErrors front.2) 1, cleanTokens μ parstokens.1 parstokens.2)
  else
    let r := execute μ parstokens.1 parstokens.2
    match outcome r with
    | .terminated stdout f => (.terminated stdout f, r.vm.mem)
    | o => (o, destroy μ { r.vm with mem := cleanTokens μ r.instructions r.vm.mem })

end

/-- A run of the program, operands being values. -/
def run (cin : Bool) (input : Text) : Outcome := (avm plain () cin input).1

end AbstractVM
