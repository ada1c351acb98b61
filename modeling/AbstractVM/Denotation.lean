import AbstractVM.Commands
import AbstractVM.Outcomes
import AbstractVM.Erasure
import AbstractVM.Comparator
import AbstractVM.RealArithmetic
/-!
# What a program means

The numbers of the source are cells, with an arithmetic whose results are rounded to six decimals,
to `long double` and to their type, and comparisons of a stored with a printed number. A clean text is a list of commands,
and `execute` on its instructions does what the machine on these numbers does.

| here | there |
| --- | --- |
| `execStep`, `finish` | the loop body of `execute`, and what `main` makes of its end |
| `Cell.numbers`, `ArithOp.onCells` | the operators of `Operand<T>` with the factory behind them |
| `Command.Line.instr` | a `t_ParsedInstr` of a clean program |
| `Command.follows` | the member functions of `CommandsExecutor` |

Main result: `run_commands`.
-/

namespace AbstractVM

open DecimalText (Text)
open Cpp
open CommandsExecutor
open Machine

/-! ## `execute` as a run -/

section
variable {P M : Type} (μ : Memory P M)

/-- The loop body of `execute`, with its test of `exit_`. -/
def execStep (i : ParsedInstr P) (s : VM P M) : Effect (Fault × VM P M) (VM P M) :=
  match execInstr μ i s with
  | .error e => .fail e
  | .ok t => if t.exit_ then .stop t else .next t

/-- What `main` makes of the end of a run; `line` is the number of the last instruction. -/
def finish (line : ℕ) : Final (ParsedInstr P) (Fault × VM P M) (VM P M) → Outcome
  | .fell s => .exited s.cout (endl (builtErrorMessage (NoExitException.pushError line))) 1
  | .stopped _ s => .exited s.cout [] 0
  | .failed i (.avm e, s) => .exited s.cout (endl (builtErrorMessage (e.pushError i.line))) 1
  | .failed _ (f, s) => .terminated s.cout f

/-- **`execute` is a run** of its loop body. -/
theorem outcome_executeLoop (line : ℕ) (is : List (ParsedInstr P)) (s : VM P M) :
    outcome (executeLoop μ line is s) = finish (lastLine line is) (Machine.run (execStep μ) is s) := by
  induction is generalizing line s with
  | nil => rfl
  | cons i is ih =>
    simp only [executeLoop, Machine.run, execStep, lastLine]
    cases execInstr μ i s with
    | error e =>
      obtain ⟨f, t⟩ := e
      have hline : (if (argOps μ i.instruction).isSome = true then release i else i).line = i.line :=
        afterFailure_line i
      cases f <;> simp [outcome, finish, hline]
    | ok t =>
      by_cases hexit : t.exit_ = true
      · simp [hexit, outcome, finish]
      · simp only [hexit]
        exact ih i.line t

end

/-! ## Numbers -/

/-- The type of a result when one side is a real. -/
def Cell.wideReal (l r : Cell) : RealType :=
  if l.tag = .Double ∨ r.tag = .Double then .double else .float

/-- A result on its way through the factory: `std::to_string` prints six decimals, which are read
as a `long double` and checked against the range of the type. -/
def fitResult (T : RealType) (x : SRat) : Except AVMException Cell :=
  fitReal T (toStringReal x) (longDoubleType.cast (x.fixed 6))

/-- An operator on cells: exact on integers; otherwise what the left side holds with what is read of
the right side. -/
def ArithOp.onCells (op : ArithOp) (l r : Cell) : Except AVMException Cell :=
  match l.value, r.value with
  | .int T a, .int U b => op.onInts T U a b
  | _, _ =>
    if op.Divides ∧ r.stored = 0 then .error DivModByZeroException
    else fitResult (l.wideReal r) (op.onReals l.value.toDouble r.value.argument)

/-- The text of the number in a cell. -/
def Cell.text (c : Cell) : Text :=
  match c.value with
  | .int _ v => toStringInt v
  | .real T x => Operand.render T x

/-- What `assert` asks. -/
def Cell.equals (a b : Cell) : Except Fault Bool :=
  if a.Legible b then .ok (decide (a.held b = a.read b)) else .error (.std .out_of_range)

/-- The order of `sort`. -/
def Cell.comesBefore (a b : Cell) : Except Fault Bool :=
  if a.Legible b then .ok (decide (a.held b < a.read b)) else .error (.std .out_of_range)

/-- The value `print` prints as a character. -/
def Cell.int8? (c : Cell) : Option ℤ :=
  match c.value with
  | .int .int8_t v => some v
  | _ => none

theorem Cell.toString_operand (c : Cell) : c.operand.toString = c.text := by
  obtain ⟨value, valid⟩ := c
  cases value <;> rfl

/-- The type of a result, when not both sides are integers. -/
theorem Cell.wider_eq_wideReal {l r : Cell} {T : RealType} (h : l.tag.wider r.tag = T.tag) :
    l.wideReal r = T := by
  unfold wideReal
  apply RealType.tag_injective
  by_cases hd : l.tag = .Double ∨ r.tag = .Double
  · rw [if_pos hd, ← h, OperandType.wider_double l.tag_ne_noType r.tag_ne_noType hd]
    rfl
  · rw [if_neg hd]
    cases T with
    | float => rfl
    | double =>
      exfalso
      apply hd
      unfold OperandType.wider at h
      split at h
      · exact Or.inl h
      · exact Or.inr h

/-- **An operator of `Operand<T>` is the operation on cells.** -/
theorem ArithOp.operator_onCells (op : ArithOp) (l r : Cell) :
    op.operator l.operand r.operand = ofAvm ((op.onCells l r).map fun c => some c.operand) := by
  rcases l.ints_or_real r with ⟨T, a, ha, U, b, hb, rfl, rfl⟩ | ⟨T, hT⟩
  · exact op.operator_int ha hb
  · have hreal : op.onCells l r =
        if op.Divides ∧ r.stored = 0 then .error DivModByZeroException
        else fitResult T (op.onReals l.value.toDouble r.value.argument) := by
      rw [← Cell.wider_eq_wideReal hT]
      unfold ArithOp.onCells
      split
      · rename_i V a W b hl hr
        have hlt : l.tag.wider r.tag < .Float := by
          refine OperandType.wider_lt_float ?_ ?_
          · unfold Cell.tag
            rw [hl]
            exact V.tag_lt_float
          · unfold Cell.tag
            rw [hr]
            exact W.tag_lt_float
        rw [hT] at hlt
        exact absurd hlt T.float_le_tag
      · rfl
    have hcreate := createOperand_fixedText T (inRange_result op l r)
    rw [operator_real op l r hT, hreal, toStringReal, hcreate]
    split <;> rfl

/-- The numbers of the source. -/
def Cell.numbers : Numbers Cell :=
  ⟨ArithOp.onCells, Cell.equals, Cell.comesBefore, Cell.text, Cell.int8?⟩

namespace Command

/-! ## The instruction of a command -/

/-- What the front end returns for a command. -/
def Line.instr (l : Line Cell) : ParsedInstr Operand :=
  ⟨l.command.operation, (l.command.carried.map Cell.tag).getD .NoType,
    l.command.carried.map Cell.operand, l.number⟩

/-- Every well-formed instruction is that of a command. -/
theorem exists_line {i : ParsedInstr Operand} (h : WellFormed i) : ∃ l : Line Cell, l.instr = i := by
  obtain ⟨op, type, operand, line⟩ := i
  obtain ⟨hknown, hvalue, hno⟩ := h
  have hplain : ∀ c : Command Cell, c.operation = op → c.carried = none → ¬ op.TakesOperand →
      ∃ l : Line Cell, l.instr = ⟨op, type, operand, line⟩ := by
    intro c hop hcell htake
    obtain ⟨rfl, rfl⟩ := hno htake
    exact ⟨⟨line, c⟩, by simp [Line.instr, hop, hcell]⟩
  cases op with
  | PUSH =>
    obtain ⟨c, rfl, rfl⟩ := hvalue (Or.inl rfl)
    exact ⟨⟨line, push c⟩, rfl⟩
  | ASSERT =>
    obtain ⟨c, rfl, rfl⟩ := hvalue (Or.inr rfl)
    exact ⟨⟨line, assert c⟩, rfl⟩
  | POP => exact hplain pop rfl rfl (by decide)
  | SWAP => exact hplain swap rfl rfl (by decide)
  | DUMP => exact hplain dump rfl rfl (by decide)
  | ADD => exact hplain (arith .add) rfl rfl (by decide)
  | SUB => exact hplain (arith .sub) rfl rfl (by decide)
  | MUL => exact hplain (arith .mul) rfl rfl (by decide)
  | DIV => exact hplain (arith .div) rfl rfl (by decide)
  | MOD => exact hplain (arith .mod) rfl rfl (by decide)
  | PRINT => exact hplain print rfl rfl (by decide)
  | SORT => exact hplain sort rfl rfl (by decide)
  | EXIT => exact hplain exit rfl rfl (by decide)
  | NONE => exact absurd rfl hknown

/-- The program of a clean text. -/
theorem exists_lines {cin : Bool} {input : Text} (h : (frontEnd cin input).2 = []) :
    ∃ ls : List (Line Cell), frontEnd cin input = (ls.map Line.instr, []) := by
  suffices hls : ∃ ls : List (Line Cell), (frontEnd cin input).1 = ls.map Line.instr from
    hls.imp fun _ hls => Prod.ext hls h
  have hall : ∀ i ∈ (frontEnd cin input).1, ∃ l : Line Cell, l.instr = i :=
    fun i hi => exists_line (wellFormed_of_frontEnd h i hi)
  generalize (frontEnd cin input).1 = is at hall
  induction is with
  | nil => exact ⟨[], rfl⟩
  | cons i is ih =>
    obtain ⟨hi, his⟩ := List.forall_mem_cons.1 hall
    obtain ⟨l, rfl⟩ := hi
    obtain ⟨ls, rfl⟩ := ih his
    exact ⟨l :: ls, rfl⟩

theorem instr_mem {cin : Bool} {input : Text} {ls : List (Line Cell)} {l : Line Cell}
    (h : frontEnd cin input = (ls.map Line.instr, [])) (hl : l ∈ ls) :
    l.instr ∈ (frontEnd cin input).1 := by
  rw [h]
  exact List.mem_map_of_mem hl

/-- The command of an operation and a cell. -/
def ofParts : Operation → Option Cell → Option (Command Cell)
  | .PUSH, c => c.map push
  | .ASSERT, c => c.map assert
  | .POP, _ => some pop
  | .SWAP, _ => some swap
  | .DUMP, _ => some dump
  | .ADD, _ => some (arith .add)
  | .SUB, _ => some (arith .sub)
  | .MUL, _ => some (arith .mul)
  | .DIV, _ => some (arith .div)
  | .MOD, _ => some (arith .mod)
  | .PRINT, _ => some print
  | .SORT, _ => some sort
  | .EXIT, _ => some exit
  | .NONE, _ => none

theorem ofParts_eq (c : Command Cell) : ofParts c.operation c.carried = some c := by
  cases c with
  | arith op => cases op <;> rfl
  | _ => rfl

/-- An operand is that of one cell only. -/
theorem operand_injective : Function.Injective Cell.operand := by
  intro c d h
  have hvalue := congrArg Operand.value_ h
  rw [Cell.value_operand, Cell.value_operand] at hvalue
  cases c
  cases d
  cases hvalue
  rfl

/-- An instruction is that of one command only. -/
theorem instr_injective : Function.Injective (Line.instr) := by
  rintro ⟨n, c⟩ ⟨m, d⟩ h
  obtain ⟨hop, -, hcell, rfl⟩ := (ParsedInstr.mk.injEq ..).mp h
  have hcell' : c.carried = d.carried := Option.map_injective operand_injective hcell
  have hcommand := (ofParts_eq c).symm.trans ((congrArg₂ ofParts hop hcell').trans (ofParts_eq d))
  rw [Option.some.inj hcommand]

/-! ## The machine of the source follows the machine on numbers -/

def Trap.fault : Trap → Fault
  | throws e => .avm e
  | outOfRange => .std .out_of_range

/-- The machine that holds these cells, has written this text and has not met an `exit`. -/
def State.vm (t : State Cell) (right left : Option Operand) : VM Operand Unit :=
  ⟨t.stack.map fun c => some c.operand, false, right, left, t.out, ()⟩

/-- The members `right_` and `left_` are nothing to the machine on numbers. -/
def Couples (s : VM Operand Unit) (t : State Cell) : Prop := ∃ right left, s = t.vm right left

/-- At an end only the output and the fault are compared. -/
def coupling : Coupling (Fault × VM Operand Unit) (VM Operand Unit) Failure (State Cell) where
  state := Couples
  final s t := s.cout = t.out
  fault e g := e.1 = g.trap.fault ∧ e.2.cout = g.out

/-- `sort` permutes pointers as it permutes cells. -/
theorem listSort_cells (cs : List Cell) :
    ListSort.listSort (compareForStack plain) (cs.map fun c => some c.operand) =
      (ListSort.listSort Cell.comesBefore cs).map fun l => l.map fun c => some c.operand := by
  have hlt : ∀ p a q b, p = some (Cell.operand a) → q = some (Cell.operand b) →
      compareForStack plain p q = a.comesBefore b := by
    rintro p a q b rfl rfl
    exact compareForStack_numbers a b
  have hcs : List.Forall₂ (fun p c => p = some (Cell.operand c))
      (cs.map fun c => some c.operand) cs :=
    List.forall₂_map_left_iff.2 (List.forall₂_same.2 fun _ _ => rfl)
  have hrel := ListSort.listSort_rel hlt hcs
  generalize ListSort.listSort (compareForStack plain) _ = r at hrel ⊢
  generalize ListSort.listSort Cell.comesBefore cs = r' at hrel ⊢
  cases r with
  | error f =>
    cases r' with
    | error f' => cases hrel; rfl
    | ok l' => cases hrel
  | ok l =>
    cases r' with
    | error f' => cases hrel
    | ok l' =>
      have hl : List.Forall₂ (fun p c => p = some (Cell.operand c)) l l' := hrel
      refine congrArg Except.ok ?_
      rw [← List.forall₂_eq_eq_eq, List.forall₂_map_right_iff]
      exact hl

/-- Only `std::out_of_range` comes out of a comparison. -/
theorem listSort_comesBefore_error {cs : List Cell} {f : Fault}
    (h : ListSort.listSort Cell.comesBefore cs = .error f) : f = .std .out_of_range := by
  obtain ⟨⟨a, b⟩, -, hc⟩ := ListSort.listSort_error h
  unfold Cell.comesBefore at hc
  split at hc
  · cases hc
  · exact (Except.error.inj hc).symm

section
variable {l : Line Cell} {s : VM Operand Unit} {t : State Cell}

theorem follows_assert {c : Cell} (h : Couples s t) (hl : l.command = assert c) :
    coupling.Effects (execStep plain l.instr s) (effect Cell.numbers l.command t) := by
  obtain ⟨right, left, rfl⟩ := h
  obtain ⟨stack, out⟩ := t
  obtain ⟨n, c⟩ := l
  subst hl
  cases stack with
  | nil => exact .fail ⟨rfl, rfl⟩
  | cons top rest =>
    have heq := eq_cell top c
    simp only [Line.instr, operation, carried, execStep, execInstr, argOps, CommandsExecutor.assert,
      Option.map_some, List.map_cons, plain, id, effect, Cell.numbers, Cell.equals, State.vm, heq]
    by_cases hleg : top.Legible c
    · simp only [if_pos hleg]
      by_cases hval : top.held c = top.read c
      · simp only [hval, decide_true]
        exact .next ⟨right, left, rfl⟩
      · simp only [hval, decide_false]
        exact .fail ⟨rfl, rfl⟩
    · simp only [if_neg hleg]
      exact .fail ⟨rfl, rfl⟩

theorem follows_arith {op : ArithOp} (h : Couples s t) (hl : l.command = arith op) :
    coupling.Effects (execStep plain l.instr s) (effect Cell.numbers l.command t) := by
  have hop : l.instr.instruction = op.operation := by
    unfold Line.instr
    rw [hl]
    rfl
  obtain ⟨right, left, rfl⟩ := h
  obtain ⟨stack, out⟩ := t
  unfold execStep
  rw [hl]
  match stack with
  | [] =>
    rw [execInstr_arith_short hop (by exact Nat.zero_lt_two)]
    exact .fail ⟨rfl, rfl⟩
  | [c] =>
    rw [execInstr_arith_short hop (by exact Nat.one_lt_two)]
    exact .fail ⟨rfl, rfl⟩
  | r :: l :: rest =>
    rw [execInstr_arith_cons hop rfl]
    simp only [plain, id, op.operator_onCells, effect, Cell.numbers]
    cases op.onCells l r with
    | error e => exact .fail ⟨rfl, rfl⟩
    | ok c => exact .next ⟨none, none, rfl⟩

/-- What a cell of type `int8` prints is read back by `stoi`. -/
theorem follows_print (h : Couples s t) (hl : l.command = print) :
    coupling.Effects (execStep plain l.instr s) (effect Cell.numbers l.command t) := by
  obtain ⟨right, left, rfl⟩ := h
  obtain ⟨stack, out⟩ := t
  obtain ⟨n, c⟩ := l
  subst hl
  cases stack with
  | nil => exact .fail ⟨rfl, rfl⟩
  | cons top rest =>
    obtain ⟨value, valid⟩ := top
    match value, valid with
    | .int .int8_t v, valid =>
      have hv : IntType.int8_t.Fits v := valid
      have hread : stoi (Operand.new (.int .int8_t v)).toString = .ok v :=
        stoInt_toString (T := .int8_t) hv.inBits
      have hwrap : wrap 8 v = v := IntType.wrap_eq hv
      have hnum : Cell.operand ⟨.int .int8_t v, valid⟩ = Operand.new (.int .int8_t v) := rfl
      have htype : (Operand.new (.int .int8_t v)).getType = .Int8 := rfl
      simp only [Line.instr, operation, carried, execStep, execInstr, argOps, noArgOps,
        CommandsExecutor.print, List.map_cons, plain, id, effect, Cell.numbers, Cell.int8?, State.vm,
        hnum, htype, hread, hwrap, ne_eq, not_true_eq_false, if_false]
      by_cases hp : isprint v = true
      · simp only [hp, Bool.not_true, Bool.false_eq_true, if_false, if_true]
        exact .next ⟨right, left, rfl⟩
      · simp only [hp, Bool.not_false, if_true]
        exact .fail ⟨rfl, rfl⟩
    | .int .int16_t v, valid => exact .fail ⟨rfl, rfl⟩
    | .int .int32_t v, valid => exact .fail ⟨rfl, rfl⟩
    | .real .float x, valid => exact .fail ⟨rfl, rfl⟩
    | .real .double x, valid => exact .fail ⟨rfl, rfl⟩

theorem follows_sort (h : Couples s t) (hl : l.command = sort) :
    coupling.Effects (execStep plain l.instr s) (effect Cell.numbers l.command t) := by
  obtain ⟨right, left, rfl⟩ := h
  obtain ⟨stack, out⟩ := t
  obtain ⟨n, c⟩ := l
  subst hl
  simp only [Line.instr, operation, carried, execStep, execInstr, argOps, noArgOps,
    CommandsExecutor.sort, effect, Cell.numbers, State.vm, ← List.map_reverse, listSort_cells]
  cases hs : ListSort.listSort Cell.comesBefore stack.reverse with
  | error f =>
    cases listSort_comesBefore_error hs
    exact .fail ⟨rfl, rfl⟩
  | ok sorted =>
    refine .next ⟨right, left, ?_⟩
    simp only [State.vm, List.map_reverse]

theorem follows_dump (h : Couples s t) (hl : l.command = dump) :
    coupling.Effects (execStep plain l.instr s) (effect Cell.numbers l.command t) := by
  obtain ⟨right, left, rfl⟩ := h
  obtain ⟨stack, out⟩ := t
  obtain ⟨n, c⟩ := l
  subst hl
  refine .next ⟨right, left, ?_⟩
  simp only [State.vm, List.flatMap_map, plain, id, Cell.toString_operand, Cell.numbers]

/-- The commands that move operands. -/
theorem follows_swap (h : Couples s t) (hl : l.command = swap) :
    coupling.Effects (execStep plain l.instr s) (effect Cell.numbers l.command t) := by
  obtain ⟨right, left, rfl⟩ := h
  obtain ⟨stack, out⟩ := t
  obtain ⟨n, c⟩ := l
  subst hl
  match stack with
  | [] => exact .fail ⟨rfl, rfl⟩
  | [a] => exact .fail ⟨rfl, rfl⟩
  | a :: b :: rest => exact .next ⟨none, none, rfl⟩

theorem follows_pop (h : Couples s t) (hl : l.command = pop) :
    coupling.Effects (execStep plain l.instr s) (effect Cell.numbers l.command t) := by
  obtain ⟨right, left, rfl⟩ := h
  obtain ⟨stack, out⟩ := t
  obtain ⟨n, c⟩ := l
  subst hl
  cases stack with
  | nil => exact .fail ⟨rfl, rfl⟩
  | cons top rest => exact .next ⟨right, left, rfl⟩

theorem follows_push {c : Cell} (h : Couples s t) (hl : l.command = push c) :
    coupling.Effects (execStep plain l.instr s) (effect Cell.numbers l.command t) := by
  obtain ⟨right, left, rfl⟩ := h
  obtain ⟨n, c⟩ := l
  subst hl
  exact .next ⟨right, left, rfl⟩

theorem follows_exit (h : Couples s t) (hl : l.command = exit) :
    coupling.Effects (execStep plain l.instr s) (effect Cell.numbers l.command t) := by
  obtain ⟨right, left, rfl⟩ := h
  obtain ⟨n, c⟩ := l
  subst hl
  exact .stop rfl

/-- **Step lemma**: one instruction of the source does what its command does. -/
theorem follows (l : Line Cell) (h : Couples s t) :
    coupling.Effects (execStep plain l.instr s) (effect Cell.numbers l.command t) := by
  cases hl : l.command with
  | push c => exact hl ▸ follows_push h hl
  | assert c => exact hl ▸ follows_assert h hl
  | pop => exact hl ▸ follows_pop h hl
  | swap => exact hl ▸ follows_swap h hl
  | dump => exact hl ▸ follows_dump h hl
  | arith op => exact hl ▸ follows_arith h hl
  | print => exact hl ▸ follows_print h hl
  | sort => exact hl ▸ follows_sort h hl
  | exit => exact hl ▸ follows_exit h hl

end

theorem lastLine_instr (ls : List (Line Cell)) : lastLine 0 (ls.map Line.instr) = lastNumber ls := by
  rw [lastLine_eq, List.getLast?_map]
  unfold lastNumber
  cases ls.getLast? <;> rfl

/-- **Run lemma**: `execute` on the instructions of a list of commands. -/
theorem outcome_execute (ls : List (Line Cell)) :
    outcome (execute plain (ls.map Line.instr) ()) = report ls (run Cell.numbers ls State.init) := by
  have hstep : ∀ (i : ParsedInstr Operand) (l : Line Cell) (s : VM Operand Unit) (t : State Cell),
      i = l.instr → coupling.state s t →
        coupling.Effects (execStep plain i s) (effect Cell.numbers l.command t) := by
    rintro _ l s t rfl h
    exact follows l h
  have hinstrs : List.Forall₂ (fun i l => i = Line.instr l) (ls.map Line.instr) ls :=
    List.forall₂_map_left_iff.2 (List.forall₂_same.2 fun _ _ => rfl)
  have hinit : coupling.state (VM.init ()) State.init := ⟨none, none, rfl⟩
  have hsim := coupling.run hstep hinstrs hinit
  unfold execute
  rw [outcome_executeLoop, lastLine_instr]
  unfold run
  generalize Machine.run (execStep plain) _ _ = r at hsim ⊢
  generalize Machine.run (fun l : Line Cell => effect Cell.numbers l.command) ls _ = r' at hsim ⊢
  cases hsim with
  | fell h =>
    obtain ⟨right, left, rfl⟩ := h
    rfl
  | stopped hij h =>
    simp only [finish, report]
    rw [show _ = _ from h]
  | @failed i l e g hij h =>
    obtain ⟨f, s⟩ := e
    obtain ⟨trap, out⟩ := g
    obtain ⟨hf, hout⟩ := h
    cases hij
    change f = trap.fault at hf
    change s.cout = out at hout
    subst hf hout
    cases trap <;> rfl

end Command

/-- What a text of commands does. -/
theorem run_of_lines {cin : Bool} {input : Text} {ls : List (Command.Line Cell)}
    (h : frontEnd cin input = (ls.map Command.Line.instr, [])) :
    run cin input = Command.report ls (Command.run Cell.numbers ls Command.State.init) := by
  rw [run_eq, h, if_neg (not_not.2 rfl)]
  exact Command.outcome_execute ls

/-- **The program is a machine on numbers.** A clean text is one list of commands, and whatever the
allocator, what the process leaves behind is what the commands make of the empty stack. -/
theorem run_commands {P M : Type} {μ : Memory P M} (hμ : μ.Reads) (m : M) {cin : Bool} {input : Text}
    (h : (frontEnd cin input).2 = []) :
    ∃ ls : List (Command.Line Cell), (frontEnd cin input).1 = ls.map Command.Line.instr ∧
      (∀ ls' : List (Command.Line Cell),
        (frontEnd cin input).1 = ls'.map Command.Line.instr → ls' = ls) ∧
      (avm μ m cin input).1 = Command.report ls (Command.run Cell.numbers ls Command.State.init) := by
  obtain ⟨ls, hls⟩ := Command.exists_lines h
  refine ⟨ls, congrArg Prod.fst hls, ?_, ?_⟩
  · intro ls' hls'
    exact List.map_injective_iff.2 Command.instr_injective
      (hls'.symm.trans (congrArg Prod.fst hls))
  · rw [avm_erase hμ]
    exact run_of_lines hls

/-- A sum, in the memory whose pointers are the operands themselves. -/
theorem run_commands_sum :
    ∃ ls : List (Command.Line Cell),
      (frontEnd false "push int8(1)
push double(.5)
add
exit
".toList).1 =
          ls.map Command.Line.instr ∧
        (∀ ls' : List (Command.Line Cell),
          (frontEnd false "push int8(1)
push double(.5)
add
exit
".toList).1 =
            ls'.map Command.Line.instr → ls' = ls) ∧
        (avm plain () false "push int8(1)
push double(.5)
add
exit
".toList).1 =
          Command.report ls (Command.run Cell.numbers ls Command.State.init) :=
  run_commands (μ := plain) (fun _ _ => rfl) () (by decide +kernel)

end AbstractVM
