import AbstractVM.Depth
/-!
# The frame law of the stack machine

Every instruction but `dump` and `sort` works on the two topmost operands: the depth guards read
the whole size of the stack, but once they are passed nothing below is looked at or moved. So a
program run on a stack set on top of another (`VM.above`) does what it does on its own stack, and
leaves the other below.

| here | what it says of the source |
| --- | --- |
| `Local` | the eleven instructions and the one that does nothing |
| `execInstr_above` | step lemma: one instruction on the taller stack |
| `Halts` | how a run ends, and after how many instructions |
| `executeLoop_above`, `Halts.above` | run lemmas |
| `run_above` | both together |
-/

namespace AbstractVM

open CommandsExecutor

/-- The operations that touch the top of the stack only. -/
def Operation.Local (op : Operation) : Prop := op ≠ .DUMP ∧ op ≠ .SORT

section
variable {P M : Type}

/-- The machine with its stack on top of `base`. -/
def VM.above (base : List (Option P)) (s : VM P M) : VM P M :=
  { s with stack_ := s.stack_ ++ base }

@[simp] theorem VM.stack_above (base : List (Option P)) (s : VM P M) :
    (s.above base).stack_ = s.stack_ ++ base := rfl

@[simp] theorem VM.exit_above (base : List (Option P)) (s : VM P M) :
    (s.above base).exit_ = s.exit_ := rfl

namespace CommandsExecutor

def ExecEnd.above (base : List (Option P)) (r : ExecEnd P M) : ExecEnd P M :=
  { r with vm := r.vm.above base }

end CommandsExecutor

/-- The end of an instruction, with `base` below. -/
def aboveResult (base : List (Option P)) : Result P M → Result P M
  | .ok s => .ok (s.above base)
  | .error (f, s) => .error (f, s.above base)

/-! ## One instruction -/

section
variable (μ : Memory P M) (base : List (Option P)) {s : VM P M}

theorem assert_above (operand : Option P) (hs : s.stack_ ≠ []) :
    CommandsExecutor.assert μ operand (s.above base) =
      aboveResult base (CommandsExecutor.assert μ operand s) := by
  obtain ⟨stack, exit, right, left, out, m⟩ := s
  cases stack with
  | nil => exact absurd rfl hs
  | cons top rest =>
    cases top with
    | none => rfl
    | some t =>
      cases operand with
      | none => rfl
      | some o =>
        simp only [CommandsExecutor.assert, VM.above, List.cons_append]
        cases Operand.eq (μ.deref t) (μ.deref o) with
        | error f => rfl
        | ok b => cases b <;> rfl

theorem pop_above (hs : s.stack_ ≠ []) :
    CommandsExecutor.pop μ (s.above base) = aboveResult base (CommandsExecutor.pop μ s) := by
  obtain ⟨stack, exit, right, left, out, m⟩ := s
  cases stack with
  | nil => exact absurd rfl hs
  | cons top rest => rfl

theorem swap_above (hs : 2 ≤ s.stack_.length) :
    CommandsExecutor.swap (s.above base) = aboveResult base (CommandsExecutor.swap s) := by
  obtain ⟨stack, exit, right, left, out, m⟩ := s
  match stack, hs with
  | right :: left :: rest, _ => rfl

theorem arithmetic_above (op : ArithOp) (hs : 2 ≤ s.stack_.length) :
    arithmetic μ op.name op.operator (s.above base) =
      aboveResult base (arithmetic μ op.name op.operator s) := by
  obtain ⟨stack, exit, right, left, out, m⟩ := s
  match stack, hs with
  | none :: none :: rest, _ => rfl
  | none :: some l :: rest, _ => rfl
  | some r :: none :: rest, _ => rfl
  | some r :: some l :: rest, _ =>
    simp only [arithmetic, VM.above, List.cons_append]
    cases op.operator (μ.deref l) (μ.deref r) with
    | error f => rfl
    | ok result => rfl

theorem print_above (hs : s.stack_ ≠ []) :
    CommandsExecutor.print μ (s.above base) = aboveResult base (CommandsExecutor.print μ s) := by
  obtain ⟨stack, exit, right, left, out, m⟩ := s
  match stack, hs with
  | none :: rest, _ => rfl
  | some t :: rest, _ =>
    simp only [CommandsExecutor.print, VM.above, List.cons_append]
    split
    · rfl
    · split
      · rfl
      · split
        · rfl
        · rfl

/-- **Step lemma**: past its depth guard, an instruction does not see what is below. -/
theorem execInstr_above {i : ParsedInstr P} (hlocal : i.instruction.Local)
    (hshape : shapeError i.instruction s.stack_.length = none) :
    execInstr μ i (s.above base) = aboveResult base (execInstr μ i s) := by
  have hone : i.instruction = .POP ∨ i.instruction = .ASSERT ∨ i.instruction = .PRINT →
      s.stack_ ≠ [] := by
    intro hop hs
    simp [shapeError, hop, hs] at hshape
  have htwo : i.instruction = .SWAP ∨ i.instruction.IsArith → 2 ≤ s.stack_.length := by
    intro hop
    by_contra hlt
    have hlt' : (s.stack_.length : ℤ) < 2 := by omega
    unfold shapeError at hshape
    split_ifs at hshape with h1 h2
    exact h2 ⟨hop, hlt'⟩
  have harith : ∀ op : ArithOp, i.instruction = op.operation →
      execInstr μ i (s.above base) = aboveResult base (execInstr μ i s) := by
    intro op hop
    rw [execInstr_arith hop, execInstr_arith hop]
    exact arithmetic_above μ base op (htwo (Or.inr (hop ▸ op.isArith_operation)))
  obtain ⟨op, type, operand, line⟩ := i
  cases op with
  | PUSH => rfl
  | ASSERT => exact assert_above μ base operand (hone (Or.inr (Or.inl rfl)))
  | POP => exact pop_above μ base (hone (Or.inl rfl))
  | SWAP => exact swap_above base (htwo (Or.inl rfl))
  | DUMP => exact absurd rfl hlocal.1
  | ADD => exact harith .add rfl
  | SUB => exact harith .sub rfl
  | MUL => exact harith .mul rfl
  | DIV => exact harith .div rfl
  | MOD => exact harith .mod rfl
  | PRINT => exact print_above μ base (hone (Or.inr (Or.inr rfl)))
  | EXIT => rfl
  | SORT => exact absurd rfl hlocal.2
  | NONE => rfl

/-- An instruction that throws no shape error has passed its depth guard. -/
theorem shapeError_eq_none {i : ParsedInstr P}
    (h : ∀ e t, execInstr μ i s = .error (.avm e, t) → ¬ e.type.OfShape) :
    shapeError i.instruction s.stack_.length = none := by
  cases hs : shapeError i.instruction s.stack_.length with
  | none => rfl
  | some t =>
    obtain ⟨⟨e, s', hx, rfl⟩, hshape⟩ := (shapeError_iff (μ := μ)).2 hs
    exact absurd hshape (h e s' hx)

end

/-! ## A run -/

/-- The ending is a shape error. -/
def StopsOnShape (ending : Ending) : Prop := ∃ e, ending = .threw (.avm e) ∧ e.type.OfShape

/-- How the instructions `is` end: the number of those that were executed before, the ending and
the machine. -/
inductive Halts (μ : Memory P M) (is : List (ParsedInstr P)) (s : VM P M) :
    ℕ → Ending → VM P M → Prop
  | exited {done rest : List (ParsedInstr P)} {i : ParsedInstr P} {t t' : VM P M}
      (his : is = done ++ i :: rest) (hex : Executes μ s done t) (hi : execInstr μ i t = .ok t')
      (hexit : t'.exit_ = true) : Halts μ is s done.length .exited t'
  | failed {done rest : List (ParsedInstr P)} {i : ParsedInstr P} {t t' : VM P M} {f : Fault}
      (his : is = done ++ i :: rest) (hex : Executes μ s done t)
      (hi : execInstr μ i t = .error (f, t')) : Halts μ is s done.length (.threw f) t'
  | fellOff {t : VM P M} (hex : Executes μ s is t) :
      Halts μ is s is.length (.threw (.avm NoExitException)) t

section
variable (μ : Memory P M) (base : List (Option P)) {is : List (ParsedInstr P)} {s t : VM P M}

/-- The loop of `execute` halts in this sense. -/
theorem halts_executeLoop (line : ℕ) (is : List (ParsedInstr P)) (s : VM P M) :
    ∃ k, Halts μ is s k (executeLoop μ line is s).ending (executeLoop μ line is s).vm := by
  rcases executeLoop_cases (μ := μ) line is s with ⟨done, i, rest, t, t', his, hex, hi, hexit, heq⟩ |
    ⟨done, i, rest, t, f, t', his, hex, hi, heq⟩ | ⟨t, hex, heq⟩
  · rw [heq]
    exact ⟨done.length, .exited his hex hi hexit⟩
  · rw [heq]
    exact ⟨done.length, .failed his hex hi⟩
  · rw [heq]
    exact ⟨is.length, .fellOff hex⟩

theorem Executes.above (h : Executes μ s is t) (hlocal : ∀ i ∈ is, i.instruction.Local) :
    Executes μ (s.above base) is (t.above base) := by
  induction h with
  | nil s => exact .nil _
  | @cons s u t i is hi hexit _ ih =>
    obtain ⟨hlocal, hrest⟩ := List.forall_mem_cons.1 hlocal
    have hshape : shapeError i.instruction s.stack_.length = none := by
      refine shapeError_eq_none μ ?_
      intro e t' herr
      cases hi.symm.trans herr
    have hstep := execInstr_above μ base hlocal hshape
    rw [hi] at hstep
    exact .cons hstep hexit (ih hrest)

/-- The same instruction ends the run on the taller stack. -/
theorem Halts.above {k : ℕ} {ending : Ending} (h : Halts μ is s k ending t)
    (hlocal : ∀ i ∈ is, i.instruction.Local) (hshape : ¬ StopsOnShape ending) :
    Halts μ is (s.above base) k ending (t.above base) := by
  cases h with
  | @exited done rest i u t' his hex hi hexit =>
    obtain ⟨hdone, hrest⟩ := List.forall_mem_append.1 (his ▸ hlocal)
    have hnone : shapeError i.instruction u.stack_.length = none := by
      refine shapeError_eq_none μ ?_
      intro e t'' herr
      cases hi.symm.trans herr
    have hstep := execInstr_above μ base (hrest i List.mem_cons_self) hnone
    rw [hi] at hstep
    exact .exited his (hex.above μ base hdone) hstep hexit
  | @failed done rest i u t' f his hex hi =>
    obtain ⟨hdone, hrest⟩ := List.forall_mem_append.1 (his ▸ hlocal)
    have hnone : shapeError i.instruction u.stack_.length = none := by
      refine shapeError_eq_none μ ?_
      intro e t'' herr hof
      cases hi.symm.trans herr
      exact hshape ⟨e, rfl, hof⟩
    have hstep := execInstr_above μ base (hrest i List.mem_cons_self) hnone
    rw [hi] at hstep
    exact .failed his (hex.above μ base hdone) hstep
  | fellOff hex => exact .fellOff (hex.above μ base hlocal)

/-- **Run lemma**: the loop of `execute` on the taller stack. -/
theorem executeLoop_above (line : ℕ) (hlocal : ∀ i ∈ is, i.instruction.Local)
    (hshape : ¬ StopsOnShape (executeLoop μ line is s).ending) :
    executeLoop μ line is (s.above base) = (executeLoop μ line is s).above base := by
  induction is generalizing line s with
  | nil => rfl
  | cons i is ih =>
    obtain ⟨hi, his⟩ := List.forall_mem_cons.1 hlocal
    have hnone : shapeError i.instruction s.stack_.length = none := by
      refine shapeError_eq_none μ ?_
      intro e t herr hof
      refine hshape ⟨e, ?_, hof⟩
      simp only [executeLoop, herr]
    have hstep := execInstr_above μ base hi hnone
    unfold executeLoop at hshape ⊢
    rw [hstep]
    cases hres : execInstr μ i s with
    | error e => rfl
    | ok t =>
      rw [hres] at hshape
      cases hexit : t.exit_ with
      | true =>
        simp only [aboveResult, VM.exit_above, hexit, if_true]
        rfl
      | false =>
        simp only [hexit, Bool.false_eq_true, if_false] at hshape
        simp only [aboveResult, VM.exit_above, hexit, Bool.false_eq_true, if_false]
        rw [ih i.line his hshape]
        rfl

/-- **The frame law.** A list of instructions without `dump` and `sort` that raises no shape error
on a stack does the same on that stack set on top of any other: the same output, the same ending at
the same instruction, and the other stack untouched below the one it ends with. -/
theorem run_above (line : ℕ) (hlocal : ∀ i ∈ is, i.instruction ≠ .DUMP ∧ i.instruction ≠ .SORT)
    (hshape : ∀ e, (executeLoop μ line is s).ending = .threw (.avm e) → ¬ e.type.OfShape) :
    executeLoop μ line is (s.above base) = (executeLoop μ line is s).above base ∧
      ∃ k, Halts μ is s k (executeLoop μ line is s).ending (executeLoop μ line is s).vm ∧
        Halts μ is (s.above base) k (executeLoop μ line is s).ending
          ((executeLoop μ line is s).vm.above base) := by
  have hnot : ¬ StopsOnShape (executeLoop μ line is s).ending := by
    rintro ⟨e, he, hof⟩
    exact hshape e he hof
  obtain ⟨k, hk⟩ := halts_executeLoop μ line is s
  exact ⟨executeLoop_above μ base line hlocal hnot, k, hk, hk.above μ base hlocal hnot⟩

end

end

/-- A sum above a third operand. -/
theorem run_above_sum :
    executeLoop plain 0 [⟨.PUSH, .Int8, some (Operand.new (.int .int8_t 7)), 1⟩,
        ⟨.ADD, .NoType, none, 2⟩, ⟨.EXIT, .NoType, none, 3⟩]
        (((VM.init ()).above [some (Operand.new (.int .int8_t 5))]).above
          [some (Operand.new (.int .int8_t 9))]) =
      (executeLoop plain 0 [⟨.PUSH, .Int8, some (Operand.new (.int .int8_t 7)), 1⟩,
        ⟨.ADD, .NoType, none, 2⟩, ⟨.EXIT, .NoType, none, 3⟩]
        ((VM.init ()).above [some (Operand.new (.int .int8_t 5))])).above
          [some (Operand.new (.int .int8_t 9))] := by
  have hexit : (executeLoop plain 0 [⟨.PUSH, .Int8, some (Operand.new (.int .int8_t 7)), 1⟩,
      ⟨.ADD, .NoType, none, 2⟩, ⟨.EXIT, .NoType, none, 3⟩]
      ((VM.init ()).above [some (Operand.new (.int .int8_t 5))])).ending = .exited := by
    decide +kernel
  refine (run_above plain _ 0 ?_ ?_).1
  · simp
  · intro e he
    cases hexit.symm.trans he

end AbstractVM
