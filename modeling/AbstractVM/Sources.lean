import AbstractVM.Denotation
import AbstractVM.Rendering
/-!
# Every program has a text

Commands are typed, texts are not: what of the commands can be written down? Everything. Each cell
has a literal the factory reads it from, and empty lines put a command on any line wanted.

| here | what it says of the source |
| --- | --- |
| `Command.exists_instruction` | a line for each command |
| `Command.exists_rows` | a file for each list of them, the gaps filled with empty lines |

Main result: `programs_iff`.
-/

namespace AbstractVM

open DecimalText (Text)

namespace Command

/-- **A line for each command.** -/
theorem exists_instruction (c : Command Cell) :
    ∃ i : Instruction, ∀ n, i.parsed n = Line.instr ⟨n, c⟩ := by
  have hplain : c.operation ≠ .NONE → ¬ c.operation.TakesOperand → c.carried = none →
      ∃ i : Instruction, ∀ n, i.parsed n = Line.instr ⟨n, c⟩ := by
    intro hknown htake hcell
    refine ⟨.plain c.operation hknown htake, fun n => ?_⟩
    simp [Line.instr, Instruction.parsed, hcell]
  cases c with
  | push c =>
    obtain ⟨literal, hcreated⟩ := exists_createOperand c
    exact ⟨.value .PUSH (Or.inl rfl) c.tag literal c.operand hcreated, fun n => rfl⟩
  | assert c =>
    obtain ⟨literal, hcreated⟩ := exists_createOperand c
    exact ⟨.value .ASSERT (Or.inr rfl) c.tag literal c.operand hcreated, fun n => rfl⟩
  | arith op => exact hplain (by cases op <;> decide) (by cases op <;> decide) rfl
  | _ => exact hplain (by decide) (by decide) rfl

section
variable {cin : Bool}

def emptyRow (cin : Bool) : Row cin := .skip [] (Or.inl rfl) (by decide) (fun _ => by decide)

/-- Empty lines are no instructions. -/
theorem parsed_emptyRows (k n : ℕ) :
    ((List.replicate k (emptyRow cin)).zipIdx n).filterMap (fun p => p.1.parsed p.2) = [] := by
  induction k generalizing n with
  | zero => rfl
  | succ k ih =>
    rw [List.replicate_succ, List.zipIdx_cons, List.filterMap_cons]
    exact ih (n + 1)

/-- **A file for each list of commands** whose numbers ascend. -/
theorem exists_rows (cin : Bool) {n : ℕ} {ls : List (Line Cell)}
    (hsorted : ls.Pairwise fun l l' => l.number < l'.number)
    (habove : ∀ l ∈ ls, n < l.number) :
    ∃ rows : List (Row cin),
      (rows.zipIdx (n + 1)).filterMap (fun p => p.1.parsed p.2) = ls.map Line.instr := by
  induction ls generalizing n with
  | nil => exact ⟨[], rfl⟩
  | cons l ls ih =>
    obtain ⟨hl, hls⟩ := List.pairwise_cons.1 hsorted
    obtain ⟨rows, hrows⟩ := ih hls hl
    obtain ⟨i, hi⟩ := exists_instruction l.command
    have hn : n < l.number := habove l List.mem_cons_self
    -- as many empty lines as the number leaves free
    refine ⟨List.replicate (l.number - n - 1) (emptyRow cin) ++ .instr i :: rows, ?_⟩
    rw [List.zipIdx_append, List.filterMap_append, parsed_emptyRows, List.nil_append,
      List.length_replicate, List.zipIdx_cons, List.filterMap_cons]
    have hnumber : n + 1 + (l.number - n - 1) = l.number := by omega
    have hfirst : (Row.instr i : Row cin).parsed l.number = some l.instr := congrArg some (hi _)
    rw [hnumber]
    simp only [hfirst, hrows, List.map_cons]

end

end Command

/-- **Every program has a text.** The lists of commands that some text is accepted as are all those
whose line numbers ascend from 1; on the standard input as from a file. -/
theorem programs_iff (cin : Bool) (ls : List (Command.Line Cell)) :
    (∃ input, frontEnd cin input = (ls.map Command.Line.instr, [])) ↔
      ls.Pairwise (fun l l' => l.number < l'.number) ∧ ∀ l ∈ ls, 0 < l.number := by
  constructor
  · rintro ⟨input, h⟩
    have hpairs := pairwise_line cin input
    rw [h] at hpairs
    refine ⟨List.Pairwise.of_map Command.Line.instr (fun _ _ hlt => hlt) hpairs, fun l hl => ?_⟩
    have hmem : l.instr ∈ (frontEnd cin input).1 := by
      rw [h]
      exact List.mem_map_of_mem hl
    rw [frontEnd_eq] at hmem
    obtain ⟨p, hp, hat⟩ := List.mem_map.1 hmem
    have hline : l.number = p.2 := by
      have := congrArg ParsedInstr.line hat
      rw [instrAt_line] at this
      exact this.symm
    rw [hline]
    exact (mem_numbered hp).1
  · rintro ⟨hsorted, hpos⟩
    obtain ⟨rows, hrows⟩ := Command.exists_rows cin hsorted hpos
    refine ⟨programText rows, ?_⟩
    rw [frontEnd_programText]
    exact Prod.ext hrows rfl

end AbstractVM
