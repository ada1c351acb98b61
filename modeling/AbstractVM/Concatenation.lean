import AbstractVM.Denotation
import AbstractVM.Report
/-!
# One source file after another

The lexer counts lines and the executor goes through a list, so a file made of two is the one
program and then the other, its line numbers raised.

| here | what it says of the source |
| --- | --- |
| `instrAt_raise`, `numbered_raise` | a line number goes into an instruction and nowhere else |
| `frontEnd_append`, `clean_append` | `lexicalAnalisys` and `parse` on two files |
| `Command.run_raise` | nor does it matter to `execute` |

Main result: `run_concatenation`.
-/

namespace AbstractVM

open DecimalText (Text)
open Machine

/-! ## The front end -/

/-- The instruction of a line that has moved down by `n` lines. -/
def ParsedInstr.raise {P : Type} (n : ℕ) (i : ParsedInstr P) : ParsedInstr P :=
  { i with line := i.line + n }

theorem parseToken_raise (t : LexToken) (k : ℕ) :
    (parseToken { t with line := t.line + k }).1 = (parseToken t).1.raise k := by
  obtain ⟨w, ty, l, n⟩ := t
  unfold parseToken
  simp only [tryPush_fst]
  split
  · rfl
  · split <;> rfl

theorem instrAt_raise (line : Text) (n k : ℕ) :
    instrAt (line, n + k) = (instrAt (line, n)).raise k := by
  unfold instrAt
  simp only
  rw [lexLine_fst (n + k), lexLine_fst n]
  exact parseToken_raise { (lexLine 0 line).1 with line := n } k

theorem numbered_raise (n k : ℕ) (ls : List Text) :
    numbered (n + k) ls = (numbered n ls).map fun p => (p.1, p.2 + k) := by
  induction ls generalizing n with
  | nil => rfl
  | cons line ls ih =>
    have ih' := ih (n + 1)
    rw [Nat.add_right_comm] at ih'
    rw [numbered_cons, numbered_cons]
    split
    · exact ih'
    · rw [List.map_cons, ← ih', Nat.add_right_comm]

section
variable {P : Text} (hP : WholeLines P) (Q : Text)
include hP

theorem programLines_append :
    programLines false (P ++ Q) = programLines false P ++
      (programLines false Q).map fun p => (p.1, p.2 + (Cpp.lines P).length) := by
  unfold programLines
  rw [readLines_file, readLines_file, readLines_file, lines_wholeLines hP, numbered_append]
  exact congrArg _ (numbered_raise 0 _ _)

/-- **Two files give two programs**, the numbers of the second raised by the lines of the first. -/
theorem frontEnd_append :
    (frontEnd false (P ++ Q)).1 = (frontEnd false P).1 ++
      (frontEnd false Q).1.map (ParsedInstr.raise (Cpp.lines P).length) := by
  simp only [frontEnd_eq, programLines_append hP, List.map_append, List.map_map]
  congr 1
  exact List.map_congr_left fun p _ => instrAt_raise p.1 p.2 _

/-- Both are accepted or the file is not. -/
theorem clean_append :
    (frontEnd false (P ++ Q)).2 = [] ↔ (frontEnd false P).2 = [] ∧ (frontEnd false Q).2 = [] := by
  rw [clean_iff, clean_iff, clean_iff, programLines_append hP]
  simp only [List.mem_append, or_imp, forall_and, List.forall_mem_map, lexErrors_eq, parseErrors_eq,
    List.map_eq_nil_iff]
  exact and_and_and_comm

end

/-! ## The executor -/

namespace Command

def Line.raise {C : Type} (n : ℕ) (l : Line C) : Line C := { l with number := l.number + n }

/-- The numbers of the lines are nothing to a run. -/
theorem run_raise {C : Type} {N : Numbers C} (n : ℕ) (ls : List (Line C)) (s : State C) :
    run N (ls.map (Line.raise n)) s = (run N ls s).map (Line.raise n) :=
  run_map (g := Line.raise n) (fun _ => rfl) ls s

/-- The commands of two files. -/
theorem frontEnd_lines_append {P Q : Text} (hP : WholeLines P) {ls ls' : List (Line Cell)}
    (h : frontEnd false P = (ls.map Line.instr, []))
    (h' : frontEnd false Q = (ls'.map Line.instr, [])) :
    frontEnd false (P ++ Q) =
      ((ls ++ ls'.map (Line.raise (Cpp.lines P).length)).map Line.instr, []) := by
  refine Prod.ext ?_ ?_
  · rw [frontEnd_append hP, h, h']
    simp only [List.map_append, List.map_map]
    rfl
  · rw [clean_append hP, h, h']
    exact ⟨rfl, rfl⟩

end Command

/-- **A file made of two.** It is accepted exactly when both are; it then is the commands of the
first followed by those of the second, their numbers raised; and its run is the run of the first and then, if this came to
its end without an `exit` or a failure, the run of the second from the state reached. -/
theorem run_concatenation {P Q : Text} (hP : WholeLines P) :
    ((frontEnd false (P ++ Q)).2 = [] ↔ (frontEnd false P).2 = [] ∧ (frontEnd false Q).2 = []) ∧
      ((frontEnd false (P ++ Q)).2 = [] → ∃ ls ls' : List (Command.Line Cell),
        frontEnd false P = (ls.map Command.Line.instr, []) ∧
          frontEnd false Q = (ls'.map Command.Line.instr, []) ∧
          frontEnd false (P ++ Q) =
            ((ls ++ ls'.map (Command.Line.raise (Cpp.lines P).length)).map Command.Line.instr, []) ∧
          run false (P ++ Q) =
            Command.report (ls ++ ls'.map (Command.Line.raise (Cpp.lines P).length))
              ((Command.run Cell.numbers ls Command.State.init).andThen fun t =>
                (Command.run Cell.numbers ls' t).map (Command.Line.raise (Cpp.lines P).length))) := by
  refine ⟨clean_append hP Q, fun h => ?_⟩
  obtain ⟨hcP, hcQ⟩ := (clean_append hP Q).1 h
  obtain ⟨ls, hls⟩ := Command.exists_lines hcP
  obtain ⟨ls', hls'⟩ := Command.exists_lines hcQ
  have happend := Command.frontEnd_lines_append hP hls hls'
  refine ⟨ls, ls', hls, hls', happend, ?_⟩
  rw [run_of_lines happend]
  unfold Command.run
  rw [run_append]
  congr 2
  funext t
  exact Command.run_raise _ ls' t

/-- A sum in the first file, and the second goes on with it. -/
theorem run_concatenation_sum :
    ∃ ls ls' : List (Command.Line Cell),
      frontEnd false "push int8(1)\npush int8(2)\nadd\n".toList =
          (ls.map Command.Line.instr, []) ∧
        frontEnd false "dump\nexit\n".toList = (ls'.map Command.Line.instr, []) ∧
        frontEnd false ("push int8(1)\npush int8(2)\nadd\n".toList ++ "dump\nexit\n".toList) =
          ((ls ++ ls'.map (Command.Line.raise 3)).map Command.Line.instr, []) ∧
        run false ("push int8(1)\npush int8(2)\nadd\n".toList ++ "dump\nexit\n".toList) =
          Command.report (ls ++ ls'.map (Command.Line.raise 3))
            ((Command.run Cell.numbers ls Command.State.init).andThen fun t =>
              (Command.run Cell.numbers ls' t).map (Command.Line.raise 3)) :=
  (run_concatenation (Or.inr ⟨"push int8(1)\npush int8(2)\nadd".toList, by decide⟩)).2
    (by decide +kernel)

end AbstractVM
