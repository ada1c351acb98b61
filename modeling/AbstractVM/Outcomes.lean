import AbstractVM.Executable
/-!
# How a run of `avm` ends

| here | there |
| --- | --- |
| `Rejected` | the `if` of `main` (`main.cpp:69-72`): every recorded error printed, nothing executed |
| `Exited` | `execute` returns true (`CommandsExecutor.cpp:230-235`) |
| `Failed` | the `catch` of `execute` (`:239-246`), or the `NoExitException` after the loop |
| `Contract` | one of the three, and no foreign exception out of an instruction |

Main result: `contract_iff`. The only way out of the contract is a comparison, by `assert` or by
`sort`, whose right side is `Unreadable`.
-/

namespace AbstractVM

open DecimalText (Text)
open CommandsExecutor

/-- At least one line was rejected: nothing is executed, the recorded errors are all printed. -/
def Rejected (cin : Bool) (input : Text) (o : Outcome) : Prop :=
  (frontEnd cin input).2 ≠ [] ∧ ∃ errors : List Error, errors.Perm (frontEnd cin input).2 ∧
    o = .exited [] (errors.flatMap fun error => endl (builtErrorMessage error)) 1

/-- Instructions are executed up to an `exit`. -/
def Exited (cin : Bool) (input : Text) (o : Outcome) : Prop :=
  (frontEnd cin input).2 = [] ∧ ∃ done i rest s, (frontEnd cin input).1 = done ++ i :: rest ∧
    Executes plain (VM.init ()) done s ∧ i.instruction = .EXIT ∧ o = .exited s.cout [] 0

/-- Instructions are executed up to one that throws, or all of them without an `exit`: one error
line, with the number of the line of the instruction, after the output of those before it. -/
def Failed (cin : Bool) (input : Text) (o : Outcome) : Prop :=
  (frontEnd cin input).2 = [] ∧
    ((∃ done i rest s e s' line, (frontEnd cin input).1 = done ++ i :: rest ∧
        Executes plain (VM.init ()) done s ∧ execInstr plain i s = .error (.avm e, s') ∧
        (Cpp.lines input)[i.line - 1]? = some line ∧ i = instrAt (line, i.line) ∧
        o = .exited s.cout (endl (builtErrorMessage (e.pushError i.line))) 1) ∨
      ∃ s, Executes plain (VM.init ()) (frontEnd cin input).1 s ∧
        o = .exited s.cout (endl (builtErrorMessage (NoExitException.pushError
          (((frontEnd cin input).1.getLast?.map (·.line)).getD 0)))) 1)

def ExactlyOne (a b c : Prop) : Prop := (a ∧ ¬ b ∧ ¬ c) ∨ (¬ a ∧ b ∧ ¬ c) ∨ (¬ a ∧ ¬ b ∧ c)

/-- A run ends in exactly one of the three ways, and no instruction on it throws anything but an
`AVMException`. -/
def Contract (cin : Bool) (input : Text) : Prop :=
  ExactlyOne (Rejected cin input (run cin input)) (Exited cin input (run cin input))
      (Failed cin input (run cin input)) ∧
    ((frontEnd cin input).2 = [] → ∀ done i rest s f s',
      (frontEnd cin input).1 = done ++ i :: rest → Executes plain (VM.init ()) done s →
      execInstr plain i s = .error (f, s') → ∃ e, f = .avm e)

/-- Every comparison the run makes has a right side that can be read. -/
def ComparesReadable (cin : Bool) (input : Text) : Prop :=
  (frontEnd cin input).2 = [] → ∀ done i rest s, (frontEnd cin input).1 = done ++ i :: rest →
    Executes plain (VM.init ()) done s → ¬ UnreadableStep i s

theorem sortErrors_perm (errors : List Error) : (sortErrors errors).Perm errors := by
  unfold sortErrors
  split
  · rename_i l hl
    exact ListSort.listSort_perm hl
  · rename_i e _
    cases e

theorem lastLine_eq {P : Type} (line : ℕ) (is : List (ParsedInstr P)) :
    lastLine line is = (is.getLast?.map (·.line)).getD line := by
  induction is generalizing line with
  | nil => rfl
  | cons i is ih =>
    rw [lastLine, ih]
    cases is with
    | nil => rfl
    | cons j is => simp [List.getLast?_cons]

/-- The number of an instruction is the place of its line in the file. -/
theorem instr_physical {cin : Bool} {input : Text} {i : ParsedInstr Operand}
    (h : i ∈ (frontEnd cin input).1) :
    ∃ line, (Cpp.lines input)[i.line - 1]? = some line ∧ i = instrAt (line, i.line) := by
  rw [frontEnd_eq] at h
  obtain ⟨p, hp, rfl⟩ := List.mem_map.1 h
  rw [instrAt_line]
  obtain ⟨-, hget, -⟩ := mem_numbered hp
  refine ⟨p.1, ?_, rfl⟩
  cases cin with
  | false => exact hget
  | true =>
    have hpre : readLines true (Cpp.lines input) <+: Cpp.lines input := List.takeWhile_prefix _
    obtain ⟨tail, htail⟩ := hpre
    rw [← htail]
    exact (List.getElem?_append_left (List.getElem?_eq_some_iff.1 hget).1).trans hget

section
variable {cin : Bool} {input : Text}

/-- A rejected program meets the contract. -/
theorem contract_of_rejected (h : (frontEnd cin input).2 ≠ []) : Contract cin input := by
  have hrun : run cin input = .exited [] (printErrors (frontEnd cin input).2) 1 := by
    rw [run_eq, if_pos h]
  refine ⟨Or.inl ⟨⟨h, _, sortErrors_perm _, hrun⟩, ?_, ?_⟩, fun hc => absurd hc h⟩
  · rintro ⟨hc, -⟩
    exact h hc
  · rintro ⟨hc, -⟩
    exact h hc

/-- The exit status, unless the process was terminated. -/
def Outcome.status? : Outcome → Option ℕ
  | .exited _ _ status => some status
  | .terminated _ _ => none

variable {o : Outcome}

theorem Rejected.status (h : Rejected cin input o) : o.status? = some 1 := by
  obtain ⟨-, errors, -, rfl⟩ := h
  rfl

theorem Exited.status (h : Exited cin input o) : o.status? = some 0 := by
  obtain ⟨-, done, i, rest, s, -, -, -, rfl⟩ := h
  rfl

theorem Failed.status (h : Failed cin input o) : o.status? = some 1 := by
  rcases h with ⟨-, ⟨done, i, rest, s, e, s', line, -, -, -, -, -, rfl⟩ | ⟨s, -, rfl⟩⟩
  · rfl
  · rfl

/-- Whether errors were recorded, and the status, tell the three ways apart. -/
theorem exactlyOne_of_exited (h : Exited cin input o) :
    ExactlyOne (Rejected cin input o) (Exited cin input o) (Failed cin input o) := by
  refine Or.inr (Or.inl ⟨fun hr => hr.1 h.1, h, fun hf => ?_⟩)
  have hne := h.status.symm.trans hf.status
  cases hne

theorem exactlyOne_of_failed (h : Failed cin input o) :
    ExactlyOne (Rejected cin input o) (Exited cin input o) (Failed cin input o) := by
  refine Or.inr (Or.inr ⟨fun hr => hr.1 h.1, fun he => ?_, h⟩)
  have hne := he.status.symm.trans h.status
  cases hne

/-- A terminated process ended in none of the three ways. -/
theorem not_exactlyOne_of_terminated (h : o.status? = none) :
    ¬ ExactlyOne (Rejected cin input o) (Exited cin input o) (Failed cin input o) := by
  rintro (⟨hr, -⟩ | ⟨-, he, -⟩ | ⟨-, -, hf⟩)
  · cases h.symm.trans hr.status
  · cases h.symm.trans he.status
  · cases h.symm.trans hf.status

/-- What an instruction of a clean program throws. -/
theorem throws_cases (h : (frontEnd cin input).2 = []) {done rest : List (ParsedInstr Operand)}
    {i : ParsedInstr Operand} {s s' : VM Operand Unit} {f : Fault}
    (hsplit : (frontEnd cin input).1 = done ++ i :: rest)
    (hex : Executes plain (VM.init ()) done s) (hi : execInstr plain i s = .error (f, s')) :
    (∃ e, f = .avm e ∧ ¬ UnreadableStep i s) ∨ (f = .std .out_of_range ∧ UnreadableStep i s) := by
  obtain ⟨cells, hcells⟩ := holds_of_reachable h hsplit hex
  exact (execInstr_error hi).avm_or_unreadable (wellFormed_of_frontEnd h i (by rw [hsplit]; simp))
    hcells

theorem contract_of_readable (h : (frontEnd cin input).2 = [])
    (hread : ∀ done i rest s, (frontEnd cin input).1 = done ++ i :: rest →
      Executes plain (VM.init ()) done s → ¬ UnreadableStep i s) : Contract cin input := by
  have hthrows : ∀ done i rest s f s', (frontEnd cin input).1 = done ++ i :: rest →
      Executes plain (VM.init ()) done s → execInstr plain i s = .error (f, s') → ∃ e, f = .avm e := by
    intro done i rest s f s' hsplit hex hi
    rcases throws_cases h hsplit hex hi with ⟨e, he, -⟩ | ⟨-, hun⟩
    · exact ⟨e, he⟩
    · exact absurd hun (hread done i rest s hsplit hex)
  refine ⟨?_, fun _ => hthrows⟩
  have hrun : run cin input = outcome (executeLoop plain 0 (frontEnd cin input).1 (VM.init ())) := by
    rw [run_eq, if_neg (not_not.2 h)]
    rfl
  rcases executeLoop_cases 0 (frontEnd cin input).1 (VM.init ()) with
    ⟨done, i, rest, t, t', hsplit, hex, hi, hflag, heq⟩ |
    ⟨done, i, rest, t, f, t', hsplit, hex, hi, heq⟩ | ⟨t, hex, heq⟩
  · have hexit : i.instruction = .EXIT := by
      rcases (execInstr_ok (μ := plain) hi).exit_iff.1 hflag with hc | hc
      · rw [hex.exit_eq rfl] at hc
        cases hc
      · exact hc
    have hcout : t'.cout = t.cout := by
      simp only [execInstr, hexit, argOps, noArgOps, CommandsExecutor.exit, Except.ok.injEq] at hi
      rw [← hi]
    refine exactlyOne_of_exited ⟨h, done, i, rest, t, hsplit, hex, hexit, ?_⟩
    rw [hrun, heq, ← hcout]
    rfl
  · obtain ⟨e, rfl⟩ := hthrows done i rest t f t' hsplit hex hi
    have hmem : i ∈ (frontEnd cin input).1 := by rw [hsplit]; simp
    obtain ⟨line, hline, hat⟩ := instr_physical hmem
    refine exactlyOne_of_failed ⟨h, Or.inl ⟨done, i, rest, t, e, t', line, hsplit, hex, hi, hline,
      hat, ?_⟩⟩
    rw [hrun, heq, ← (execInstr_error hi).cout_eq]
    rfl
  · refine exactlyOne_of_failed ⟨h, Or.inr ⟨t, hex, ?_⟩⟩
    rw [hrun, heq, ← lastLine_eq]
    rfl

/-- A clean program that makes an unreadable comparison is stopped by `std::out_of_range`. -/
theorem terminated_of_unreadable (h : (frontEnd cin input).2 = [])
    {done rest : List (ParsedInstr Operand)} {i : ParsedInstr Operand} {s : VM Operand Unit}
    (hsplit : (frontEnd cin input).1 = done ++ i :: rest)
    (hex : Executes plain (VM.init ()) done s) (hun : UnreadableStep i s) :
    run cin input = .terminated s.cout (.std .out_of_range) := by
  obtain ⟨cells, hcells⟩ := holds_of_reachable h hsplit hex
  have hwf : WellFormed i := wellFormed_of_frontEnd h i (by rw [hsplit]; simp)
  rcases execInstr_cases (μ := plain) i s with ⟨s', hi, hstep⟩ | ⟨f, s', hi, hfail⟩
  · exact absurd hun (hstep.not_unreadable hwf hcells)
  · rcases hfail.avm_or_unreadable hwf hcells with ⟨e, -, hno⟩ | ⟨rfl, -⟩
    · exact absurd hun hno
    · rw [run_eq, if_neg (not_not.2 h), execute, hsplit, executeLoop_append hex]
      simp only [executeLoop, hi, outcome]
      rw [hfail.cout_eq]

/-- **The contract holds exactly of the runs whose comparisons can all be read.** -/
theorem contract_iff : Contract cin input ↔ ComparesReadable cin input := by
  constructor
  · rintro ⟨hone, -⟩ h done i rest s hsplit hex hun
    have hrun := terminated_of_unreadable h hsplit hex hun
    refine not_exactlyOne_of_terminated ?_ hone
    rw [hrun]
    rfl
  · intro hread
    by_cases h : (frontEnd cin input).2 = []
    · exact contract_of_readable h (hread h)
    · exact contract_of_rejected h

end

/-- `std::numeric_limits<double>::max()` prints rounded up, out of the range of `stod`. -/
theorem not_contract_max : ¬ Contract false
    "push double(1.7976931348623157e308)\nassert double(1.7976931348623157e308)\nexit\n".toList := by
  have hrun : run false
      "push double(1.7976931348623157e308)\nassert double(1.7976931348623157e308)\nexit\n".toList =
        .terminated [] (.std .out_of_range) := by decide +kernel
  rintro ⟨hone, -⟩
  refine not_exactlyOne_of_terminated ?_ hone
  rw [hrun]
  rfl

end AbstractVM
