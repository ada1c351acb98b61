import AbstractVM.Executable
/-!
# The memory does not matter

`main` is the same function over every memory that gives back what it was given (`Reads`): mapping
each pointer to its operand turns a run over such a memory into the run over plain operands.

Main result: `avm_erase`.
-/

namespace AbstractVM

open DecimalText (Text)
open CommandsExecutor

section
variable {P M : Type} (μ : Memory P M)

/-- A new operand is read back as it was created. -/
def Memory.Reads : Prop := ∀ o m, μ.deref (μ.new o m).1 = o

/-- Pointers replaced by their operands. -/
def VM.erase (s : VM P M) : VM Operand Unit :=
  ⟨s.stack_.map (Option.map μ.deref), s.exit_, s.right_.map μ.deref, s.left_.map μ.deref, s.cout, ()⟩

def ParsedInstr.erase (i : ParsedInstr P) : ParsedInstr Operand :=
  ⟨i.instruction, i.operandType, i.operand.map μ.deref, i.line⟩

def eraseResult : Result P M → Result Operand Unit
  | .ok s => .ok (s.erase μ)
  | .error (f, s) => .error (f, s.erase μ)

def eraseEnd (r : ExecEnd P M) : ExecEnd Operand Unit :=
  ⟨r.ending, r.line, r.vm.erase μ, r.instructions.map (ParsedInstr.erase μ)⟩

variable {μ}

/-- `sort` permutes pointers as it permutes their operands. -/
theorem listSort_erase (l : List (Option P)) :
    ListSort.listSort (compareForStack plain) (l.map (Option.map μ.deref)) =
      (ListSort.listSort (compareForStack μ) l).map fun l' => l'.map (Option.map μ.deref) := by
  have hlt : ∀ a a' b b', Option.map μ.deref a = a' → Option.map μ.deref b = b' →
      compareForStack μ a b = compareForStack plain a' b' := by
    rintro a _ b _ rfl rfl
    cases a <;> cases b <;> rfl
  have hl : List.Forall₂ (fun a a' => Option.map μ.deref a = a') l (l.map (Option.map μ.deref)) :=
    List.forall₂_map_right_iff.2 (List.forall₂_same.2 fun _ _ => rfl)
  have hrel := ListSort.listSort_rel hlt hl
  cases h : ListSort.listSort (compareForStack μ) l with
  | error e =>
    rw [h] at hrel
    cases h' : ListSort.listSort (compareForStack plain) (l.map (Option.map μ.deref)) with
    | error e' => rw [h'] at hrel; cases hrel; rfl
    | ok m' => rw [h'] at hrel; cases hrel
  | ok m =>
    rw [h] at hrel
    cases h' : ListSort.listSort (compareForStack plain) (l.map (Option.map μ.deref)) with
    | error e' => rw [h'] at hrel; cases hrel
    | ok m' =>
      rw [h'] at hrel
      have hm : List.Forall₂ (fun a a' => Option.map μ.deref a = a') m m' := hrel
      have : m.map (Option.map μ.deref) = m' := by
        rw [← List.forall₂_eq_eq_eq, List.forall₂_map_left_iff]
        exact hm
      rw [← this]
      rfl

theorem erase_newPtr (hμ : μ.Reads) (o : Option Operand) (m : M) :
    (μ.newPtr o m).1.map μ.deref = o := by
  cases o with
  | none => rfl
  | some o => exact congrArg some (hμ o m)

theorem assert_erase (operand : Option P) (s : VM P M) :
    CommandsExecutor.assert plain (operand.map μ.deref) (s.erase μ) =
      eraseResult μ (CommandsExecutor.assert μ operand s) := by
  obtain ⟨stack, exit, right, left, out, m⟩ := s
  match stack, operand with
  | [], none => rfl
  | [], some _ => rfl
  | none :: _, _ => rfl
  | some _ :: _, none => rfl
  | some t :: rest, some o =>
    unfold CommandsExecutor.assert
    simp only [VM.erase, List.map_cons, Option.map_some, plain, id]
    cases Operand.eq (μ.deref t) (μ.deref o) with
    | error f => rfl
    | ok b => cases b <;> rfl

theorem arithmetic_erase (hμ : μ.Reads) (name : Text)
    (op : Operand → Operand → Except Fault (Option Operand)) (s : VM P M) :
    arithmetic plain name op (s.erase μ) = eraseResult μ (arithmetic μ name op s) := by
  obtain ⟨stack, exit, right, left, out, m⟩ := s
  match stack with
  | [] => rfl
  | [_] => rfl
  | none :: none :: _ => rfl
  | none :: some _ :: _ => rfl
  | some _ :: none :: _ => rfl
  | some r :: some l :: rest =>
    unfold arithmetic
    simp only [VM.erase, List.map_cons, Option.map_some, plain, id]
    cases op (μ.deref l) (μ.deref r) with
    | error f => rfl
    | ok result =>
      have hnew := erase_newPtr hμ result m
      simp only [eraseResult, VM.erase, VM.delete, List.map_cons, hnew, Option.map_none]
      cases result <;> rfl

theorem print_erase (s : VM P M) :
    CommandsExecutor.print plain (s.erase μ) = eraseResult μ (CommandsExecutor.print μ s) := by
  obtain ⟨stack, exit, right, left, out, m⟩ := s
  match stack with
  | [] => rfl
  | none :: _ => rfl
  | some t :: rest =>
    unfold CommandsExecutor.print
    simp only [VM.erase, List.map_cons, Option.map_some, plain, id]
    split
    · rfl
    · cases Cpp.stoi (μ.deref t).toString with
      | error e => rfl
      | ok z =>
        simp only
        split <;> rfl

theorem dump_erase (s : VM P M) :
    CommandsExecutor.dump plain (s.erase μ) = eraseResult μ (CommandsExecutor.dump μ s) := by
  unfold CommandsExecutor.dump
  simp only [eraseResult, VM.erase, List.flatMap_map]
  congr 3
  refine List.flatMap_congr fun p _ => ?_
  cases p <;> rfl

theorem sort_erase (s : VM P M) :
    CommandsExecutor.sort plain (s.erase μ) = eraseResult μ (CommandsExecutor.sort μ s) := by
  unfold CommandsExecutor.sort
  simp only [VM.erase, ← List.map_reverse, listSort_erase]
  cases ListSort.listSort (compareForStack μ) s.stack_.reverse with
  | error f => rfl
  | ok l => simp [Except.map, eraseResult, VM.erase]

/-- **Step lemma**: one instruction, operands for pointers. -/
theorem execInstr_erase (hμ : μ.Reads) (i : ParsedInstr P) (s : VM P M) :
    execInstr plain (i.erase μ) (s.erase μ) = eraseResult μ (execInstr μ i s) := by
  obtain ⟨op, type, operand, line⟩ := i
  cases op with
  | PUSH => rfl
  | ASSERT => exact assert_erase operand s
  | POP =>
    obtain ⟨stack, exit, right, left, out, m⟩ := s
    cases stack with
    | nil => rfl
    | cons top rest => cases top <;> rfl
  | SWAP =>
    obtain ⟨stack, exit, right, left, out, m⟩ := s
    match stack with
    | [] => rfl
    | [_] => rfl
    | _ :: _ :: _ => rfl
  | DUMP => exact dump_erase s
  | ADD => exact arithmetic_erase hμ _ _ s
  | SUB => exact arithmetic_erase hμ _ _ s
  | MUL => exact arithmetic_erase hμ _ _ s
  | DIV => exact arithmetic_erase hμ _ _ s
  | MOD => exact arithmetic_erase hμ _ _ s
  | PRINT => exact print_erase s
  | SORT => exact sort_erase s
  | EXIT => rfl
  | NONE => rfl

/-- **Run lemma**: the `try` block of `execute`. -/
theorem executeLoop_erase (hμ : μ.Reads) (line : ℕ) (is : List (ParsedInstr P)) (s : VM P M) :
    executeLoop plain line (is.map (ParsedInstr.erase μ)) (s.erase μ) =
      eraseEnd μ (executeLoop μ line is s) := by
  induction is generalizing line s with
  | nil => rfl
  | cons i is ih =>
    simp only [List.map_cons, executeLoop, execInstr_erase hμ]
    cases execInstr μ i s with
    | error e =>
      obtain ⟨f, t⟩ := e
      simp only [eraseResult, eraseEnd, List.map_cons]
      have hargs : (argOps plain (i.erase μ).instruction).isSome =
          (argOps μ i.instruction).isSome := by
        obtain ⟨op, type, operand, n⟩ := i
        cases op <;> rfl
      rw [hargs]
      split <;> rfl
    | ok t =>
      simp only [eraseResult]
      have hexit : (t.erase μ).exit_ = t.exit_ := rfl
      rw [hexit]
      split
      · rfl
      · have hrec := ih i.line t
        simp only [ParsedInstr.erase] at hrec ⊢
        rw [hrec]
        rfl

theorem createOperands_erase (hμ : μ.Reads) (is : List (ParsedInstr Operand)) (m : M) :
    (createOperands μ is m).1.map (ParsedInstr.erase μ) = is := by
  induction is generalizing m with
  | nil => rfl
  | cons i is ih =>
    simp only [createOperands, List.map_cons, ih, ParsedInstr.erase, erase_newPtr hμ]

/-- **The run over any memory is the run over plain operands.** -/
theorem avm_erase (hμ : μ.Reads) (m : M) (cin : Bool) (input : Text) :
    (avm μ m cin input).1 = run cin input := by
  rw [run_eq]
  unfold avm
  simp only
  split
  · rfl
  · have hloop := executeLoop_erase hμ 0
      (createOperands μ (frontEnd cin input).1 m).1 (VM.init (createOperands μ (frontEnd cin input).1 m).2)
    rw [createOperands_erase hμ] at hloop
    have hout : outcome (execute plain (frontEnd cin input).1 ()) =
        outcome (execute μ (createOperands μ (frontEnd cin input).1 m).1
          (createOperands μ (frontEnd cin input).1 m).2) := congrArg outcome hloop
    rw [hout]
    cases outcome (execute μ (createOperands μ (frontEnd cin input).1 m).1
      (createOperands μ (frontEnd cin input).1 m).2) <;> rfl

end

end AbstractVM
