import AbstractVM.Execution
import AbstractVM.FrontEnd
import AbstractVM.Conversions
/-!
# A clean program runs on cells

After a front end without errors every instruction is `WellFormed`. The machine then works on a
list of cells (`Holds`): every instruction keeps it so, and the only exception that is not an
`AVMException` comes out of a comparison whose right side is `Unreadable`.

Main results: `holds_of_reachable` (every reachable state holds cells), `Fails.avm_or_unreadable`
and `Step.not_unreadable` (what a failing instruction throws) and `executable_of_clean`.
-/

namespace AbstractVM

open DecimalText (Text)
open CommandsExecutor

/-- The stack is this list of cells, the top first. -/
def Holds (s : VM Operand Unit) (cells : List Cell) : Prop :=
  s.stack_ = cells.map fun c => some c.operand

/-- A nonempty stack of cells has a cell on top. -/
theorem Holds.cons {s : VM Operand Unit} {cells : List Cell} (h : Holds s cells)
    {top : Option Operand} {rest : List (Option Operand)} (hs : s.stack_ = top :: rest) :
    ∃ c cs, cells = c :: cs ∧ top = some c.operand ∧ rest = cs.map fun c => some c.operand := by
  unfold Holds at h
  rw [hs] at h
  cases cells with
  | nil => cases h
  | cons c cs =>
    obtain ⟨rfl, rfl⟩ := List.cons.inj h
    exact ⟨c, cs, rfl, rfl, rfl⟩

/-- Two operands on the stack are two cells. -/
theorem Holds.cons₂ {s : VM Operand Unit} {cells : List Cell} (h : Holds s cells)
    {top below : Option Operand} {rest : List (Option Operand)}
    (hs : s.stack_ = top :: below :: rest) :
    ∃ c d cs, cells = c :: d :: cs ∧ top = some c.operand ∧ below = some d.operand ∧
      rest = cs.map fun c => some c.operand := by
  obtain ⟨c, cs, rfl, ht, hrest⟩ := h.cons hs
  cases cs with
  | nil => cases hrest
  | cons d cs =>
    obtain ⟨rfl, rfl⟩ := List.cons.inj hrest
    exact ⟨c, d, cs, rfl, ht, rfl, rfl⟩

theorem Holds.ne_none {s : VM Operand Unit} {cells : List Cell} (h : Holds s cells) :
    ∀ cell ∈ s.stack_, cell ≠ none := by
  intro cell hcell
  rw [h] at hcell
  obtain ⟨c, -, rfl⟩ := List.mem_map.1 hcell
  simp

/-- A permutation of cells is a list of cells. -/
theorem exists_cells_of_perm {l : List (Option Operand)} {cells : List Cell}
    (h : l.Perm (cells.map fun c => some c.operand)) :
    ∃ cells' : List Cell, l = cells'.map fun c => some c.operand := by
  have hall : ∀ x ∈ l, ∃ c : Cell, some c.operand = x := by
    intro x hx
    obtain ⟨c, -, hc⟩ := List.mem_map.1 (h.mem_iff.1 hx)
    exact ⟨c, hc⟩
  clear h
  induction l with
  | nil => exact ⟨[], rfl⟩
  | cons x l ih =>
    obtain ⟨hx, hl⟩ := List.forall_mem_cons.1 hall
    obtain ⟨c, rfl⟩ := hx
    obtain ⟨cs, rfl⟩ := ih hl
    exact ⟨c :: cs, rfl⟩

section
variable {i : ParsedInstr Operand} {s s' : VM Operand Unit} {cells : List Cell}

/-- **Step lemma**: a well-formed instruction takes cells to cells. -/
theorem Holds.step (hi : WellFormed i) (h : Holds s cells) (hstep : Step plain i s s') :
    ∃ cells', Holds s' cells' := by
  cases hstep with
  | push hop =>
    obtain ⟨c, hc, -⟩ := hi.operand (Or.inl hop)
    refine ⟨c :: cells, ?_⟩
    show i.operand :: s.stack_ = _
    rw [hc, h]
    rfl
  | assert hop hs ho heq => exact ⟨cells, h⟩
  | pop hop hs =>
    obtain ⟨c, cs, -, -, hrest⟩ := h.cons hs
    exact ⟨cs, hrest⟩
  | swap hop hs =>
    obtain ⟨c, d, cs, -, hc, hd, hrest⟩ := h.cons₂ hs
    refine ⟨d :: c :: cs, ?_⟩
    show _ :: _ :: _ = _
    rw [hc, hd, hrest]
    rfl
  | dump hop out => exact ⟨cells, h⟩
  | arith op hop hs hres =>
    obtain ⟨r, l, cs, -, hr, hl, hrest⟩ := h.cons₂ hs
    cases hr
    cases hl
    rcases op.operator_cell l r with ⟨e, he, -⟩ | ⟨c, -, hc⟩
    · have := hres.symm.trans he
      cases this
    · have := hres.symm.trans hc
      cases this
      refine ⟨c :: cs, ?_⟩
      show _ :: _ = _
      rw [hrest]
      rfl
  | print hop hs out => exact ⟨cells, h⟩
  | @sort hop l hl =>
    have hperm : l.reverse.Perm (cells.map fun c => some c.operand) := by
      rw [← h]
      exact (List.reverse_perm _).trans ((ListSort.listSort_perm hl).trans (List.reverse_perm _))
    exact exists_cells_of_perm hperm
  | exit hop => exact ⟨cells, h⟩
  | none hop => exact absurd hop hi.known

/-- **Run lemma**: so does every run of well-formed instructions. -/
theorem holds_of_executes {is : List (ParsedInstr Operand)} (hwf : ∀ i ∈ is, WellFormed i)
    (h : Executes plain s is s') (hs : Holds s cells) : ∃ cells', Holds s' cells' := by
  have hinv : ∀ (_ : List (ParsedInstr Operand)) i u v, i ∈ is → (∃ cells', Holds u cells') →
      Step plain i u v → v.exit_ = false → ∃ cells', Holds v cells' := by
    rintro - i u v hi ⟨cells', hu⟩ hstep -
    exact hu.step (hwf i hi) hstep
  exact h.invariant ⟨cells, hs⟩ hinv

/-- The comparisons an instruction makes whose right side cannot be read. -/
def UnreadableStep (i : ParsedInstr Operand) (s : VM Operand Unit) : Prop :=
  match i.instruction, s.stack_, i.operand with
  | .ASSERT, some top :: _, some operand => Unreadable top operand
  | .SORT, stack, _ =>
    ∃ c ∈ ListSort.comparisons (compareForStack plain) stack.reverse,
      ∃ a b, c = (some a, some b) ∧ Unreadable a b
  | _, _, _ => False

theorem unreadableStep_assert (hi : i.instruction = .ASSERT) {top operand : Operand}
    {rest : List (Option Operand)} (hs : s.stack_ = some top :: rest)
    (ho : i.operand = some operand) : UnreadableStep i s ↔ Unreadable top operand := by
  unfold UnreadableStep
  rw [hi, hs, ho]

theorem unreadableStep_sort (hi : i.instruction = .SORT) :
    UnreadableStep i s ↔ ∃ c ∈ ListSort.comparisons (compareForStack plain) s.stack_.reverse,
      ∃ a b, c = (some a, some b) ∧ Unreadable a b := by
  unfold UnreadableStep
  rw [hi]

/-- No other instruction compares. -/
theorem not_unreadableStep (h1 : i.instruction ≠ .ASSERT) (h2 : i.instruction ≠ .SORT) :
    ¬ UnreadableStep i s := by
  unfold UnreadableStep
  split
  · exact absurd ‹_› h1
  · exact absurd ‹_› h2
  · exact id

/-- What a cell prints as an integer is read by `stoi`. -/
theorem stoi_of_int8 {c : Cell} (h : c.tag = .Int8) : ∃ z, Cpp.stoi c.operand.toString = .ok z := by
  rcases c.cases_on with ⟨T, v, hv, rfl⟩ | ⟨T, x, hc, -, -⟩
  · exact ⟨v, stoInt_toString hv.inBits⟩
  · rw [Cell.tag_real hc] at h
    cases T <;> cases h

/-- A comparison of two cells of the stack, as `sort` makes it. -/
theorem compareForStack_cell (a b : Cell) :
    if Unreadable a.operand b.operand then
      compareForStack plain (some a.operand) (some b.operand) = .error (.std .out_of_range)
    else ∃ r, compareForStack plain (some a.operand) (some b.operand) = .ok r :=
  compareWith_cell (fun x y => decide (x < y)) (fun x y => decide (x < y)) a b

/-- The comparison an `assert` makes throws exactly when it is unreadable. -/
theorem Holds.assert_compare (hi : WellFormed i) (h : Holds s cells)
    (hop : i.instruction = .ASSERT) {top operand : Operand} {rest : List (Option Operand)}
    (hs : s.stack_ = some top :: rest) (ho : i.operand = some operand) :
    if Unreadable top operand then Operand.eq top operand = .error (.std .out_of_range)
    else ∃ r, Operand.eq top operand = .ok r := by
  obtain ⟨c, cs, -, hc, -⟩ := h.cons hs
  obtain ⟨d, hd, -⟩ := hi.operand (Or.inr hop)
  cases hc
  cases ho.symm.trans hd
  exact compareWith_cell (fun a b => decide (a = b)) (fun a b => decide (a = b)) c d

/-- So does every comparison a `sort` makes. -/
theorem Holds.sort_compare (h : Holds s cells) {c : Option Operand × Option Operand}
    (hc : c ∈ ListSort.comparisons (compareForStack plain) s.stack_.reverse) :
    ∃ a b : Cell, c = (some a.operand, some b.operand) ∧
      if Unreadable a.operand b.operand then
        compareForStack plain c.1 c.2 = .error (.std .out_of_range)
      else ∃ r, compareForStack plain c.1 c.2 = .ok r := by
  obtain ⟨x, y⟩ := c
  obtain ⟨hx, hy⟩ := ListSort.mem_of_comparisons hc
  rw [h, List.mem_reverse] at hx hy
  obtain ⟨a, -, rfl⟩ := List.mem_map.1 hx
  obtain ⟨b, -, rfl⟩ := List.mem_map.1 hy
  exact ⟨a, b, rfl, compareForStack_cell a b⟩

/-- An operator compares nothing. -/
theorem not_unreadableStep_arith {op : ArithOp} (hop : i.instruction = op.operation) :
    ¬ UnreadableStep i s := by
  apply not_unreadableStep
  · rw [hop]
    cases op <;> decide
  · rw [hop]
    cases op <;> decide

/-- A failing well-formed instruction throws an `AVMException`, unless it makes an unreadable
comparison; then it throws `std::out_of_range`. -/
theorem Fails.avm_or_unreadable (hi : WellFormed i) (h : Holds s cells) {f : Fault}
    (hfail : Fails plain i s f s') :
    (∃ e, f = .avm e ∧ ¬ UnreadableStep i s) ∨ (f = .std .out_of_range ∧ UnreadableStep i s) := by
  cases hfail with
  | emptyAssert hop hs =>
    refine Or.inl ⟨_, rfl, ?_⟩
    unfold UnreadableStep
    rw [hop, hs]
    exact id
  | @falseAssert hop t o rest hs ho heq =>
    refine Or.inl ⟨_, rfl, ?_⟩
    rw [unreadableStep_assert hop hs ho]
    intro hun
    have hcmp := h.assert_compare hi hop hs ho
    rw [if_pos hun] at hcmp
    cases heq.symm.trans hcmp
  | @assertThrows hop t o rest hs ho f heq =>
    have hcmp := h.assert_compare hi hop hs ho
    split at hcmp
    · rename_i hun
      cases heq.symm.trans hcmp
      exact Or.inr ⟨rfl, (unreadableStep_assert hop hs ho).2 hun⟩
    · obtain ⟨r, hr⟩ := hcmp
      cases heq.symm.trans hr
  | nullAssert hop hs ho =>
    obtain ⟨c, cs, -, hc, -⟩ := h.cons hs
    obtain ⟨d, hd, -⟩ := hi.operand (Or.inr hop)
    rcases ho with rfl | ho
    · cases hc
    · cases ho.symm.trans hd
  | emptyPop hop hs => exact Or.inl ⟨_, rfl, not_unreadableStep (by simp [hop]) (by simp [hop])⟩
  | shortSwap hop hs => exact Or.inl ⟨_, rfl, not_unreadableStep (by simp [hop]) (by simp [hop])⟩
  | shortArith op hop hs => exact Or.inl ⟨_, rfl, not_unreadableStep_arith hop⟩
  | arithThrows op hop hs hres =>
    obtain ⟨r, l, cs, -, hr, hl, -⟩ := h.cons₂ hs
    cases hr
    cases hl
    rcases op.operator_cell l r with ⟨e, he, -⟩ | ⟨c, -, hc⟩
    · cases hres.symm.trans he
      exact Or.inl ⟨e, rfl, not_unreadableStep_arith hop⟩
    · cases hres.symm.trans hc
  | nullArith op hop hs hn =>
    obtain ⟨r, l, cs, -, rfl, rfl, -⟩ := h.cons₂ hs
    rcases hn with hn | hn <;> cases hn
  | emptyPrint hop hs => exact Or.inl ⟨_, rfl, not_unreadableStep (by simp [hop]) (by simp [hop])⟩
  | nullPrint hop hs =>
    obtain ⟨c, cs, -, hc, -⟩ := h.cons hs
    cases hc
  | badPrint hop hs part => exact Or.inl ⟨_, rfl, not_unreadableStep (by simp [hop]) (by simp [hop])⟩
  | printThrows hop hs ht he =>
    obtain ⟨c, cs, -, hc, -⟩ := h.cons hs
    cases hc
    obtain ⟨z, hz⟩ := stoi_of_int8 (c := c) ((Cell.getType_operand c).symm.trans ht)
    cases he.symm.trans hz
  | sortThrows hop hl =>
    obtain ⟨c, hc, herr⟩ := ListSort.listSort_error hl
    obtain ⟨a, b, rfl, hcmp⟩ := h.sort_compare hc
    split at hcmp
    · rename_i hun
      cases herr.symm.trans hcmp
      exact Or.inr ⟨rfl, (unreadableStep_sort hop).2 ⟨_, hc, _, _, rfl, hun⟩⟩
    · obtain ⟨r, hr⟩ := hcmp
      cases herr.symm.trans hr

/-- An instruction that makes an unreadable comparison does not end normally. -/
theorem Step.not_unreadable (hi : WellFormed i) (h : Holds s cells) (hstep : Step plain i s s') :
    ¬ UnreadableStep i s := by
  cases hstep with
  | @assert hop t o rest hs ho heq =>
    rw [unreadableStep_assert hop hs ho]
    intro hun
    have hcmp := h.assert_compare hi hop hs ho
    rw [if_pos hun] at hcmp
    cases heq.symm.trans hcmp
  | @sort hop l hl =>
    rw [unreadableStep_sort hop]
    rintro ⟨c, hc, a, b, rfl, hun⟩
    obtain ⟨r, hr⟩ := ListSort.listSort_ok_iff.1 ⟨l, hl⟩ _ hc
    obtain ⟨ca, cb, he, hcmp⟩ := h.sort_compare hc
    cases he
    rw [if_pos hun] at hcmp
    cases hr.symm.trans hcmp
  | arith op hop hs hres => exact not_unreadableStep_arith hop
  | _ hop => exact not_unreadableStep (by simp [hop]) (by simp [hop])

end

/-! ## The program -/

theorem createOperands_plain (is : List (ParsedInstr Operand)) :
    createOperands plain is () = (is, ()) := by
  induction is with
  | nil => rfl
  | cons i is ih =>
    simp only [createOperands]
    rw [ih]
    obtain ⟨op, type, operand, line⟩ := i
    cases operand <;> rfl

/-- `main`, in the memory that remembers nothing. -/
theorem run_eq (cin : Bool) (input : Text) :
    run cin input =
      if (frontEnd cin input).2 ≠ [] then .exited [] (printErrors (frontEnd cin input).2) 1
      else outcome (execute plain (frontEnd cin input).1 ()) := by
  unfold run avm
  simp only [createOperands_plain]
  split
  · rfl
  · cases outcome (execute plain (frontEnd cin input).1 ()) <;> rfl

/-- The empty machine. -/
theorem holds_init : Holds (VM.init ()) [] := rfl

/-- Every reachable state of a clean program holds cells. -/
theorem holds_of_reachable {cin : Bool} {input : Text} (h : (frontEnd cin input).2 = [])
    {done rest : List (ParsedInstr Operand)} (hsplit : (frontEnd cin input).1 = done ++ rest)
    {s : VM Operand Unit} (hs : Executes plain (VM.init ()) done s) :
    ∃ cells, Holds s cells := by
  have hwf := wellFormed_of_frontEnd h
  refine holds_of_executes (fun i hi => hwf i ?_) hs holds_init
  rw [hsplit]
  exact List.mem_append_left _ hi

/-- A known operation is in exactly one of the two dispatch tables. -/
theorem dispatched {op : Operation} (h : op ≠ .NONE) :
    (argOps plain op).isSome = !(noArgOps plain op).isSome := by
  cases op <;> first | rfl | exact absurd rfl h

theorem pairwise_line (cin : Bool) (input : Text) :
    (frontEnd cin input).1.Pairwise fun i j => i.line < j.line := by
  rw [frontEnd_eq]
  refine List.pairwise_map.2 ((numbered_pairwise 0 _).imp fun {p q} hpq => ?_)
  rw [instrAt_line, instrAt_line]
  exact hpq

/-- No execution of a clean program ends in the dereference of a null pointer. -/
theorem ending_ne_nullDeref {cin : Bool} {input : Text} (h : (frontEnd cin input).2 = []) :
    (execute plain (frontEnd cin input).1 ()).ending ≠ .threw .nullDeref := by
  unfold execute
  rcases executeLoop_cases 0 (frontEnd cin input).1 (VM.init ()) with
    ⟨done, i, rest, t, t', -, -, -, -, heq⟩ | ⟨done, i, rest, t, f, t', hsplit, hex, hi, heq⟩ |
    ⟨t, -, heq⟩
  · rw [heq]
    intro hc
    cases hc
  · rw [heq]
    obtain ⟨cells, hcells⟩ := holds_of_reachable h hsplit hex
    have hwf : WellFormed i := wellFormed_of_frontEnd h i (by rw [hsplit]; simp)
    rcases (execInstr_error hi).avm_or_unreadable hwf hcells with ⟨e, rfl, -⟩ | ⟨rfl, -⟩
    · intro hc
      cases hc
    · intro hc
      cases hc
  · rw [heq]
    intro hc
    cases hc

/-- A failing instruction leaves the stack, or what was below the operands of an operator. -/
theorem Fails.stack_suffix {P M : Type} {μ : Memory P M} {i : ParsedInstr P} {s s' : VM P M}
    {f : Fault} (h : Fails μ i s f s') : s'.stack_ <:+ s.stack_ := by
  cases h with
  | arithThrows op hop hs _ => rw [hs]; exact ⟨[_, _], rfl⟩
  | nullArith op hop hs _ => rw [hs]; exact ⟨[_, _], rfl⟩
  | _ => exact List.suffix_refl _

/-- The machine `execute` stops with. -/
theorem no_null_at_end {cin : Bool} {input : Text} (h : (frontEnd cin input).2 = []) :
    ∀ cell ∈ (execute plain (frontEnd cin input).1 ()).vm.stack_, cell ≠ none := by
  have hwf := wellFormed_of_frontEnd h
  unfold execute
  rcases executeLoop_cases 0 (frontEnd cin input).1 (VM.init ()) with
    ⟨done, i, rest, t, t', hsplit, hex, hi, -, heq⟩ | ⟨done, i, rest, t, f, t', hsplit, hex, hi, heq⟩ |
    ⟨t, hex, heq⟩
  · rw [heq]
    obtain ⟨cells, hcells⟩ := holds_of_reachable h hsplit hex
    obtain ⟨cells', hcells'⟩ := hcells.step (hwf i (by rw [hsplit]; simp)) (execInstr_ok hi)
    exact hcells'.ne_none
  · rw [heq]
    obtain ⟨cells, hcells⟩ := holds_of_reachable h hsplit hex
    intro cell hcell
    exact hcells.ne_none cell ((execInstr_error hi).stack_suffix.subset hcell)
  · rw [heq]
    obtain ⟨cells, hcells⟩ := holds_of_executes hwf hex holds_init
    exact hcells.ne_none

/-- **A clean front end yields an executable program.** One instruction for each line that is not
stepped over, in order; its operation known, its operand there exactly when the operation takes
one, its type the one named; each instruction in exactly one dispatch table; and in every state
the execution goes through, no null pointer on the stack or under a `*`. -/
theorem executable_of_clean {cin : Bool} {input : Text} (h : (frontEnd cin input).2 = []) :
    (frontEnd cin input).1.map (·.line) = (programLines cin input).map (·.2) ∧
      ((frontEnd cin input).1.Pairwise fun i j => i.line < j.line) ∧
      (∀ i ∈ (frontEnd cin input).1, i.instruction ≠ .NONE ∧
        (i.instruction.TakesOperand → ∃ o, i.operand = some o ∧ o.getType = i.operandType) ∧
        (¬ i.instruction.TakesOperand → i.operand = none) ∧
        (argOps plain i.instruction).isSome = !(noArgOps plain i.instruction).isSome) ∧
      (∀ done rest s, (frontEnd cin input).1 = done ++ rest →
        Executes plain (VM.init ()) done s → ∀ cell ∈ s.stack_, cell ≠ none) ∧
      (∀ cell ∈ (execute plain (frontEnd cin input).1 ()).vm.stack_, cell ≠ none) ∧
      (execute plain (frontEnd cin input).1 ()).ending ≠ .threw .nullDeref := by
  refine ⟨?_, pairwise_line cin input, ?_, ?_, ?_, ending_ne_nullDeref h⟩
  · rw [frontEnd_eq, List.map_map]
    exact List.map_congr_left fun p _ => instrAt_line p
  · intro i hi
    have hwf := wellFormed_of_frontEnd h i hi
    refine ⟨hwf.known, fun htake => ?_, fun hno => (hwf.noOperand hno).1, dispatched hwf.known⟩
    obtain ⟨c, hc, htag⟩ := hwf.operand htake
    exact ⟨c.operand, hc, (Cell.getType_operand c).trans htag⟩
  · intro done rest s hsplit hex
    obtain ⟨cells, hcells⟩ := holds_of_reachable h hsplit hex
    exact hcells.ne_none
  · exact no_null_at_end h

/-- The smallest program with an operand. -/
theorem executable_of_clean_push :
    (execute plain (frontEnd false "push int8(1)\nexit\n".toList).1 ()).ending ≠
      .threw .nullDeref :=
  (executable_of_clean (by decide +kernel)).2.2.2.2.2

end AbstractVM
