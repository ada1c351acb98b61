import AbstractVM.Executable
/-!
# Stack-shape errors are predicted by counting instructions

Every instruction changes the height of the stack by an amount that its operation alone decides
(`Step.length_eq`), so the height reached is a count over the instructions executed (`depth`). The
two errors about the shape of the stack depend on nothing else (`shapeError_iff`).

Main result: `shape_errors_predicted`.
-/

namespace AbstractVM

open CommandsExecutor

/-- The arithmetic operations. -/
def Operation.IsArith (op : Operation) : Prop :=
  op = .ADD ∨ op = .SUB ∨ op = .MUL ∨ op = .DIV ∨ op = .MOD

instance : DecidablePred Operation.IsArith := fun op => by
  unfold Operation.IsArith; infer_instance

theorem ArithOp.isArith_operation (op : ArithOp) : op.operation.IsArith := by
  cases op <;> decide

theorem Operation.isArith_iff {op : Operation} : op.IsArith ↔ ∃ a : ArithOp, op = a.operation := by
  constructor
  · rintro (rfl | rfl | rfl | rfl | rfl)
    · exact ⟨.add, rfl⟩
    · exact ⟨.sub, rfl⟩
    · exact ⟨.mul, rfl⟩
    · exact ⟨.div, rfl⟩
    · exact ⟨.mod, rfl⟩
  · rintro ⟨a, rfl⟩
    exact a.isArith_operation

/-- The number of `push` less the numbers of `pop` and of arithmetic instructions. -/
def depth {P : Type} (is : List (ParsedInstr P)) : ℤ :=
  is.countP (fun i => i.instruction = .PUSH) - is.countP (fun i => i.instruction = .POP) -
    is.countP (fun i => i.instruction.IsArith)

/-- What one operation adds to the count. -/
def Operation.delta (op : Operation) : ℤ :=
  if op = .PUSH then 1 else if op = .POP ∨ op.IsArith then -1 else 0

@[simp] theorem depth_nil {P : Type} : depth ([] : List (ParsedInstr P)) = 0 := rfl

theorem depth_snoc {P : Type} (is : List (ParsedInstr P)) (i : ParsedInstr P) :
    depth (is ++ [i]) = depth is + i.instruction.delta := by
  unfold depth Operation.delta
  simp only [List.countP_append, List.countP_singleton]
  generalize i.instruction = op
  cases op <;> simp [Operation.IsArith] <;> ring

theorem depth_congr {P Q : Type} {is : List (ParsedInstr P)} {js : List (ParsedInstr Q)}
    (h : is.map (·.instruction) = js.map (·.instruction)) : depth is = depth js := by
  have hcount : ∀ p : Operation → Bool,
      is.countP (fun i => p i.instruction) = js.countP (fun j => p j.instruction) := by
    intro p
    have hp := congrArg (List.countP p) h
    rwa [List.countP_map, List.countP_map] at hp
  unfold depth
  rw [hcount fun op => decide (op = .PUSH), hcount fun op => decide (op = .POP),
    hcount fun op => decide op.IsArith]

section
variable {P M : Type} {μ : Memory P M} {i : ParsedInstr P} {s s' : VM P M}

/-- **Step lemma**: the height changes as the operation says. -/
theorem Step.length_eq (h : Step μ i s s') :
    (s'.stack_.length : ℤ) = s.stack_.length + i.instruction.delta := by
  cases h with
  | push hop => rw [hop]; simp [Operation.delta]
  | pop hop hs =>
    rw [hop, hs]
    simp [Operation.delta, VM.delete]
  | swap hop hs =>
    rw [hop, hs]
    simp [Operation.delta, Operation.IsArith]
  | arith op hop hs _ =>
    have hdelta : op.operation.delta = -1 := by cases op <;> decide
    rw [hop, hs, hdelta]
    simp [afterArith]
  | sort hop hl =>
    have hlen := (ListSort.listSort_perm hl).length_eq
    rw [hop]
    simpa [Operation.delta, Operation.IsArith] using hlen
  | _ hop => rw [hop]; simp [Operation.delta, Operation.IsArith, VM.delete]

/-- **Run lemma**: the height is the count. -/
theorem Executes.length_eq {is : List (ParsedInstr P)} (h : Executes μ s is s') :
    (s'.stack_.length : ℤ) = s.stack_.length + depth is := by
  have hinv : ∀ done i u v, i ∈ is → (u.stack_.length : ℤ) = s.stack_.length + depth done →
      Step μ i u v → v.exit_ = false →
      (v.stack_.length : ℤ) = s.stack_.length + depth (done ++ [i]) := by
    intro done i u v _ hu hstep _
    rw [hstep.length_eq, hu, depth_snoc]
    ring
  exact h.invariant (by simp) hinv

end

/-! ## The two shape errors -/

/-- The shape error of an operation on a stack of that height. -/
def shapeError (op : Operation) (height : ℤ) : Option ErrorType :=
  if (op = .POP ∨ op = .ASSERT ∨ op = .PRINT) ∧ height = 0 then some .EmtpyStackException
  else if (op = .SWAP ∨ op.IsArith) ∧ height < 2 then some .ImpossibleInstructionException
  else none

def ErrorType.OfShape (t : ErrorType) : Prop :=
  t = .EmtpyStackException ∨ t = .ImpossibleInstructionException

theorem ErrorType.OfValue.not_ofShape {t : ErrorType} (h : t.OfValue) : ¬ t.OfShape := by
  rintro (rfl | rfl)
  · rcases h with h | h | h | h <;> cases h
  · rcases h with h | h | h | h <;> cases h

section
variable {P M : Type} (μ : Memory P M) {i : ParsedInstr P} {s : VM P M}

/-- The instruction throws an error of type `t`. -/
def Throws (i : ParsedInstr P) (s : VM P M) (t : ErrorType) : Prop :=
  ∃ e s', execInstr μ i s = .error (.avm e, s') ∧ e.type = t

theorem throws_of_empty (hop : i.instruction = .POP ∨ i.instruction = .ASSERT ∨ i.instruction = .PRINT)
    (hs : s.stack_ = []) : Throws μ i s .EmtpyStackException := by
  rcases hop with hop | hop | hop
  · refine ⟨EmtpyStackException, s, ?_, rfl⟩
    simp [execInstr, hop, argOps, noArgOps, CommandsExecutor.pop, hs]
  · refine ⟨EmtpyStackException, s.delete μ i.operand, ?_, rfl⟩
    simp [execInstr, hop, argOps, CommandsExecutor.assert, hs]
  · refine ⟨EmtpyStackException, s, ?_, rfl⟩
    simp [execInstr, hop, argOps, noArgOps, CommandsExecutor.print, hs]

theorem throws_of_short (hop : i.instruction = .SWAP ∨ i.instruction.IsArith)
    (hs : s.stack_.length < 2) : Throws μ i s .ImpossibleInstructionException := by
  rcases hop with hop | hop
  · have hx : execInstr μ i s = CommandsExecutor.swap s := by
      simp [execInstr, hop, argOps, noArgOps]
    refine ⟨ImpossibleInstructionException "swap".toList, s, ?_, rfl⟩
    rw [hx]
    unfold CommandsExecutor.swap
    split
    · rename_i hst
      rw [hst] at hs
      simp only [List.length_cons] at hs
      omega
    · rfl
  · obtain ⟨a, ha⟩ := Operation.isArith_iff.1 hop
    exact ⟨_, _, execInstr_arith_short ha hs, rfl⟩

theorem compareForStack_ne_avm (a b : Option P) (e : AVMException) :
    compareForStack μ a b ≠ .error (.avm e) := by
  cases a with
  | none => simp [compareForStack]
  | some a =>
    cases b with
    | none => simp [compareForStack]
    | some b =>
      exact compareWith_ne_avm (fun a b => decide (a < b)) (fun a b => decide (a < b)) _ _ e

variable {μ}

/-- The shape errors an instruction throws are the predicted ones. -/
theorem Fails.shapeError_eq {e : AVMException} {s' : VM P M} (hfail : Fails μ i s (.avm e) s')
    (hshape : e.type.OfShape) : shapeError i.instruction s.stack_.length = some e.type := by
  cases hfail with
  | emptyAssert hop hs => rw [hop, hs]; rfl
  | falseAssert => rcases hshape with h | h <;> cases h
  | assertThrows _ _ _ heq => exact absurd heq (compareWith_ne_avm _ _ _ _ e)
  | emptyPop hop hs => rw [hop, hs]; rfl
  | shortSwap hop hs =>
    have hlt : (s.stack_.length : ℤ) < 2 := by exact_mod_cast hs
    simp [shapeError, hop, hlt, ImpossibleInstructionException]
  | shortArith op hop hs =>
    have hlt : (s.stack_.length : ℤ) < 2 := by exact_mod_cast hs
    have hno : ¬ (op.operation = .POP ∨ op.operation = .ASSERT ∨ op.operation = .PRINT) := by
      cases op <;> decide
    simp [shapeError, hop, hlt, hno, op.isArith_operation, ImpossibleInstructionException]
  | arithThrows op _ _ hres => exact absurd hshape (ArithOp.operator_error hres).not_ofShape
  | emptyPrint hop hs => rw [hop, hs]; rfl
  | badPrint => rcases hshape with h | h <;> cases h
  | sortThrows _ hl =>
    obtain ⟨c, -, hc⟩ := ListSort.listSort_error hl
    exact absurd hc (compareForStack_ne_avm μ _ _ e)

/-- **A shape error is thrown exactly when the height predicts it.** -/
theorem shapeError_iff {t : ErrorType} :
    (Throws μ i s t ∧ t.OfShape) ↔ shapeError i.instruction s.stack_.length = some t := by
  constructor
  · rintro ⟨⟨e, s', hx, rfl⟩, hshape⟩
    exact (execInstr_error hx).shapeError_eq hshape
  · intro h
    unfold shapeError at h
    split_ifs at h with h1 h2
    · cases h
      have hs : s.stack_ = [] := List.length_eq_zero_iff.1 (by exact_mod_cast h1.2)
      exact ⟨throws_of_empty μ h1.1 hs, Or.inl rfl⟩
    · cases h
      exact ⟨throws_of_short μ h2.1 (by exact_mod_cast h2.2), Or.inr rfl⟩

end

/-! ## Two programs with the same operations -/

section
variable {P M : Type} (μ : Memory P M) (m : M)

/-- The run of `is` gets to its `k`-th instruction, which throws a shape error of type `t`. -/
def HitsShapeError (is : List (ParsedInstr P)) (k : ℕ) (t : ErrorType) : Prop :=
  ∃ done i rest s, is = done ++ i :: rest ∧ done.length = k ∧ Executes μ (VM.init m) done s ∧
    Throws μ i s t ∧ t.OfShape

/-- The run of `is` stops before its `k`-th instruction, by an `exit` or by an error that is not
about the shape of the stack. -/
def StopsBefore (is : List (ParsedInstr P)) (k : ℕ) : Prop :=
  ∃ done i rest s, is = done ++ i :: rest ∧ done.length < k ∧ Executes μ (VM.init m) done s ∧
    ((∃ s', execInstr μ i s = .ok s' ∧ i.instruction = .EXIT) ∨
      ∃ f s', execInstr μ i s = .error (f, s') ∧ ∀ e, f = .avm e → ¬ e.type.OfShape)

variable {μ m}

/-- In a reachable state the count decides. -/
theorem throws_shape_iff_depth {done : List (ParsedInstr P)} {i : ParsedInstr P} {s : VM P M}
    (h : Executes μ (VM.init m) done s) {t : ErrorType} :
    (Throws μ i s t ∧ t.OfShape) ↔ shapeError i.instruction (depth done) = some t := by
  have hlen := h.length_eq
  simp only [VM.init, List.length_nil, Nat.cast_zero, zero_add] at hlen
  rw [shapeError_iff, hlen]

/-- A run of some instructions gets through them or stops at one of them. -/
theorem executes_or_stops (is : List (ParsedInstr P)) (s : VM P M) (hs : s.exit_ = false) :
    (∃ t, Executes μ s is t) ∨
      ∃ done i rest t, is = done ++ i :: rest ∧ Executes μ s done t ∧
        ((∃ t', execInstr μ i t = .ok t' ∧ i.instruction = .EXIT) ∨
          ∃ f t', execInstr μ i t = .error (f, t')) := by
  rcases executeLoop_cases (μ := μ) 0 is s with ⟨done, i, rest, t, t', hsplit, hex, hi, hflag, -⟩ |
    ⟨done, i, rest, t, f, t', hsplit, hex, hi, -⟩ | ⟨t, hex, -⟩
  · refine Or.inr ⟨done, i, rest, t, hsplit, hex, Or.inl ⟨t', hi, ?_⟩⟩
    rcases (execInstr_ok hi).exit_iff.1 hflag with hc | hc
    · rw [hex.exit_eq hs] at hc
      cases hc
    · exact hc
  · exact Or.inr ⟨done, i, rest, t, hsplit, hex, Or.inr ⟨f, t', hi⟩⟩
  · exact Or.inl ⟨t, hex⟩

/-- An instruction already executed has thrown nothing. -/
theorem not_throws_of_executes {done rest : List (ParsedInstr P)} {i : ParsedInstr P}
    {s u : VM P M} {t : ErrorType} (h : Executes μ s (done ++ i :: rest) u) {v : VM P M}
    (hv : Executes μ s done v) : ¬ Throws μ i v t := by
  rintro ⟨e, s', hx, -⟩
  obtain ⟨w, hw, hrest⟩ := executes_append.1 h
  cases hw.det hv
  cases hrest with
  | cons hi _ _ => cases hx.symm.trans hi

/-- The program with the same operations hits the same shape error, unless it stopped before. -/
theorem hits_or_stops {is js : List (ParsedInstr P)}
    (hops : is.map (·.instruction) = js.map (·.instruction)) {k : ℕ} {t : ErrorType}
    (h : HitsShapeError μ m is k t) : HitsShapeError μ m js k t ∨ StopsBefore μ m js k := by
  obtain ⟨done, i, rest, s, rfl, rfl, hex, hthrows⟩ := h
  -- cut the second program at the same place
  rw [List.map_append, List.map_cons] at hops
  obtain ⟨done', tail', rfl, hdone, htail⟩ := List.map_eq_append_iff.1 hops.symm
  obtain ⟨j, rest', rfl, hj, -⟩ := List.map_eq_cons_iff.1 htail
  have hlen : done'.length = done.length := by simpa using congrArg List.length hdone
  rcases executes_or_stops (μ := μ) done' (VM.init m) rfl with
    ⟨u, hu⟩ | ⟨d, i', r, u, rfl, hu, hstop⟩
  · refine Or.inl ⟨done', j, rest', u, rfl, hlen, hu, ?_⟩
    rw [throws_shape_iff_depth hex, ← hj] at hthrows
    rw [throws_shape_iff_depth hu, depth_congr hdone]
    exact hthrows
  · refine Or.inr ⟨d, i', r ++ j :: rest', u, by simp, by simp [← hlen], hu, ?_⟩
    rcases hstop with hexit | ⟨f, u', hf⟩
    · exact Or.inl hexit
    · refine Or.inr ⟨f, u', hf, ?_⟩
      rintro e rfl hshape
      -- the first program would have hit the same error there
      rw [List.map_append, List.map_cons] at hdone
      obtain ⟨d₁, tail₁, rfl, hd, ht₁⟩ := List.map_eq_append_iff.1 hdone.symm
      obtain ⟨i₁, r₁, rfl, hi₁, -⟩ := List.map_eq_cons_iff.1 ht₁
      obtain ⟨v, hv, -⟩ := executes_append.1 hex
      have hpred := (throws_shape_iff_depth hu).1 ⟨⟨e, u', hf, rfl⟩, hshape⟩
      rw [← hi₁, ← depth_congr hd] at hpred
      exact not_throws_of_executes hex hv ((throws_shape_iff_depth hv).2 hpred).1

end

/-- **Shape errors are predicted by the depth count.** In any run of any instruction list the
stack holds as many operands as the count says; the empty-stack error is thrown by exactly the
`pop`, `assert` and `print` executed at depth 0, and the two-values error by exactly the `swap` and
arithmetic instructions executed below depth 2; and lists with the same operations hit a shape
error at the same instruction, unless one stopped before on another error or an `exit`. -/
theorem shape_errors_predicted (is : List (ParsedInstr Operand)) :
    (∀ done rest s, is = done ++ rest → Executes plain (VM.init ()) done s →
        (s.stack_.length : ℤ) = depth done) ∧
      (∀ done i rest s, is = done ++ i :: rest → Executes plain (VM.init ()) done s →
        (Throws plain i s .EmtpyStackException ↔
            (i.instruction = .POP ∨ i.instruction = .ASSERT ∨ i.instruction = .PRINT) ∧
              depth done = 0) ∧
          (Throws plain i s .ImpossibleInstructionException ↔
            (i.instruction = .SWAP ∨ i.instruction.IsArith) ∧ depth done < 2)) ∧
      ∀ js : List (ParsedInstr Operand), is.map (·.instruction) = js.map (·.instruction) →
        ∀ k t, HitsShapeError plain () is k t →
          HitsShapeError plain () js k t ∨ StopsBefore plain () js k := by
  refine ⟨?_, ?_, fun js hops k t => hits_or_stops hops⟩
  · intro done rest s _ hex
    have hlen := hex.length_eq
    simpa [VM.init] using hlen
  · intro done i rest s _ hex
    have hempty := throws_shape_iff_depth hex (i := i) (t := .EmtpyStackException)
    have hshort := throws_shape_iff_depth hex (i := i) (t := .ImpossibleInstructionException)
    have hs1 : ErrorType.EmtpyStackException.OfShape := Or.inl rfl
    have hs2 : ErrorType.ImpossibleInstructionException.OfShape := Or.inr rfl
    rw [and_iff_left hs1] at hempty
    rw [and_iff_left hs2] at hshort
    refine ⟨hempty.trans ?_, hshort.trans ?_⟩
    · unfold shapeError
      split_ifs with h1 h2
      · exact iff_of_true rfl h1
      · exact iff_of_false (by decide) h1
      · exact iff_of_false (by simp) h1
    · unfold shapeError
      split_ifs with h1 h2
      · have hne : ¬ (i.instruction = .SWAP ∨ i.instruction.IsArith) := by
          generalize i.instruction = op at h1
          rcases h1.1 with rfl | rfl | rfl <;> decide
        exact iff_of_false (by decide) fun h => hne h.1
      · exact iff_of_true rfl h2
      · exact iff_of_false (by simp) h2

end AbstractVM
