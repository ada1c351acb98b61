import AbstractVM.Main
import AbstractVM.Arithmetic
/-!
# What one instruction does, and what a run is

| here | what it says of the source |
| --- | --- |
| `Step` | the ten ways an instruction can end normally, `execInstr_ok` |
| `Fails` | the ways it can fail, with the machine it leaves behind, `execInstr_error` |
| `execInstr_ends` | every instruction ends in one of these ways |
| `Executes` | a sequence of instructions executed without failure and without `exit` |
| `executeLoop_cases` | every execution is such a sequence, then an `exit`, a failure, or the end of the list |

Everything later about a run goes by cases on `Step` and `Fails`, and by induction on `Executes`.
-/

namespace AbstractVM

open DecimalText (Text)
open CommandsExecutor

/-- `e_Operation` of an operator. -/
def ArithOp.operation : ArithOp → Operation
  | add => .ADD | sub => .SUB | mul => .MUL | div => .DIV | mod => .MOD

/-- The name `ImpossibleInstructionException` carries. -/
def ArithOp.name : ArithOp → Text
  | add => "add".toList
  | sub => "sub".toList
  | mul => "mul".toList
  | div => "div".toList
  | mod => "mod".toList

/-- Every operation, the five arithmetic ones as one case. -/
theorem Operation.cases_arith (op : Operation) :
    op = .PUSH ∨ op = .ASSERT ∨ op = .POP ∨ op = .SWAP ∨ op = .DUMP ∨
      (∃ a : ArithOp, op = a.operation) ∨ op = .PRINT ∨ op = .SORT ∨ op = .EXIT ∨ op = .NONE := by
  cases op with
  | ADD => simp [show (Operation.ADD = ArithOp.add.operation) from rfl]
  | SUB => simp [show (Operation.SUB = ArithOp.sub.operation) from rfl]
  | MUL => simp [show (Operation.MUL = ArithOp.mul.operation) from rfl]
  | DIV => simp [show (Operation.DIV = ArithOp.div.operation) from rfl]
  | MOD => simp [show (Operation.MOD = ArithOp.mod.operation) from rfl]
  | _ => simp

section
variable {P M : Type} (μ : Memory P M)

/-- The machine once an operator has returned `result`. -/
def afterArith (s : VM P M) (rest : List (Option P)) (left right : P) (result : Option Operand) :
    VM P M :=
  { s with
    stack_ := (μ.newPtr result s.mem).1 :: rest
    left_ := none
    right_ := none
    mem := μ.delete right (μ.delete left (μ.newPtr result s.mem).2) }

/-! ## One instruction -/

/-- Normal ends. -/
inductive Step (i : ParsedInstr P) (s : VM P M) : VM P M → Prop
  | push (hi : i.instruction = .PUSH) : Step i s { s with stack_ := i.operand :: s.stack_ }
  | assert (hi : i.instruction = .ASSERT) {t o : P} {rest : List (Option P)}
      (hs : s.stack_ = some t :: rest) (ho : i.operand = some o)
      (heq : Operand.eq (μ.deref t) (μ.deref o) = .ok true) : Step i s (s.delete μ i.operand)
  | pop (hi : i.instruction = .POP) {top : Option P} {rest : List (Option P)}
      (hs : s.stack_ = top :: rest) : Step i s ({ s with stack_ := rest }.delete μ top)
  | swap (hi : i.instruction = .SWAP) {right left : Option P} {rest : List (Option P)}
      (hs : s.stack_ = right :: left :: rest) :
      Step i s { s with stack_ := left :: right :: rest, left_ := none, right_ := none }
  | dump (hi : i.instruction = .DUMP) (out : Text) : Step i s { s with cout := s.cout ++ out }
  | arith (op : ArithOp) (hi : i.instruction = op.operation) {l r : P} {rest : List (Option P)}
      (hs : s.stack_ = some r :: some l :: rest) {result : Option Operand}
      (hop : op.operator (μ.deref l) (μ.deref r) = .ok result) :
      Step i s (afterArith μ s rest l r result)
  | print (hi : i.instruction = .PRINT) {t : P} {rest : List (Option P)}
      (hs : s.stack_ = some t :: rest) (out : Text) : Step i s { s with cout := s.cout ++ out }
  | sort (hi : i.instruction = .SORT) {l : List (Option P)}
      (hl : ListSort.listSort (compareForStack μ) s.stack_.reverse = .ok l) :
      Step i s { s with stack_ := l.reverse }
  | exit (hi : i.instruction = .EXIT) : Step i s { s with exit_ := true }
  | none (hi : i.instruction = .NONE) : Step i s s

/-- Failures. -/
inductive Fails (i : ParsedInstr P) (s : VM P M) : Fault → VM P M → Prop
  | emptyAssert (hi : i.instruction = .ASSERT) (hs : s.stack_ = []) :
      Fails i s (.avm EmtpyStackException) (s.delete μ i.operand)
  | falseAssert (hi : i.instruction = .ASSERT) {t o : P} {rest : List (Option P)}
      (hs : s.stack_ = some t :: rest) (ho : i.operand = some o)
      (heq : Operand.eq (μ.deref t) (μ.deref o) = .ok false) :
      Fails i s (.avm FalseAssertException) (s.delete μ i.operand)
  | assertThrows (hi : i.instruction = .ASSERT) {t o : P} {rest : List (Option P)}
      (hs : s.stack_ = some t :: rest) (ho : i.operand = some o) {f : Fault}
      (heq : Operand.eq (μ.deref t) (μ.deref o) = .error f) : Fails i s f s
  | nullAssert (hi : i.instruction = .ASSERT) {t : Option P} {rest : List (Option P)}
      (hs : s.stack_ = t :: rest) (ho : t = none ∨ i.operand = none) : Fails i s .nullDeref s
  | emptyPop (hi : i.instruction = .POP) (hs : s.stack_ = []) : Fails i s (.avm EmtpyStackException) s
  | shortSwap (hi : i.instruction = .SWAP) (hs : s.stack_.length < 2) :
      Fails i s (.avm (ImpossibleInstructionException "swap".toList)) s
  | shortArith (op : ArithOp) (hi : i.instruction = op.operation) (hs : s.stack_.length < 2) :
      Fails i s (.avm (ImpossibleInstructionException op.name)) s
  | arithThrows (op : ArithOp) (hi : i.instruction = op.operation) {l r : P}
      {rest : List (Option P)} (hs : s.stack_ = some r :: some l :: rest) {f : Fault}
      (hop : op.operator (μ.deref l) (μ.deref r) = .error f) :
      Fails i s f { s with stack_ := rest, right_ := some r, left_ := some l }
  | nullArith (op : ArithOp) (hi : i.instruction = op.operation) {l r : Option P}
      {rest : List (Option P)} (hs : s.stack_ = r :: l :: rest) (hn : l = none ∨ r = none) :
      Fails i s .nullDeref { s with stack_ := rest, right_ := r, left_ := l }
  | emptyPrint (hi : i.instruction = .PRINT) (hs : s.stack_ = []) :
      Fails i s (.avm EmtpyStackException) s
  | nullPrint (hi : i.instruction = .PRINT) {rest : List (Option P)}
      (hs : s.stack_ = none :: rest) : Fails i s .nullDeref s
  | badPrint (hi : i.instruction = .PRINT) {t : P} {rest : List (Option P)}
      (hs : s.stack_ = some t :: rest) (error_part : Text) :
      Fails i s (.avm (InvalidPrintException error_part)) s
  | printThrows (hi : i.instruction = .PRINT) {t : P} {rest : List (Option P)}
      (hs : s.stack_ = some t :: rest) (ht : (μ.deref t).getType = .Int8) {e : Cpp.StdException}
      (he : Cpp.stoi (μ.deref t).toString = .error e) : Fails i s (.std e) s
  | sortThrows (hi : i.instruction = .SORT) {f : Fault}
      (hl : ListSort.listSort (compareForStack μ) s.stack_.reverse = .error f) : Fails i s f s

variable {μ} {i : ParsedInstr P} {s s' : VM P M}

theorem execInstr_arith {op : ArithOp} (h : i.instruction = op.operation) :
    execInstr μ i s = arithmetic μ op.name op.operator s := by
  unfold execInstr
  rw [h]
  cases op <;> rfl

/-- How an arithmetic instruction with two operands below it ends. -/
theorem execInstr_arith_cons {op : ArithOp} (h : i.instruction = op.operation) {l r : P}
    {rest : List (Option P)} (hs : s.stack_ = some r :: some l :: rest) :
    execInstr μ i s =
      match op.operator (μ.deref l) (μ.deref r) with
      | .error f => .error (f, { s with stack_ := rest, right_ := some r, left_ := some l })
      | .ok result => .ok (afterArith μ s rest l r result) := by
  rw [execInstr_arith h]
  unfold arithmetic
  rw [hs]
  simp only
  cases op.operator (μ.deref l) (μ.deref r) <;> rfl

theorem execInstr_arith_short {op : ArithOp} (h : i.instruction = op.operation)
    (hs : s.stack_.length < 2) :
    execInstr μ i s = .error (.avm (ImpossibleInstructionException op.name), s) := by
  rw [execInstr_arith h]
  unfold arithmetic
  split
  · rename_i hst
    rw [hst] at hs
    simp only [List.length_cons] at hs
    omega
  · rfl

/-- How an instruction ends, with the reason. -/
inductive Ends (μ : Memory P M) (i : ParsedInstr P) (s : VM P M) : Result P M → Prop
  | ok {s' : VM P M} (h : Step μ i s s') : Ends μ i s (.ok s')
  | error {f : Fault} {s' : VM P M} (h : Fails μ i s f s') : Ends μ i s (.error (f, s'))

theorem ends_assert (hi : i.instruction = .ASSERT) :
    Ends μ i s (CommandsExecutor.assert μ i.operand s) := by
  unfold CommandsExecutor.assert
  cases hs : s.stack_ with
  | nil => exact .error (.emptyAssert hi hs)
  | cons top rest =>
    cases top with
    | none => exact .error (.nullAssert hi hs (Or.inl rfl))
    | some t =>
      cases ho : i.operand with
      | none => exact .error (.nullAssert hi hs (Or.inr ho))
      | some o =>
        simp only
        rw [← ho]
        cases heq : Operand.eq (μ.deref t) (μ.deref o) with
        | error f => exact .error (.assertThrows hi hs ho heq)
        | ok b =>
          cases b with
          | false => exact .error (.falseAssert hi hs ho heq)
          | true => exact .ok (.assert hi hs ho heq)

theorem ends_pop (hi : i.instruction = .POP) : Ends μ i s (CommandsExecutor.pop μ s) := by
  unfold CommandsExecutor.pop
  cases hs : s.stack_ with
  | nil => exact .error (.emptyPop hi hs)
  | cons top rest => exact .ok (.pop hi hs)

theorem ends_swap (hi : i.instruction = .SWAP) : Ends μ i s (CommandsExecutor.swap s) := by
  unfold CommandsExecutor.swap
  split
  · rename_i hs
    exact .ok (.swap hi hs)
  · rename_i hs
    refine .error (.shortSwap hi ?_)
    match h : s.stack_ with
    | [] => simp
    | [a] => simp
    | a :: b :: rest => exact absurd h (hs a b rest)

theorem ends_arithmetic {op : ArithOp} (hi : i.instruction = op.operation) :
    Ends μ i s (arithmetic μ op.name op.operator s) := by
  rw [← execInstr_arith hi]
  match hs : s.stack_ with
  | [] =>
    rw [execInstr_arith_short hi (by simp [hs])]
    exact .error (.shortArith op hi (by simp [hs]))
  | [a] =>
    rw [execInstr_arith_short hi (by simp [hs])]
    exact .error (.shortArith op hi (by simp [hs]))
  | none :: l :: rest =>
    have hx : arithmetic μ op.name op.operator s =
        .error (.nullDeref, { s with stack_ := rest, right_ := none, left_ := l }) := by
      cases l <;> simp [arithmetic, hs]
    rw [execInstr_arith hi, hx]
    exact .error (.nullArith op hi hs (Or.inr rfl))
  | some r :: none :: rest =>
    have hx : arithmetic μ op.name op.operator s =
        .error (.nullDeref, { s with stack_ := rest, right_ := some r, left_ := none }) := by
      simp [arithmetic, hs]
    rw [execInstr_arith hi, hx]
    exact .error (.nullArith op hi hs (Or.inl rfl))
  | some r :: some l :: rest =>
    rw [execInstr_arith_cons hi hs]
    cases hop : op.operator (μ.deref l) (μ.deref r) with
    | error f => exact .error (.arithThrows op hi hs hop)
    | ok result => exact .ok (.arith op hi hs hop)

theorem ends_print (hi : i.instruction = .PRINT) : Ends μ i s (CommandsExecutor.print μ s) := by
  unfold CommandsExecutor.print
  split
  · rename_i hs
    exact .error (.emptyPrint hi hs)
  · rename_i rest hs
    exact .error (.nullPrint hi hs)
  · rename_i t rest hs
    simp only
    split
    · exact .error (.badPrint hi hs _)
    · rename_i ht
      have ht' : (μ.deref t).getType = .Int8 := by simpa using ht
      split
      · rename_i e he
        exact .error (.printThrows hi hs ht' he)
      · split
        · exact .error (.badPrint hi hs _)
        · exact .ok (.print hi hs _)

theorem ends_sort (hi : i.instruction = .SORT) : Ends μ i s (CommandsExecutor.sort μ s) := by
  unfold CommandsExecutor.sort
  cases hl : ListSort.listSort (compareForStack μ) s.stack_.reverse with
  | error f => exact .error (.sortThrows hi hl)
  | ok l => exact .ok (.sort hi hl)

/-- **Every instruction ends in one of the listed ways.** -/
theorem execInstr_ends (i : ParsedInstr P) (s : VM P M) : Ends μ i s (execInstr μ i s) := by
  rcases i.instruction.cases_arith with hi | hi | hi | hi | hi | ⟨op, hi⟩ | hi | hi | hi | hi
  · have hx : execInstr μ i s = CommandsExecutor.push i.operand s := by
      simp [execInstr, hi, argOps]
    exact hx ▸ .ok (.push hi)
  · have hx : execInstr μ i s = CommandsExecutor.assert μ i.operand s := by
      simp [execInstr, hi, argOps]
    exact hx ▸ ends_assert hi
  · have hx : execInstr μ i s = CommandsExecutor.pop μ s := by
      simp [execInstr, hi, argOps, noArgOps]
    exact hx ▸ ends_pop hi
  · have hx : execInstr μ i s = CommandsExecutor.swap s := by
      simp [execInstr, hi, argOps, noArgOps]
    exact hx ▸ ends_swap hi
  · have hx : execInstr μ i s = CommandsExecutor.dump μ s := by
      simp [execInstr, hi, argOps, noArgOps]
    exact hx ▸ .ok (.dump hi _)
  · exact execInstr_arith hi ▸ ends_arithmetic hi
  · have hx : execInstr μ i s = CommandsExecutor.print μ s := by
      simp [execInstr, hi, argOps, noArgOps]
    exact hx ▸ ends_print hi
  · have hx : execInstr μ i s = CommandsExecutor.sort μ s := by
      simp [execInstr, hi, argOps, noArgOps]
    exact hx ▸ ends_sort hi
  · have hx : execInstr μ i s = CommandsExecutor.exit s := by
      simp [execInstr, hi, argOps, noArgOps]
    exact hx ▸ .ok (.exit hi)
  · have hx : execInstr μ i s = .ok s := by simp [execInstr, hi, argOps, noArgOps]
    exact hx ▸ .ok (.none hi)

theorem execInstr_ok (h : execInstr μ i s = .ok s') : Step μ i s s' := by
  have hends := execInstr_ends (μ := μ) i s
  rw [h] at hends
  cases hends with
  | ok hstep => exact hstep

theorem execInstr_error {f : Fault} (h : execInstr μ i s = .error (f, s')) : Fails μ i s f s' := by
  have hends := execInstr_ends (μ := μ) i s
  rw [h] at hends
  cases hends with
  | error hfails => exact hfails

/-- An instruction ends normally, or fails. -/
theorem execInstr_cases (i : ParsedInstr P) (s : VM P M) :
    (∃ s', execInstr μ i s = .ok s' ∧ Step μ i s s') ∨
      ∃ f s', execInstr μ i s = .error (f, s') ∧ Fails μ i s f s' := by
  cases h : execInstr μ i s with
  | ok s' => exact Or.inl ⟨s', rfl, execInstr_ok h⟩
  | error e => exact Or.inr ⟨e.1, e.2, rfl, execInstr_error h⟩

/-- Only `exit` raises the flag. -/
theorem Step.exit_iff (h : Step μ i s s') :
    s'.exit_ = true ↔ s.exit_ = true ∨ i.instruction = .EXIT := by
  cases h with
  | arith op hi => cases op <;> simp [afterArith, hi, ArithOp.operation]
  | _ hi => simp [hi, VM.delete]

/-- A failing instruction writes nothing. -/
theorem Fails.cout_eq {f : Fault} (h : Fails μ i s f s') : s'.cout = s.cout := by
  cases h <;> rfl

/-! ## A run -/

variable (μ) in
/-- The instructions `is` executed one after the other, none failing, none raising the flag. -/
inductive Executes : VM P M → List (ParsedInstr P) → VM P M → Prop
  | nil (s : VM P M) : Executes s [] s
  | cons {s t u : VM P M} {i : ParsedInstr P} {is : List (ParsedInstr P)}
      (hi : execInstr μ i s = .ok t) (hexit : t.exit_ = false) (his : Executes t is u) :
      Executes s (i :: is) u

theorem Executes.append {is js : List (ParsedInstr P)} {t u : VM P M} (h : Executes μ s is t)
    (h' : Executes μ t js u) : Executes μ s (is ++ js) u := by
  induction h with
  | nil s => exact h'
  | cons hi hexit _ ih => exact .cons hi hexit (ih h')

theorem executes_append {is js : List (ParsedInstr P)} {u : VM P M} :
    Executes μ s (is ++ js) u ↔ ∃ t, Executes μ s is t ∧ Executes μ t js u := by
  constructor
  · intro h
    induction is generalizing s with
    | nil => exact ⟨s, .nil s, h⟩
    | cons i is ih =>
      cases h with
      | cons hi hexit his =>
        obtain ⟨t, h1, h2⟩ := ih his
        exact ⟨t, .cons hi hexit h1, h2⟩
  · rintro ⟨t, h1, h2⟩
    exact h1.append h2

theorem Executes.det {is : List (ParsedInstr P)} {t u : VM P M} (h : Executes μ s is t)
    (h' : Executes μ s is u) : t = u := by
  induction h with
  | nil s => cases h'; rfl
  | cons hi _ _ ih =>
    cases h' with
    | cons hi' _ his' =>
      rw [hi] at hi'
      cases hi'
      exact ih his'

theorem Executes.exit_eq {is : List (ParsedInstr P)} {t : VM P M} (h : Executes μ s is t)
    (hs : s.exit_ = false) : t.exit_ = false := by
  induction h with
  | nil s => exact hs
  | cons _ hexit _ ih => exact ih hexit

/-- **The invariant rule**: what holds at the start and survives each instruction holds wherever
the run gets to. `Inv` may speak of the instructions already executed. -/
theorem Executes.invariant {Inv : List (ParsedInstr P) → VM P M → Prop}
    {is : List (ParsedInstr P)} {t : VM P M} (h : Executes μ s is t) (h0 : Inv [] s)
    (hstep : ∀ done i u v, i ∈ is → Inv done u → Step μ i u v → v.exit_ = false →
      Inv (done ++ [i]) v) : Inv is t := by
  suffices hgen : ∀ done, Inv done s → Inv (done ++ is) t from hgen [] h0
  clear h0
  induction h with
  | nil s => intro done h0; simpa using h0
  | @cons s v u i is hi hexit his ih =>
    intro done h0
    have hv := hstep done i s v (by simp) h0 (execInstr_ok hi) hexit
    have := ih (fun d j a b hj => hstep d j a b (List.mem_cons_of_mem _ hj)) (done ++ [i]) hv
    simpa using this

/-- The variable `line` after some instructions. -/
def lastLine : ℕ → List (ParsedInstr P) → ℕ
  | line, [] => line
  | _, i :: is => lastLine i.line is

variable (μ) in
/-- The instruction that failed, as the list holds it afterwards. -/
def afterFailure (i : ParsedInstr P) : ParsedInstr P :=
  if (argOps μ i.instruction).isSome then release i else i

theorem afterFailure_line (i : ParsedInstr P) : (afterFailure μ i).line = i.line := by
  unfold afterFailure
  split <;> rfl

theorem executeLoop_append {done : List (ParsedInstr P)} {t : VM P M} (h : Executes μ s done t)
    (line : ℕ) (rest : List (ParsedInstr P)) :
    executeLoop μ line (done ++ rest) s =
      { executeLoop μ (lastLine line done) rest t with
        instructions :=
          done.map release ++ (executeLoop μ (lastLine line done) rest t).instructions } := by
  induction h generalizing line with
  | nil s => rfl
  | cons hi hexit _ ih =>
    simp only [List.cons_append, executeLoop, hi, hexit, lastLine]
    rw [ih]
    rfl

/-- Some instructions are executed, then one of them is `exit`, or fails, or there are no more. -/
theorem executeLoop_cases (line : ℕ) (is : List (ParsedInstr P)) (s : VM P M) :
    (∃ done i rest t t', is = done ++ i :: rest ∧ Executes μ s done t ∧
        execInstr μ i t = .ok t' ∧ t'.exit_ = true ∧
        executeLoop μ line is s =
          ⟨.exited, i.line, t', done.map release ++ release i :: rest⟩) ∨
      (∃ done i rest t f t', is = done ++ i :: rest ∧ Executes μ s done t ∧
        execInstr μ i t = .error (f, t') ∧
        executeLoop μ line is s =
          ⟨.threw f, i.line, t', done.map release ++ afterFailure μ i :: rest⟩) ∨
      ∃ t, Executes μ s is t ∧
        executeLoop μ line is s =
          ⟨.threw (.avm NoExitException), lastLine line is, t, is.map release⟩ := by
  induction is generalizing line s with
  | nil => exact Or.inr (Or.inr ⟨s, .nil s, rfl⟩)
  | cons i is ih =>
    cases hi : execInstr μ i s with
    | error e =>
      obtain ⟨f, t⟩ := e
      refine Or.inr (Or.inl ⟨[], i, is, s, f, t, rfl, .nil s, hi, ?_⟩)
      simp only [executeLoop, hi]
      show (⟨.threw f, (afterFailure μ i).line, t, _⟩ : ExecEnd P M) = _
      rw [afterFailure_line]
      rfl
    | ok t =>
      cases hexit : t.exit_ with
      | true =>
        refine Or.inl ⟨[], i, is, s, t, rfl, .nil s, hi, hexit, ?_⟩
        simp only [executeLoop, hi, hexit]
        rfl
      | false =>
        rcases ih i.line t with ⟨done, j, rest, u, u', hsplit, hex, hj, hfl, heq⟩ |
            ⟨done, j, rest, u, f, u', hsplit, hex, hj, heq⟩ | ⟨u, hex, heq⟩
        · refine Or.inl ⟨i :: done, j, rest, u, u', by rw [hsplit]; rfl, .cons hi hexit hex, hj,
            hfl, ?_⟩
          simp only [executeLoop, hi, hexit, heq]
          rfl
        · refine Or.inr (Or.inl ⟨i :: done, j, rest, u, f, u', by rw [hsplit]; rfl,
            .cons hi hexit hex, hj, ?_⟩)
          simp only [executeLoop, hi, hexit, heq]
          rfl
        · refine Or.inr (Or.inr ⟨u, .cons hi hexit hex, ?_⟩)
          simp only [executeLoop, hi, hexit, heq]
          rfl

end

end AbstractVM
