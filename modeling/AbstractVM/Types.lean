import AbstractVM.Denotation
/-!
# Running a program on its types

Every operator returns an operand of the wider type, whatever the values, so the machine that holds
types for numbers goes through a program as the source does, until a value stops the latter. What
this machine fails with are the errors that do not depend on values: the empty stack, fewer than two
operands, and the `print` of something else than an `int8`.

| here | what it says of the source |
| --- | --- |
| `OperandType.numbers` | numbers of which only the type is known |
| `ArithOp.tag_onCells` | the type of a result |
| `ByValue` | the errors that types cannot foresee |
| `Command.StepTyped`, `effect_typed` | one instruction, against its types |

Main result: `types_predict`. `sort` moves operands by value, so it is allowed where all have one type.
-/

namespace AbstractVM

open DecimalText (Text)
open Machine

/-- All that is known of a number is its type; `print` is taken to find a printable character. -/
def OperandType.numbers : Numbers OperandType where
  apply _ l r := .ok (l.wider r)
  equal _ _ := .ok true
  before _ _ := .ok false
  text _ := []
  int8? t := if t = .Int8 then some 32 else none

/-! ## Operators -/

/-- The type of the result of an operator. -/
theorem ArithOp.tag_onCells {op : ArithOp} {l r c : Cell} (h : op.onCells l r = .ok c) :
    c.tag = l.tag.wider r.tag := by
  have hop : op.operator l.operand r.operand = .ok (some c.operand) := by
    rw [op.operator_onCells, h]
    rfl
  rcases op.operator_cell l r with ⟨e, he, -⟩ | ⟨d, hd, heq⟩
  · cases he.symm.trans hop
  · have hsame : d.operand = c.operand := Option.some.inj (Except.ok.inj (heq.symm.trans hop))
    rw [← Command.operand_injective hsame, hd, widest_eq_wider]

theorem Cell.int8?_eq_none {c : Cell} : c.int8? = none ↔ c.tag ≠ .Int8 := by
  obtain ⟨value, valid⟩ := c
  cases value with
  | int T v => cases T <;> simp [Cell.int8?, Cell.tag, Value.tag, IntType.tag]
  | real T x => cases T <;> simp [Cell.int8?, Cell.tag, Value.tag, RealType.tag]

/-- The errors of an operator on cells: those of the range, and the division by zero. -/
def ErrorType.OfRange (t : ErrorType) : Prop :=
  t = .OverflowException ∨ t = .UnderflowException ∨ t = .DivModByZeroException

theorem fitInt_error {T : IntType} {z : ℤ} {e : AVMException} (h : fitInt T z = .error e) :
    e.type.OfRange := by
  unfold fitInt at h
  split at h
  · cases h
    exact Or.inl rfl
  · split at h
    · cases h
      exact Or.inr (Or.inl rfl)
    · cases h

theorem ArithOp.onCells_error {op : ArithOp} {l r : Cell} {e : AVMException}
    (h : op.onCells l r = .error e) : e.type.OfRange := by
  have hzero : DivModByZeroException.type.OfRange := Or.inr (Or.inr rfl)
  unfold ArithOp.onCells at h
  split at h
  · unfold ArithOp.onInts at h
    split at h
    · cases h
      exact hzero
    · exact fitInt_error h
  · split at h
    · cases h
      exact hzero
    · exact (fitReal_error h).imp id Or.inl

/-! ## Errors by value -/

open Command in
/-- What ends a run because of the values on the stack. -/
inductive ByValue : Trap → Prop
  | arith {e : AVMException} (h : e.type.OfRange) : ByValue (.throws e)
  | falseAssert : ByValue (.throws FalseAssertException)
  | notPrintable (text : Text) :
      ByValue (.throws (InvalidPrintException (text ++ " is not printable".toList)))
  | outOfRange : ByValue .outOfRange

namespace ByValue

theorem ne_empty {trap : Command.Trap} (h : ByValue trap) : trap ≠ .throws EmtpyStackException := by
  rintro rfl
  cases h with
  | arith h => rcases h with h | h | h <;> cases h

theorem ne_impossible {trap : Command.Trap} {name : Text} (h : ByValue trap) :
    trap ≠ .throws (ImpossibleInstructionException name) := by
  rintro rfl
  cases h with
  | arith h => rcases h with h | h | h <;> cases h

theorem ne_notInt8 {trap : Command.Trap} (h : ByValue trap) :
    trap ≠ .throws (InvalidPrintException "not an int8".toList) := by
  intro htrap
  cases h with
  | arith h =>
    cases htrap
    rcases h with h | h | h <;> cases h
  | falseAssert => cases htrap
  | notPrintable text =>
    -- the two messages end differently
    injection htrap with htrap
    have hlast := congrArg (fun e : AVMException => e.error_part.getLast?) htrap
    simp [InvalidPrintException] at hlast
  | outOfRange => cases htrap

end ByValue

/-! ## The machine on types -/

/-- A comparison that never holds leaves a list as it is. -/
theorem listSort_never {α ε : Type} (l : List α) :
    ListSort.listSort (fun _ _ => .ok false : α → α → Except ε Bool) l = .ok l := by
  have hlt : ∀ x y : α, True → True →
      (Except.ok false : Except ε Bool) = .ok (decide ((fun _ => 0 : α → ℕ) x < (fun _ => 0 : α → ℕ) y)) :=
    fun _ _ _ _ => rfl
  obtain ⟨l', hl', hsorted, hkeys⟩ := ListSort.listSort_key hlt (l := l) (fun _ _ => trivial)
  rw [hl', ListSort.eq_of_sorted_of_filter (fun _ => (0 : ℕ)) hsorted
    (List.pairwise_of_forall fun _ _ => le_rfl) hkeys]

namespace Command

def map {C D : Type} (f : C → D) : Command C → Command D
  | push c => push (f c)
  | assert c => assert (f c)
  | pop => pop
  | swap => swap
  | dump => dump
  | arith op => arith op
  | print => print
  | sort => sort
  | exit => exit

def Line.map {C D : Type} (f : C → D) (l : Line C) : Line D := ⟨l.number, l.command.map f⟩

/-- Types and operands: those of the stack agree, and where the program sorts, all types are `U`. -/
def typed (sorts : Prop) (U : OperandType) :
    Coupling Failure (State OperandType) Failure (State Cell) where
  state s t := s.stack = t.stack.map Cell.tag ∧ (sorts → ∀ c ∈ t.stack, c.tag = U)
  final _ _ := True
  fault f g := f.trap = g.trap

/-- The command fails by value. -/
def FailsByValue (l : Line Cell) (t : State Cell) : Prop :=
  ∃ f, effect Cell.numbers l.command t = .fail f ∧ ByValue f.trap

/-- Unless a value stops it, the command does to the operands what it does to their types. -/
def StepTyped (sorts : Prop) (U : OperandType) (n : ℕ) (c : Command Cell) (stack : List Cell)
    (out out' : Text) : Prop :=
  FailsByValue ⟨n, c⟩ ⟨stack, out⟩ ∨
    (typed sorts U).Effects (effect OperandType.numbers (c.map Cell.tag) ⟨stack.map Cell.tag, out'⟩)
      (effect Cell.numbers c ⟨stack, out⟩)

section
variable {sorts : Prop} {U : OperandType}

section
variable {n : ℕ} {stack : List Cell} {out out' : Text}
  (huniform : sorts → ∀ c ∈ stack, c.tag = U)
include huniform

theorem stepTyped_assert (c : Cell) : StepTyped sorts U n (assert c) stack out out' := by
  cases stack with
  | nil => exact Or.inr (.fail rfl)
  | cons top rest =>
    cases heq : Cell.numbers.equal top c with
    | error f =>
      refine Or.inl ⟨⟨.outOfRange, out⟩, ?_, .outOfRange⟩
      simp only [effect, heq]
    | ok b =>
      cases b with
      | false =>
        refine Or.inl ⟨⟨.throws FalseAssertException, out⟩, ?_, .falseAssert⟩
        simp only [effect, heq]
        rfl
      | true =>
        right
        simp only [effect, heq]
        exact .next ⟨rfl, huniform⟩

/-- The result of an operator has the type that the machine on types computes. -/
theorem stepTyped_arith (op : ArithOp) : StepTyped sorts U n (arith op) stack out out' := by
  cases stack with
  | nil => exact Or.inr (.fail rfl)
  | cons r rest =>
    cases rest with
    | nil => exact Or.inr (.fail rfl)
    | cons l rest =>
      cases hop : Cell.numbers.apply op l r with
      | error e =>
        refine Or.inl ⟨⟨.throws e, out⟩, ?_, .arith (ArithOp.onCells_error hop)⟩
        simp only [effect, hop]
        rfl
      | ok c =>
        right
        have htag : c.tag = l.tag.wider r.tag := ArithOp.tag_onCells hop
        simp only [effect, hop]
        refine .next ⟨by rw [List.map_cons, htag], fun hs => ?_⟩
        obtain ⟨hr, hrest⟩ := List.forall_mem_cons.1 (huniform hs)
        obtain ⟨hl, hrest⟩ := List.forall_mem_cons.1 hrest
        refine List.forall_mem_cons.2 ⟨?_, hrest⟩
        rw [htag, hl, hr, OperandType.wider_self]

theorem stepTyped_print : StepTyped sorts U n print stack out out' := by
  cases stack with
  | nil => exact Or.inr (.fail rfl)
  | cons top rest =>
    cases hv : Cell.numbers.int8? top with
    | none =>
      have htag : top.tag ≠ .Int8 := Cell.int8?_eq_none.1 hv
      have hnone : OperandType.numbers.int8? top.tag = none := if_neg htag
      right
      simp only [map, effect, List.map_cons, hv, hnone]
      exact .fail rfl
    | some v =>
      have htag : top.tag = .Int8 := by
        by_contra hne
        cases hv.symm.trans (Cell.int8?_eq_none.2 hne)
      have hsome : OperandType.numbers.int8? top.tag = some 32 := if_pos htag
      by_cases hp : Cpp.isprint v = true
      · right
        simp only [map, effect, List.map_cons, hv, hsome, if_pos hp,
          if_pos (show Cpp.isprint 32 = true from rfl)]
        exact .next ⟨rfl, huniform⟩
      · refine Or.inl ⟨⟨.throws _, out⟩, ?_, .notPrintable top.text⟩
        simp only [effect, hv, if_neg hp]
        rfl

/-- Operands of one type: sorted by value, the types stay where they are. -/
theorem stepTyped_sort (hs : sorts) : StepTyped sorts U n sort stack out out' := by
  cases hl : ListSort.listSort Cell.numbers.before stack.reverse with
  | error f =>
    refine Or.inl ⟨⟨.outOfRange, out⟩, ?_, .outOfRange⟩
    simp only [effect, hl]
  | ok sorted =>
    right
    have hU := huniform hs
    have hperm : sorted.reverse.Perm stack :=
      (List.reverse_perm sorted).trans ((ListSort.listSort_perm hl).trans (List.reverse_perm stack))
    have hall : ∀ cs : List Cell, (∀ c ∈ cs, c.tag = U) →
        cs.map Cell.tag = List.replicate cs.length U := fun cs hcs =>
      List.eq_replicate_iff.2 ⟨List.length_map _, fun t ht => by
        obtain ⟨c, hc, rfl⟩ := List.mem_map.1 ht
        exact hcs c hc⟩
    have hU' : ∀ c ∈ sorted.reverse, c.tag = U := fun c hc => hU c (hperm.mem_iff.1 hc)
    have hnever : ListSort.listSort OperandType.numbers.before (stack.map Cell.tag).reverse =
        .ok (stack.map Cell.tag).reverse := listSort_never _
    simp only [map, effect, hl, hnever]
    refine .next ⟨?_, fun _ => hU'⟩
    rw [List.reverse_reverse, hall stack hU, hall _ hU', hperm.length_eq]

end

/-- **Step lemma.** An instruction that no value stops does to the operands what it does to their
types. -/
theorem effect_typed {l : Line Cell} {s : State OperandType} {t : State Cell}
    (hcarried : sorts → ∀ c, l.command.carried = some c → c.tag = U)
    (hsorts : l.command = sort → sorts) (hst : (typed sorts U).state s t) :
    FailsByValue l t ∨ (typed sorts U).Effects
      (effect OperandType.numbers (l.map Cell.tag).command s) (effect Cell.numbers l.command t) := by
  obtain ⟨n, c⟩ := l
  obtain ⟨stack, out⟩ := t
  obtain ⟨stack', out'⟩ := s
  obtain ⟨hstack, huniform⟩ := hst
  change stack' = stack.map Cell.tag at hstack
  change sorts → ∀ c ∈ stack, c.tag = U at huniform
  subst hstack
  cases c with
  | push c =>
    refine Or.inr (.next ⟨rfl, fun hs => ?_⟩)
    exact List.forall_mem_cons.2 ⟨hcarried hs c rfl, huniform hs⟩
  | assert c => exact stepTyped_assert huniform c
  | pop =>
    right
    cases stack with
    | nil => exact .fail rfl
    | cons top rest =>
      exact .next ⟨rfl, fun hs => (List.forall_mem_cons.1 (huniform hs)).2⟩
  | swap =>
    right
    cases stack with
    | nil => exact .fail rfl
    | cons a rest =>
      cases rest with
      | nil => exact .fail rfl
      | cons b rest =>
        refine .next ⟨rfl, fun hs c hc => huniform hs c ?_⟩
        exact (List.Perm.swap b a rest).mem_iff.2 hc
  | dump => exact Or.inr (.next ⟨rfl, huniform⟩)
  | arith op => exact stepTyped_arith huniform op
  | print => exact stepTyped_print huniform
  | sort => exact stepTyped_sort huniform (hsorts rfl)
  | exit => exact Or.inr (.stop trivial)

/-- What a value stops would have gone on. -/
theorem goes_typed {l : Line Cell} {s : State OperandType} {t : State Cell}
    (h : FailsByValue l t) (hst : (typed sorts U).state s t) :
    ∃ s', effect OperandType.numbers (l.map Cell.tag).command s = .next s' := by
  obtain ⟨f, hf, hvalue⟩ := h
  obtain ⟨hbreaks, -⟩ := effect_fail hf
  obtain ⟨n, c⟩ := l
  obtain ⟨stack, out⟩ := s
  obtain ⟨hstack, -⟩ := hst
  change stack = t.stack.map Cell.tag at hstack
  subst hstack
  cases hc : f.trap with
  | outOfRange =>
    rw [hc] at hbreaks
    cases hbreaks with
    | assert hs heq => exact ⟨_, by simp only [Line.map, map, effect, hs, List.map_cons]; rfl⟩
    | sort hl =>
      have hnever : ListSort.listSort OperandType.numbers.before (t.stack.map Cell.tag).reverse =
          .ok (t.stack.map Cell.tag).reverse := listSort_never _
      exact ⟨_, by
        simp only [Line.map, map, effect, hnever]
        rfl⟩
  | throws e =>
    rw [hc] at hbreaks hvalue
    cases hbreaks with
    | emptyAssert c hs => exact absurd rfl hvalue.ne_empty
    | falseAssert hs heq => exact ⟨_, by simp only [Line.map, map, effect, hs, List.map_cons]; rfl⟩
    | emptyPop hs => exact absurd rfl hvalue.ne_empty
    | shortSwap hs => exact absurd rfl hvalue.ne_impossible
    | shortArith op hs => exact absurd rfl hvalue.ne_impossible
    | arith hs hop => exact ⟨_, by simp only [Line.map, map, effect, hs, List.map_cons]; rfl⟩
    | emptyPrint hs => exact absurd rfl hvalue.ne_empty
    | notInt8 hs hv => exact absurd rfl hvalue.ne_notInt8
    | @notPrintable top v rest hs hv hp =>
      have htag : top.tag = .Int8 := by
        by_contra hne
        cases hv.symm.trans (Cell.int8?_eq_none.2 hne)
      have hsome : OperandType.numbers.int8? top.tag = some 32 := if_pos htag
      exact ⟨_, by
        simp only [Line.map, map, effect, hs, List.map_cons, hsome]
        exact if_pos rfl⟩

end

end Command

/-! ## Programs -/

open Command

/-- What a program leaves behind, as far as its types tell: `ts` is the program with its operands
reduced to their types. -/
inductive Predicted (ts : List (Line OperandType)) : Outcome → Prop
  | exit {l : Line OperandType} {t : State OperandType} (out : Text)
      (h : Command.run OperandType.numbers ts State.init = .stopped l t) :
      Predicted ts (.exited out [] 0)
  | noExit {t : State OperandType} (out : Text)
      (h : Command.run OperandType.numbers ts State.init = .fell t) :
      Predicted ts
        (.exited out (endl (builtErrorMessage (NoExitException.pushError (lastNumber ts)))) 1)
  | error {l : Line OperandType} {e : AVMException} {out' : Text} (out : Text)
      (h : Command.run OperandType.numbers ts State.init = .failed l ⟨.throws e, out'⟩) :
      Predicted ts (.exited out (endl (builtErrorMessage (e.pushError l.number))) 1)
  | byValue {done rest : List (Line OperandType)} {l : Line OperandType}
      {s t : State OperandType} {e : AVMException} (out : Text) (hsplit : ts = done ++ l :: rest)
      (hdone : Command.run OperandType.numbers done State.init = .fell s)
      (hl : effect OperandType.numbers l.command s = .next t) (he : ByValue (.throws e)) :
      Predicted ts (.exited out (endl (builtErrorMessage (e.pushError l.number))) 1)
  | outOfRange {done rest : List (Line OperandType)} {l : Line OperandType}
      {s t : State OperandType} (out : Text) (hsplit : ts = done ++ l :: rest)
      (hdone : Command.run OperandType.numbers done State.init = .fell s)
      (hl : effect OperandType.numbers l.command s = .next t) :
      Predicted ts (.terminated out (.std .out_of_range))

theorem lastNumber_map {C D : Type} (f : C → D) (ls : List (Line C)) :
    lastNumber (ls.map (Line.map f)) = lastNumber ls := by
  unfold lastNumber
  rw [List.getLast?_map]
  cases ls.getLast? <;> rfl

/-- The machine on types makes no comparison that can throw. -/
theorem Command.types_outOfRange {c : Command OperandType} {s : State OperandType} :
    ¬ Breaks OperandType.numbers s c .outOfRange := by
  intro h
  cases h with
  | assert hs heq => cases heq
  | sort hl => cases hl.symm.trans (listSort_never _)

section
variable {sorts : Prop} {U : OperandType} {ls : List (Line Cell)}

theorem predicted_of_finals {R : Line OperandType → Line Cell → Prop}
    {r : Final (Line OperandType) Failure (State OperandType)}
    {r' : Final (Line Cell) Failure (State Cell)}
    (hr : Command.run OperandType.numbers (ls.map (Line.map Cell.tag)) State.init = r)
    (hR : ∀ l' l, R l' l → l' = l.map Cell.tag) (h : (typed sorts U).Finals R r r') :
    Predicted (ls.map (Line.map Cell.tag)) (report ls r') := by
  cases h with
  | fell h =>
    simp only [report, ← lastNumber_map Cell.tag ls]
    exact .noExit _ hr
  | stopped hij h => exact .exit _ hr
  | @failed l' l f g hij h =>
    obtain ⟨trap, out⟩ := f
    obtain ⟨trap', out'⟩ := g
    have htrap : trap = trap' := h
    subst htrap
    have hnumber : l'.number = l.number := by rw [hR l' l hij]; rfl
    cases trap with
    | throws e =>
      simp only [report, ← hnumber]
      exact .error out' hr
    | outOfRange =>
      obtain ⟨done, rest, u, -, -, hfail⟩ := exists_of_failed hr
      exact absurd (effect_fail hfail).1 types_outOfRange

/-- The run of a list of commands, by its types. -/
theorem predicted (huniform : sorts → ∀ l ∈ ls, ∀ c, l.command.carried = some c → c.tag = U)
    (hsorts : ∀ l ∈ ls, l.command = .sort → sorts) :
    Predicted (ls.map (Line.map Cell.tag)) (report ls (Command.run Cell.numbers ls State.init)) := by
  have hrel : List.Forall₂ (fun l' l => l' = Line.map Cell.tag l ∧ l ∈ ls)
      (ls.map (Line.map Cell.tag)) ls :=
    List.forall₂_map_left_iff.2 (List.forall₂_same.2 fun l hl => ⟨rfl, hl⟩)
  have hstep : ∀ (l' : Line OperandType) (l : Line Cell) (s : State OperandType) (t : State Cell),
      l' = l.map Cell.tag ∧ l ∈ ls → (typed sorts U).state s t → FailsByValue l t ∨
        (typed sorts U).Effects (effect OperandType.numbers l'.command s)
          (effect Cell.numbers l.command t) := by
    rintro _ l s t ⟨rfl, hl⟩ hst
    exact effect_typed (fun hs => huniform hs l hl) (hsorts l hl) hst
  rcases Coupling.run_until hstep hrel (s := State.init) (t := State.init)
    ⟨rfl, fun _ c hc => by cases hc⟩ with ⟨-, hfinals⟩ | ⟨⟨parts⟩⟩
  · exact predicted_of_finals rfl (fun l' l h => h.1) hfinals
  · -- the first instruction that a value stops
    obtain ⟨s', hgoes⟩ := goes_typed parts.off parts.coupled
    obtain ⟨⟨trap, out⟩, hfail, hvalue⟩ := parts.off
    obtain ⟨hhere, -⟩ := parts.related
    have hrun : Command.run Cell.numbers ls State.init = .failed parts.here.2 ⟨trap, out⟩ := by
      refine (congrArg (fun is => Machine.run _ is _) parts.right).trans ?_
      rw [run_append_of_fell parts.fell']
      simp only [Machine.run, hfail]
    have hnumber : parts.here.1.number = parts.here.2.number := by rw [hhere]; rfl
    rw [← hhere] at hgoes
    rw [hrun]
    cases trap with
    | throws e =>
      simp only [report, ← hnumber]
      exact .byValue out parts.left parts.fell hgoes hvalue
    | outOfRange => exact .outOfRange out parts.left parts.fell hgoes

end

/-- **Types predict a run.** Let a text be accepted, and let it have no `sort`, or operands of one
type only. Run it on the types of its operands. The program ends as this run does: by the same `exit`,
by the end of the instructions, or by the same empty-stack, two-values or not-an-`int8` error on the
same line; unless a value ends it before, at an instruction that the types let pass. -/
theorem types_predict {cin : Bool} {input : Text} (hclean : (frontEnd cin input).2 = [])
    {U : OperandType}
    (hsort : (∀ i ∈ (frontEnd cin input).1, i.instruction ≠ .SORT) ∨
      ∀ i ∈ (frontEnd cin input).1, i.operandType ≠ .NoType → i.operandType = U) :
    ∃ ls : List (Line Cell), (frontEnd cin input).1 = ls.map Line.instr ∧
      Predicted (ls.map (Line.map Cell.tag)) (run cin input) := by
  obtain ⟨ls, hfront⟩ := Command.exists_lines hclean
  refine ⟨ls, congrArg Prod.fst hfront, ?_⟩
  have hmem : ∀ l ∈ ls, l.instr ∈ (frontEnd cin input).1 := fun _ => instr_mem hfront
  -- whether the program sorts; then its operands have one type
  have huniform : (∃ l ∈ ls, l.command = .sort) →
      ∀ l ∈ ls, ∀ c, l.command.carried = some c → c.tag = U := by
    rintro ⟨l, hl, hc⟩ l' hl' c hcarried
    rcases hsort with hno | hone
    · exact absurd (by unfold Line.instr; rw [hc]; rfl) (hno _ (hmem l hl))
    · have htype : l'.instr.operandType = c.tag := by
        unfold Line.instr
        rw [hcarried]
        rfl
      have hU := hone _ (hmem l' hl')
      rw [htype] at hU
      exact hU c.tag_ne_noType
  rw [run_of_lines hfront]
  exact predicted huniform fun l hl hc => ⟨l, hl, hc⟩

/-- A program that sorts integers of one type and then adds the only one left. -/
theorem types_predict_sort :
    ∃ ls : List (Line Cell),
      (frontEnd false "push int8(2)\npush int8(1)\nsort\npop\nadd\nexit\n".toList).1 =
          ls.map Line.instr ∧
        Predicted (ls.map (Line.map Cell.tag))
          (run false "push int8(2)\npush int8(1)\nsort\npop\nadd\nexit\n".toList) :=
  types_predict (U := .Int8) (by decide +kernel) (Or.inr (by decide +kernel))

end AbstractVM
