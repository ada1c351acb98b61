import AbstractVM.Denotation
/-!
# Integer programs, without bounds

Sizes of integers matter in one place, the range check of the factory behind an operator. The same
machine on integers of any size does what the program does, as long as no result leaves its type; and
where the first one does, the program stops with the error that names the side.

| here | what it says of the source |
| --- | --- |
| `Integer.numbers` | integer arithmetic and comparisons, with no range |
| `Integer.misfit` | the error of a value that its type cannot hold |
| `cells_follow_integers` | the operators of `Operand<T>` on integers, against these |

Main result: `run_unbounded`.
-/

namespace AbstractVM

open DecimalText (Text)
open Cpp
open Machine

/-- An integer with the name of a type, whether or not the type can hold it. -/
structure Integer where
  type : IntType
  value : ℤ

namespace Integer

def numbers : Numbers Integer where
  apply op l r :=
    if op.Divides ∧ r.value = 0 then .error DivModByZeroException
    else .ok ⟨l.type.widest r.type, op.eval l.value r.value⟩
  equal a b := .ok (decide (a.value = b.value))
  before a b := .ok (decide (a.value < b.value))
  text i := toStringInt i.value
  int8? i := if i.type = .int8_t then some i.value else none

/-- Its type can hold it. -/
def Fits (i : Integer) : Prop := i.type.Fits i.value

/-- What the factory says of a value its type cannot hold. -/
def misfit (i : Integer) : AVMException :=
  if i.type.max < i.value then OverflowException (toStringInt i.value ++ i.type.notType)
  else UnderflowException (toStringInt i.value ++ i.type.notType)

/-- The result of an operator, when its type cannot hold it. -/
inductive Misfits (op : ArithOp) (l r : Integer) : Prop
  | mk (i : Integer) (hop : numbers.apply op l r = .ok i) (hfits : ¬ i.Fits)

end Integer

/-- The cell holds this integer. -/
def Cell.Holds (c : Cell) (i : Integer) : Prop := c.value = .int i.type i.value

theorem Cell.Holds.eq_int {c : Cell} {i : Integer} (h : c.Holds i) :
    ∃ hfits : i.Fits, c = .int i.type i.value hfits := by
  obtain ⟨value, valid⟩ := c
  cases show value = _ from h
  exact ⟨valid, rfl⟩

/-- A cell of an integer type. -/
theorem exists_holds {c : Cell} (hfloat : c.tag ≠ .Float) (hdouble : c.tag ≠ .Double) :
    ∃ i, c.Holds i := by
  obtain ⟨value, valid⟩ := c
  cases value with
  | int T v => exact ⟨⟨T, v⟩, rfl⟩
  | real T x =>
    cases T with
    | float => exact absurd rfl hfloat
    | double => exact absurd rfl hdouble

theorem fitInt_misfit {i : Integer} (h : ¬ i.Fits) : fitInt i.type i.value = .error i.misfit := by
  unfold fitInt Integer.misfit
  by_cases hmax : i.type.max < i.value
  · rw [dif_pos hmax, if_pos hmax]
  · rw [dif_neg hmax, if_neg hmax]
    by_cases hmin : i.value < i.type.min
    · rw [dif_pos hmin]
    · exact absurd ⟨not_lt.1 hmin, not_lt.1 hmax⟩ h

/-- An operator on cells of integers. -/
theorem onCells_holds {l r : Cell} {i j : Integer} (hl : l.Holds i) (hr : r.Holds j) (op : ArithOp) :
    op.onCells l r = (Integer.numbers.apply op i j).bind fun k => fitInt k.type k.value := by
  obtain ⟨T, a⟩ := i
  obtain ⟨U, b⟩ := j
  have honInts : op.onCells l r = op.onInts T U a b := by
    unfold ArithOp.onCells
    rw [show l.value = _ from hl, show r.value = _ from hr]
  rw [honInts]
  unfold ArithOp.onInts Integer.numbers
  by_cases h0 : op.Divides ∧ b = 0
  · simp only [if_pos h0]
    rfl
  · simp only [if_neg h0]
    rfl

/-- **Cells follow integers** but where a result does not fit. -/
theorem cells_follow_integers :
    Cell.numbers.Follows Integer.numbers Cell.Holds Integer.Misfits where
  apply := by
    intro l r i j op hl hr
    have hop : Cell.numbers.apply op l r = _ := onCells_holds hl hr op
    rw [hop]
    cases hk : Integer.numbers.apply op i j with
    | error e => exact Or.inr rfl
    | ok k =>
      by_cases hfits : k.Fits
      · right
        have hfit : (Except.ok k).bind (fun k => fitInt k.type k.value) = .ok (.int _ _ hfits) :=
          fitInt_of_fits hfits
        rw [hfit]
        exact rfl
      · exact Or.inl (.mk k hk hfits)
  equal := by
    intro a b i j ha hb
    obtain ⟨hi, rfl⟩ := ha.eq_int
    obtain ⟨hj, rfl⟩ := hb.eq_int
    refine (eq_cell _ _).symm.trans ?_
    exact compareWith_int (fun a b => decide (a = b)) (fun a b => decide (a = b)) hi hj
  before := by
    intro a b i j ha hb
    obtain ⟨hi, rfl⟩ := ha.eq_int
    obtain ⟨hj, rfl⟩ := hb.eq_int
    refine (lt_cell _ _).symm.trans ?_
    exact compareWith_int (fun a b => decide (a < b)) (fun a b => decide (a < b)) hi hj
  text := by
    intro a i ha
    obtain ⟨hi, rfl⟩ := ha.eq_int
    rfl
  int8? := by
    intro a i ha
    obtain ⟨hi, rfl⟩ := ha.eq_int
    obtain ⟨T, v⟩ := i
    cases T <;> rfl

namespace Command

/-- What the front end returns for a command on integers. -/
def Line.instrOf (l : Line Integer) : ParsedInstr Operand :=
  ⟨l.command.operation, (l.command.carried.map fun i => i.type.tag).getD .NoType,
    l.command.carried.map fun i => Operand.new (.int i.type i.value), l.number⟩

/-- The command on the integers that its cells hold. -/
theorem exists_rel (l : Line Cell) (h : ∀ c, l.command.carried = some c → ∃ i, c.Holds i) :
    ∃ l' : Line Integer, l'.instrOf = l.instr ∧ Line.Rel Cell.Holds l l' := by
  obtain ⟨n, c⟩ := l
  cases c with
  | push c =>
    obtain ⟨i, hi⟩ := h c rfl
    refine ⟨⟨n, push i⟩, ?_, rfl, .push hi⟩
    obtain ⟨hfits, rfl⟩ := hi.eq_int
    rfl
  | assert c =>
    obtain ⟨i, hi⟩ := h c rfl
    refine ⟨⟨n, assert i⟩, ?_, rfl, .assert hi⟩
    obtain ⟨hfits, rfl⟩ := hi.eq_int
    rfl
  | pop => exact ⟨⟨n, pop⟩, rfl, rfl, .pop⟩
  | swap => exact ⟨⟨n, swap⟩, rfl, rfl, .swap⟩
  | dump => exact ⟨⟨n, dump⟩, rfl, rfl, .dump⟩
  | arith op => exact ⟨⟨n, arith op⟩, rfl, rfl, .arith op⟩
  | print => exact ⟨⟨n, print⟩, rfl, rfl, .print⟩
  | sort => exact ⟨⟨n, sort⟩, rfl, rfl, .sort⟩
  | exit => exact ⟨⟨n, exit⟩, rfl, rfl, .exit⟩

theorem exists_rels {ls : List (Line Cell)}
    (h : ∀ l ∈ ls, ∀ c, l.command.carried = some c → ∃ i, c.Holds i) :
    ∃ ls' : List (Line Integer), ls'.map Line.instrOf = ls.map Line.instr ∧
      List.Forall₂ (Line.Rel Cell.Holds) ls ls' := by
  induction ls with
  | nil => exact ⟨[], rfl, .nil⟩
  | cons l ls ih =>
    obtain ⟨hl, hls⟩ := List.forall_mem_cons.1 h
    obtain ⟨l', hinstr, hrel⟩ := exists_rel l hl
    obtain ⟨ls', hinstrs, hrels⟩ := ih hls
    exact ⟨l' :: ls', by rw [List.map_cons, List.map_cons, hinstr, hinstrs], .cons hrel hrels⟩

/-- The operation `c` has a result `i` that its type cannot hold. -/
inductive Exceeds (t : State Integer) (i : Integer) : Command Integer → Prop
  | mk {op : ArithOp} {right left : Integer} {rest : List Integer}
      (hs : t.stack = right :: left :: rest) (hop : Integer.numbers.apply op left right = .ok i)
      (hfits : ¬ i.Fits) : Exceeds t i (arith op)

/-- No result of a run from the empty stack leaves its type. -/
def Within (ls : List (Line Integer)) : Prop :=
  Never (fun l => effect Integer.numbers l.command) (fun l t => ∃ i, Exceeds t i l.command) ls
    State.init

theorem strays_iff {l : Line Integer} {t : State Integer} :
    Strays Integer.Misfits l t ↔ ∃ i, Exceeds t i l.command := by
  obtain ⟨n, c⟩ := l
  constructor
  · rintro ⟨op, right, left, rest, hl, hs, i, hop, hfits⟩
    cases hl
    exact ⟨i, .mk hs hop hfits⟩
  · rintro ⟨i, hs, hop, hfits⟩
    exact .mk _ _ _ _ rfl hs (.mk i hop hfits)

theorem within_of_never {ls : List (Line Integer)}
    (h : Never (fun l => effect Integer.numbers l.command) (Strays Integer.Misfits) ls State.init) :
    Within ls :=
  fun done l rest t hsplit hrun hexceeds => h done l rest t hsplit hrun (strays_iff.2 hexceeds)

/-- There the program throws. -/
theorem effect_of_exceeds {i : Integer} {l : Line Cell} {l' : Line Integer} {s : State Cell}
    {t : State Integer} (hl : Line.Rel Cell.Holds l l') (hst : (along Cell.Holds []).state s t)
    (h : Exceeds t i l'.command) :
    effect Cell.numbers l.command s = .fail ⟨.throws i.misfit, t.out⟩ := by
  obtain ⟨n, c⟩ := l
  obtain ⟨n', c'⟩ := l'
  obtain ⟨stack, out⟩ := s
  obtain ⟨stack', out'⟩ := t
  obtain ⟨hstack, hout⟩ := hst
  obtain ⟨-, hc⟩ := hl
  change out = out' at hout
  change List.Forall₂ Cell.Holds stack stack' at hstack
  subst hout
  cases h with
  | @mk op right' left' rest' hs hop hfits =>
    cases hs
    cases hc
    cases hstack with
    | @cons right _ _ _ hr hrest =>
      cases hrest with
      | @cons left _ _ _ hleft _ =>
        have hfail : Cell.numbers.apply op left right = .error i.misfit := by
          refine (onCells_holds hleft hr op).trans ?_
          rw [hop]
          exact fitInt_misfit hfits
        simp only [effect, hfail]
        rfl

theorem lastNumber_rel {C D : Type} {R : C → D → Prop} {ls : List (Line C)} {ls' : List (Line D)}
    (h : List.Forall₂ (Line.Rel R) ls ls') : lastNumber ls = lastNumber ls' := by
  have hnumbers : ls.map (·.number) = ls'.map (·.number) := by
    induction h with
    | nil => rfl
    | cons hl _ ih => rw [List.map_cons, List.map_cons, hl.number, ih]
  unfold lastNumber
  rw [← List.getLast?_map, ← List.getLast?_map, hnumbers]

end Command

open Command

theorem Outcome.after_nil (o : Outcome) : o.after [] = o := by cases o <;> rfl

/-- What a program of these commands leaves behind, when it is what the machine without bounds does
until a result leaves its type. -/
inductive AsUnbounded (ls : List (Line Integer)) : Outcome → Prop
  | within (h : Within ls) :
      AsUnbounded ls (report ls (Command.run Integer.numbers ls State.init))
  | exceeds {done rest : List (Line Integer)} {l : Line Integer} {t : State Integer} {i : Integer}
      (hsplit : ls = done ++ l :: rest) (hdone : Within done)
      (hrun : Command.run Integer.numbers done State.init = .fell t) (h : Exceeds t i l.command) :
      AsUnbounded ls (.exited t.out (endl (builtErrorMessage (i.misfit.pushError l.number))) 1)

/-- **Integer programs are exact up to the first value too large.** Let a text be accepted and all its
operands be integers. Either no result of the machine without bounds leaves its type, and the program
does what this machine does; or there is a first one that does, and up to there the program does what
the machine does, then stops with the overflow or underflow error of this value, on this line. -/
theorem run_unbounded {cin : Bool} {input : Text} (hclean : (frontEnd cin input).2 = [])
    (hints : ∀ i ∈ (frontEnd cin input).1, i.operandType ≠ .Float ∧ i.operandType ≠ .Double) :
    ∃ ls : List (Line Integer), (frontEnd cin input).1 = ls.map Line.instrOf ∧
      AsUnbounded ls (run cin input) := by
  obtain ⟨cells, hfront⟩ := exists_lines hclean
  have hholds : ∀ l ∈ cells, ∀ c, l.command.carried = some c → ∃ i, c.Holds i := by
    intro l hl c hc
    have htype : l.instr.operandType = c.tag := by
      unfold Line.instr
      rw [hc]
      rfl
    obtain ⟨hfloat, hdouble⟩ := hints l.instr (instr_mem hfront hl)
    rw [htype] at hfloat hdouble
    exact exists_holds hfloat hdouble
  obtain ⟨ls, hls, hrel⟩ := exists_rels hholds
  refine ⟨ls, (congrArg Prod.fst hfront).trans hls.symm, ?_⟩
  have hstart : (along Cell.Holds []).state State.init State.init := ⟨.nil, rfl⟩
  rw [run_of_lines hfront]
  rcases run_follows cells_follow_integers hrel hstart with ⟨hnever, hfinals⟩ | ⟨⟨parts⟩⟩
  · have hreport := report_follows hfinals (lastNumber_rel hrel)
    rw [Outcome.after_nil] at hreport
    rw [hreport]
    exact .within (within_of_never hnever)
  · -- the first value too large
    obtain ⟨i, hexceeds⟩ := strays_iff.1 parts.off
    have hthrows := effect_of_exceeds parts.related parts.coupled hexceeds
    have hrun : Command.run Cell.numbers cells State.init =
        .failed parts.here.1 ⟨.throws i.misfit, parts.now.2.out⟩ := by
      refine (congrArg (fun is => Machine.run _ is _) parts.left).trans ?_
      rw [run_append_of_fell parts.fell]
      simp only [Machine.run, hthrows]
    rw [hrun]
    simp only [report, parts.related.number]
    exact .exceeds parts.right (within_of_never parts.never) parts.fell' hexceeds

/-- A sum that `int8` cannot hold. -/
theorem run_unbounded_sum :
    ∃ ls : List (Line Integer),
      (frontEnd false "push int8(100)\npush int8(100)\nadd\nexit\n".toList).1 =
          ls.map Line.instrOf ∧
        AsUnbounded ls (run false "push int8(100)\npush int8(100)\nadd\nexit\n".toList) :=
  run_unbounded (by decide +kernel) (by decide +kernel)

end AbstractVM
