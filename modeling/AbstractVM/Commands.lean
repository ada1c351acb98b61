import AbstractVM.Lib.Machine
import AbstractVM.Execution
/-!
# A machine on numbers

The commands of the machine said without pointers, texts or operation codes: `push` and `assert`
carry a number, and the stack holds numbers. The machine is the same whatever these are (`Numbers`):
it asks for an arithmetic, two comparisons and two texts.

| here | what it is |
| --- | --- |
| `Command.effect`, `effect_ends` | one command, and every way it can end |
| `Command.run_keeps` | the invariant rule |
| `Command.report`, `Reports` | what the process leaves behind, by the end of the run |
| `Numbers.Follows`, `run_follows` | numbers that behave alike make machines that do |
-/

namespace AbstractVM

open DecimalText (Text)
open Cpp
open Machine

/-- What the machine asks of the numbers on its stack. A comparison that throws throws
`std::out_of_range`. -/
structure Numbers (C : Type) where
  apply : ArithOp → C → C → Except AVMException C
  equal : C → C → Except Fault Bool
  before : C → C → Except Fault Bool
  text : C → Text
  int8? : C → Option ℤ

inductive Command (C : Type)
  | push (c : C)
  | assert (c : C)
  | pop
  | swap
  | dump
  | arith (op : ArithOp)
  | print
  | sort
  | exit

namespace Command

/-- A command with the number of its line. -/
structure Line (C : Type) where
  number : ℕ
  command : Command C

/-- The stack, its top first, and what was written. -/
structure State (C : Type) where
  stack : List C
  out : Text

/-- Why a run breaks off: an error of the program, or a text that a comparison cannot read. -/
inductive Trap
  | throws (e : AVMException)
  | outOfRange

/-- A trap, and what was written before it. -/
structure Failure where
  trap : Trap
  out : Text

section
variable {C : Type}

def State.init : State C := ⟨[], []⟩

def State.throws (s : State C) (e : AVMException) : Effect Failure (State C) :=
  .fail ⟨.throws e, s.out⟩

variable (N : Numbers C)

/-- One command. -/
def effect (c : Command C) (s : State C) : Effect Failure (State C) :=
  match c, s.stack with
  | push c, stack => .next { s with stack := c :: stack }
  | assert _, [] => s.throws EmtpyStackException
  | assert c, top :: _ =>
    match N.equal top c with
    | .error _ => .fail ⟨.outOfRange, s.out⟩
    | .ok b => if b then .next s else s.throws FalseAssertException
  | pop, [] => s.throws EmtpyStackException
  | pop, _ :: rest => .next { s with stack := rest }
  | swap, right :: left :: rest => .next { s with stack := left :: right :: rest }
  | swap, _ => s.throws (ImpossibleInstructionException "swap".toList)
  | dump, stack => .next { s with out := s.out ++ stack.flatMap fun c => endl (N.text c) }
  | arith op, right :: left :: rest =>
    match N.apply op left right with
    | .error e => s.throws e
    | .ok c => .next { s with stack := c :: rest }
  | arith op, _ => s.throws (ImpossibleInstructionException op.name)
  | print, [] => s.throws EmtpyStackException
  | print, top :: _ =>
    match N.int8? top with
    | none => s.throws (InvalidPrintException "not an int8".toList)
    | some v =>
      if isprint v then .next { s with out := s.out ++ endl [Char.ofNat v.toNat] }
      else s.throws (InvalidPrintException (N.text top ++ " is not printable".toList))
  | sort, stack =>
    match ListSort.listSort N.before stack.reverse with
    | .error _ => .fail ⟨.outOfRange, s.out⟩
    | .ok sorted => .next { s with stack := sorted.reverse }
  | exit, _ => .stop s

/-- The ways a command goes on. -/
inductive Goes (s : State C) : Command C → State C → Prop
  | push (c : C) : Goes s (push c) { s with stack := c :: s.stack }
  | assert {c top : C} {rest : List C} (hs : s.stack = top :: rest)
      (heq : N.equal top c = .ok true) : Goes s (assert c) s
  | pop {top : C} {rest : List C} (hs : s.stack = top :: rest) : Goes s pop { s with stack := rest }
  | swap {right left : C} {rest : List C} (hs : s.stack = right :: left :: rest) :
      Goes s swap { s with stack := left :: right :: rest }
  | dump : Goes s dump { s with out := s.out ++ s.stack.flatMap fun c => endl (N.text c) }
  | arith {op : ArithOp} {right left c : C} {rest : List C} (hs : s.stack = right :: left :: rest)
      (hop : N.apply op left right = .ok c) : Goes s (arith op) { s with stack := c :: rest }
  | print {top : C} {v : ℤ} {rest : List C} (hs : s.stack = top :: rest)
      (hv : N.int8? top = some v) (hp : isprint v = true) :
      Goes s print { s with out := s.out ++ endl [Char.ofNat v.toNat] }
  | sort {sorted : List C} (hl : ListSort.listSort N.before s.stack.reverse = .ok sorted) :
      Goes s sort { s with stack := sorted.reverse }

/-- The ways a command breaks off. -/
inductive Breaks (s : State C) : Command C → Trap → Prop
  | emptyAssert (c : C) (hs : s.stack = []) : Breaks s (assert c) (.throws EmtpyStackException)
  | falseAssert {c top : C} {rest : List C} (hs : s.stack = top :: rest)
      (heq : N.equal top c = .ok false) : Breaks s (assert c) (.throws FalseAssertException)
  | assert {c top : C} {rest : List C} {f : Fault} (hs : s.stack = top :: rest)
      (heq : N.equal top c = .error f) : Breaks s (assert c) .outOfRange
  | emptyPop (hs : s.stack = []) : Breaks s pop (.throws EmtpyStackException)
  | shortSwap (hs : s.stack.length < 2) :
      Breaks s swap (.throws (ImpossibleInstructionException "swap".toList))
  | shortArith (op : ArithOp) (hs : s.stack.length < 2) :
      Breaks s (arith op) (.throws (ImpossibleInstructionException op.name))
  | arith {op : ArithOp} {right left : C} {rest : List C} {e : AVMException}
      (hs : s.stack = right :: left :: rest) (hop : N.apply op left right = .error e) :
      Breaks s (arith op) (.throws e)
  | emptyPrint (hs : s.stack = []) : Breaks s print (.throws EmtpyStackException)
  | notInt8 {top : C} {rest : List C} (hs : s.stack = top :: rest) (hv : N.int8? top = none) :
      Breaks s print (.throws (InvalidPrintException "not an int8".toList))
  | notPrintable {top : C} {v : ℤ} {rest : List C} (hs : s.stack = top :: rest)
      (hv : N.int8? top = some v) (hp : isprint v = false) :
      Breaks s print (.throws (InvalidPrintException (N.text top ++ " is not printable".toList)))
  | sort {f : Fault} (hl : ListSort.listSort N.before s.stack.reverse = .error f) :
      Breaks s sort .outOfRange

/-- How a command ends. -/
inductive Ends (c : Command C) (s : State C) : Effect Failure (State C) → Prop
  | next {t : State C} (h : Goes N s c t) : Ends c s (.next t)
  | stop (hc : c = exit) : Ends c s (.stop s)
  | fail {trap : Trap} (h : Breaks N s c trap) : Ends c s (.fail ⟨trap, s.out⟩)

variable {N}

/-- **Every command ends in one of the listed ways.** -/
theorem effect_ends (c : Command C) (s : State C) : Ends N c s (effect N c s) := by
  obtain ⟨stack, out⟩ := s
  cases c with
  | push c => exact .next (.push c)
  | assert c =>
    cases stack with
    | nil => exact .fail (.emptyAssert c rfl)
    | cons top rest =>
      simp only [effect]
      cases heq : N.equal top c with
      | error f => exact .fail (.assert rfl heq)
      | ok b =>
        cases b with
        | true => exact .next (.assert rfl heq)
        | false => exact .fail (.falseAssert rfl heq)
  | pop =>
    cases stack with
    | nil => exact .fail (.emptyPop rfl)
    | cons top rest => exact .next (.pop rfl)
  | swap =>
    match stack with
    | [] => exact .fail (.shortSwap Nat.zero_lt_two)
    | [a] => exact .fail (.shortSwap Nat.one_lt_two)
    | a :: b :: rest => exact .next (.swap rfl)
  | dump => exact .next .dump
  | arith op =>
    match stack with
    | [] => exact .fail (.shortArith op Nat.zero_lt_two)
    | [a] => exact .fail (.shortArith op Nat.one_lt_two)
    | r :: l :: rest =>
      simp only [effect]
      cases hop : N.apply op l r with
      | error e => exact .fail (.arith rfl hop)
      | ok c => exact .next (.arith rfl hop)
  | print =>
    cases stack with
    | nil => exact .fail (.emptyPrint rfl)
    | cons top rest =>
      simp only [effect]
      cases hv : N.int8? top with
      | none => exact .fail (.notInt8 rfl hv)
      | some v =>
        by_cases hp : isprint v = true
        · simp only [if_pos hp]
          exact .next (.print rfl hv hp)
        · simp only [if_neg hp]
          exact .fail (.notPrintable rfl hv (eq_false_of_ne_true hp))
  | sort =>
    simp only [effect]
    cases hl : ListSort.listSort N.before stack.reverse with
    | error f => exact .fail (.sort hl)
    | ok sorted => exact .next (.sort hl)
  | exit => exact .stop rfl

section
variable {c : Command C} {s t : State C}

theorem effect_next (h : effect N c s = .next t) : Goes N s c t := by
  have hends := effect_ends (N := N) c s
  rw [h] at hends
  cases hends with
  | next hgoes => exact hgoes

theorem effect_stop (h : effect N c s = .stop t) : c = exit ∧ t = s := by
  have hends := effect_ends (N := N) c s
  rw [h] at hends
  cases hends with
  | stop hc => exact ⟨hc, rfl⟩

theorem effect_fail {f : Failure} (h : effect N c s = .fail f) :
    Breaks N s c f.trap ∧ f.out = s.out := by
  have hends := effect_ends (N := N) c s
  rw [h] at hends
  cases hends with
  | fail hbreaks => exact ⟨hbreaks, rfl⟩

end

variable (N) in
/-- The run of a list of commands. -/
def run (ls : List (Line C)) (s : State C) : Final (Line C) Failure (State C) :=
  Machine.run (fun l => effect N l.command) ls s

def lastNumber (ls : List (Line C)) : ℕ := (ls.getLast?.map (·.number)).getD 0

/-- What the process leaves behind. -/
def report (ls : List (Line C)) : Final (Line C) Failure (State C) → Outcome
  | .fell s =>
    .exited s.out (endl (builtErrorMessage (NoExitException.pushError (lastNumber ls)))) 1
  | .stopped _ s => .exited s.out [] 0
  | .failed l ⟨.throws e, out⟩ => .exited out (endl (builtErrorMessage (e.pushError l.number))) 1
  | .failed _ ⟨.outOfRange, out⟩ => .terminated out (.std .out_of_range)

def operation : Command C → Operation
  | push _ => .PUSH
  | assert _ => .ASSERT
  | pop => .POP
  | swap => .SWAP
  | dump => .DUMP
  | arith op => op.operation
  | print => .PRINT
  | sort => .SORT
  | exit => .EXIT

/-- The number it carries. -/
def carried : Command C → Option C
  | push c => some c
  | assert c => some c
  | _ => none

/-- **The invariant rule** for commands, an instance of the one for machines. -/
theorem run_keeps (Inv : List (Line C) → State C → Prop) {ls : List (Line C)} {s t : State C}
    (h : run N ls s = .fell t) (h0 : Inv [] s)
    (hstep : ∀ done l u v, l ∈ ls → Inv done u → Goes N u l.command v → Inv (done ++ [l]) v) :
    Inv ls t := by
  have hkeeps : Triple (fun l : Line C => effect N l.command) (Inv []) ls
      ⟨Inv ls, fun _ _ => True, fun _ _ => True⟩ := by
    refine Triple.keeps Inv (fun done l rest u hsplit hu => ?_) (fun _ hs => hs)
    cases he : effect N l.command u with
    | next v => exact hstep done l u v (by rw [hsplit]; simp) hu (effect_next he)
    | stop v => trivial
    | fail f => trivial
  have hend := hkeeps s h0
  unfold run at h
  rw [h] at hend
  exact hend

/-- How the run of a list of commands ends, and what is left behind. -/
inductive Reports (N : Numbers C) (ls : List (Line C)) : Outcome → Prop
  | noExit {t : State C} (h : run N ls State.init = .fell t) : Reports N ls
      (.exited t.out (endl (builtErrorMessage (NoExitException.pushError (lastNumber ls)))) 1)
  | exit {done rest : List (Line C)} {l : Line C} {t : State C} (hsplit : ls = done ++ l :: rest)
      (h : run N done State.init = .fell t) (hl : l.command = .exit) : Reports N ls (.exited t.out [] 0)
  | throws {done rest : List (Line C)} {l : Line C} {t : State C} {e : AVMException}
      (hsplit : ls = done ++ l :: rest) (h : run N done State.init = .fell t)
      (hl : Breaks N t l.command (.throws e)) :
      Reports N ls (.exited t.out (endl (builtErrorMessage (e.pushError l.number))) 1)
  | outOfRange {done rest : List (Line C)} {l : Line C} {t : State C} (hsplit : ls = done ++ l :: rest)
      (h : run N done State.init = .fell t) (hl : Breaks N t l.command .outOfRange) :
      Reports N ls (.terminated t.out (.std .out_of_range))

theorem reports (ls : List (Line C)) : Reports N ls (report ls (run N ls State.init)) := by
  cases h : run N ls State.init with
  | fell t => exact .noExit h
  | stopped l t =>
    obtain ⟨done, rest, u, hsplit, hdone, hstop⟩ := exists_of_stopped h
    obtain ⟨hexit, rfl⟩ := effect_stop hstop
    exact .exit hsplit hdone hexit
  | failed l f =>
    obtain ⟨done, rest, u, hsplit, hdone, hfail⟩ := exists_of_failed h
    obtain ⟨hbreaks, hout⟩ := effect_fail hfail
    obtain ⟨trap, out⟩ := f
    cases hout
    cases trap with
    | throws e => exact .throws hsplit hdone hbreaks
    | outOfRange => exact .outOfRange hsplit hdone hbreaks

/-- No `exit` has been executed in a run that goes on. -/
theorem ne_exit_of_fell {ls : List (Line C)} {s t : State C} (h : run N ls s = .fell t) :
    ∀ l ∈ ls, l.command.operation ≠ .EXIT := by
  intro l hl
  obtain ⟨u, v, hnext⟩ := next_of_fell h l hl
  cases hc : l.command with
  | exit =>
    rw [hc] at hnext
    cases hnext
  | arith op => exact fun he => by cases op <;> cases he
  | _ => exact fun he => by cases he

end

/-! ## Numbers that behave alike -/

/-- The same command, on numbers that go together. -/
inductive Rel {C D : Type} (R : C → D → Prop) : Command C → Command D → Prop
  | push {c : C} {d : D} (h : R c d) : Rel R (push c) (push d)
  | assert {c : C} {d : D} (h : R c d) : Rel R (assert c) (assert d)
  | pop : Rel R pop pop
  | swap : Rel R swap swap
  | dump : Rel R dump dump
  | arith (op : ArithOp) : Rel R (arith op) (arith op)
  | print : Rel R print print
  | sort : Rel R sort sort
  | exit : Rel R exit exit

/-- On lines of the same number. -/
structure Line.Rel {C D : Type} (R : C → D → Prop) (l : Line C) (l' : Line D) : Prop where
  number : l.number = l'.number
  command : Command.Rel R l.command l'.command

end Command

open Command in
/-- The first numbers do what the second do, but for some results of the arithmetic. -/
structure Numbers.Follows {C D : Type} (N : Numbers C) (N' : Numbers D) (R : C → D → Prop)
    (Off : ArithOp → D → D → Prop) : Prop where
  apply {l r : C} {l' r' : D} (op : ArithOp) : R l l' → R r r' →
    Off op l' r' ∨ ListSort.ExceptRel R (N.apply op l r) (N'.apply op l' r')
  equal {a b : C} {a' b' : D} : R a a' → R b b' → N.equal a b = N'.equal a' b'
  before {a b : C} {a' b' : D} : R a a' → R b b' → N.before a b = N'.before a' b'
  text {a : C} {a' : D} : R a a' → N.text a = N'.text a'
  int8? {a : C} {a' : D} : R a a' → N.int8? a = N'.int8? a'

namespace Command

/-- An operator meets two numbers it does not treat alike. -/
inductive Strays {D : Type} (Off : ArithOp → D → D → Prop) (l : Line D) (t : State D) : Prop
  | mk (op : ArithOp) (right left : D) (rest : List D) (hl : l.command = arith op)
      (hs : t.stack = right :: left :: rest) (hoff : Off op left right)

/-- Stacks of numbers that go together, one machine having written `pre` more. -/
def along {C D : Type} (R : C → D → Prop) (pre : Text) :
    Coupling Failure (State C) Failure (State D) where
  state s t := List.Forall₂ R s.stack t.stack ∧ s.out = pre ++ t.out
  final s t := s.out = pre ++ t.out
  fault f g := f.trap = g.trap ∧ f.out = pre ++ g.out

section
variable {C D : Type} {N : Numbers C} {N' : Numbers D} {R : C → D → Prop}
  {Off : ArithOp → D → D → Prop}

theorem flatMap_text (hN : N.Follows N' R Off) {cs : List C} {ds : List D}
    (h : List.Forall₂ R cs ds) :
    (cs.flatMap fun c => endl (N.text c)) = ds.flatMap fun d => endl (N'.text d) := by
  induction h with
  | nil => rfl
  | cons hc _ ih => rw [List.flatMap_cons, List.flatMap_cons, hN.text hc, ih]

section
variable {pre out : Text} {stack : List C} {stack' : List D}

theorem effect_follows_assert (hN : N.Follows N' R Off) (hstack : List.Forall₂ R stack stack')
    {c : C} {d : D} (h : R c d) :
    (along R pre).Effects (effect N (assert c) ⟨stack, pre ++ out⟩)
      (effect N' (assert d) ⟨stack', out⟩) := by
  cases hstack with
  | nil => exact .fail ⟨rfl, rfl⟩
  | @cons top top' rest rest' htop hrest =>
    simp only [effect, hN.equal htop h]
    cases N'.equal top' d with
    | error f => exact .fail ⟨rfl, rfl⟩
    | ok b =>
      cases b with
      | true => exact .next ⟨.cons htop hrest, rfl⟩
      | false => exact .fail ⟨rfl, rfl⟩

theorem effect_follows_arith (hN : N.Follows N' R Off) (hstack : List.Forall₂ R stack stack')
    (op : ArithOp) (n : ℕ) :
    Strays Off ⟨n, arith op⟩ ⟨stack', out⟩ ∨
      (along R pre).Effects (effect N (arith op) ⟨stack, pre ++ out⟩)
        (effect N' (arith op) ⟨stack', out⟩) := by
  cases hstack with
  | nil => exact Or.inr (.fail ⟨rfl, rfl⟩)
  | cons hr hrest =>
    cases hrest with
    | nil => exact Or.inr (.fail ⟨rfl, rfl⟩)
    | @cons left left' rest rest' hleft hrest =>
      rcases hN.apply op hleft hr with hoff | hrel
      · exact Or.inl (.mk op _ _ _ rfl rfl hoff)
      right
      simp only [effect]
      generalize N.apply op left _ = x at hrel ⊢
      generalize N'.apply op left' _ = y at hrel ⊢
      cases x with
      | error e =>
        cases y with
        | error e' => cases hrel; exact .fail ⟨rfl, rfl⟩
        | ok d => cases hrel
      | ok c =>
        cases y with
        | error e' => cases hrel
        | ok d => exact .next ⟨.cons hrel hrest, rfl⟩

theorem effect_follows_print (hN : N.Follows N' R Off) (hstack : List.Forall₂ R stack stack') :
    (along R pre).Effects (effect N print ⟨stack, pre ++ out⟩) (effect N' print ⟨stack', out⟩) := by
  cases hstack with
  | nil => exact .fail ⟨rfl, rfl⟩
  | @cons top top' rest rest' htop hrest =>
    simp only [effect, hN.int8? htop, hN.text htop]
    cases N'.int8? top' with
    | none => exact .fail ⟨rfl, rfl⟩
    | some v =>
      by_cases hp : isprint v = true
      · simp only [if_pos hp]
        refine .next ⟨.cons htop hrest, ?_⟩
        simp only [List.append_assoc]
      · simp only [if_neg hp]
        exact .fail ⟨rfl, rfl⟩

theorem effect_follows_sort (hN : N.Follows N' R Off) (hstack : List.Forall₂ R stack stack') :
    (along R pre).Effects (effect N sort ⟨stack, pre ++ out⟩) (effect N' sort ⟨stack', out⟩) := by
  have hlt : ∀ a a' b b', R a a' → R b b' → N.before a b = N'.before a' b' :=
    fun _ _ _ _ ha hb => hN.before ha hb
  have hrel := ListSort.listSort_rel hlt (List.forall₂_reverse_iff.2 hstack)
  simp only [effect]
  generalize ListSort.listSort N.before _ = x at hrel ⊢
  generalize ListSort.listSort N'.before _ = y at hrel ⊢
  cases x with
  | error e =>
    cases y with
    | error e' => exact .fail ⟨rfl, rfl⟩
    | ok zs' => cases hrel
  | ok zs =>
    cases y with
    | error e' => cases hrel
    | ok zs' => exact .next ⟨List.forall₂_reverse_iff.2 hrel, rfl⟩

end

/-- **Step lemma.** -/
theorem effect_follows (hN : N.Follows N' R Off) {pre : Text} {l : Line C} {l' : Line D}
    {s : State C} {t : State D} (hl : Line.Rel R l l') (hst : (along R pre).state s t) :
    Strays Off l' t ∨
      (along R pre).Effects (effect N l.command s) (effect N' l'.command t) := by
  obtain ⟨n, c⟩ := l
  obtain ⟨n', c'⟩ := l'
  obtain ⟨stack, out⟩ := s
  obtain ⟨stack', out'⟩ := t
  obtain ⟨hstack, hout⟩ := hst
  obtain ⟨rfl, hc⟩ := hl
  change out = pre ++ out' at hout
  change List.Forall₂ R stack stack' at hstack
  subst hout
  cases hc with
  | push h => exact Or.inr (.next ⟨.cons h hstack, rfl⟩)
  | assert h => exact Or.inr (effect_follows_assert hN hstack h)
  | pop =>
    right
    cases hstack with
    | nil => exact .fail ⟨rfl, rfl⟩
    | cons _ hrest => exact .next ⟨hrest, rfl⟩
  | swap =>
    right
    cases hstack with
    | nil => exact .fail ⟨rfl, rfl⟩
    | cons ha hrest =>
      cases hrest with
      | nil => exact .fail ⟨rfl, rfl⟩
      | cons hb hrest => exact .next ⟨.cons hb (.cons ha hrest), rfl⟩
  | dump =>
    refine Or.inr (.next ⟨hstack, ?_⟩)
    simp only [flatMap_text hN hstack, List.append_assoc]
  | arith op => exact effect_follows_arith hN hstack op _
  | print => exact Or.inr (effect_follows_print hN hstack)
  | sort => exact Or.inr (effect_follows_sort hN hstack)
  | exit => exact Or.inr (.stop rfl)

/-- **Run lemma**: the machines agree up to the first operation that strays. -/
theorem run_follows (hN : N.Follows N' R Off) {pre : Text} {ls : List (Line C)}
    {ls' : List (Line D)} (hls : List.Forall₂ (Line.Rel R) ls ls') {s : State C} {t : State D}
    (hst : (along R pre).state s t) :
    (Never (fun l => effect N' l.command) (Strays Off) ls' t ∧
        (along R pre).Finals (Line.Rel R) (run N ls s) (run N' ls' t)) ∨
      Nonempty ((along R pre).Parts (Line.Rel R) (fun l => effect N l.command)
        (fun l => effect N' l.command) (Strays Off) ls s ls' t) := by
  have hstep : ∀ (l : Line C) (l' : Line D) (s : State C) (t : State D), Line.Rel R l l' →
      (along R pre).state s t → Strays Off l' t ∨
        (along R pre).Effects (effect N l.command s) (effect N' l'.command t) :=
    fun _ _ _ _ hl h => effect_follows hN hl h
  exact Coupling.run_until hstep hls hst

end

end Command

/-- The same outcome, with `pre` written before. -/
def Outcome.after (pre : Text) : Outcome → Outcome
  | .exited stdout stderr status => .exited (pre ++ stdout) stderr status
  | .terminated stdout f => .terminated (pre ++ stdout) f

namespace Command

/-- Runs that go together report alike, if their last lines have the same number. -/
theorem report_follows {C D : Type} {R : C → D → Prop} {pre : Text} {ls : List (Line C)}
    {ls' : List (Line D)} {r : Final (Line C) Failure (State C)}
    {r' : Final (Line D) Failure (State D)} (h : (along R pre).Finals (Line.Rel R) r r')
    (hlast : lastNumber ls = lastNumber ls') : report ls r = (report ls' r').after pre := by
  cases h with
  | fell h => simp only [report, hlast, h.2, Outcome.after]
  | stopped hij h => simp only [report, show _ = _ from h, Outcome.after]
  | @failed l l' f g hij h =>
    obtain ⟨trap, out⟩ := f
    obtain ⟨trap', out'⟩ := g
    obtain ⟨htrap, hout⟩ := h
    change trap = trap' at htrap
    change out = pre ++ out' at hout
    subst htrap hout
    cases trap with
    | throws e => simp only [report, hij.number, Outcome.after]
    | outOfRange => rfl

end Command

end AbstractVM
