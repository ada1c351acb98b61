import AbstractVM.Executable
/-!
# Wider integer types change nothing but ranges

Two programs whose integer operands have the same values, those of the second of types at least as
wide, run in lock step: the stacks agree cell by cell up to the width (`Widens`), and every
instruction keeps it so or stops both machines with the same exception (`Tracks`). The one way out
is an overflow or underflow of the narrower machine.

| here | what it says of the source |
| --- | --- |
| `LineWidens` | the type name of an operand replaced by that of a wider integer type |
| `lineWidens_instrAt` | the front end, line by line |
| `execInstr_widens`, `executeLoop_widens` | step lemma and run lemma |
| `run_widens` | the two processes |
-/

namespace AbstractVM

open DecimalText (Text)
open CommandsExecutor

/-! ## Widths -/

theorem IntType.Fits.widen {T U : IntType} {v : ℤ} (h : T.Fits v) (hle : T.tag ≤ U.tag) :
    U.Fits v := by
  have hmin : U.min ≤ T.min := by cases T <;> cases U <;> first | decide | exact absurd hle (by decide)
  have hmax : T.max ≤ U.max := by cases T <;> cases U <;> first | decide | exact absurd hle (by decide)
  exact ⟨hmin.trans h.1, h.2.trans hmax⟩

theorem IntType.widest_le {T U T' U' : IntType} (hT : T.tag ≤ T'.tag) (hU : U.tag ≤ U'.tag) :
    (T.widest U).tag ≤ (T'.widest U').tag := by
  have key : ∀ a b a' b' : OperandType, a ≤ a' → b ≤ b' →
      (if b ≤ a then a else b) ≤ if b' ≤ a' then a' else b' := by
    intro a b a' b' ha hb
    change a.toNat ≤ a'.toNat at ha
    change b.toNat ≤ b'.toNat at hb
    change OperandType.toNat _ ≤ OperandType.toNat _
    split_ifs with h1 h2 h2
    · exact ha
    · exact ha.trans (not_le.1 h2).le
    · exact hb.trans h2
    · exact hb
  rw [tag_widest, tag_widest]
  exact key _ _ _ _ hT hU

/-- The same integer, in a type at least as wide. -/
inductive Widens : Option Operand → Option Operand → Prop
  | int {T U : IntType} {v : ℤ} (hT : T.Fits v) (hU : U.Fits v) (hle : T.tag ≤ U.tag) :
      Widens (some (Cell.int T v hT).operand) (some (Cell.int U v hU).operand)

theorem Widens.refl {T : IntType} {v : ℤ} (h : T.Fits v) :
    Widens (some (Cell.int T v h).operand) (some (Cell.int T v h).operand) :=
  .int h h (Nat.le_refl _)

/-- The errors a wider type may not have. -/
def OutOfRange (e : AVMException) : Prop :=
  e.type = .OverflowException ∨ e.type = .UnderflowException

theorem fitInt_of_not_fits {T : IntType} {z : ℤ} (h : ¬ T.Fits z) :
    ∃ e, fitInt T z = .error e ∧ OutOfRange e := by
  unfold fitInt
  split_ifs with hmax hmin
  · exact ⟨_, rfl, Or.inl rfl⟩
  · exact ⟨_, rfl, Or.inr rfl⟩
  · exact absurd ⟨not_lt.1 hmin, not_lt.1 hmax⟩ h

/-- An operator whose result the narrow types can hold gives the wide ones the same result. -/
theorem ArithOp.onInts_widens (op : ArithOp) {T U T' U' : IntType} (hT : T.tag ≤ T'.tag)
    (hU : U.tag ≤ U'.tag) (a b : ℤ) :
    (∃ e, op.onInts T U a b = .error e ∧ (OutOfRange e ∨ op.onInts T' U' a b = .error e)) ∨
      ∃ c c', op.onInts T U a b = .ok c ∧ op.onInts T' U' a b = .ok c' ∧
        Widens (some c.operand) (some c'.operand) := by
  unfold onInts
  by_cases hdiv : op.Divides ∧ b = 0
  · rw [if_pos hdiv, if_pos hdiv]
    exact Or.inl ⟨_, rfl, Or.inr rfl⟩
  · rw [if_neg hdiv, if_neg hdiv]
    by_cases hfits : (T.widest U).Fits (op.eval a b)
    · have hle := IntType.widest_le hT hU
      refine Or.inr ⟨_, _, fitInt_of_fits hfits, fitInt_of_fits (hfits.widen hle), ?_⟩
      exact .int hfits (hfits.widen hle) hle
    · obtain ⟨e, he, hrange⟩ := fitInt_of_not_fits hfits
      exact Or.inl ⟨e, he, Or.inl hrange⟩

/-! ## One instruction -/

/-- Two machines in lock step. -/
structure InStep (s t : VM Operand Unit) : Prop where
  stack : List.Forall₂ Widens s.stack_ t.stack_
  exit : s.exit_ = t.exit_
  cout : s.cout = t.cout

/-- How an instruction ends on two machines in lock step. -/
inductive Tracks : Result Operand Unit → Result Operand Unit → Prop
  | ok {s t : VM Operand Unit} (h : InStep s t) : Tracks (.ok s) (.ok t)
  | threw {f : Fault} {s t : VM Operand Unit} (h : s.cout = t.cout) :
      Tracks (.error (f, s)) (.error (f, t))
  | outOfRange {e : AVMException} {s : VM Operand Unit} {r : Result Operand Unit}
      (h : OutOfRange e) : Tracks (.error (.avm e, s)) r

/-- The same instruction on the same line, its operand at least as wide. -/
structure InstrWidens (i j : ParsedInstr Operand) : Prop where
  instruction : i.instruction = j.instruction
  line : i.line = j.line
  operand : i.instruction.TakesOperand → Widens i.operand j.operand

section
variable {s t : VM Operand Unit}

theorem push_widens {p q : Option Operand} (hpq : Widens p q) (h : InStep s t) :
    Tracks (CommandsExecutor.push p s) (CommandsExecutor.push q t) :=
  .ok ⟨.cons hpq h.stack, h.exit, h.cout⟩

theorem assert_widens {p q : Option Operand} (hpq : Widens p q) (h : InStep s t) :
    Tracks (CommandsExecutor.assert plain p s) (CommandsExecutor.assert plain q t) := by
  obtain ⟨stack, exit, right, left, out, m⟩ := s
  obtain ⟨stack', exit', right', left', out', m'⟩ := t
  obtain ⟨hstack, hexit, hout⟩ := h
  unfold CommandsExecutor.assert
  cases hpq with
  | @int T U v hT hU hle =>
    cases hstack with
    | nil => exact .threw hout
    | cons htop hrest =>
      cases htop with
      | @int T' U' w hT' hU' hle' =>
        simp only [plain, id, Operand.eq, compareWith_int]
        cases decide (w = v) with
        | false => exact .threw hout
        | true => exact .ok ⟨.cons (.int hT' hU' hle') hrest, hexit, hout⟩

theorem pop_widens (h : InStep s t) :
    Tracks (CommandsExecutor.pop plain s) (CommandsExecutor.pop plain t) := by
  obtain ⟨stack, exit, right, left, out, m⟩ := s
  obtain ⟨stack', exit', right', left', out', m'⟩ := t
  obtain ⟨hstack, hexit, hout⟩ := h
  cases hstack with
  | nil => exact .threw hout
  | cons _ hrest => exact .ok ⟨hrest, hexit, hout⟩

theorem swap_widens (h : InStep s t) :
    Tracks (CommandsExecutor.swap s) (CommandsExecutor.swap t) := by
  obtain ⟨stack, exit, right, left, out, m⟩ := s
  obtain ⟨stack', exit', right', left', out', m'⟩ := t
  obtain ⟨hstack, hexit, hout⟩ := h
  cases hstack with
  | nil => exact .threw hout
  | cons hright hrest =>
    cases hrest with
    | nil => exact .threw hout
    | cons hleft hrest => exact .ok ⟨.cons hleft (.cons hright hrest), hexit, hout⟩

theorem flatMap_widens {f : Option Operand → Text} (hf : ∀ p q, Widens p q → f p = f q)
    {ps qs : List (Option Operand)} (h : List.Forall₂ Widens ps qs) : ps.flatMap f = qs.flatMap f := by
  induction h with
  | nil => rfl
  | cons hpq _ ih => rw [List.flatMap_cons, List.flatMap_cons, hf _ _ hpq, ih]

/-- Equal values print alike. -/
theorem dump_widens (h : InStep s t) :
    Tracks (CommandsExecutor.dump plain s) (CommandsExecutor.dump plain t) := by
  refine .ok ⟨h.stack, h.exit, congrArg₂ (· ++ ·) h.cout (flatMap_widens ?_ h.stack)⟩
  intro p q hpq
  cases hpq
  rfl

theorem arithmetic_widens (op : ArithOp) (h : InStep s t) :
    Tracks (arithmetic plain op.name op.operator s) (arithmetic plain op.name op.operator t) := by
  obtain ⟨stack, exit, right, left, out, m⟩ := s
  obtain ⟨stack', exit', right', left', out', m'⟩ := t
  obtain ⟨hstack, hexit, hout⟩ := h
  unfold arithmetic
  cases hstack with
  | nil => exact .threw hout
  | cons hright hrest =>
    cases hrest with
    | nil => exact .threw hout
    | cons hleft hrest =>
      cases hright with
      | @int U U' b hU hU' hle =>
        cases hleft with
        | @int T T' a hT hT' hle' =>
          simp only [plain, id, ArithOp.operator_int]
          rcases op.onInts_widens hle' hle a b with ⟨e, he, hwide | hsame⟩ | ⟨c, c', hc, hc', hcc⟩
          · rw [he]
            exact .outOfRange hwide
          · rw [he, hsame]
            exact .threw hout
          · rw [hc, hc']
            exact .ok ⟨.cons hcc hrest, hexit, hout⟩

/-- The comparator sees the values only. -/
theorem sort_widens (h : InStep s t) :
    Tracks (CommandsExecutor.sort plain s) (CommandsExecutor.sort plain t) := by
  have hlt : ∀ p p' q q', Widens p p' → Widens q q' →
      compareForStack plain p q = compareForStack plain p' q' := by
    intro p p' q q' hp hq
    cases hp
    cases hq
    simp only [compareForStack, plain, id, Operand.lt, compareWith_int]
  have hrel := ListSort.listSort_rel hlt (List.forall₂_reverse_iff.2 h.stack)
  unfold CommandsExecutor.sort
  cases hs : ListSort.listSort (compareForStack plain) s.stack_.reverse with
  | error f =>
    rw [hs] at hrel
    cases ht : ListSort.listSort (compareForStack plain) t.stack_.reverse with
    | error f' =>
      rw [ht] at hrel
      cases hrel
      exact .threw h.cout
    | ok l' => rw [ht] at hrel; cases hrel
  | ok l =>
    rw [hs] at hrel
    cases ht : ListSort.listSort (compareForStack plain) t.stack_.reverse with
    | error f' => rw [ht] at hrel; cases hrel
    | ok l' =>
      rw [ht] at hrel
      exact .ok ⟨List.forall₂_reverse_iff.2 hrel, h.exit, h.cout⟩

/-- **Step lemma**: an instruction keeps two machines in lock step, or stops both alike. -/
theorem execInstr_widens {i j : ParsedInstr Operand} (hij : InstrWidens i j)
    (hprint : i.instruction ≠ .PRINT) (h : InStep s t) :
    Tracks (execInstr plain i s) (execInstr plain j t) := by
  obtain ⟨op, type, operand, line⟩ := i
  obtain ⟨op', type', operand', line'⟩ := j
  obtain ⟨hop, -, hoperand⟩ := hij
  cases hop
  cases op with
  | PUSH => exact push_widens (hoperand (Or.inl rfl)) h
  | ASSERT => exact assert_widens (hoperand (Or.inr rfl)) h
  | POP => exact pop_widens h
  | SWAP => exact swap_widens h
  | DUMP => exact dump_widens h
  | ADD => exact arithmetic_widens .add h
  | SUB => exact arithmetic_widens .sub h
  | MUL => exact arithmetic_widens .mul h
  | DIV => exact arithmetic_widens .div h
  | MOD => exact arithmetic_widens .mod h
  | PRINT => exact absurd rfl hprint
  | SORT => exact sort_widens h
  | EXIT => exact .ok ⟨h.stack, rfl, h.cout⟩
  | NONE => exact .ok h

/-! ## A run -/

/-- The ending is an overflow or an underflow. -/
def StopsOutOfRange (ending : Ending) : Prop := ∃ e, ending = .threw (.avm e) ∧ OutOfRange e

/-- **Run lemma**: two programs in lock step end alike, unless the narrower one stops out of
range. -/
theorem executeLoop_widens {is js : List (ParsedInstr Operand)} (hij : List.Forall₂ InstrWidens is js)
    (hprint : ∀ i ∈ is, i.instruction ≠ .PRINT) (line : ℕ) (h : InStep s t) :
    StopsOutOfRange (executeLoop plain line is s).ending ∨
      ((executeLoop plain line is s).ending = (executeLoop plain line js t).ending ∧
        (executeLoop plain line is s).line = (executeLoop plain line js t).line ∧
        (executeLoop plain line is s).vm.cout = (executeLoop plain line js t).vm.cout) := by
  induction hij generalizing line s t with
  | nil => exact Or.inr ⟨rfl, rfl, h.cout⟩
  | @cons i j is js hij _ ih =>
    obtain ⟨hi, his⟩ := List.forall_mem_cons.1 hprint
    have htrack := execInstr_widens hij hi h
    unfold executeLoop
    generalize execInstr plain i s = r at htrack
    generalize execInstr plain j t = r' at htrack
    cases htrack with
    | @ok s' t' h' =>
      simp only
      rw [← h'.exit, ← hij.line]
      by_cases hexit : s'.exit_ = true
      · rw [if_pos hexit, if_pos hexit]
        exact Or.inr ⟨rfl, rfl, h'.cout⟩
      · rw [if_neg hexit, if_neg hexit]
        exact ih his i.line h'
    | @threw f s' t' hout =>
      refine Or.inr ⟨rfl, ?_, hout⟩
      show (afterFailure plain i).line = (afterFailure plain j).line
      rw [afterFailure_line, afterFailure_line, hij.line]
    | @outOfRange e s' r hrange => exact Or.inl ⟨e, rfl, hrange⟩

end

/-! ## The front end -/

/-- The name of an integer type in a program. -/
def IntType.name : IntType → Text
  | int8_t => "int8".toList
  | int16_t => "int16".toList
  | int32_t => "int32".toList

theorem IntType.toType_name (T : IntType) : toType T.name = .ok T.tag := by cases T <;> rfl

theorem IntType.name_noParen (T : IntType) : '(' ∉ T.name := by cases T <;> decide

theorem IntType.name_ne_nil (T : IntType) : T.name ≠ [] := by cases T <;> decide

/-- The same line, or one whose operand has the name of a wider integer type. -/
inductive LineWidens : Text → Text → Prop
  | same (line : Text) : LineWidens line line
  | operand {w l x : Text} {T U : IntType} (hw : ' ' ∉ w) (hl : ')' ∉ l) (hle : T.tag ≤ U.tag) :
      LineWidens (w ++ ' ' :: (T.name ++ '(' :: (l ++ ')' :: x)))
        (w ++ ' ' :: (U.name ++ '(' :: (l ++ ')' :: x)))

theorem LineWidens.skipped_iff {line line' : Text} (h : LineWidens line line') :
    Skipped line ↔ Skipped line' := by
  cases h with
  | same => rfl
  | @operand w => cases w <;> simp [Skipped]

theorem LineWidens.end_iff {line line' : Text} (h : LineWidens line line') :
    line = [';', ';'] ↔ line' = [';', ';'] := by
  cases h with
  | same => rfl
  | operand =>
    have hparen : ∀ {line : Text}, ' ' ∈ line → line ≠ [';', ';'] := by
      rintro _ hmem rfl
      simp at hmem
    exact iff_of_false (hparen (by simp)) (hparen (by simp))

/-- The factory on the same literal for a wider integer type. -/
theorem createOperand_widens {T U : IntType} {l : Text} {o : Operand} (hle : T.tag ≤ U.tag)
    (h : createOperand T.tag l = .ok (some o)) :
    ∃ o', createOperand U.tag l = .ok (some o') ∧ Widens (some o) (some o') := by
  obtain ⟨⟨hne, hvalid⟩, z, hz, hfits, ho⟩ := createOperand_int_eq_ok.1 h
  cases ho
  have hint : ∀ V : IntType, decide (V.tag < OperandType.Float) = true :=
    fun V => decide_eq_true V.tag_lt_float
  have hacc : Accepted U.tag l := by
    refine ⟨hne, ?_⟩
    unfold isValidValue at hvalid ⊢
    rwa [hint] at hvalid ⊢
  exact ⟨_, createOperand_int_eq_ok.2 ⟨hacc, z, hz, hfits.widen hle, rfl⟩,
    .int hfits (hfits.widen hle) hle⟩

/-- An instruction of a clean program whose operand is an integer. -/
theorem instrWidens_refl {i : ParsedInstr Operand} (hi : WellFormed i)
    (hint : i.instruction.TakesOperand → i.operandType < .Float) : InstrWidens i i := by
  refine ⟨rfl, rfl, ?_⟩
  intro htake
  obtain ⟨c, hc, htag⟩ := hi.operand htake
  rw [hc]
  rcases c.cases_on with ⟨T, v, hv, rfl⟩ | ⟨T, x, hval, -, -⟩
  · exact Widens.refl hv
  · have hlt := hint htake
    rw [← htag, Cell.tag, hval] at hlt
    exact absurd hlt T.float_le_tag

/-- **The front end, line by line**: the wider line is clean, and its instruction is wider. -/
theorem lineWidens_instrAt {line line' : Text} {n : ℕ} (h : LineWidens line line')
    (hlex : lexErrors (line, n) = []) (hparse : parseErrors (line, n) = [])
    (hint : (instrAt (line, n)).instruction.TakesOperand → (instrAt (line, n)).operandType < .Float) :
    (lexErrors (line', n) = [] ∧ parseErrors (line', n) = []) ∧
      InstrWidens (instrAt (line, n)) (instrAt (line', n)) := by
  cases h with
  | same => exact ⟨⟨hlex, hparse⟩, instrWidens_refl (wellFormed_of_clean hparse) hint⟩
  | @operand w l x T U hw hl hle =>
    unfold parseErrors at hparse
    unfold lexErrors parseErrors instrAt
    rw [lexLine_closed hw T.name_noParen hl] at hparse ⊢
    rw [lexLine_closed hw U.name_noParen hl]
    change (parseToken ⟨w, T.name, l, n⟩).2 = [] at hparse
    rcases parseToken_eq_nil.1 hparse with ⟨op, type, o, hop, htake, hty, hcr, heq⟩ |
      ⟨op, -, -, hnil, -⟩
    · cases T.toType_name.symm.trans hty
      obtain ⟨o', hcr', hoo⟩ := createOperand_widens hle hcr
      have hwide : parseToken ⟨w, U.name, l, n⟩ = (⟨op, U.tag, some o', n⟩, []) := by
        have hop' : toOperation w = .ok op := hop
        rw [parseToken_takes (t := ⟨w, U.name, l, n⟩) hop' htake]
        simp only [U.toType_name, tryPush, hcr', List.append_nil]
      rw [hwide, heq]
      exact ⟨⟨rfl, rfl⟩, rfl, rfl, fun _ => hoo⟩
    · exact absurd hnil T.name_ne_nil

/-- The lines that become tokens widen with the lines of the file. -/
theorem numbered_widens {ls ls' : List Text} (h : List.Forall₂ LineWidens ls ls') (n : ℕ) :
    List.Forall₂ (fun p q => LineWidens p.1 q.1 ∧ p.2 = q.2) (numbered n ls) (numbered n ls') := by
  induction h generalizing n with
  | nil => exact .nil
  | cons hline _ ih =>
    rw [numbered_cons, numbered_cons, if_congr hline.skipped_iff rfl rfl]
    split
    · exact ih (n + 1)
    · exact .cons ⟨hline, rfl⟩ (ih (n + 1))

theorem readLines_widens {ls ls' : List Text} (h : List.Forall₂ LineWidens ls ls') (cin : Bool) :
    List.Forall₂ LineWidens (readLines cin ls) (readLines cin ls') := by
  cases cin with
  | false => exact h
  | true =>
    induction h with
    | nil => exact .nil
    | @cons line line' _ _ hline _ ih =>
      simp only [readLines, if_true, List.takeWhile_cons] at ih ⊢
      by_cases hend : line = [';', ';']
      · simp [hend, hline.end_iff.1 hend]
      · have hend' := mt hline.end_iff.2 hend
        simp only [hend, hend', ne_eq, not_false_eq_true, decide_true, if_true]
        exact .cons hline ih

/-- The instruction lists of the two programs. -/
theorem frontEnd_widens {cin : Bool} {input input' : Text}
    (hwiden : List.Forall₂ LineWidens (Cpp.lines input) (Cpp.lines input'))
    (hclean : (frontEnd cin input).2 = [])
    (hint : ∀ i ∈ (frontEnd cin input).1, i.instruction.TakesOperand → i.operandType < .Float) :
    (frontEnd cin input').2 = [] ∧
      List.Forall₂ InstrWidens (frontEnd cin input).1 (frontEnd cin input').1 := by
  have hlines := numbered_widens (readLines_widens hwiden cin) 0
  have hok := clean_iff.1 hclean
  rw [clean_iff]
  rw [frontEnd_eq] at hint ⊢
  rw [frontEnd_eq]
  change List.Forall₂ _ (programLines cin input) (programLines cin input') at hlines
  generalize programLines cin input = ps at hlines hok hint
  generalize programLines cin input' = qs at hlines
  clear hwiden hclean
  induction hlines with
  | nil => exact ⟨List.forall_mem_nil _, .nil⟩
  | @cons p q ps qs hpq _ ih =>
    obtain ⟨line, n⟩ := p
    obtain ⟨line', n'⟩ := q
    obtain ⟨hline, hn⟩ := hpq
    cases hn
    obtain ⟨⟨hlex, hparse⟩, hps⟩ := List.forall_mem_cons.1 hok
    obtain ⟨hhead, htail⟩ := List.forall_mem_cons.1 hint
    obtain ⟨hclean, hi⟩ := lineWidens_instrAt hline hlex hparse hhead
    obtain ⟨hcleans, his⟩ := ih hps htail
    exact ⟨List.forall_mem_cons.2 ⟨hclean, hcleans⟩, .cons hi his⟩

/-- **Widening.** A clean program on integers, without `print`, with the type names of some
operands replaced by wider ones: the wider program is clean too, and unless the run of the
original stops with an overflow or an underflow, the two runs are the same. -/
theorem run_widens {cin : Bool} {input input' : Text}
    (hwiden : List.Forall₂ LineWidens (Cpp.lines input) (Cpp.lines input'))
    (hclean : (frontEnd cin input).2 = [])
    (hint : ∀ i ∈ (frontEnd cin input).1, i.instruction.TakesOperand → i.operandType < .Float)
    (hprint : ∀ i ∈ (frontEnd cin input).1, i.instruction ≠ .PRINT) :
    (frontEnd cin input').2 = [] ∧
      (¬ StopsOutOfRange (execute plain (frontEnd cin input).1 ()).ending →
        run cin input' = run cin input) := by
  obtain ⟨hclean', hinstrs⟩ := frontEnd_widens hwiden hclean hint
  refine ⟨hclean', ?_⟩
  intro hrange
  have hstart : InStep (VM.init ()) (VM.init ()) := ⟨.nil, rfl, rfl⟩
  rcases executeLoop_widens hinstrs hprint 0 hstart with hstop | ⟨hending, hline, hout⟩
  · exact absurd hstop hrange
  · rw [run_eq, run_eq, hclean, hclean']
    simp only [ne_eq, not_true_eq_false, if_false]
    unfold outcome execute
    rw [hending, hline, hout]

/-- The name of the asserted operand replaced. -/
theorem run_widens_assert :
    run false "push int8(7)\nassert int16(7)\nexit\n".toList =
      run false "push int8(7)\nassert int8(7)\nexit\n".toList := by
  have hlines : Cpp.lines "push int8(7)\nassert int8(7)\nexit\n".toList =
      ["push int8(7)".toList, "assert int8(7)".toList, "exit".toList] := by decide +kernel
  have hlines' : Cpp.lines "push int8(7)\nassert int16(7)\nexit\n".toList =
      ["push int8(7)".toList, "assert int16(7)".toList, "exit".toList] := by decide +kernel
  refine (run_widens ?_ (by decide +kernel) (by decide +kernel) (by decide +kernel)).2 ?_
  · rw [hlines, hlines']
    refine .cons (.same _) (.cons ?_ (.cons (.same _) .nil))
    exact .operand (w := "assert".toList) (l := "7".toList) (x := []) (T := .int8_t)
      (U := .int16_t) (by decide) (by decide) (by decide)
  · rintro ⟨e, he, -⟩
    have hexited : (execute plain (frontEnd false
        "push int8(7)\nassert int8(7)\nexit\n".toList).1 ()).ending = .exited := by
      decide +kernel
    cases hexited.symm.trans he

end AbstractVM
