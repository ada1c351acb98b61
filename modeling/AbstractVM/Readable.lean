import AbstractVM.Denotation
/-!
# Programs that no comparison can end

`assert` and `sort` are the only instructions an exception gets past `execute` from, by a text that
is out of the range of its type. `assert` reads the text of its own operand. `sort` reads those on the
stack; a literal can be such an operand, and of the results only a `double` can: a `float` that an
operator returned has no more than six decimals and none too many digits.

| here | what it says of the source |
| --- | --- |
| `legible_of_float` | which `float` operands `stof` reads back |
| `fitResult_legible` | what `createFloat` makes of a text with six decimals |
| `Command.Calm`, `Command.calm` | what the operators keep of a stack |

Main result: `contract_of_literals`.
-/

namespace AbstractVM

open DecimalText (Text)
open Cpp
open Machine

/-! ## Results of type `float` -/

/-- A `float` that is zero or not too small is read back by `stof`. -/
theorem legible_of_float {c : Cell} {x : SRat} (h : c.value = .real .float x)
    (hx : x.mag = 0 ∨ 10 * floatType.minNormal ≤ x.mag) : c.Legible c := by
  have htag : c.tag = RealType.float.tag := Cell.tag_real h
  have hmax : x.mag ≤ floatType.max := by
    have hvalid := c.valid
    rw [h] at hvalid
    exact hvalid.1
  have hprinted : |c.printed| = (DecimalText.sigFormat 6 (by decide)).round x.mag := by
    unfold Cell.printed
    rw [h, SRat.abs_toRat]
    rfl
  unfold Cell.Legible
  rw [OperandType.wider_self, htag, OperandType.reads_tag, hprinted]
  have h0 := x.mag_nonneg
  refine FloatType.InRange.of_le (Grid.Format.round_nonneg _ h0)
    (Grid.Format.round_mono _ h0 hmax) (by decide +kernel) ?_
  rcases hx with hzero | hlow
  · exact Or.inl (by rw [hzero, Grid.Format.round_zero])
  · obtain ⟨-, hdown⟩ := DecimalText.sig_bounds (P := 6) (by decide) h0
    have hlow' : floatType.minNormal ≤ (DecimalText.sigFormat 6 (by decide)).round x.mag := by
      linarith
    exact Or.inr hlow'

/-- No result of type `float` is out of the range of its own text. -/
theorem fitResult_legible {x : SRat} {c : Cell} (h : fitResult .float x = .ok c) :
    c.tag = .Float ∧ c.Legible c := by
  have hvalue := value_of_fitReal h
  refine ⟨Cell.tag_real hvalue, legible_of_float hvalue ?_⟩
  have hdecimals : (x.fixed 6).mag = 0 ∨ 1 / 10 ^ 6 ≤ (x.fixed 6).mag := by
    have habs : |Grid.decimals 6 x.mag| = (x.fixed 6).mag :=
      abs_of_nonneg (Grid.decimals_nonneg 6 x.mag_nonneg)
    rcases Grid.decimals_eq_zero_or 6 x.mag with hzero | hlow
    · exact Or.inl hzero
    · exact Or.inr (habs ▸ hlow)
  show floatType.fmt.round (longDoubleType.fmt.round (x.fixed 6).mag) = 0 ∨
    _ ≤ floatType.fmt.round (longDoubleType.fmt.round (x.fixed 6).mag)
  rcases hdecimals with hzero | hlow
  · exact Or.inl (by rw [hzero, Grid.Format.round_zero, Grid.Format.round_zero])
  · right
    have hread := longDoubleType.fmt.round_mono (by norm_num) hlow
    have hpos := longDoubleType.fmt.round_nonneg (x := 1 / 10 ^ 6) (by norm_num)
    calc 10 * floatType.minNormal
        ≤ floatType.fmt.round (longDoubleType.fmt.round (1 / 10 ^ 6)) := by decide +kernel
      _ ≤ floatType.fmt.round (longDoubleType.fmt.round (x.fixed 6).mag) :=
        Grid.Format.round_mono _ hpos hread

/-! ## The stack -/

namespace Command

/-- Not a `double`, and read back by its own type. -/
def Calm (c : Cell) : Prop := c.tag ≠ .Double ∧ c.Legible c

theorem calm_int (T : IntType) (v : ℤ) (h : T.Fits v) : Calm (Cell.int T v h) := by
  refine ⟨fun hdouble => ?_, ?_⟩
  · exact absurd T.tag_lt_float (by rw [show T.tag = _ from hdouble]; decide)
  · exact OperandType.reads_of_lt_float (OperandType.wider_lt_float T.tag_lt_float T.tag_lt_float) _

/-- **An operator on operands that are not doubles** returns an operand that its own type reads. -/
theorem calm_result {op : ArithOp} {l r c : Cell} (hl : l.tag ≠ .Double) (hr : r.tag ≠ .Double)
    (h : op.onCells l r = .ok c) : Calm c := by
  have hwide : l.wideReal r = .float := if_neg (by simp [hl, hr])
  unfold ArithOp.onCells at h
  split at h
  · rename_i T a U b hla hrb
    unfold ArithOp.onInts at h
    split at h
    · cases h
    · unfold fitInt at h
      split at h
      · cases h
      · split at h
        · cases h
        · cases h
          exact calm_int _ _ _
  · split at h
    · cases h
    · rw [hwide] at h
      obtain ⟨htag, hlegible⟩ := fitResult_legible h
      exact ⟨by rw [htag]; decide, hlegible⟩

/-- **Step lemma.** -/
theorem Goes.calm {c : Command Cell} {s t : State Cell} (h : Goes Cell.numbers s c t)
    (hpush : ∀ d, c.carried = some d → Calm d) (hs : ∀ d ∈ s.stack, Calm d) :
    ∀ d ∈ t.stack, Calm d := by
  cases h with
  | push d => exact List.forall_mem_cons.2 ⟨hpush d rfl, hs⟩
  | assert htop heq => exact hs
  | pop htop =>
    rw [htop] at hs
    exact (List.forall_mem_cons.1 hs).2
  | swap htop =>
    rw [htop] at hs
    obtain ⟨ha, hs⟩ := List.forall_mem_cons.1 hs
    obtain ⟨hb, hrest⟩ := List.forall_mem_cons.1 hs
    exact List.forall_mem_cons.2 ⟨hb, List.forall_mem_cons.2 ⟨ha, hrest⟩⟩
  | dump => exact hs
  | arith htop hop =>
    rw [htop] at hs
    obtain ⟨hr, hs⟩ := List.forall_mem_cons.1 hs
    obtain ⟨hl, hrest⟩ := List.forall_mem_cons.1 hs
    exact List.forall_mem_cons.2 ⟨calm_result hl.1 hr.1 hop, hrest⟩
  | print htop hv hp => exact hs
  | sort hl =>
    intro d hd
    rw [List.mem_reverse] at hd
    exact hs d (List.mem_reverse.1 ((ListSort.listSort_perm hl).mem_iff.1 hd))

/-- **Run lemma.** -/
theorem calm {ls : List (Line Cell)} {t : State Cell} (h : run Cell.numbers ls State.init = .fell t)
    (hls : ∀ l ∈ ls, ∀ d, l.command.carried = some d → Calm d) : ∀ d ∈ t.stack, Calm d :=
  run_keeps (fun _ s => ∀ d ∈ s.stack, Calm d) h (fun d hd => by cases hd)
    fun _ l _ _ hl hs hgoes => hgoes.calm (hls l hl) hs

section
variable {c : Command Cell} {s : State Cell}

/-- The comparison that breaks a run off has an operand on its right that its own type cannot read. -/
theorem illegible_of_breaks (h : Breaks Cell.numbers s c .outOfRange) :
    (∃ d, c = assert d ∧ ¬ d.Legible d) ∨ c = sort ∧ ∃ d ∈ s.stack, ¬ d.Legible d := by
  have hself : ∀ a b : Cell, ¬ a.Legible b → ¬ b.Legible b :=
    fun a b hno hb => hno (legible_of_self a hb)
  cases h with
  | @assert d top rest f hs heq =>
    refine Or.inl ⟨d, rfl, hself top d fun hleg => ?_⟩
    have hok : Cell.equals top d = .ok _ := if_pos hleg
    cases heq.symm.trans hok
  | @sort f hl =>
    obtain ⟨⟨a, b⟩, hmem, hab⟩ := ListSort.listSort_error hl
    obtain ⟨-, hb⟩ := ListSort.mem_of_comparisons hmem
    refine Or.inr ⟨rfl, b, List.mem_reverse.1 hb, hself a b fun hleg => ?_⟩
    have hok : Cell.comesBefore a b = .ok _ := if_pos hleg
    cases hab.symm.trans hok

end

end Command

/-! ## Texts -/

/-- The operand of an instruction, if it has one, is read back by its own type. -/
def ParsedInstr.Legible (i : ParsedInstr Operand) : Prop := ∀ o ∈ i.operand, ¬ Unreadable o o

instance (i : ParsedInstr Operand) : Decidable i.Legible := by
  unfold ParsedInstr.Legible
  infer_instance

theorem legible_of_instr {l : Command.Line Cell} {d : Cell} (hd : l.command.carried = some d)
    (h : l.instr.Legible) : d.Legible d := by
  have ho : l.instr.operand = some d.operand := congrArg (Option.map Cell.operand) hd
  exact not_not.1 fun hno => h d.operand ho ((unreadable_iff d d).2 hno)

/-- A process that was not terminated met the contract. -/
theorem contract_of_exited {cin : Bool} {input : Text} (hclean : (frontEnd cin input).2 = [])
    (h : (run cin input).status? ≠ none) : Contract cin input := by
  refine contract_of_readable hclean fun done i rest s hsplit hex hun => h ?_
  rw [terminated_of_unreadable hclean hsplit hex hun]
  rfl

/-- **Literals that keep a program in the contract.** Let a text be accepted, let the operand of every
`assert` be one that its own type reads back, and let there be no `sort`, or no `double` operand and
every literal be such a one. Then no run of it is ended by a comparison: it exits, or it stops with
one error line. -/
theorem contract_of_literals {cin : Bool} {input : Text} (hclean : (frontEnd cin input).2 = [])
    (hassert : ∀ i ∈ (frontEnd cin input).1, i.instruction = .ASSERT → i.Legible)
    (hsort : (∀ i ∈ (frontEnd cin input).1, i.instruction ≠ .SORT) ∨
      ∀ i ∈ (frontEnd cin input).1, i.operandType ≠ .Double ∧ i.Legible) :
    Contract cin input := by
  obtain ⟨ls, hfront⟩ := Command.exists_lines hclean
  have hmem : ∀ l ∈ ls, l.instr ∈ (frontEnd cin input).1 := fun _ => Command.instr_mem hfront
  refine contract_of_exited hclean fun hnone => ?_
  rw [run_of_lines hfront] at hnone
  have hreports := Command.reports (N := Cell.numbers) ls
  generalize Command.report ls _ = o at hreports hnone
  cases hreports with
  | noExit h => cases hnone
  | exit hsplit h hl => cases hnone
  | throws hsplit h hl => cases hnone
  | @outOfRange done rest l t hsplit h hl =>
    have hl' : l ∈ ls := by rw [hsplit]; simp
    rcases Command.illegible_of_breaks hl with ⟨d, hd, hno⟩ | ⟨hd, d, hds, hno⟩
    · exact hno (legible_of_instr (l := l) (by rw [hd]; rfl)
        (hassert _ (hmem l hl') (by unfold Command.Line.instr; rw [hd]; rfl)))
    · rcases hsort with hnosort | hcalm
      · exact hnosort _ (hmem l hl') (by unfold Command.Line.instr; rw [hd]; rfl)
      · refine hno (Command.calm h (fun l hl c hc => ?_) d hds).2
        have hlit := hcalm _ (hmem l (by rw [hsplit]; simp [hl]))
        refine ⟨fun hdouble => hlit.1 ?_, legible_of_instr hc hlit.2⟩
        unfold Command.Line.instr
        rw [hc]
        exact hdouble

/-- A `float` and an integer, sorted. -/
theorem contract_of_literals_sort :
    Contract false "push float(2.5)\npush int32(-7)\nsort\nassert float(2.5)\nexit\n".toList :=
  contract_of_literals (by decide +kernel) (by decide +kernel) (Or.inr (by decide +kernel))

end AbstractVM
