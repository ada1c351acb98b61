import AbstractVM.RealArithmetic
/-!
# The guard of `operator/` and `operator%` (`Operand.tpp:144-195`)

Both operators compare with zero a number they read back from the text of their argument, on an
integer path or on a floating one. Printing keeps a digit of every number but zero, and so does
reading it as a `long double`, so the test is one of the value.

| here | what it says of the source |
| --- | --- |
| `Operand.argument` | `divisor`, the number both operators test and divide by |
| `divArith_throws_iff` | they throw `DivModByZeroException` when it is zero, and only then |
| `argument_cell` | it is what is read of the text of the argument |

Main result: `division_guard`.
-/

namespace AbstractVM

open DecimalText (Text)
open Cpp

/-- No division or remainder by zero is evaluated: two divisions that differ at the divisor zero
alone give one result. -/
def Operand.NoZeroDivision (lhs rhs : Operand) : Prop :=
  ∀ (iop jop : ℤ → ℤ → ℤ) (rop sop : SRat → SRat → SRat),
    (∀ x y, y ≠ 0 → iop x y = jop x y) → (∀ x y, y.toRat ≠ 0 → rop x y = sop x y) →
      divArith iop rop lhs rhs = divArith jop sop lhs rhs

/-- The factory has no such error. -/
theorem createOperand_ne_divMod (t : OperandType) (L : Text) :
    ofAvm (createOperand t L) ≠ .error (.avm DivModByZeroException) := by
  intro h
  rcases createOperand_error (ofAvm_eq_error.1 h) with h | h | h <;> cases h

section
variable (iop : ℤ → ℤ → ℤ) (rop : SRat → SRat → SRat) (lhs rhs : Operand)

/-- **The guard tests the divisor.** -/
theorem divArith_throws_iff :
    Operand.divArith iop rop lhs rhs = .error (.avm DivModByZeroException) ↔
      lhs.argument rhs = .ok 0 := by
  rcases divArith_cases iop rop lhs rhs with ⟨e, he, hthrow⟩ | ⟨hzero, hthrow⟩ | ⟨q, L, hq, hne, hL⟩
  · rw [he, hthrow]
    exact iff_of_false (fun h => by cases h) (fun h => by cases h)
  · exact iff_of_true hthrow hzero
  · rw [hq, hL]
    exact iff_of_false (createOperand_ne_divMod _ L) fun h => hne (Except.ok.inj h)

/-- Behind the guard the divisor is not zero. -/
theorem noZeroDivision : lhs.NoZeroDivision rhs := by
  intro iop jop rop sop hints hreals
  unfold Operand.divArith
  by_cases hlt : Operand.widest lhs rhs < .Float
  · simp only [if_pos hlt]
    cases stoll rhs.toString with
    | error e => rfl
    | ok z =>
      show (if z = 0 then _ else ofAvm _) = if z = 0 then _ else ofAvm _
      split
      · rfl
      · rename_i hz
        rw [hints _ _ hz]
  · simp only [if_neg hlt]
    cases stold rhs.toString with
    | error e => rfl
    | ok y =>
      show (if y.toRat = 0 then _ else ofAvm _) = if y.toRat = 0 then _ else ofAvm _
      split
      · rfl
      · rename_i hy
        rw [hreals _ _ hy]

end

/-- On both paths the divisor is what is read of the printed number, and it is always read. -/
theorem argument_cell (a b : Cell) : a.operand.argument b.operand = .ok b.argument := by
  unfold Operand.argument
  rcases a.ints_or_real b with ⟨T, v, hv, U, w, hw, rfl, rfl⟩ | ⟨T, hT⟩
  · rw [widest_int hv hw, if_pos (T.widest U).tag_lt_float, stoll_int hw, Cell.argument_int]
    rfl
  · have hw := (widest_eq_wider a b).trans hT
    rw [hw, if_neg T.float_le_tag, stold_toString b]
    rfl

/-- Dividing by a cell throws exactly when it holds zero, of either sign. -/
theorem divArith_cell_throws_iff (iop : ℤ → ℤ → ℤ) (rop : SRat → SRat → SRat) (a b : Cell) :
    Operand.divArith iop rop a.operand b.operand = .error (.avm DivModByZeroException) ↔
      b.stored = 0 := by
  rw [divArith_throws_iff, argument_cell, Except.ok.injEq]
  exact Cell.argument_eq_zero

/-- `fmod` takes a `double`, and the smallest divisor is still one. -/
theorem nearest_argument_ne_zero (c : Cell) (h : c.stored ≠ 0) :
    doubleType.fmt.nearest c.argument ≠ 0 := by
  have hpos : 0 < |c.stored| := abs_pos.2 h
  -- both roundings are monotone, so only the smallest printed number counts
  have key : ∀ q : ℚ, 0 ≤ q → q ≤ |c.printed| →
      0 < doubleType.fmt.round (longDoubleType.fmt.round q) →
      doubleType.fmt.nearest c.argument ≠ 0 := by
    intro q hq hle hround
    have hread := longDoubleType.fmt.round_mono hq hle
    have hmono := doubleType.fmt.round_mono (longDoubleType.fmt.round_nonneg hq) hread
    rw [← c.abs_argument, ← Grid.Format.abs_nearest] at hmono
    exact abs_pos.1 (hround.trans_le hmono)
  rcases c.kinds with ⟨hlt, -⟩ | ⟨T, -, hprinted, hfix, -⟩
  · obtain ⟨n, -, habs⟩ := Cell.abs_stored_of_lt hlt
    refine key 1 zero_le_one ?_ (by decide +kernel)
    rw [habs] at hpos
    rw [Cell.printed_of_lt_float hlt, habs]
    exact_mod_cast hpos
  · have hdecimal : |c.printed| = T.decimal.round |c.stored| := by
      rw [hprinted, Grid.Format.abs_nearest]
    cases T with
    | float =>
      have hmin := floatType.fmt.zpow_qmin_le rfl hpos hfix
      refine key (RealType.float.decimal.round (2 ^ (-149 : ℤ))) (by decide +kernel) ?_
        (by decide +kernel)
      rw [hdecimal]
      exact Grid.Format.round_mono _ (by positivity) hmin
    | double =>
      have hmin := doubleType.fmt.zpow_qmin_le rfl hpos hfix
      refine key (RealType.double.decimal.round (2 ^ (-1074 : ℤ))) (by decide +kernel) ?_
        (by decide +kernel)
      rw [hdecimal]
      exact Grid.Format.round_mono _ (by positivity) hmin

/-- **The division guard is exact.** For all pairs of types, `/` and `%` throw
`DivModByZeroException` when the right operand holds zero and only then; when they do not, the
divisor is not zero, not even as the `double` that `fmod` takes, and nothing is divided by zero. -/
theorem division_guard (a b : Cell) :
    (Operand.div a.operand b.operand = .error (.avm DivModByZeroException) ↔ b.stored = 0) ∧
      (Operand.mod a.operand b.operand = .error (.avm DivModByZeroException) ↔ b.stored = 0) ∧
      (b.stored ≠ 0 → ∃ q : ℚ, a.operand.argument b.operand = .ok q ∧ q ≠ 0 ∧
        doubleType.fmt.nearest q ≠ 0) ∧
      a.operand.NoZeroDivision b.operand := by
  refine ⟨divArith_cell_throws_iff _ _ a b, divArith_cell_throws_iff _ _ a b, ?_, ?_⟩
  · intro hb
    exact ⟨b.argument, argument_cell a b, fun h => hb (Cell.argument_eq_zero.1 h),
      nearest_argument_ne_zero b hb⟩
  · exact noZeroDivision a.operand b.operand

end AbstractVM
