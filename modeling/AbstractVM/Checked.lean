import AbstractVM.Arithmetic
/-!
# Checked integer arithmetic is exact

The operators compute in 64 bits from one stored value and one number read back from a text, print
the result and have the factory read and check it. On integers nothing of that is lossy: what comes
out is the mathematical result, or the error for the side of the range it falls on.

Main result: `checked_arithmetic`.
-/

namespace AbstractVM

open DecimalText (Text intText)
open Cpp

/-- `std::to_string` prints the decimal form of an integer. -/
theorem intText_eq_toString (z : ℤ) : intText z = (toString z).toList := by
  cases z with
  | ofNat n =>
    change intText n = (Nat.repr n).toList
    rw [Nat.toList_repr]
    simp [intText, DecimalText.signText]
  | negSucc n =>
    change _ = ("-" ++ Nat.repr (n + 1)).toList
    rw [String.toList_append, Nat.toList_repr]
    simp [intText, DecimalText.signText]

theorem fitInt_overflow {T : IntType} {z : ℤ} (h : T.max < z) :
    ∃ e, fitInt T z = .error e ∧ e.type = .OverflowException := by
  unfold fitInt
  rw [dif_pos h]
  exact ⟨_, rfl, rfl⟩

theorem fitInt_underflow {T : IntType} {z : ℤ} (h : z < T.min) :
    ∃ e, fitInt T z = .error e ∧ e.type = .UnderflowException := by
  have hle : T.min ≤ T.max := by cases T <;> decide
  unfold fitInt
  rw [dif_neg (by omega), dif_pos h]
  exact ⟨_, rfl, rfl⟩

section
variable (op : ArithOp) {T U : IntType} {a b : ℤ} (ha : T.Fits a) (hb : U.Fits b)

/-- Away from a zero divisor an operator is the range check of the exact result. -/
theorem operator_of_divisor (hdiv : ¬ (op.Divides ∧ b = 0)) :
    op.operator (Cell.int T a ha).operand (Cell.int U b hb).operand =
      ofAvm ((fitInt (T.widest U) (op.eval a b)).map fun c => some c.operand) := by
  rw [op.operator_int ha hb]
  unfold ArithOp.onInts
  rw [if_neg hdiv]

/-- **Checked arithmetic is exact.** With `w` the wider of the two types and `r` the mathematical
result: a zero divisor is refused; otherwise the operator returns `r` as a `w`, printed in decimal,
or throws the error for the side of `w`'s range that `r` is on. The 64-bit intermediate is `r`
itself, and neither of the two `stoll`s is out of range. -/
theorem checked_arithmetic :
    (InBits 64 a ∧ InBits 64 b ∧ InBits 64 (op.eval a b) ∧
        stoll (Cell.int U b hb).operand.toString = .ok b ∧
        stoll (toStringInt (op.eval a b)) = .ok (op.eval a b)) ∧
      (op.Divides ∧ b = 0 → op.operator (Cell.int T a ha).operand (Cell.int U b hb).operand =
        .error (.avm DivModByZeroException)) ∧
      (¬ (op.Divides ∧ b = 0) →
        (∀ hr : (T.widest U).Fits (op.eval a b),
          op.operator (Cell.int T a ha).operand (Cell.int U b hb).operand =
              .ok (some (Cell.int (T.widest U) (op.eval a b) hr).operand) ∧
            (Cell.int (T.widest U) (op.eval a b) hr).operand.toString =
              (toString (op.eval a b)).toList) ∧
        ((T.widest U).max < op.eval a b →
          ∃ e, op.operator (Cell.int T a ha).operand (Cell.int U b hb).operand = .error (.avm e) ∧
            e.type = .OverflowException) ∧
        (op.eval a b < (T.widest U).min →
          ∃ e, op.operator (Cell.int T a ha).operand (Cell.int U b hb).operand = .error (.avm e) ∧
            e.type = .UnderflowException)) := by
  have hexact := op.inBits_eval ha.inBits hb.inBits
  refine ⟨⟨ha.inBits.mono (by decide), hb.inBits.mono (by decide), hexact, stoll_int hb, ?_⟩, ?_, ?_⟩
  · exact (stoInt_intText 64 _).trans (if_pos hexact)
  · intro hdiv
    rw [op.operator_int ha hb]
    unfold ArithOp.onInts
    rw [if_pos hdiv]
    rfl
  · intro hdiv
    rw [operator_of_divisor op ha hb hdiv]
    refine ⟨?_, ?_, ?_⟩
    · intro hr
      rw [fitInt_of_fits hr]
      exact ⟨rfl, intText_eq_toString _⟩
    · intro hmax
      obtain ⟨e, he, htype⟩ := fitInt_overflow hmax
      rw [he]
      exact ⟨e, rfl, htype⟩
    · intro hmin
      obtain ⟨e, he, htype⟩ := fitInt_underflow hmin
      rw [he]
      exact ⟨e, rfl, htype⟩

end

/-- The smallest `int32` divided by `-1` is one too many. -/
theorem checked_arithmetic_min_div :
    ∃ e, ArithOp.div.operator (Operand.new (.int .int32_t (-2147483648)))
        (Operand.new (.int .int8_t (-1))) = .error (.avm e) ∧ e.type = .OverflowException :=
  ((checked_arithmetic .div (T := .int32_t) (U := .int8_t) (a := -2147483648) (b := -1)
    (by decide) (by decide)).2.2 (by decide)).2.1 (by decide)

end AbstractVM
