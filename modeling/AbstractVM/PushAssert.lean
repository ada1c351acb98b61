import AbstractVM.Conversions
import AbstractVM.Execution
/-!
# `push T(L)` then `assert T(L)`

`assert` compares the value on the stack with a number read back from the text of the operand,
which has `digits10` significant digits. The two agree when the value is the one nearest to some
decimal of that many digits, and only then (`readsBack_iff`): a literal with a longer mantissa
usually is not.

Main result: `push_assert_iff`.
-/

namespace AbstractVM

open DecimalText (Text)
open Cpp
open CommandsExecutor (execInstr)

/-- What a magnitude prints is read, and read as that magnitude. -/
def ReadsBack (T : RealType) (y : ℚ) : Prop :=
  T.type.InRange (T.decimal.round y) ∧ T.type.fmt.round (T.decimal.round y) = y

/-- Some decimal of at most `digits10` significant digits, in the range of the type, is read as
`y`. -/
def HasDecimal (T : RealType) (y : ℚ) : Prop :=
  ∃ (m : ℕ) (e : ℤ), m < 10 ^ T.digits10 ∧ T.type.InRange (m * (10 : ℚ) ^ e) ∧
    T.type.fmt.round (m * (10 : ℚ) ^ e) = y

section
variable (T : RealType)

/-- What a real prints is a decimal of at most `digits10` significant digits. -/
theorem exists_decimal {y : ℚ} (hy : 0 ≤ y) :
    ∃ (m : ℕ) (e : ℤ), m < 10 ^ T.digits10 ∧ (m : ℚ) * 10 ^ e = T.decimal.round y := by
  rcases hy.eq_or_lt with rfl | hpos
  · refine ⟨0, 0, by cases T <;> decide, ?_⟩
    rw [Grid.Format.round_zero, Nat.cast_zero, zero_mul]
  · obtain ⟨-, m, -, hm, hval⟩ := DecimalText.floor_significand T.digits10_pos hpos
    exact ⟨m, _, hm, hval⟩

/-- Such a decimal, read by the type, is printed again. -/
theorem decimal_of_read {m : ℕ} {e : ℤ} (hlt : m < 10 ^ T.digits10)
    (hr : T.type.InRange (m * (10 : ℚ) ^ e)) :
    T.decimal.round (T.type.fmt.round (m * (10 : ℚ) ^ e)) = m * (10 : ℚ) ^ e := by
  rcases Nat.eq_zero_or_pos m with rfl | hm
  · rw [Nat.cast_zero, zero_mul, Grid.Format.round_zero, Grid.Format.round_zero]
  · exact decimal_round_round T hm hlt hr

/-- A value reads back exactly when some short decimal is read as it. -/
theorem readsBack_iff {y : ℚ} (hy : 0 ≤ y) : ReadsBack T y ↔ HasDecimal T y := by
  constructor
  · rintro ⟨hr, heq⟩
    obtain ⟨m, e, hm, hval⟩ := exists_decimal T hy
    refine ⟨m, e, hm, ?_, ?_⟩
    · rw [hval]
      exact hr
    · rw [hval]
      exact heq
  · rintro ⟨m, e, hlt, hr, heq⟩
    have hback := decimal_of_read T hlt hr
    rw [heq] at hback
    refine ⟨?_, ?_⟩
    · rw [hback]
      exact hr
    · rw [hback]
      exact heq

end

/-! ## The two instructions -/

/-- `*top == *operand` for the same operand on both sides. -/
theorem eq_self_int {T : IntType} {v : ℤ} (h : T.Fits v) :
    Operand.eq (Operand.new (.int T v)) (Operand.new (.int T v)) = .ok true := by
  have hcmp := compareWith_int (fun a b => decide (a = b)) (fun a b => decide (a = b)) h h
  refine hcmp.trans ?_
  simp

theorem toRat_inj_of_neg_eq {x y : SRat} (h : x.neg = y.neg) : x.toRat = y.toRat ↔ x.mag = y.mag := by
  unfold SRat.toRat
  rw [h]
  split <;> simp

theorem eq_self_real {T : RealType} {x : SRat} (hfix : T.type.fmt.round x.mag = x.mag)
    (hmax : x.mag ≤ T.type.max) :
    Operand.eq (Operand.new (.real T x)) (Operand.new (.real T x)) = .ok true ↔
      ReadsBack T x.mag := by
  let c : Cell := .real T x ⟨hmax, hfix⟩
  have hspec : Operand.eq c.operand c.operand = if (c.tag.wider c.tag).Reads c.printed then
      .ok (decide ((c.tag.wider c.tag).convert c.stored = (c.tag.wider c.tag).convert c.printed))
      else .error (.std .out_of_range) := compareWith_spec c c fun u v => by simp
  have htag : c.tag = T.tag := rfl
  have habs : |c.printed| = T.decimal.round x.mag := SRat.abs_toRat _
  have hprinted : T.tag.convert c.printed = (T.type.cast (x.sig T.digits10 T.digits10_pos)).toRat := by
    rw [OperandType.convert_tag]
    exact (SRat.toRat_round _ _).symm
  have hstored : T.tag.convert c.stored = x.toRat := by
    rw [← htag, c.convert_stored, Cell.stored_real rfl]
  rw [OperandType.wider_self, htag, hprinted, hstored,
    if_congr (OperandType.reads_tag T _) rfl rfl, habs] at hspec
  refine (Eq.congr_left hspec).trans ?_
  unfold ReadsBack
  by_cases hr : T.type.InRange (T.decimal.round x.mag)
  · have hneg : x.neg = (T.type.cast (x.sig T.digits10 T.digits10_pos)).neg := rfl
    rw [if_pos hr, and_iff_right hr, Except.ok.injEq, decide_eq_true_eq, toRat_inj_of_neg_eq hneg]
    exact eq_comm
  · rw [if_neg hr]
    exact iff_of_false (fun h => by cases h) (fun h => hr h.1)

/-- Executing `push` and then `assert` of the operand `o`, from the machine `s`, raises nothing. -/
def PushAssert (o : Operand) (s : VM Operand Unit) : Prop :=
  ∀ n m, ∃ s₁ s₂, execInstr plain ⟨.PUSH, o.getType, some o, n⟩ s = .ok s₁ ∧
    execInstr plain ⟨.ASSERT, o.getType, some o, m⟩ s₁ = .ok s₂

theorem pushAssert_iff_eq (o : Operand) (s : VM Operand Unit) :
    PushAssert o s ↔ Operand.eq o o = .ok true := by
  constructor
  · intro h
    obtain ⟨s₁, s₂, h₁, h₂⟩ := h 0 0
    cases h₁
    cases execInstr_ok h₂ with
    | assert _ hs ho heq =>
      cases hs
      cases ho
      exact heq
    | arith op hi => cases op <;> cases hi
    | _ hi => cases hi
  · intro h n m
    refine ⟨_, { s with stack_ := some o :: s.stack_ }, rfl, ?_⟩
    simp only [execInstr, CommandsExecutor.argOps, CommandsExecutor.assert, plain, id, h]
    rfl

/-- For a real type, what is stored for the literal, rounded to `long double` and then to the type,
is the value nearest to some decimal of at most `digits10` significant digits that can be read in the
type. -/
def ShortDecimal (t : OperandType) (L : Text) : Prop :=
  ∀ T : RealType, t = T.tag →
    ∃ x, stold L = .ok x ∧ HasDecimal T (T.type.fmt.round x.mag)

/-- **A value just pushed equals itself exactly when its literal is short enough**, or an
integer. -/
theorem push_assert_iff {t : OperandType} {L : Text} {o : Operand}
    (h : createOperand t L = .ok (some o)) (s : VM Operand Unit) :
    PushAssert o s ↔ ShortDecimal t L := by
  rw [pushAssert_iff_eq]
  rcases t.cases_tag with ⟨T, rfl⟩ | ⟨T, rfl⟩ | rfl
  · obtain ⟨-, z, -, hfits, ho⟩ := createOperand_int_eq_ok.1 h
    cases ho
    exact iff_of_true (eq_self_int hfits) (T.forall_tag _)
  · obtain ⟨-, x, hx, hmax, ho⟩ := createOperand_real_eq_ok.1 h
    cases ho
    obtain ⟨hval, hfix⟩ := valid_cast hmax
    rw [eq_self_real hfix hval, readsBack_iff T (T.type.cast x).mag_nonneg]
    unfold ShortDecimal
    rw [RealType.forall_tag]
    constructor
    · exact fun hd => ⟨x, hx, hd⟩
    · rintro ⟨x', hx', hd'⟩
      rw [hx] at hx'
      cases hx'
      exact hd'
  · rcases createOperand_cell h with ⟨-, ho⟩ | ⟨c, hc, -⟩
    · cases ho
    · exact absurd hc c.tag_ne_noType

/-- A literal of seven digits, pushed and asserted as a `float`: it prints as `1.23457e+06`. -/
theorem push_assert_seven_digits :
    ∃ o, createOperand .Float "1234567".toList = .ok (some o) ∧ ¬ PushAssert o (VM.init ()) := by
  refine ⟨Operand.new (.real .float (SRat.ofInt 1234567)), by decide +kernel, ?_⟩
  rw [pushAssert_iff_eq]
  decide +kernel

/-- A literal of three digits. -/
theorem push_assert_three_digits :
    PushAssert (Operand.new (.real .double (SRat.ofInt 125))) (VM.init ()) ↔
      ShortDecimal .Double "125".toList :=
  push_assert_iff (by decide +kernel) _

end AbstractVM
