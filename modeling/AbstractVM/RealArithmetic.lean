import AbstractVM.Conversions
import AbstractVM.Literals
import AbstractVM.Execution
/-!
# Arithmetic with a real

When one operand is a `float` or a `double` an operator takes the number the left one holds and, as
a `long double`, the number the right one prints; it computes in `long double`, prints the result
with six decimals and hands that to the factory, which reads another `long double`.

| here | what it says of the source |
| --- | --- |
| `ArithOp.onRats` | the operation on `ℚ`, with the `fmod` of `double` for `%` |
| `Cell.argument` | the number `stold` reads in the text of the right operand |
| `sixDecimals` | the number the factory reads in the text of a result |
| `Delivers` | what the factory makes of a result: an error, or the nearest value of the type |
| `operator_delivers` | the five operators |
| `precision_iff` | when the result is as precise as its type |
| `swap_iff` | when `swap` makes no difference to `add` and `mul` |
-/

namespace AbstractVM

open DecimalText (Text)
open Cpp
open CommandsExecutor

/-! ## The operations -/

namespace ArithOp

/-- The operation on `ℚ`. -/
def onRats : ArithOp → ℚ → ℚ → ℚ
  | add => (· + ·)
  | sub => (· - ·)
  | mul => (· * ·)
  | div => (· / ·)
  | mod => fmodRat

/-- The operation on `long double`s. -/
def onReals : ArithOp → SRat → SRat → SRat
  | add => SRat.add
  | sub => SRat.sub
  | mul => SRat.mul
  | div => SRat.div
  | mod => fmod

theorem toRat_onReals (op : ArithOp) (x y : SRat) :
    (op.onReals x y).toRat = op.onRats x.toRat y.toRat := by
  cases op with
  | add => exact SRat.toRat_add x y
  | sub => exact SRat.toRat_sub x y
  | mul => exact SRat.toRat_mul x y
  | div => exact SRat.toRat_div x y
  | mod => exact toRat_fmod x y

end ArithOp

/-! ## Sizes -/

namespace Cell

/-- Printing moves a number by less than a factor of ten. -/
theorem printed_bounds (c : Cell) :
    |c.printed| ≤ 10 * |c.stored| ∧ |c.stored| ≤ 10 * |c.printed| := by
  rcases c.kinds with ⟨hlt, -⟩ | ⟨T, -, hprinted, -, -⟩
  · rw [printed_of_lt_float hlt]
    have := abs_nonneg c.stored
    constructor <;> linarith
  · rw [hprinted, T.decimal.abs_nearest]
    exact DecimalText.sig_bounds T.digits10_pos (abs_nonneg _)

theorem printed_eq_zero {c : Cell} : c.printed = 0 ↔ c.stored = 0 := by
  obtain ⟨h1, h2⟩ := c.printed_bounds
  rw [← abs_eq_zero, ← abs_eq_zero (a := c.stored)]
  have h3 := abs_nonneg c.printed
  have h4 := abs_nonneg c.stored
  constructor <;> intro h <;> rw [h] at h1 h2 <;> linarith

theorem abs_stored_le (c : Cell) : |c.stored| ≤ 2 ^ 1024 := by
  rcases c.kinds with ⟨hlt, -⟩ | ⟨T, -, -, -, hmax⟩
  · obtain ⟨n, hn, habs⟩ := abs_stored_of_lt hlt
    rw [habs]
    calc (n : ℚ) ≤ 2 ^ 31 := by exact_mod_cast hn
      _ ≤ 2 ^ 1024 := pow_le_pow_right₀ (by norm_num) (by norm_num)
  · refine hmax.trans ?_
    cases T <;> decide +kernel

theorem one_le_abs_stored (c : Cell) (h : c.stored ≠ 0) : 1 ≤ 2 ^ 1074 * |c.stored| := by
  have hpos : 0 < |c.stored| := abs_pos.2 h
  have hone : (1 : ℚ) ≤ 2 ^ 1074 := one_le_pow₀ (by norm_num)
  have key : ∀ q : ℚ, q ≤ |c.stored| → 1 ≤ 2 ^ 1074 * q → 1 ≤ 2 ^ 1074 * |c.stored| :=
    fun q hq h1 => h1.trans (mul_le_mul_of_nonneg_left hq (zero_le_one.trans hone))
  rcases c.kinds with ⟨hlt, -⟩ | ⟨T, -, -, hfix, -⟩
  · obtain ⟨n, hn, habs⟩ := abs_stored_of_lt hlt
    refine key 1 ?_ (hone.trans_eq (mul_one _).symm)
    rw [habs] at hpos ⊢
    exact_mod_cast hpos
  · cases T with
    | float => exact key _ (floatType.fmt.zpow_qmin_le rfl hpos hfix) (by decide +kernel)
    | double => exact key _ (doubleType.fmt.zpow_qmin_le rfl hpos hfix) (by decide +kernel)

/-- The number `stold` reads in the text of a cell. -/
def argument (c : Cell) : ℚ := c.value.argument.toRat

theorem argument_eq (c : Cell) : c.argument = longDoubleType.fmt.nearest c.printed :=
  longDoubleType.toRat_cast _

/-- A number of 64 bits is read as it is. -/
@[simp] theorem argument_int (T : IntType) (v : ℤ) (h : T.Fits v) : (int T v h).argument = v := by
  obtain ⟨n, hn, habs⟩ := abs_stored_of_lt (c := int T v h) T.tag_lt_float
  rw [stored_int] at habs
  rw [argument_eq, printed_int]
  refine longDoubleType.fmt.nearest_eq_self ?_
  rw [habs]
  exact longDoubleType.fmt.round_natCast (fun e he => by cases he; decide)
    (lt_of_le_of_lt hn (by decide))

theorem abs_argument (c : Cell) : |c.argument| = longDoubleType.fmt.round |c.printed| := by
  rw [argument_eq, Grid.Format.abs_nearest]

/-! Powers of two are values of `long double`, hence barriers for what is read. -/

theorem abs_argument_le (c : Cell) : |c.argument| ≤ 16 * 2 ^ 1024 := by
  have hprinted : |c.printed| ≤ 16 * 2 ^ 1024 :=
    calc |c.printed| ≤ 10 * |c.stored| := c.printed_bounds.1
      _ ≤ 16 * |c.stored| := mul_le_mul_of_nonneg_right (by norm_num) (abs_nonneg _)
      _ ≤ 16 * 2 ^ 1024 := mul_le_mul_of_nonneg_left c.abs_stored_le (by norm_num)
  rw [abs_argument]
  exact (longDoubleType.fmt.round_mono (abs_nonneg _) hprinted).trans (by decide +kernel)

theorem one_le_abs_argument (c : Cell) (h : c.stored ≠ 0) : 1 ≤ 2 ^ 1074 * (16 * |c.argument|) := by
  have hpos : (0 : ℚ) < 2 ^ 1074 := pow_pos (by norm_num) _
  have hlow : 1 / (2 ^ 1074 * 16) ≤ |c.printed| := by
    rw [div_le_iff₀ (mul_pos hpos (by norm_num)), mul_comm, mul_assoc]
    calc (1 : ℚ) ≤ 2 ^ 1074 * |c.stored| := c.one_le_abs_stored h
      _ ≤ 2 ^ 1074 * (10 * |c.printed|) := mul_le_mul_of_nonneg_left c.printed_bounds.2 hpos.le
      _ ≤ 2 ^ 1074 * (16 * |c.printed|) :=
        mul_le_mul_of_nonneg_left
          (mul_le_mul_of_nonneg_right (by norm_num) (abs_nonneg _)) hpos.le
  have hread := longDoubleType.fmt.round_mono (by positivity) hlow
  rw [← abs_argument] at hread
  have hone : (1 : ℚ) ≤ 2 ^ 1074 * (16 * longDoubleType.fmt.round (1 / (2 ^ 1074 * 16))) := by
    decide +kernel
  exact hone.trans (mul_le_mul_of_nonneg_left
    (mul_le_mul_of_nonneg_left hread (by norm_num)) hpos.le)

theorem argument_eq_zero {c : Cell} : c.argument = 0 ↔ c.stored = 0 := by
  constructor
  · intro h
    by_contra hne
    have hone := c.one_le_abs_argument hne
    rw [h, abs_zero, mul_zero, mul_zero] at hone
    exact absurd hone (by norm_num)
  · intro h
    rw [argument_eq, printed_eq_zero.2 h, Grid.Format.nearest_of_nonneg _ le_rfl,
      Grid.Format.round_zero]

end Cell

/-- How large a result can be. -/
theorem ArithOp.abs_onRats_le (op : ArithOp) {M K x y : ℚ} (hM : 1 ≤ M) (hMK : M ≤ K) (hK : 2 ≤ K)
    (hx : |x| ≤ M) (hdouble : doubleType.fmt.nearest x = x) (hy : |y| ≤ 16 * M)
    (hlow : y = 0 ∨ 1 ≤ K * (16 * |y|)) : |op.onRats x y| ≤ 16 * M * K := by
  have hsum : M + 16 * M ≤ 16 * M * K := by nlinarith
  cases op with
  | add => exact (abs_add_le _ _).trans ((add_le_add hx hy).trans hsum)
  | sub => exact (abs_sub _ _).trans ((add_le_add hx hy).trans hsum)
  | mul =>
    calc |x * y| = |x| * |y| := abs_mul _ _
      _ ≤ M * (16 * M) := mul_le_mul hx hy (abs_nonneg _) (by linarith)
      _ = 16 * M * M := by ring
      _ ≤ 16 * M * K := mul_le_mul_of_nonneg_left hMK (by linarith)
  | div =>
    rcases hlow with rfl | hlow
    · simp only [onRats, div_zero, abs_zero]
      positivity
    · have hpos : 0 < |y| := by
        by_contra hc
        nlinarith [abs_nonneg y]
      calc |x / y| = |x| / |y| := abs_div _ _
        _ ≤ 16 * M * K := by
          rw [div_le_iff₀ hpos]
          nlinarith
  | mod =>
    refine (abs_fmodRat_le x y).trans ?_
    rw [hdouble]
    linarith

/-- No result of two cells leaves `long double`, nor does its text. -/
theorem inRange_result (op : ArithOp) (a b : Cell) :
    longDoubleType.InRange ((op.onReals a.value.toDouble b.value.argument).fixed 6).mag := by
  set x := op.onReals a.value.toDouble b.value.argument with hx
  have hcast : ∀ m n : ℕ, ((16 * 2 ^ m * 2 ^ n : ℤ) : ℚ) = 16 * 2 ^ m * 2 ^ n := by simp
  have hmag : x.mag ≤ ((16 * 2 ^ 1024 * 2 ^ 1074 : ℤ) : ℚ) := by
    have hlow : b.argument = 0 ∨ 1 ≤ 2 ^ 1074 * (16 * |b.argument|) := by
      by_cases hzero : b.stored = 0
      · exact Or.inl (Cell.argument_eq_zero.2 hzero)
      · exact Or.inr (b.one_le_abs_argument hzero)
    have hle := op.abs_onRats_le (one_le_pow₀ (by norm_num))
      (pow_le_pow_right₀ (by norm_num) (by norm_num)) (le_self_pow₀ (by norm_num) (by norm_num))
      a.abs_stored_le a.double_convert_stored b.abs_argument_le hlow
    rw [← SRat.abs_toRat, hx, op.toRat_onReals]
    exact hle.trans_eq (hcast 1024 1074).symm
  have hfixed := Grid.decimals_mono 6 hmag
  rw [Grid.decimals_intCast] at hfixed
  refine FloatType.InRange.of_le (x.fixed 6).mag_nonneg hfixed (by decide +kernel) ?_
  refine (Grid.decimals_eq_zero_or 6 x.mag).imp id fun h => ?_
  rw [abs_of_nonneg (Grid.decimals_nonneg 6 x.mag_nonneg)] at h
  exact le_trans (by decide +kernel) h

/-! ## The operators -/

section
variable (op : ArithOp) (a b : Cell) {T : RealType}

theorem arith_real (iop : ℤ → ℤ → ℤ) (rop : SRat → SRat → SRat) (h : a.tag.wider b.tag = T.tag) :
    Operand.arith iop rop a.operand b.operand =
      ofAvm (createOperand T.tag (toStringReal (rop a.value.toDouble b.value.argument))) := by
  have hw := (widest_eq_wider a b).trans h
  unfold Operand.arith
  simp only [hw, if_neg T.float_le_tag, stold_toString b, Cell.value_operand]
  rfl

theorem divArith_real (iop : ℤ → ℤ → ℤ) (rop : SRat → SRat → SRat)
    (h : a.tag.wider b.tag = T.tag) :
    Operand.divArith iop rop a.operand b.operand =
      if b.stored = 0 then .error (.avm DivModByZeroException)
      else ofAvm (createOperand T.tag (toStringReal (rop a.value.toDouble b.value.argument))) := by
  have hw := (widest_eq_wider a b).trans h
  unfold Operand.divArith
  simp only [hw, if_neg T.float_le_tag, stold_toString b, Cell.value_operand]
  exact if_congr Cell.argument_eq_zero rfl rfl

/-- Every operator prints the result of its operation, once past its guard. -/
theorem operator_real (h : a.tag.wider b.tag = T.tag) :
    op.operator a.operand b.operand =
      if op.Divides ∧ b.stored = 0 then .error (.avm DivModByZeroException)
      else ofAvm (createOperand T.tag
        (toStringReal (op.onReals a.value.toDouble b.value.argument))) := by
  cases op with
  | add => exact (arith_real a b _ _ h).trans (if_neg (by simp [ArithOp.Divides])).symm
  | sub => exact (arith_real a b _ _ h).trans (if_neg (by simp [ArithOp.Divides])).symm
  | mul => exact (arith_real a b _ _ h).trans (if_neg (by simp [ArithOp.Divides])).symm
  | div => exact (divArith_real a b _ _ h).trans (if_congr (by simp [ArithOp.Divides]) rfl rfl)
  | mod => exact (divArith_real a b _ _ h).trans (if_congr (by simp [ArithOp.Divides]) rfl rfl)

end

/-- A result as the factory reads it: printed with six decimals, and then a `long double`. -/
def sixDecimals (q : ℚ) : ℚ := longDoubleType.fmt.nearest (Grid.decimals 6 q)

theorem toRat_fixed_cast (x : SRat) :
    (longDoubleType.cast (x.fixed 6)).toRat = sixDecimals x.toRat := by
  rw [FloatType.toRat_cast, SRat.toRat_fixed]
  rfl

/-- It is zero or far above the subnormal range. -/
theorem sixDecimals_eq_zero_or (q : ℚ) : sixDecimals q = 0 ∨ (2 : ℚ) ^ (-20 : ℤ) ≤ |sixDecimals q| := by
  unfold sixDecimals
  rcases Grid.decimals_eq_zero_or 6 q with h | h
  · left
    rw [h, Grid.Format.nearest_of_nonneg _ le_rfl, Grid.Format.round_zero]
  · right
    rw [Grid.Format.abs_nearest]
    exact le_trans (by decide +kernel) (longDoubleType.fmt.round_mono (by positivity) h)

/-- What the factory makes of the result `q` for the type `T`. -/
structure Delivers (T : RealType) (q : ℚ) (r : Except Fault (Option Operand)) : Prop where
  above : T.type.max < sixDecimals q →
    ∃ e, r = .error (.avm e) ∧ e.type = .OverflowException
  below : sixDecimals q < -T.type.max →
    ∃ e, r = .error (.avm e) ∧ e.type = .UnderflowException
  inside : |sixDecimals q| ≤ T.type.max →
    ∃ c : Cell, r = .ok (some c.operand) ∧ c.tag = T.tag ∧
      c.stored = T.type.fmt.nearest (sixDecimals q)

theorem delivers_createOperand {T : RealType} {x : SRat}
    (hx : longDoubleType.InRange (x.fixed 6).mag) :
    Delivers T x.toRat (ofAvm (createOperand T.tag (toStringReal x))) := by
  have hmaxnn := T.max_nonneg
  have hnum := toRat_fixed_cast x
  unfold toStringReal
  rw [createOperand_fixedText T hx]
  unfold fitReal
  refine ⟨?_, ?_, ?_⟩
  · intro h
    rw [← hnum] at h
    rw [dif_pos h]
    exact ⟨OverflowException (toStringReal x ++ T.notType), rfl, rfl⟩
  · intro h
    rw [← hnum] at h
    rw [dif_neg (by linarith), dif_pos h]
    exact ⟨UnderflowException (toStringReal x ++ T.notType), rfl, rfl⟩
  · intro h
    rw [← hnum] at h ⊢
    obtain ⟨hmin, hmax⟩ := abs_le.1 h
    rw [dif_neg (not_lt.2 hmax), dif_neg (not_lt.2 hmin)]
    refine ⟨_, rfl, rfl, ?_⟩
    rw [Cell.stored_real rfl]
    exact T.type.toRat_cast _

/-- **The operators on numbers**: what the left side holds with what is read of the right side. -/
theorem operator_delivers (op : ArithOp) (a b : Cell) {T : RealType}
    (h : a.tag.wider b.tag = T.tag) (hguard : ¬ (op.Divides ∧ b.stored = 0)) :
    Delivers T (op.onRats a.stored b.argument) (op.operator a.operand b.operand) := by
  rw [operator_real op a b h, if_neg hguard]
  have hq : op.onRats a.stored b.argument =
      (op.onReals a.value.toDouble b.value.argument).toRat := (op.toRat_onReals _ _).symm
  rw [hq]
  exact delivers_createOperand (inRange_result op a b)

/-! ## Precision -/

/-- The distance from 1 to the next value of the type: `2 ^ -23` or `2 ^ -52`. -/
def RealType.epsilon (T : RealType) : ℚ := 2 ^ (1 - (T.type.fmt.prec : ℤ))

/-- A magnitude between the smallest normal and the largest value. -/
def RealType.Normal (T : RealType) (r : ℚ) : Prop := T.type.minNormal ≤ |r| ∧ |r| ≤ T.type.max

/-- The operator returns a value of type `T` within a relative error of `epsilon`. -/
def Precise (op : ArithOp) (T : RealType) (a b : Cell) : Prop :=
  ∃ c : Cell, op.operator a.operand b.operand = .ok (some c.operand) ∧ c.tag = T.tag ∧
    |c.stored - op.onRats a.stored b.stored| ≤ T.epsilon * |op.onRats a.stored b.stored|

/-- What the two decimal texts, of the right operand and of the result, add to the result. -/
def decimalError (op : ArithOp) (a b : Cell) : ℚ :=
  sixDecimals (op.onRats a.stored b.argument) - op.onRats a.stored b.stored

/-- Six decimals are far above the subnormal range, so only the last binary digit is lost. -/
theorem abs_nearest_sixDecimals_sub_le (T : RealType) (q : ℚ) :
    |T.type.fmt.nearest (sixDecimals q) - sixDecimals q| ≤ |sixDecimals q| * (T.epsilon / 2) := by
  rw [T.type.fmt.abs_nearest_sub]
  rcases sixDecimals_eq_zero_or q with h | h
  · rw [h]
    simp
  · have hpos : 0 < |sixDecimals q| := lt_of_lt_of_le (by positivity) h
    have hmin : T.type.minNormal ≤ |sixDecimals q| := le_trans (by cases T <;> decide +kernel) h
    have hradix : T.epsilon = (T.type.fmt.radix : ℚ) ^ (1 - (T.type.fmt.prec : ℤ)) := by
      cases T <;> rfl
    rw [hradix, ← mul_div_assoc]
    exact T.type.fmt.abs_round_sub_le_mul hpos (qexp_of_minNormal_le T hmin)

theorem precise_iff_rounding {op : ArithOp} {a b : Cell} {T : RealType}
    (h : a.tag.wider b.tag = T.tag) (hguard : ¬ (op.Divides ∧ b.stored = 0)) :
    Precise op T a b ↔
      |op.onRats a.stored b.stored + decimalError op a b| ≤ T.type.max ∧
        |T.type.fmt.nearest (op.onRats a.stored b.stored + decimalError op a b) -
            op.onRats a.stored b.stored| ≤ T.epsilon * |op.onRats a.stored b.stored| := by
  have hsum : op.onRats a.stored b.stored + decimalError op a b =
      sixDecimals (op.onRats a.stored b.argument) := by
    unfold decimalError
    ring
  obtain ⟨habove, hbelow, hinside⟩ := operator_delivers op a b h hguard
  rw [hsum]
  by_cases hrange : |sixDecimals (op.onRats a.stored b.argument)| ≤ T.type.max
  · obtain ⟨c, hc, htag, hval⟩ := hinside hrange
    rw [and_iff_right hrange, ← hval]
    constructor
    · rintro ⟨c', hc', -, herr⟩
      rw [hc] at hc'
      rwa [Cell.stored_congr (Option.some.inj (Except.ok.inj hc'))]
    · exact fun herr => ⟨c, hc, htag, herr⟩
  · refine iff_of_false ?_ (fun hc => hrange hc.1)
    rintro ⟨c, hc, -⟩
    rw [abs_le, not_and_or, not_le, not_le] at hrange
    rcases hrange with hlow | hhigh
    · obtain ⟨e, he, -⟩ := hbelow hlow
      rw [he] at hc
      cases hc
    · obtain ⟨e, he, -⟩ := habove hhigh
      rw [he] at hc
      cases hc

/-- A relative error below a third of `epsilon / 2` and one above three times `epsilon / 2`, before
rounding. -/
theorem rounding_error {r E v x δ : ℚ} (hx : x = r + E) (hv : |v - x| ≤ |x| * δ) (hδ : 0 ≤ δ) :
    |E| - (|r| + |E|) * δ ≤ |v - r| ∧ |v - r| ≤ |E| + (|r| + |E|) * δ := by
  have hxle : |x| * δ ≤ (|r| + |E|) * δ := by
    rw [hx]
    exact mul_le_mul_of_nonneg_right (abs_add_le r E) hδ
  have hE : E = (v - r) - (v - x) := by rw [hx]; ring
  have hvr : v - r = (v - x) + E := by rw [hx]; ring
  constructor
  · have htri := abs_sub (v - r) (v - x)
    rw [← hE] at htri
    linarith
  · have htri := abs_add_le (v - x) E
    rw [← hvr] at htri
    linarith

/-- **When arithmetic keeps the precision of its type.** The decimal error `E`, from the text of the
right operand and from the six decimals of the result, decides: the result is as precise as its type
exactly when `r + E` is in range and rounds to within `epsilon` of `r`. A relative error of
`1 / (2 ^ p + 1)` is always small enough, one above `3 / (2 ^ p - 1)` never. -/
theorem precision_iff (op : ArithOp) (hop : op ≠ .mod) (a b : Cell) (T : RealType)
    (h : a.tag.wider b.tag = T.tag) (hr : T.Normal (op.onRats a.stored b.stored)) :
    let r := op.onRats a.stored b.stored
    let E := decimalError op a b
    (Precise op T a b ↔
      |r + E| ≤ T.type.max ∧ |T.type.fmt.nearest (r + E) - r| ≤ T.epsilon * |r|) ∧
    (|r + E| ≤ T.type.max → |E| * (2 ^ T.type.fmt.prec + 1) ≤ |r| → Precise op T a b) ∧
    (3 * |r| < |E| * (2 ^ T.type.fmt.prec - 1) → ¬ Precise op T a b) := by
  intro r E
  have hguard : ¬ (op.Divides ∧ b.stored = 0) := by
    rintro ⟨hdiv | hmod, hzero⟩
    · -- a quotient by zero is no result in the normal range
      have hmin : 0 < T.type.minNormal := by cases T <;> decide +kernel
      have hr' := hr.1
      rw [hdiv, hzero] at hr'
      simp only [ArithOp.onRats, div_zero, abs_zero] at hr'
      linarith
    · exact hop hmod
  have hiff : Precise op T a b ↔
      |r + E| ≤ T.type.max ∧ |T.type.fmt.nearest (r + E) - r| ≤ T.epsilon * |r| :=
    precise_iff_rounding h hguard
  have hsum : r + E = sixDecimals (op.onRats a.stored b.argument) := by
    simp only [r, E, decimalError]
    ring
  have hround := abs_nearest_sixDecimals_sub_le T (op.onRats a.stored b.argument)
  rw [← hsum] at hround
  have hδ : 0 ≤ T.epsilon / 2 := by cases T <;> decide +kernel
  have hpow : T.epsilon / 2 * 2 ^ T.type.fmt.prec = 1 := by cases T <;> decide +kernel
  have hE1 : |E| * (T.epsilon / 2 * 2 ^ T.type.fmt.prec) = |E| := by rw [hpow, mul_one]
  obtain ⟨hlow, hhigh⟩ := rounding_error rfl hround hδ
  refine ⟨hiff, ?_, ?_⟩
  · intro hrange hE
    refine hiff.2 ⟨hrange, hhigh.trans ?_⟩
    have hscaled := mul_le_mul_of_nonneg_left hE hδ
    linarith
  · intro hE hprecise
    have hle := hlow.trans (hiff.1 hprecise).2
    have hδ' : 0 < T.epsilon / 2 := by cases T <;> decide +kernel
    have hscaled := mul_lt_mul_of_pos_left hE hδ'
    linarith

/-- The `double`s one and three. -/
def Cell.one : Cell := .real .double (SRat.ofInt 1) ⟨by decide +kernel, by decide +kernel⟩
def Cell.three : Cell := .real .double (SRat.ofInt 3) ⟨by decide +kernel, by decide +kernel⟩

/-- A sum that prints exactly. -/
theorem precise_sum : Precise .add .double .one .three :=
  (precision_iff .add (by decide) .one .three .double (by decide)
    ⟨by decide +kernel, by decide +kernel⟩).2.1 (by decide +kernel) (by decide +kernel)

/-- One third keeps six decimals. -/
theorem not_precise : ¬ ∀ (op : ArithOp) (a b : Cell) (T : RealType), op ≠ .mod →
    a.tag.wider b.tag = T.tag → T.Normal (op.onRats a.stored b.stored) → Precise op T a b := by
  intro h
  obtain ⟨c, hc, -, herr⟩ := h .div .one .three .double (by decide) (by decide)
    ⟨by decide +kernel, by decide +kernel⟩
  have hdiv : ArithOp.div.operator Cell.one.operand Cell.three.operand =
      .ok (some (Operand.new (.real .double
        (doubleType.cast (SRat.ofRat false (333333 / 1000000)))))) := by decide +kernel
  rw [hdiv] at hc
  rw [Cell.stored_of_operand (Option.some.inj (Except.ok.inj hc)).symm] at herr
  exact absurd herr (by decide +kernel)

/-! ## Exchanging the operands -/

/-- Cells of one type and one value. -/
def SameOperand (p q : Option Operand) : Prop :=
  ∃ c c' : Cell, p = some c.operand ∧ q = some c'.operand ∧ c.tag = c'.tag ∧ c.stored = c'.stored

/-- Two results of an operator that agree: the same operand, or errors of one type. -/
inductive SameResult : Except Fault (Option Operand) → Except Fault (Option Operand) → Prop
  | ok {p q : Option Operand} (h : SameOperand p q) : SameResult (.ok p) (.ok q)
  | error {e e' : AVMException} (htype : e.type = e'.type) :
      SameResult (.error (.avm e)) (.error (.avm e'))

/-- Two ends of an instruction that agree: the same operand on top of the same machine, or errors of
one type and the same stack. -/
inductive SameOutcome : Result Operand Unit → Result Operand Unit → Prop
  | ok {s s' : VM Operand Unit} {p q : Option Operand} {rest : List (Option Operand)}
      (h : SameOperand p q) (hs : s.stack_ = p :: rest) (hs' : s' = { s with stack_ := q :: rest }) :
      SameOutcome (.ok s) (.ok s')
  | error {e e' : AVMException} {s s' : VM Operand Unit} (htype : e.type = e'.type)
      (hstack : s.stack_ = s'.stack_) : SameOutcome (.error (.avm e, s)) (.error (.avm e', s'))

/-- The machine `s` with `a` and then `b` pushed on it. -/
def VM.operands (s : VM Operand Unit) (a b : Cell) : VM Operand Unit :=
  { s with stack_ := some b.operand :: some a.operand :: s.stack_ }

/-- `swap` before the instruction makes no difference, whatever lies below the two operands. -/
def SwapFree (instr : VM Operand Unit → Result Operand Unit) (a b : Cell) : Prop :=
  ∀ s : VM Operand Unit, SameOutcome (instr (s.operands a b)) ((swap (s.operands a b)).bind instr)

/-- The six decimals, `long double` and the type take `q` and `q'` to one value, or both are out of
range on one side. -/
def Absorbed (T : RealType) (q q' : ℚ) : Prop :=
  (T.type.max < sixDecimals q ∧ T.type.max < sixDecimals q') ∨
    (sixDecimals q < -T.type.max ∧ sixDecimals q' < -T.type.max) ∨
    (|sixDecimals q| ≤ T.type.max ∧ |sixDecimals q'| ≤ T.type.max ∧
      T.type.fmt.nearest (sixDecimals q) = T.type.fmt.nearest (sixDecimals q'))

section
variable (op : ArithOp) (s : VM Operand Unit) (a b : Cell)

theorem arithmetic_error {f : Fault} (h : op.operator a.operand b.operand = .error f) :
    arithmetic plain op.name op.operator (s.operands a b) =
      .error (f, { s with right_ := some b.operand, left_ := some a.operand }) := by
  unfold arithmetic VM.operands
  simp only [plain, id, h]

theorem arithmetic_ok {r : Option Operand} (h : op.operator a.operand b.operand = .ok r) :
    arithmetic plain op.name op.operator (s.operands a b) =
      .ok { s with stack_ := r :: s.stack_, left_ := none, right_ := none } := by
  unfold arithmetic VM.operands
  simp only [plain, id, h]
  cases r <;> rfl

/-- Exchanged operands are read in the other order. -/
theorem swap_operands (instr : VM Operand Unit → Result Operand Unit) :
    (swap (s.operands a b)).bind instr =
      instr (VM.operands { s with left_ := none, right_ := none } b a) := rfl

/-- On the machine the operators are compared. -/
theorem swapFree_iff : SwapFree (arithmetic plain op.name op.operator) a b ↔
    SameResult (op.operator a.operand b.operand) (op.operator b.operand a.operand) := by
  unfold SwapFree
  simp only [swap_operands]
  rcases op.operator_cell a b with ⟨e, he, -⟩ | ⟨c, -, hc⟩
  · rcases op.operator_cell b a with ⟨e', he', -⟩ | ⟨c', -, hc'⟩
    · rw [he, he']
      constructor
      · intro h
        have hinit := h (VM.init ())
        rw [arithmetic_error _ _ _ _ he, arithmetic_error _ _ _ _ he'] at hinit
        cases hinit with
        | error htype => exact .error htype
      · intro h s
        rw [arithmetic_error _ _ _ _ he, arithmetic_error _ _ _ _ he']
        cases h with
        | error htype => exact .error htype rfl
    · rw [he, hc']
      refine iff_of_false ?_ (fun h => by cases h)
      intro h
      have hinit := h (VM.init ())
      rw [arithmetic_error _ _ _ _ he, arithmetic_ok _ _ _ _ hc'] at hinit
      cases hinit
  · rcases op.operator_cell b a with ⟨e', he', -⟩ | ⟨c', -, hc'⟩
    · rw [hc, he']
      refine iff_of_false ?_ (fun h => by cases h)
      intro h
      have hinit := h (VM.init ())
      rw [arithmetic_ok _ _ _ _ hc, arithmetic_error _ _ _ _ he'] at hinit
      cases hinit
    · rw [hc, hc']
      constructor
      · intro h
        have hinit := h (VM.init ())
        rw [arithmetic_ok _ _ _ _ hc, arithmetic_ok _ _ _ _ hc'] at hinit
        cases hinit with
        | ok hsame hs hs' =>
          cases hs
          cases hs'
          exact .ok hsame
      · intro h s
        rw [arithmetic_ok _ _ _ _ hc, arithmetic_ok _ _ _ _ hc']
        cases h with
        | ok hsame => exact .ok hsame rfl rfl

end

/-- Where a number lies, and what is delivered for it. -/
theorem Delivers.cases {T : RealType} {q : ℚ} {r : Except Fault (Option Operand)}
    (h : Delivers T q r) :
    (T.type.max < sixDecimals q ∧ ∃ e, r = .error (.avm e) ∧ e.type = .OverflowException) ∨
      (sixDecimals q < -T.type.max ∧
        ∃ e, r = .error (.avm e) ∧ e.type = .UnderflowException) ∨
      (|sixDecimals q| ≤ T.type.max ∧ ∃ c : Cell, r = .ok (some c.operand) ∧ c.tag = T.tag ∧
        c.stored = T.type.fmt.nearest (sixDecimals q)) := by
  by_cases hmax : T.type.max < sixDecimals q
  · exact Or.inl ⟨hmax, h.above hmax⟩
  · by_cases hmin : sixDecimals q < -T.type.max
    · exact Or.inr (Or.inl ⟨hmin, h.below hmin⟩)
    · have hrange := abs_le.2 ⟨not_lt.1 hmin, not_lt.1 hmax⟩
      exact Or.inr (Or.inr ⟨hrange, h.inside hrange⟩)

/-- Two numbers deliver the same if they are absorbed. -/
theorem sameResult_of_absorbed {T : RealType} {q q' : ℚ} {r r' : Except Fault (Option Operand)}
    (h : Delivers T q r) (h' : Delivers T q' r') (habs : Absorbed T q q') : SameResult r r' := by
  rcases habs with ⟨hq, hq'⟩ | ⟨hq, hq'⟩ | ⟨hq, hq', heq⟩
  · obtain ⟨e, rfl, he⟩ := h.above hq
    obtain ⟨e', rfl, he'⟩ := h'.above hq'
    exact .error (he.trans he'.symm)
  · obtain ⟨e, rfl, he⟩ := h.below hq
    obtain ⟨e', rfl, he'⟩ := h'.below hq'
    exact .error (he.trans he'.symm)
  · obtain ⟨c, rfl, htag, hval⟩ := h.inside hq
    obtain ⟨c', rfl, htag', hval'⟩ := h'.inside hq'
    exact .ok ⟨c, c', rfl, rfl, htag.trans htag'.symm, hval.trans (heq.trans hval'.symm)⟩

theorem absorbed_of_sameResult {T : RealType} {q q' : ℚ} {r r' : Except Fault (Option Operand)}
    (h : Delivers T q r) (h' : Delivers T q' r') (hsame : SameResult r r') : Absorbed T q q' := by
  rcases h.cases with ⟨hq, e, rfl, he⟩ | ⟨hq, e, rfl, he⟩ | ⟨hq, c, rfl, -, hval⟩
  · rcases h'.cases with ⟨hq', e', rfl, he'⟩ | ⟨hq', e', rfl, he'⟩ | ⟨hq', c', rfl, -, hval'⟩
    · exact Or.inl ⟨hq, hq'⟩
    · cases hsame with
      | error htype => cases he.symm.trans (htype.trans he')
    · cases hsame
  · rcases h'.cases with ⟨hq', e', rfl, he'⟩ | ⟨hq', e', rfl, he'⟩ | ⟨hq', c', rfl, -, hval'⟩
    · cases hsame with
      | error htype => cases he.symm.trans (htype.trans he')
    · exact Or.inr (Or.inl ⟨hq, hq'⟩)
    · cases hsame
  · rcases h'.cases with ⟨hq', e', rfl, he'⟩ | ⟨hq', e', rfl, he'⟩ | ⟨hq', c', rfl, -, hval'⟩
    · cases hsame
    · cases hsame
    · cases hsame with
      | ok hop =>
        obtain ⟨d, d', hd, hd', -, hstored⟩ := hop
        rw [Cell.stored_congr (Option.some.inj hd.symm),
          Cell.stored_congr (Option.some.inj hd'.symm), hval, hval'] at hstored
        exact Or.inr (Or.inr ⟨hq, hq', hstored⟩)

/-- What reading the text of a cell adds to its value. -/
def Cell.textError (c : Cell) : ℚ := c.argument - c.stored

/-- Integers may change places. -/
theorem operator_comm_int {op : ArithOp} (hop : ∀ x y, op.eval x y = op.eval y x)
    (hdiv : ¬ op.Divides) {T U : IntType} {x y : ℤ} (hx : T.Fits x) (hy : U.Fits y) :
    op.operator (Cell.int T x hx).operand (Cell.int U y hy).operand =
      op.operator (Cell.int U y hy).operand (Cell.int T x hx).operand := by
  have hwidest : T.widest U = U.widest T := by cases T <;> cases U <;> rfl
  rw [ArithOp.operator_int, ArithOp.operator_int]
  unfold ArithOp.onInts
  rw [if_neg fun h => hdiv h.1, if_neg fun h => hdiv h.1, hwidest, hop]

theorem SameResult.refl_operator (op : ArithOp) (a b : Cell) :
    SameResult (op.operator a.operand b.operand) (op.operator a.operand b.operand) := by
  rcases op.operator_cell a b with ⟨e, he, -⟩ | ⟨c, -, hc⟩
  · rw [he]
    exact .error rfl
  · rw [hc]
    exact .ok ⟨c, c, rfl, rfl, rfl, rfl⟩

/-- A commutative operation on either order of its operands. -/
theorem swapFree_iff_absorbed (op : ArithOp) (hop : ∀ x y, op.eval x y = op.eval y x)
    (hdiv : ¬ op.Divides) (a b : Cell) :
    SwapFree (arithmetic plain op.name op.operator) a b ↔
      ∀ T : RealType, a.tag.wider b.tag = T.tag →
        Absorbed T (op.onRats a.stored b.argument) (op.onRats b.stored a.argument) := by
  rw [swapFree_iff]
  rcases a.ints_or_real b with ⟨U, x, hx, V, y, hy, rfl, rfl⟩ | ⟨T, hT⟩
  · have hlt : (Cell.int U x hx).tag.wider (Cell.int V y hy).tag < .Float :=
      OperandType.wider_lt_float U.tag_lt_float V.tag_lt_float
    refine iff_of_true ?_ ?_
    · rw [operator_comm_int hop hdiv hy hx]
      exact .refl_operator op _ _
    · intro T hT
      rw [hT] at hlt
      exact absurd hlt T.float_le_tag
  · have hT' : b.tag.wider a.tag = T.tag := (OperandType.wider_comm _ _).trans hT
    have h := operator_delivers op a b hT fun h => hdiv h.1
    have h' := operator_delivers op b a hT' fun h => hdiv h.1
    rw [hT]
    constructor
    · intro hsame
      exact RealType.forall_tag.2 (absorbed_of_sameResult h h' hsame)
    · exact fun habs => sameResult_of_absorbed h h' (RealType.forall_tag.1 habs)

theorem absorbed_self (T : RealType) (q : ℚ) : Absorbed T q q := by
  by_cases hmax : T.type.max < sixDecimals q
  · exact Or.inl ⟨hmax, hmax⟩
  · by_cases hmin : sixDecimals q < -T.type.max
    · exact Or.inr (Or.inl ⟨hmin, hmin⟩)
    · have hrange := abs_le.2 ⟨not_lt.1 hmin, not_lt.1 hmax⟩
      exact Or.inr (Or.inr ⟨hrange, hrange, rfl⟩)

/-- **When `swap` makes no difference.** To `add` and to `mul` it makes none on integers; with a real
it makes none exactly when the two errors of the texts, each with the other operand's weight, are
absorbed on the exact result. So it makes none when they weigh the same. -/
theorem swap_iff (a b : Cell) :
    (SwapFree (add plain) a b ↔ ∀ T : RealType, a.tag.wider b.tag = T.tag →
      Absorbed T (a.stored + b.stored + b.textError) (a.stored + b.stored + a.textError)) ∧
    (SwapFree (mul plain) a b ↔ ∀ T : RealType, a.tag.wider b.tag = T.tag →
      Absorbed T (a.stored * b.stored + a.stored * b.textError)
        (a.stored * b.stored + b.stored * a.textError)) ∧
    (a.textError = b.textError → SwapFree (add plain) a b) ∧
    (b.stored * a.textError = a.stored * b.textError → SwapFree (mul plain) a b) := by
  have hadd : a.stored + b.stored + b.textError = a.stored + b.argument := by
    unfold Cell.textError
    ring
  have hadd' : a.stored + b.stored + a.textError = b.stored + a.argument := by
    unfold Cell.textError
    ring
  have hmul : a.stored * b.stored + a.stored * b.textError = a.stored * b.argument := by
    unfold Cell.textError
    ring
  have hmul' : a.stored * b.stored + b.stored * a.textError = b.stored * a.argument := by
    unfold Cell.textError
    ring
  have haddiff := swapFree_iff_absorbed .add Int.add_comm (by decide) a b
  have hmuliff := swapFree_iff_absorbed .mul Int.mul_comm (by decide) a b
  simp only [ArithOp.onRats, ← hadd, ← hadd', ← hmul, ← hmul'] at haddiff hmuliff
  refine ⟨haddiff, hmuliff, fun h => haddiff.2 fun T _ => ?_, fun h => hmuliff.2 fun T _ => ?_⟩
  · rw [h]
    exact absorbed_self T _
  · rw [h]
    exact absorbed_self T _

/-- `0 + 1234567` is `1234570`, and `1234567 + 0` is not. -/
theorem not_swapFree : ¬ ∀ a b : Cell, SwapFree (add plain) a b ∧ SwapFree (mul plain) a b := by
  intro h
  have hfree := (h (.int .int32_t 0 (by decide)) .sevenDigits).1
  have hsum : ArithOp.add.operator (Cell.int .int32_t 0 (by decide)).operand
      Cell.sevenDigits.operand = .ok (some (Operand.new (.real .float (SRat.ofInt 1234570)))) := by
    decide +kernel
  have hsum' : ArithOp.add.operator Cell.sevenDigits.operand
      (Cell.int .int32_t 0 (by decide)).operand =
        .ok (some (Operand.new (.real .float (SRat.ofInt 1234567)))) := by
    decide +kernel
  have hsame := (swapFree_iff .add _ _).1 hfree
  rw [hsum, hsum'] at hsame
  cases hsame with
  | ok hop =>
    obtain ⟨c, c', hc, hc', -, hstored⟩ := hop
    rw [Cell.stored_of_operand (Option.some.inj hc).symm,
      Cell.stored_of_operand (Option.some.inj hc').symm] at hstored
    exact absurd hstored (by decide +kernel)

end AbstractVM
