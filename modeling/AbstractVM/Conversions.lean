import AbstractVM.Compare
/-!
# The two ways a cell enters an operator

The receiver of an operator enters with its value, the argument with the number its text denotes;
a comparison then converts both to the wider type. On rationals:

| here | what it says of the source |
| --- | --- |
| `Cell.stored`, `Cell.printed` | `value_`, and the number `str_` denotes |
| `OperandType.convert` | the conversion to the type the comparison uses |
| `compareWith_spec` | a comparison: the stored left side against the printed right side |
| `decimal_survives` | what a real prints is printed again by the real it is read as |
-/

namespace AbstractVM

open DecimalText (Text)
open Cpp

/-! ## The decimals a real prints -/

/-- The grid of the `digits10` significant digits a real prints with. -/
def RealType.decimal (T : RealType) : Grid.Format := DecimalText.sigFormat T.digits10 T.digits10_pos

section
variable (T : RealType)

/-- In the normal range the smallest quantum of the type plays no part. -/
theorem qexp_of_minNormal_le {q : ℚ} (h : T.type.minNormal ≤ q) :
    T.type.fmt.qexp q = Int.log T.type.fmt.radix q - (T.type.fmt.prec - 1) := by
  cases T with
  | float => exact floatType.fmt.qexp_of_normal rfl (le_trans (by decide +kernel) h)
  | double => exact doubleType.fmt.qexp_of_normal rfl (le_trans (by decide +kernel) h)

/-- A decimal of at most `digits10` digits survives the binary type, in its range. -/
theorem decimal_round_round {m : ℕ} {e : ℤ} (hm : 0 < m) (hlt : m < 10 ^ T.digits10)
    (hr : T.type.InRange (m * (10 : ℚ) ^ e)) :
    T.decimal.round (T.type.fmt.round (m * (10 : ℚ) ^ e)) = m * (10 : ℚ) ^ e := by
  have hpos : (0 : ℚ) < m * (10 : ℚ) ^ e := mul_pos (by exact_mod_cast hm) (by positivity)
  have hd : T.decimal.Multiple (T.decimal.qexp (m * (10 : ℚ) ^ e)) (m * (10 : ℚ) ^ e) :=
    T.decimal.multiple_of_lt_pow rfl hm hlt e
  rcases hr.2 with h0 | hmin | hfix
  · exact absurd h0 hpos.ne'
  · -- in the normal range the binary digits are dense enough
    have hdense : T.decimal.radix ^ T.decimal.prec < T.type.fmt.radix ^ (T.type.fmt.prec - 1) := by
      cases T <;> decide
    exact T.type.fmt.round_round_of_digits T.decimal rfl hdense hpos
      (qexp_of_minNormal_le T hmin) hd
  · -- below it, only exact decimals are in range
    rw [hfix]
    exact T.decimal.round_fixed hd

/-- A magnitude whose text is read prints the same text once read. -/
theorem decimal_survives {y : ℚ} (hy : 0 ≤ y) (hr : T.type.InRange (T.decimal.round y)) :
    T.decimal.round (T.type.fmt.round (T.decimal.round y)) = T.decimal.round y := by
  rcases hy.eq_or_lt with rfl | hpos
  · simp
  · obtain ⟨hround, m, -, hm, hval⟩ := DecimalText.floor_significand T.digits10_pos hpos
    change 0 < T.decimal.round y at hround
    change (m : ℚ) * 10 ^ (Int.log 10 (T.decimal.round y) - ((T.digits10 : ℤ) - 1)) =
      T.decimal.round y at hval
    have hm0 : 0 < m := by
      rcases Nat.eq_zero_or_pos m with rfl | h
      · simp only [Nat.cast_zero, zero_mul] at hval
        exact absurd hval hround.ne
      · exact h
    have hback := decimal_round_round T hm0 hm (hval.symm ▸ hr)
    rwa [hval] at hback

/-- The same for numbers of either sign. -/
theorem decimal_nearest_survives {q : ℚ} (hr : T.type.InRange |T.decimal.nearest q|) :
    T.decimal.nearest (T.type.fmt.nearest (T.decimal.nearest q)) = T.decimal.nearest q := by
  have key : ∀ q : ℚ, 0 ≤ q → T.type.InRange |T.decimal.nearest q| →
      T.decimal.nearest (T.type.fmt.nearest (T.decimal.nearest q)) = T.decimal.nearest q := by
    intro q hq hr
    have h1 := T.decimal.round_nonneg hq
    have h2 := T.type.fmt.round_nonneg h1
    rw [T.decimal.nearest_of_nonneg hq] at hr ⊢
    rw [abs_of_nonneg h1] at hr
    rw [T.type.fmt.nearest_of_nonneg h1, T.decimal.nearest_of_nonneg h2]
    exact decimal_survives T hq hr
  rcases le_total 0 q with hq | hq
  · exact key q hq hr
  · have hneg := key (-q) (by linarith)
    rw [T.decimal.nearest_neg, abs_neg, T.type.fmt.nearest_neg, T.decimal.nearest_neg] at hneg
    exact neg_injective (hneg hr)

end

/-! ## Stored and printed numbers -/

namespace Cell

/-- The number a cell holds. -/
def stored (c : Cell) : ℚ := c.value.toDouble.toRat

/-- The number the text of a cell denotes. -/
def printed (c : Cell) : ℚ := c.value.printed.toRat

@[simp] theorem stored_int (T : IntType) (v : ℤ) (h : T.Fits v) : (int T v h).stored = v :=
  SRat.toRat_ofInt v

@[simp] theorem printed_int (T : IntType) (v : ℤ) (h : T.Fits v) : (int T v h).printed = v :=
  SRat.toRat_ofInt v

theorem stored_of_operand {c : Cell} {v : Value} (h : c.operand = Operand.new v) :
    c.stored = v.toDouble.toRat := by
  unfold stored
  rw [← value_operand, h, Operand.value_new]

theorem stored_congr {c c' : Cell} (h : c.operand = c'.operand) : c.stored = c'.stored :=
  stored_of_operand h

theorem stored_real {c : Cell} {T : RealType} {x : SRat} (h : c.value = .real T x) :
    c.stored = x.toRat := by
  unfold stored
  rw [h]
  rfl

theorem printed_real {c : Cell} {T : RealType} {x : SRat} (h : c.value = .real T x) :
    c.printed = T.decimal.nearest c.stored := by
  rw [stored_real h, ← SRat.toRat_round]
  unfold printed
  rw [h]
  rfl

/-- The `float` that prints as `1.23457e+06`. -/
def sevenDigits : Cell :=
  real .float (SRat.ofInt 1234567) ⟨by decide +kernel, by decide +kernel⟩

/-- A cell by its type: an integer, or a real on its grid and in its range. -/
theorem kinds (c : Cell) :
    (c.tag < .Float ∧ ∃ T v h, c = int T v h) ∨
      ∃ T : RealType, c.tag = T.tag ∧ c.printed = T.decimal.nearest c.stored ∧
        T.type.fmt.round |c.stored| = |c.stored| ∧ |c.stored| ≤ T.type.max := by
  rcases c.cases_on with ⟨T, v, h, rfl⟩ | ⟨T, x, hc, hmax, hfix⟩
  · exact Or.inl ⟨T.tag_lt_float, T, v, h, rfl⟩
  · refine Or.inr ⟨T, tag_real hc, printed_real hc, ?_, ?_⟩
    · rw [stored_real hc, SRat.abs_toRat]
      exact hfix
    · rw [stored_real hc, SRat.abs_toRat]
      exact hmax

/-- An integer cell. -/
theorem abs_stored_of_lt {c : Cell} (h : c.tag < .Float) : ∃ n : ℕ, n ≤ 2 ^ 31 ∧ |c.stored| = n := by
  rcases c.kinds with ⟨-, T, v, hv, rfl⟩ | ⟨T, hT, -⟩
  · refine ⟨v.natAbs, ?_, ?_⟩
    · have hbits := hv.inBits
      unfold InBits at hbits
      norm_num at hbits ⊢
      omega
    · rw [stored_int, ← Int.cast_abs, Int.abs_eq_natAbs, Int.cast_natCast]
  · rw [hT] at h
    exact absurd h T.float_le_tag

/-- A cell of a real type. -/
theorem real_of_tag {c : Cell} {T : RealType} (h : c.tag = T.tag) :
    c.printed = T.decimal.nearest c.stored ∧ T.type.fmt.round |c.stored| = |c.stored| ∧
      |c.stored| ≤ T.type.max := by
  rcases c.kinds with ⟨hlt, -⟩ | ⟨U, hU, hreal⟩
  · rw [h] at hlt
    exact absurd hlt T.float_le_tag
  · rw [RealType.tag_injective (h.symm.trans hU)]
    exact hreal

/-- The text of an integer is exact. -/
theorem printed_of_lt_float {c : Cell} (h : c.tag < .Float) : c.printed = c.stored := by
  rcases c.kinds with ⟨-, T, v, hv, rfl⟩ | ⟨T, ht, -⟩
  · rw [printed_int, stored_int]
  · rw [ht] at h
    exact absurd h T.float_le_tag

/-- The text of a real is a decimal of its digits. -/
theorem round_printed {c : Cell} {T : RealType} (h : c.tag = T.tag) :
    T.decimal.round |c.printed| = |c.printed| := by
  rw [(real_of_tag h).1, T.decimal.abs_nearest]
  exact T.decimal.round_round (abs_nonneg _)

end Cell

/-! ## Conversions -/

namespace OperandType

/-- The wider of two types. -/
def wider (t u : OperandType) : OperandType := if u ≤ t then t else u

/-- The conversion of a number to a type. -/
def convert : OperandType → ℚ → ℚ
  | Float => floatType.fmt.nearest
  | Double => doubleType.fmt.nearest
  | _ => id

/-- The text of a number is read into a type without `out_of_range`. -/
def Reads : OperandType → ℚ → Prop
  | Float, q => floatType.InRange |q|
  | Double, q => doubleType.InRange |q|
  | _, _ => True

instance (t : OperandType) (q : ℚ) : Decidable (t.Reads q) := by
  unfold Reads
  split <;> infer_instance

theorem wider_comm (t u : OperandType) : t.wider u = u.wider t := by
  cases t <;> cases u <;> rfl

@[simp] theorem wider_self (t : OperandType) : t.wider t = t := by
  unfold wider
  split <;> rfl

theorem wider_double {t u : OperandType} (ht : t ≠ NoType) (hu : u ≠ NoType)
    (h : t = Double ∨ u = Double) : t.wider u = Double := by
  cases t <;> cases u <;>
    first | rfl | exact absurd rfl ht | exact absurd rfl hu | simp at h

theorem wider_float {t u : OperandType} (ht : t ≤ Float) (hu : u ≤ Float)
    (h : t = Float ∨ u = Float) : t.wider u = Float := by
  cases t <;> cases u <;>
    first | rfl | exact absurd ht (by decide) | exact absurd hu (by decide) | simp at h

theorem wider_lt_float {t u : OperandType} (ht : t < Float) (hu : u < Float) :
    t.wider u < Float := by
  unfold wider
  split
  · exact ht
  · exact hu

theorem convert_mono (t : OperandType) {p q : ℚ} (h : p ≤ q) : t.convert p ≤ t.convert q := by
  cases t with
  | Float => exact floatType.fmt.nearest_mono h
  | Double => exact doubleType.fmt.nearest_mono h
  | Int8 => exact h
  | Int16 => exact h
  | Int32 => exact h
  | NoType => exact h

theorem convert_of_lt_float {t : OperandType} (h : t < Float) (q : ℚ) : t.convert q = q := by
  cases t <;> first | rfl | exact absurd h (by decide)

theorem reads_of_lt_float {t : OperandType} (h : t < Float) (q : ℚ) : t.Reads q := by
  cases t <;> first | exact trivial | exact absurd h (by decide)

@[simp] theorem convert_tag (T : RealType) (q : ℚ) : T.tag.convert q = T.type.fmt.nearest q := by
  cases T <;> rfl

theorem reads_tag (T : RealType) (q : ℚ) : T.tag.Reads q ↔ T.type.InRange |q| := by
  cases T <;> exact Iff.rfl

end OperandType

theorem widest_eq_wider (a b : Cell) : Operand.widest a.operand b.operand = a.tag.wider b.tag :=
  widest_operand a b

/-- `double` is the finer of the two types everywhere. -/
theorem double_finer (q : ℚ) : doubleType.fmt.qexp q < floatType.fmt.qexp q :=
  Grid.Format.qexp_lt_qexp (f := floatType.fmt) (g := doubleType.fmt) rfl (by decide)
    (rfl : floatType.fmt.qmin = some (-149)) (rfl : doubleType.fmt.qmin = some (-1074))
    (by decide) q

namespace Cell

/-- Every cell is a `double`. -/
theorem double_convert_stored (c : Cell) : OperandType.Double.convert c.stored = c.stored := by
  refine doubleType.fmt.nearest_eq_self ?_
  rcases c.kinds with ⟨hlt, -⟩ | ⟨T, -, -, hfix, -⟩
  · obtain ⟨n, hn, habs⟩ := abs_stored_of_lt hlt
    rw [habs]
    exact doubleType.fmt.round_natCast (fun e he => by cases he; decide)
      (lt_of_le_of_lt hn (by decide))
  · cases T with
    | float =>
      have hradix : floatType.fmt.radix = doubleType.fmt.radix := rfl
      exact Grid.Format.round_eq_self_of_qexp_le hradix (double_finer _).le hfix
    | double => exact hfix

/-- A cell survives the conversion to its own type. -/
theorem convert_stored (c : Cell) : c.tag.convert c.stored = c.stored := by
  rcases c.kinds with ⟨hlt, -⟩ | ⟨T, htag, -, hfix, -⟩
  · exact OperandType.convert_of_lt_float hlt _
  · rw [htag, OperandType.convert_tag]
    exact T.type.fmt.nearest_eq_self hfix

end Cell

/-- Two cells are two integers, or the wider type is a real one. -/
theorem Cell.ints_or_real (a b : Cell) :
    (∃ T v hv U w hw, a = Cell.int T v hv ∧ b = Cell.int U w hw) ∨
      ∃ T : RealType, a.tag.wider b.tag = T.tag := by
  unfold OperandType.wider
  rcases a.kinds with ⟨-, T, v, hv, rfl⟩ | ⟨T, ha, -⟩
  · rcases b.kinds with ⟨-, U, w, hw, rfl⟩ | ⟨U, hb, -⟩
    · exact Or.inl ⟨T, v, hv, U, w, hw, rfl, rfl⟩
    · refine Or.inr ⟨U, ?_⟩
      rw [hb, tag_int]
      cases T <;> cases U <;> rfl
  · rcases b.kinds with ⟨-, U, w, hw, rfl⟩ | ⟨U, hb, -⟩
    · refine Or.inr ⟨T, ?_⟩
      rw [ha, tag_int]
      cases T <;> cases U <;> rfl
    · refine Or.inr ⟨if U.tag ≤ T.tag then T else U, ?_⟩
      rw [ha, hb]
      split <;> rfl

/-! ## The comparisons -/

/-- How the text of a cell is read. -/
theorem strto_printed (T : RealType) (conv : SRat → SRat) (b : Cell) :
    strto T.type conv b.operand.toString =
      if T.type.InRange |b.printed| then .ok (conv b.value.printed) else .error .out_of_range := by
  rw [strto_toString]
  rcases b.cases_on with ⟨U, v, hv, rfl⟩ | ⟨U, x, hb, -, -⟩
  · rw [Cell.printed_int, if_pos (inRange_int hv.inBits)]
    rfl
  · unfold Cell.printed
    rw [hb, SRat.abs_toRat]
    rfl

section
variable {ri : ℤ → ℤ → Bool} {rr : ℚ → ℚ → Bool} (a b : Cell)

/-- The floating branches; the `double` one has nothing to convert on the left. -/
theorem compareWith_real {T : RealType} (h : a.tag.wider b.tag = T.tag) :
    Operand.compareWith ri rr a.operand b.operand =
      (ofStd (strto T.type T.type.cast b.operand.toString)).map fun y =>
        rr (T.tag.convert a.stored) y.toRat := by
  have hw := (widest_eq_wider a b).trans h
  cases T with
  | float =>
    have hleft : a.operand.value_.toFloat.toRat = OperandType.Float.convert a.stored := by
      rw [Cell.value_operand]
      exact SRat.toRat_round _ _
    refine (compareWith_of_float ri rr hw).trans ?_
    rw [hleft]
    rfl
  | double =>
    have hleft : a.operand.value_.toDouble.toRat = OperandType.Double.convert a.stored := by
      rw [Cell.value_operand, a.double_convert_stored]
      rfl
    refine (compareWith_of_double ri rr hw).trans ?_
    rw [hleft]
    rfl

/-- **A comparison on numbers**: what the left side holds against what the right side prints, both
converted to the wider type. -/
theorem compareWith_spec (hr : ∀ x y : ℤ, ri x y = rr x y) :
    Operand.compareWith ri rr a.operand b.operand =
      if (a.tag.wider b.tag).Reads b.printed then
        .ok (rr ((a.tag.wider b.tag).convert a.stored) ((a.tag.wider b.tag).convert b.printed))
      else .error (.std .out_of_range) := by
  rcases a.ints_or_real b with ⟨T, v, hv, U, w, hw, rfl, rfl⟩ | ⟨T, hT⟩
  · have hlt : (Cell.int T v hv).tag.wider (Cell.int U w hw).tag < .Float :=
      OperandType.wider_lt_float T.tag_lt_float U.tag_lt_float
    rw [compareWith_int, if_pos (OperandType.reads_of_lt_float hlt _),
      OperandType.convert_of_lt_float hlt, OperandType.convert_of_lt_float hlt,
      Cell.stored_int, Cell.printed_int, hr]
  · rw [compareWith_real a b hT, strto_printed, hT, if_congr (OperandType.reads_tag T _) rfl rfl]
    split
    · rw [OperandType.convert_tag T b.printed]
      exact congrArg (fun q => Except.ok (rr (T.tag.convert a.stored) q)) (SRat.toRat_round _ _)
    · rfl

end

/-- An unreadable right side is one whose text the wider type cannot read. -/
theorem unreadable_iff (a b : Cell) :
    Unreadable a.operand b.operand ↔ ¬ (a.tag.wider b.tag).Reads b.printed := by
  rcases b.cases_on with ⟨U, v, hv, rfl⟩ | ⟨U, x, hb, hmax, hfix⟩
  · refine iff_of_false (by simp [Unreadable, Cell.int]) (not_not_intro ?_)
    rcases a.ints_or_real (Cell.int U v hv) with ⟨T, u, hu, W, w, hw, rfl, -⟩ | ⟨T, hT⟩
    · exact OperandType.reads_of_lt_float (OperandType.wider_lt_float T.tag_lt_float U.tag_lt_float) _
    · rw [hT, OperandType.reads_tag, Cell.printed_int]
      exact inRange_int hv.inBits
  · have htag := Cell.tag_real hb
    have habs : |b.printed| = (DecimalText.sigFormat U.digits10 U.digits10_pos).round x.mag := by
      unfold Cell.printed
      rw [hb, SRat.abs_toRat]
      rfl
    have hun : Unreadable a.operand b.operand ↔ a.tag ≤ U.tag ∧ ¬ U.type.InRange |b.printed| := by
      rw [habs]
      simp [Unreadable, hb]
    rw [hun, htag]
    by_cases hle : a.tag ≤ U.tag
    · have hwider : a.tag.wider U.tag = U.tag := by
        rw [OperandType.wider_comm]
        exact if_pos hle
      rw [hwider, OperandType.reads_tag, and_iff_right hle]
    · -- the left side is a double, which has room for what a float prints
      rcases a.kinds with ⟨hlt, -⟩ | ⟨T, hT, -⟩
      · exact absurd (Nat.le_of_lt (Nat.lt_of_lt_of_le hlt (Nat.le_of_not_lt U.float_le_tag))) hle
      · rw [hT] at hle ⊢
        cases T <;> cases U <;> first | exact absurd (by decide) hle | skip
        refine iff_of_false (fun h => hle h.1) (not_not_intro ?_)
        show doubleType.InRange |b.printed|
        rw [habs]
        exact inRange_double_sig hmax hfix

/-- **A comparison throws exactly on an unreadable right side**, and then `std::out_of_range`. -/
theorem compareWith_cell (ri : ℤ → ℤ → Bool) (rr : ℚ → ℚ → Bool) (a b : Cell) :
    if Unreadable a.operand b.operand then
      Operand.compareWith ri rr a.operand b.operand = .error (.std .out_of_range)
    else ∃ r, Operand.compareWith ri rr a.operand b.operand = .ok r := by
  rw [if_congr (unreadable_iff a b) rfl rfl, ite_not]
  rcases a.ints_or_real b with ⟨T, v, hv, U, w, hw, rfl, rfl⟩ | ⟨T, hT⟩
  · have hlt : (Cell.int T v hv).tag.wider (Cell.int U w hw).tag < .Float :=
      OperandType.wider_lt_float T.tag_lt_float U.tag_lt_float
    rw [if_pos (OperandType.reads_of_lt_float hlt _), compareWith_int]
    exact ⟨_, rfl⟩
  · rw [compareWith_real a b hT, strto_printed, hT, if_congr (OperandType.reads_tag T _) rfl rfl]
    split
    · exact ⟨_, rfl⟩
    · rfl

end AbstractVM
