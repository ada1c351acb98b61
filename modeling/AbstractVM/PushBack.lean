import AbstractVM.Literals
import AbstractVM.PushAssert
/-!
# Pushing back what `dump` prints

`dump` writes the text of an operand, and the factory builds operands from text. The two were not
written for each other: `operator<<` prints large and small reals with an exponent, whose sign
`isValidValue` does not let through, and only `digits10` digits of any real.

| here | what it says of the source |
| --- | --- |
| `isValidValue_signText` | the scan behind the sign of a printed number |
| `not_scanValue_expText` | a printed exponent is refused |
| `RealType.roundTwice` | `stold`, and then the conversion of its result to the type |
| `decimal_roundTwice` | what a text without exponent is stored as prints that text again |
| `createOperand_render` | what the factory makes of the text of a real |

Main result: `pushesBack_iff`.
-/

namespace AbstractVM

open DecimalText
open Cpp

/-! ## The text of a real before `isValidValue` -/

theorem isValidValue_signText (type : OperandType) (neg : Bool) {l : Text} (hne : l ≠ [])
    (hun : Unsigned l) : isValidValue type (signText neg ++ l) =
      scanValue (decide (type < .Float)) (decide (type < .Float)) l := by
  cases l with
  | nil => exact absurd rfl hne
  | cons c l =>
    have hsign := hun c rfl
    cases neg with
    | false => simp [isValidValue, signText, hsign.1, hsign.2]
    | true => simp [isValidValue, signText]

/-- What follows an `e` is a digit. -/
theorem isDigit_of_scanValue {hasDot hasExp : Bool} {l t : Text} {c : Char}
    (h : scanValue hasDot hasExp (l ++ 'e' :: c :: t) = true) : c.isDigit = true := by
  induction l generalizing hasDot hasExp with
  | nil =>
    have hds : scanValue hasDot true (c :: t) = true := by
      cases hasExp with
      | true => simp [scanValue] at h
      | false => simpa [scanValue] using h
    exact (digits_cons.1 (scanValue_digits_iff.1 hds)).1
  | cons d l ih =>
    simp only [List.cons_append, scanValue] at h
    split_ifs at h
    · exact ih h
    · exact ih h
    · exact ih h

/-- A printed exponent has a sign. -/
theorem not_scanValue_expText (hasDot hasExp : Bool) (l : Text) (X : ℤ) :
    scanValue hasDot hasExp (l ++ expText X) = false := by
  rw [← Bool.not_eq_true]
  intro h
  have hdigit := isDigit_of_scanValue h
  split at hdigit
  · exact absurd hdigit (by decide)
  · exact absurd hdigit (by decide)

/-- No operand has an empty text. -/
theorem toString_new_ne_nil (v : Value) : (Operand.new v).toString ≠ [] := by
  cases v with
  | int T z =>
    have hdigits : Nat.toDigits 10 z.natAbs ≠ [] := Nat.toDigits_ne_nil
    simp [toStringInt, intText, hdigits]
  | real T x =>
    obtain ⟨int, frac, e, X, htext, -, hne, -⟩ := generalText_parts T.digits10_pos x.neg x.mag_nonneg
    rw [Operand.toString_new_real]
    unfold Operand.render
    rw [htext, pointText_eq]
    simp [hne]

section
variable (T : RealType) (x : SRat)

/-- **The text of a real is accepted when it has no exponent.** -/
theorem isValidValue_render :
    isValidValue T.tag (Operand.render T x) = true ↔ Plain T.digits10 (T.decimal.round x.mag) := by
  obtain ⟨int, frac, e, X, htext, hint, hne, hfrac, -, hexp⟩ :=
    generalText_parts T.digits10_pos x.neg x.mag_nonneg
  have hmant := mantissa_fracText hint (digits_rdropWhile hfrac)
  rw [← pointText_eq] at hmant
  have hpoint : pointText int frac ≠ [] := by
    rw [pointText_eq]
    exact fun h => hne (List.append_eq_nil_iff.1 h).1
  have hun : Unsigned (pointText int frac ++ e) := by
    rw [pointText_eq, List.append_assoc]
    exact (unsigned_digits hint).append hne
  have hreal : decide (T.tag < OperandType.Float) = false := decide_eq_false T.float_le_tag
  unfold Operand.render
  rw [htext, isValidValue_signText _ _ (by simp [hpoint]) hun, hreal]
  change (if Plain T.digits10 (T.decimal.round x.mag) then _ else _) at hexp
  by_cases hplain : Plain T.digits10 (T.decimal.round x.mag)
  · rw [if_pos hplain] at hexp
    rw [hexp.1]
    exact iff_of_true (scanValue_real_iff.2 ⟨_, _, _, [], rfl, hmant, .none⟩) hplain
  · rw [if_neg hplain] at hexp
    rw [hexp, not_scanValue_expText]
    exact iff_of_false Bool.false_ne_true hplain

/-- What the factory stores for the text of a real: `stold` reads a `long double`, which is then
converted. -/
def RealType.repushed (T : RealType) (x : SRat) : SRat :=
  T.type.cast (longDoubleType.cast (x.sig T.digits10 T.digits10_pos))

/-- The magnitude the factory stores for a decimal: rounded twice. -/
def RealType.roundTwice (T : RealType) (q : ℚ) : ℚ := T.type.fmt.round (longDoubleType.fmt.round q)

/-- A `long double` read from a text without exponent is far inside the range of the type. -/
theorem le_max_of_plain {q : ℚ} (h : Plain T.digits10 q) :
    longDoubleType.fmt.round q ≤ T.type.max := by
  rcases h with rfl | ⟨hlow, hhigh⟩
  · rw [Grid.Format.round_zero]
    exact T.max_nonneg
  · refine (longDoubleType.fmt.round_mono (le_trans (by norm_num) hlow) hhigh.le).trans ?_
    cases T <;> decide +kernel

/-- **Short decimals without exponent survive both roundings.** -/
theorem decimal_roundTwice {m : ℕ} {e : ℤ} (hlt : m < 10 ^ T.digits10)
    (hplain : Plain T.digits10 (m * (10 : ℚ) ^ e)) :
    T.decimal.round (T.roundTwice (m * (10 : ℚ) ^ e)) = m * (10 : ℚ) ^ e := by
  unfold RealType.roundTwice
  rcases hplain with hzero | ⟨hlow, -⟩
  · rw [hzero, Grid.Format.round_zero, Grid.Format.round_zero, Grid.Format.round_zero]
  · set q := (m : ℚ) * (10 : ℚ) ^ e with hq
    have hpos : 0 < q := lt_of_lt_of_le (by norm_num) hlow
    have hm : 0 < m := by
      rcases Nat.eq_zero_or_pos m with rfl | hm
      · rw [hq, Nat.cast_zero, zero_mul] at hpos
        exact absurd hpos (lt_irrefl _)
      · exact hm
    -- both roundings happen in the normal range, and lose a relative error only
    have hlong : (2 : ℚ) ^ (-14 : ℤ) ≤ longDoubleType.fmt.round q := by
      refine le_trans (by decide +kernel) (longDoubleType.fmt.round_mono (x := 1 / 10 ^ 4) ?_ hlow)
      norm_num
    have hlongpos : 0 < longDoubleType.fmt.round q := lt_of_lt_of_le (by positivity) hlong
    have herr := longDoubleType.fmt.abs_round_sub_le_mul hpos
      (longDoubleType.fmt.qexp_of_normal rfl (le_trans (by decide +kernel) hlow))
    have hd : T.decimal.Multiple (T.decimal.qexp q) q := T.decimal.multiple_of_lt_pow rfl hm hlt e
    have hmin : T.type.minNormal ≤ longDoubleType.fmt.round q :=
      le_trans (by cases T <;> decide +kernel) hlong
    have herr' := T.type.fmt.abs_round_sub_le_mul hlongpos (qexp_of_minNormal_le T hmin)
    rw [mul_div_assoc] at herr herr'
    have hsum := Grid.Format.abs_sub_le_of_errors (by cases T <;> decide +kernel) herr herr'
    -- together they are too small for `digits10` digits
    exact T.decimal.round_eq_of_near rfl hpos hd (by cases T <;> decide +kernel) hsum

/-- **What the factory makes of the text of a real**: without an exponent, the printed number,
rounded twice; with one, an error. -/
theorem createOperand_render {x : SRat} (hx : (Value.real T x).Valid) :
    createOperand T.tag (Operand.render T x) =
      if Plain T.digits10 (T.decimal.round x.mag) then
        .ok (some (Operand.new (.real T (T.repushed x))))
      else .error (InvalidValueFormatException (Operand.render T x)) := by
  have hne : Operand.render T x ≠ [] := toString_new_ne_nil (.real T x)
  have hvalid := isValidValue_render T x
  by_cases hplain : Plain T.digits10 (T.decimal.round x.mag)
  · rw [if_pos hplain]
    have hread : stold (Operand.render T x) =
        .ok (longDoubleType.cast (x.sig T.digits10 T.digits10_pos)) :=
      stold_toString (Cell.real T x hx)
    exact createOperand_real_eq_ok.2
      ⟨⟨hne, hvalid.2 hplain⟩, _, hread, le_max_of_plain T hplain, rfl⟩
  · rw [if_neg hplain]
    have hrefused : isValidValue T.tag (Operand.render T x) = false :=
      Bool.eq_false_iff.2 fun h => hplain (hvalid.1 h)
    unfold createOperand
    rw [if_neg hne, hrefused]
    rfl

end

/-! ## Which operands survive -/

/-- `y` is what both roundings make of a decimal of at most `digits10` significant digits that needs
no exponent. -/
def PlainDecimal (T : RealType) (y : ℚ) : Prop :=
  ∃ (m : ℕ) (e : ℤ), m < 10 ^ T.digits10 ∧ Plain T.digits10 (m * (10 : ℚ) ^ e) ∧
    T.roundTwice (m * (10 : ℚ) ^ e) = y

theorem plainDecimal_iff (T : RealType) {y : ℚ} (hy : 0 ≤ y) :
    PlainDecimal T y ↔
      Plain T.digits10 (T.decimal.round y) ∧ T.roundTwice (T.decimal.round y) = y := by
  constructor
  · rintro ⟨m, e, hlt, hplain, heq⟩
    have hback := decimal_roundTwice T hlt hplain
    rw [heq] at hback
    rw [hback]
    exact ⟨hplain, heq⟩
  · rintro ⟨hplain, heq⟩
    obtain ⟨m, e, hm, hval⟩ := exists_decimal T hy
    refine ⟨m, e, hm, ?_, ?_⟩
    · rw [hval]
      exact hplain
    · rw [hval]
      exact heq

/-- The text of an operand, handed to the factory with its type, gives the operand back. -/
def PushesBack (c : Cell) : Prop :=
  ∃ d : Cell, createOperand c.operand.getType c.operand.toString = .ok (some d.operand) ∧
    d.operand.getType = c.operand.getType ∧ d.operand.toString = c.operand.toString ∧
    d.stored = c.stored

theorem pushesBack_of_eq {c : Cell}
    (h : createOperand c.operand.getType c.operand.toString = .ok (some c.operand)) :
    PushesBack c := ⟨c, h, rfl, rfl, rfl⟩

theorem pushesBack_int {T : IntType} {v : ℤ} (hv : T.Fits v) : PushesBack (.int T v hv) := by
  apply pushesBack_of_eq
  refine (createOperand_toStringInt T (hv.inBits.mono (by decide))).trans ?_
  rw [fitInt_of_fits hv]
  rfl

theorem pushesBack_real {T : RealType} {x : SRat} (hx : (Value.real T x).Valid) :
    PushesBack (.real T x hx) ↔
      Plain T.digits10 (T.decimal.round x.mag) ∧ T.roundTwice (T.decimal.round x.mag) = x.mag := by
  have hcreate := createOperand_render T hx
  by_cases hplain : Plain T.digits10 (T.decimal.round x.mag)
  · rw [if_pos hplain] at hcreate
    rw [and_iff_right hplain]
    constructor
    · rintro ⟨d, hd, -, -, hstored⟩
      have hnew := Option.some.inj (Except.ok.inj (hd.symm.trans hcreate))
      rw [Cell.stored_of_operand hnew, Cell.stored_real rfl] at hstored
      have hneg : (T.repushed x).neg = x.neg := rfl
      exact (toRat_inj_of_neg_eq hneg).1 hstored
    · intro hfix
      have hvalue : T.repushed x = x := SRat.ext' rfl hfix
      rw [hvalue] at hcreate
      exact pushesBack_of_eq hcreate
  · rw [if_neg hplain] at hcreate
    refine iff_of_false ?_ fun h => hplain h.1
    rintro ⟨d, hd, -⟩
    cases hd.symm.trans hcreate

/-- **Which printed operands can be pushed back.** An integer always can; a real can exactly when it
is what rounding to `long double` and then to its type makes of a decimal of at most `digits10`
significant digits that is zero or lies between `10 ^ -4` and `10 ^ digits10`. -/
theorem pushesBack_iff (c : Cell) :
    PushesBack c ↔ ∀ T : RealType, c.tag = T.tag → PlainDecimal T |c.stored| := by
  obtain ⟨value, valid⟩ := c
  cases value with
  | int T v =>
    exact iff_of_true (pushesBack_int valid) (T.forall_tag _)
  | real T x =>
    have hstored : |Cell.stored ⟨.real T x, valid⟩| = x.mag := SRat.abs_toRat x
    rw [hstored]
    refine (pushesBack_real valid).trans ?_
    rw [← plainDecimal_iff T x.mag_nonneg]
    exact (RealType.forall_tag (T := T) (P := fun U => PlainDecimal U x.mag)).symm

/-- The `float` that prints as `1e+06`. -/
def Cell.million : Cell :=
  real .float (SRat.ofInt 1000000) ⟨by decide +kernel, by decide +kernel⟩

/-- It cannot be pushed back: the factory takes no sign after an `e`. -/
theorem not_pushesBack : ¬ ∀ c : Cell, PushesBack c := by
  intro h
  obtain ⟨d, hd, -⟩ := h .million
  have hrefused : (createOperand .Float "1e+06".toList).isOk = false := by decide +kernel
  have htext : Cell.million.operand.toString = "1e+06".toList := by decide +kernel
  rw [htext] at hd
  change createOperand .Float "1e+06".toList = _ at hd
  rw [hd] at hrefused
  cases hrefused

end AbstractVM
