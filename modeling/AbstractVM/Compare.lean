import AbstractVM.Arithmetic
/-!
# The comparisons on cells

`operator==`, `operator<` and `operator>` read the text of their argument back with `stoi`, `stof`
or `stod`, by the wider type. On integers that is exact. A real prints with `digits10` digits, and
the printed number can lie outside the range of its own type: above `max()` after rounding up, or
below the smallest normal value. Then `stof` and `stod` throw, and nothing here catches it.

Main results: `compareWith_int` and `strto_toString`: what a comparison reads on its right side.
-/

namespace AbstractVM

open DecimalText (Text)
open Cpp

/-- `rhs` is a real at least as wide as `lhs`, and what it prints is out of its own range. -/
def Unreadable (lhs rhs : Operand) : Prop :=
  match rhs.value_ with
  | .int _ _ => False
  | .real T x => lhs.type_ ≤ T.tag ∧
      ¬ T.type.InRange ((DecimalText.sigFormat T.digits10 T.digits10_pos).round x.mag)

instance (lhs rhs : Operand) : Decidable (Unreadable lhs rhs) := by
  unfold Unreadable
  split <;> infer_instance

/-! ## Texts that are always in range -/

theorem inRange_int {T : RealType} {v : ℤ} (h : InBits 32 v) : T.type.InRange |(v : ℚ)| :=
  inRange_of_int (by cases T <;> decide +kernel) (by cases T <;> decide +kernel) h

/-- What a `float` prints is in the range of `double`. -/
theorem inRange_double_sig {x : SRat} (hmax : x.mag ≤ floatType.max)
    (hfix : floatType.fmt.round x.mag = x.mag) :
    doubleType.InRange ((DecimalText.sigFormat 6 (by decide)).round x.mag) := by
  have h0 := x.mag_nonneg
  obtain ⟨hup, hdown⟩ := DecimalText.sig_bounds (P := 6) (by decide) h0
  refine FloatType.InRange.of_le (Grid.Format.round_nonneg _ h0) (c := 10 * floatType.max)
    (by linarith) (by decide +kernel) ?_
  rcases h0.eq_or_lt with hz | hpos
  · exact Or.inl (by rw [← hz, Grid.Format.round_zero])
  · have hmin : (2 : ℚ) ^ (-149 : ℤ) ≤ x.mag := floatType.fmt.zpow_qmin_le rfl hpos hfix
    have h1 : doubleType.minNormal * 10 ≤ 2 ^ (-149 : ℤ) := by decide +kernel
    exact Or.inr (by linarith)

/-! ## The comparisons -/

section
variable (ri : ℤ → ℤ → Bool) (rr : ℚ → ℚ → Bool)

/-- Integers compare as integers, whatever their widths. -/
theorem compareWith_int {T U : IntType} {a b : ℤ} (ha : T.Fits a) (hb : U.Fits b) :
    Operand.compareWith ri rr (Cell.int T a ha).operand (Cell.int U b hb).operand =
      .ok (ri a b) := by
  have hread : stoi (Cell.int U b hb).operand.toString = .ok b := stoInt_toString hb.inBits
  have hleft : (Value.int T a).toInt32 = a := Cpp.wrap_eq (by decide) ha.inBits
  unfold Operand.compareWith
  simp only [widest_int ha hb, if_pos (T.widest U).tag_lt_float, hread, ofStd_ok,
    Cell.value_operand]
  show Except.ok (ri (Value.int T a).toInt32 b) = _
  rw [hleft]

/-- How the floating branches read their argument. -/
theorem strto_toString (T : RealType) (conv : SRat → SRat) (b : Cell) :
    strto T.type conv b.operand.toString =
      match b.value with
      | .int _ v => .ok (conv (SRat.ofInt v))
      | .real U x =>
        if T.type.InRange ((DecimalText.sigFormat U.digits10 U.digits10_pos).round x.mag) then
          .ok (conv (x.sig U.digits10 U.digits10_pos))
        else .error .out_of_range := by
  rcases b.cases_on with ⟨U, v, hv, rfl⟩ | ⟨U, x, hb, -, -⟩
  · exact (strto_intText _ _ _).trans (if_pos (inRange_int hv.inBits))
  · have hs : b.operand.toString = Operand.render U x := by rw [Cell.operand, hb]; rfl
    rw [hs, hb]
    exact strto_generalText _ _ U.digits10_pos x

/-- The `float` and the `double` branch. -/
theorem compareWith_of_float {l r : Operand} (h : Operand.widest l r = .Float) :
    Operand.compareWith ri rr l r =
      (ofStd (stof r.toString)).map fun x => rr l.value_.toFloat.toRat x.toRat := by
  unfold Operand.compareWith
  rw [h]
  cases stof r.toString <;> rfl

theorem compareWith_of_double {l r : Operand} (h : Operand.widest l r = .Double) :
    Operand.compareWith ri rr l r =
      (ofStd (stod r.toString)).map fun x => rr l.value_.toDouble.toRat x.toRat := by
  unfold Operand.compareWith
  rw [h]
  cases stod r.toString <;> rfl

end

/-- A comparison throws nothing of the program's own. -/
theorem compareWith_ne_avm (ri : ℤ → ℤ → Bool) (rr : ℚ → ℚ → Bool) (l r : Operand)
    (e : AVMException) : Operand.compareWith ri rr l r ≠ .error (.avm e) := by
  unfold Operand.compareWith
  simp only
  split
  · cases stoi r.toString <;> exact fun h => by cases h
  · split
    · cases stof r.toString <;> exact fun h => by cases h
    · cases stod r.toString <;> exact fun h => by cases h

end AbstractVM
