import AbstractVM.Lib.DecimalText
import Mathlib.Tactic.NormNum
/-!
# The parts of the C++ library: conversions, streams, floating types

`float`, `double` and `long double` are the IEEE/x87 binary types. A finite value is a rational
with a sign, so that `-0` is a value of its own (`SRat`). The conversions scan the longest numeral
prefix and round it to the type; they throw `std::out_of_range` when the number overflows the type,
or is below its smallest normal value and not a value of the type (the `ERANGE` of `strtof`,
`strtod`, `strtold`; that of a number which rounds up to the smallest normal value depends on the
implementation). Sums, products and quotients of `long double`s are taken as exact. Hexadecimal,
`inf` and `nan` subject strings are left out: no string of digits, signs, points and `e` is one.

Main results: `stoInt_intText`, `strto_intText`, `strto_generalText`: what a conversion makes of
text the library itself printed.
-/

namespace Cpp

open DecimalText

/-! ## Lines of a stream -/

/-- The lines a `std::getline` loop extracts: a final newline starts no further line. -/
def lines : Text → List Text
  | [] => []
  | c :: t =>
    if c = '\n' then [] :: lines t
    else match lines t with
      | [] => [[c]]
      | l :: ls => (c :: l) :: ls

theorem lines_newline (t : Text) : lines ('\n' :: t) = [] :: lines t := by simp [lines]

/-- A first line up to its newline. -/
theorem lines_cons {l : Text} (h : '\n' ∉ l) (t : Text) :
    lines (l ++ '\n' :: t) = l :: lines t := by
  induction l with
  | nil => exact lines_newline t
  | cons c l ih =>
    simp only [List.mem_cons, not_or] at h
    simp [lines, ih h.2, Ne.symm h.1]

/-- A last line without newline. -/
theorem lines_last {l : Text} (h : '\n' ∉ l) (hne : l ≠ []) : lines l = [l] := by
  induction l with
  | nil => exact absurd rfl hne
  | cons c l ih =>
    simp only [List.mem_cons, not_or] at h
    by_cases hl : l = []
    · subst hl; simp [lines, Ne.symm h.1]
    · simp [lines, ih h.2 hl, Ne.symm h.1]

theorem lines_append (s t : Text) : lines (s ++ '\n' :: t) = lines (s ++ ['\n']) ++ lines t := by
  induction s with
  | nil => simp [lines]
  | cons c s ih =>
    simp only [List.cons_append, lines]
    split
    · rw [ih]; rfl
    · have hne : lines (s ++ ['\n']) ≠ [] := by
        cases s with
        | nil => simp [lines]
        | cons d s =>
          simp only [List.cons_append, lines]
          split
          · simp
          · split <;> simp
      rw [ih]
      cases h : lines (s ++ ['\n']) with
      | nil => exact absurd h hne
      | cons l ls => rfl

/-! ## Integers -/

inductive StdException
  | invalid_argument
  | out_of_range
deriving DecidableEq, Repr

/-- Two's complement value of `z` in `bits` bits. -/
def wrap (bits : ℕ) (z : ℤ) : ℤ := z.bmod (2 ^ bits)

def InBits (bits : ℕ) (z : ℤ) : Prop := -(2 ^ (bits - 1)) ≤ z ∧ z < 2 ^ (bits - 1)

instance (bits : ℕ) (z : ℤ) : Decidable (InBits bits z) := by unfold InBits; infer_instance

theorem InBits.mono {b b' : ℕ} {z : ℤ} (h : InBits b z) (hb : b ≤ b') : InBits b' z := by
  have hp : (2 : ℤ) ^ (b - 1) ≤ 2 ^ (b' - 1) := pow_le_pow_right₀ (by norm_num) (by omega)
  exact ⟨by have := h.1; omega, by have := h.2; omega⟩

theorem wrap_eq {bits : ℕ} (hb : 0 < bits) {z : ℤ} (h : InBits bits z) : wrap bits z = z := by
  unfold InBits at h
  have hp : (2 : ℤ) ^ bits = 2 * 2 ^ (bits - 1) := by
    rw [← pow_succ']; congr 1; omega
  unfold wrap
  rw [Int.bmod_eq_iff (by positivity)]
  push_cast
  rw [hp]
  refine ⟨by omega, by omega, by simp⟩

def isSpace (c : Char) : Bool := c ∈ [' ', '\t', '\n', '\x0b', '\x0c', '\r']

/-- `std::stoi` / `std::stoll`. -/
def stoInt (bits : ℕ) (s : Text) : Except StdException ℤ :=
  match scanInteger (s.dropWhile isSpace) with
  | none => .error .invalid_argument
  | some (z, _) => if InBits bits z then .ok z else .error .out_of_range

def stoi : Text → Except StdException ℤ := stoInt 32
def stoll : Text → Except StdException ℤ := stoInt 64

/-- `isprint` in the C locale. -/
def isprint (z : ℤ) : Bool := 32 ≤ z ∧ z ≤ 126

/-! ## Signed rationals: finite floating-point values -/

/-- Sign and magnitude; zero has two signs. -/
structure SRat where
  neg : Bool
  mag : ℚ
  mag_nonneg : 0 ≤ mag

namespace SRat

theorem ext' {x y : SRat} (h1 : x.neg = y.neg) (h2 : x.mag = y.mag) : x = y := by
  cases x; cases y; simp_all

instance : DecidableEq SRat := fun x y =>
  decidable_of_iff (x.neg = y.neg ∧ x.mag = y.mag)
    ⟨fun h => ext' h.1 h.2, fun h => by rw [h]; exact ⟨rfl, rfl⟩⟩

def toRat (x : SRat) : ℚ := if x.neg then -x.mag else x.mag

/-- The value `q`, a zero taking the sign `negZero`. -/
def ofRat (negZero : Bool) (q : ℚ) : SRat :=
  ⟨if q = 0 then negZero else decide (q < 0), |q|, abs_nonneg q⟩

def ofInt (z : ℤ) : SRat := ofRat false z

/-- Truncation toward zero. -/
def trunc (x : SRat) : ℤ := if x.neg then -⌊x.mag⌋ else ⌊x.mag⌋

/-! Exact results, with the IEEE signs of zero: a sum is `-0` only when both terms are, products and
quotients multiply signs, a remainder has the sign of the dividend. -/

def add (x y : SRat) : SRat := ofRat (x.neg && y.neg) (x.toRat + y.toRat)
def sub (x y : SRat) : SRat := ofRat (x.neg && !y.neg) (x.toRat - y.toRat)
def mul (x y : SRat) : SRat := ⟨x.neg != y.neg, x.mag * y.mag, mul_nonneg x.mag_nonneg y.mag_nonneg⟩
def div (x y : SRat) : SRat := ⟨x.neg != y.neg, x.mag / y.mag, div_nonneg x.mag_nonneg y.mag_nonneg⟩
def rem (x y : SRat) : SRat :=
  ⟨x.neg, |x.mag - y.mag * ⌊x.mag / y.mag⌋|, abs_nonneg _⟩

theorem toRat_ofRat (b : Bool) (q : ℚ) : (ofRat b q).toRat = q := by
  unfold ofRat toRat
  by_cases h0 : q = 0
  · simp [h0]
  · by_cases hneg : q < 0
    · simp [h0, hneg, abs_of_neg]
    · simp [h0, hneg, abs_of_nonneg (not_lt.1 hneg)]

@[simp] theorem toRat_ofInt (z : ℤ) : (ofInt z).toRat = z := toRat_ofRat _ _

@[simp] theorem abs_toRat (x : SRat) : |x.toRat| = x.mag := by
  unfold toRat
  split
  · rw [abs_neg, abs_of_nonneg x.mag_nonneg]
  · rw [abs_of_nonneg x.mag_nonneg]

theorem toRat_add (x y : SRat) : (x.add y).toRat = x.toRat + y.toRat := toRat_ofRat _ _

theorem toRat_sub (x y : SRat) : (x.sub y).toRat = x.toRat - y.toRat := toRat_ofRat _ _

theorem toRat_mul (x y : SRat) : (x.mul y).toRat = x.toRat * y.toRat := by
  unfold mul toRat
  cases x.neg <;> cases y.neg <;> simp

theorem toRat_div (x y : SRat) : (x.div y).toRat = x.toRat / y.toRat := by
  unfold div toRat
  cases x.neg <;> cases y.neg <;> simp [neg_div, div_neg]

/-- A remainder of magnitudes is a magnitude, no larger than the dividend. -/
theorem rem_bounds {x y : ℚ} (hx : 0 ≤ x) (hy : 0 ≤ y) :
    0 ≤ x - y * ⌊x / y⌋ ∧ x - y * ⌊x / y⌋ ≤ x := by
  rcases hy.eq_or_lt with rfl | hy
  · simpa using hx
  · have hfloor : (0 : ℚ) ≤ ⌊x / y⌋ := by exact_mod_cast Int.floor_nonneg.2 (div_nonneg hx hy.le)
    have hle := mul_le_mul_of_nonneg_left (Int.floor_le (x / y)) hy.le
    rw [mul_div_cancel₀ x hy.ne'] at hle
    have hnn := mul_nonneg hy.le hfloor
    constructor <;> linarith

/-- The remainder of truncated division. -/
def remRat (x y : ℚ) : ℚ :=
  if x < 0 then -(|x| - |y| * ⌊|x| / |y|⌋) else |x| - |y| * ⌊|x| / |y|⌋

theorem toRat_rem (x y : SRat) : (x.rem y).toRat = remRat x.toRat y.toRat := by
  have hrem := (rem_bounds x.mag_nonneg y.mag_nonneg).1
  unfold remRat
  rw [abs_toRat, abs_toRat]
  obtain ⟨neg, m, hm⟩ := x
  simp only [rem, toRat, abs_of_nonneg hrem]
  cases neg with
  | false => simp [not_lt.2 hm]
  | true =>
    rcases hm.eq_or_lt with hz | hpos
    · simp [← hz]
    · simp [hpos]

theorem abs_remRat_le (x y : ℚ) : |remRat x y| ≤ |x| := by
  obtain ⟨hnn, hle⟩ := rem_bounds (abs_nonneg x) (abs_nonneg y)
  unfold remRat
  split
  · rwa [abs_neg, abs_of_nonneg hnn]
  · rwa [abs_of_nonneg hnn]

/-- The value printed with `k` decimals. -/
def fixed (k : ℕ) (x : SRat) : SRat :=
  ⟨x.neg, Grid.decimals k x.mag, Grid.decimals_nonneg k x.mag_nonneg⟩

theorem toRat_fixed (k : ℕ) (x : SRat) : (x.fixed k).toRat = Grid.decimals k x.toRat := by
  unfold fixed toRat
  cases x.neg
  · simp
  · simp [Grid.decimals_neg]

/-- Rounding the magnitude rounds the number. -/
theorem toRat_round (f : Grid.Format) (x : SRat) :
    toRat ⟨x.neg, f.round x.mag, f.round_nonneg x.mag_nonneg⟩ = f.nearest x.toRat := by
  unfold toRat
  cases x.neg
  · simp [f.nearest_of_nonneg x.mag_nonneg]
  · simp [f.nearest_neg, f.nearest_of_nonneg x.mag_nonneg]

end SRat

/-! ## Binary floating types -/

/-- A floating type: its grid, its largest finite value and its smallest normal value. -/
structure FloatType where
  fmt : Grid.Format
  max : ℚ
  minNormal : ℚ

def floatType : FloatType := ⟨⟨2, 24, some (-149), by decide, by decide⟩,
  (2 ^ 24 - 1) * 2 ^ 104, 2 ^ (-126 : ℤ)⟩
def doubleType : FloatType := ⟨⟨2, 53, some (-1074), by decide, by decide⟩,
  (2 ^ 53 - 1) * 2 ^ 971, 2 ^ (-1022 : ℤ)⟩
def longDoubleType : FloatType := ⟨⟨2, 64, some (-16445), by decide, by decide⟩,
  (2 ^ 64 - 1) * 2 ^ 16320, 2 ^ (-16382 : ℤ)⟩

/-- `static_cast` to the type of a value that fits. -/
def FloatType.cast (T : FloatType) (x : SRat) : SRat :=
  ⟨x.neg, T.fmt.round x.mag, T.fmt.round_nonneg x.mag_nonneg⟩

theorem FloatType.toRat_cast (T : FloatType) (x : SRat) :
    (T.cast x).toRat = T.fmt.nearest x.toRat := SRat.toRat_round _ x

/-! A conversion keeps the sign. -/

theorem FloatType.toRat_cast_nonneg (T : FloatType) {x : SRat} (h : 0 ≤ x.toRat) :
    0 ≤ (T.cast x).toRat := by
  rw [T.toRat_cast, T.fmt.nearest_of_nonneg h]
  exact T.fmt.round_nonneg h

theorem FloatType.toRat_cast_nonpos (T : FloatType) {x : SRat} (h : x.toRat ≤ 0) :
    (T.cast x).toRat ≤ 0 := by
  have hmono := T.fmt.nearest_mono h
  rwa [T.fmt.nearest_of_nonneg le_rfl, T.fmt.round_zero, ← T.toRat_cast] at hmono

/-- `fmod` of the C library, which is a function on `double`s: its arguments are converted, and a
divisor beyond `max()` has become infinite. -/
def fmod (x y : SRat) : SRat :=
  if doubleType.max < (doubleType.cast y).mag then doubleType.cast x
  else (doubleType.cast x).rem (doubleType.cast y)

/-- The same on rationals. -/
def fmodRat (x y : ℚ) : ℚ :=
  if doubleType.max < |doubleType.fmt.nearest y| then doubleType.fmt.nearest x
  else SRat.remRat (doubleType.fmt.nearest x) (doubleType.fmt.nearest y)

theorem toRat_fmod (x y : SRat) : (fmod x y).toRat = fmodRat x.toRat y.toRat := by
  have hmag : (doubleType.cast y).mag = |doubleType.fmt.nearest y.toRat| := by
    rw [← FloatType.toRat_cast, SRat.abs_toRat]
  unfold fmod fmodRat
  rw [hmag]
  split
  · exact doubleType.toRat_cast x
  · rw [SRat.toRat_rem, FloatType.toRat_cast, FloatType.toRat_cast]

theorem abs_fmodRat_le (x y : ℚ) : |fmodRat x y| ≤ |doubleType.fmt.nearest x| := by
  unfold fmodRat
  split
  · exact le_rfl
  · exact SRat.abs_remRat_le _ _

/-- Magnitudes the `strto*` functions convert without `ERANGE`. -/
def FloatType.InRange (T : FloatType) (q : ℚ) : Prop :=
  T.fmt.round q ≤ T.max ∧ (q = 0 ∨ T.minNormal ≤ q ∨ T.fmt.round q = q)

instance (T : FloatType) (q : ℚ) : Decidable (T.InRange q) := by
  unfold FloatType.InRange; infer_instance

theorem numeral_mag_nonneg (d : Numeral) : 0 ≤ d.mag := by
  unfold Numeral.mag; positivity

def numeralValue (d : Numeral) : SRat := ⟨d.neg, d.mag, numeral_mag_nonneg d⟩

/-- The common body of `std::stof`, `std::stod` and `std::stold`. -/
def strto (T : FloatType) (conv : SRat → SRat) (s : Text) : Except StdException SRat :=
  match scanNumeral (s.dropWhile isSpace) with
  | none => .error .invalid_argument
  | some (d, _) => if T.InRange d.mag then .ok (conv (numeralValue d)) else .error .out_of_range

def stof : Text → Except StdException SRat := strto floatType floatType.cast
def stod : Text → Except StdException SRat := strto doubleType doubleType.cast
def stold : Text → Except StdException SRat := strto longDoubleType longDoubleType.cast

/-- `std::to_string` of a 64-bit integer. -/
def toStringInt (z : ℤ) : Text := intText z

/-- `std::to_string` of a `long double`: `%Lf`. -/
def toStringReal (x : SRat) : Text := fixedText 6 x.neg x.mag

/-! ## Reading back what was printed -/

theorem isSpace_cases {c : Char} (h : isSpace c = true) :
    c = ' ' ∨ c = '\t' ∨ c = '\n' ∨ c = '\x0b' ∨ c = '\x0c' ∨ c = '\r' := by
  simp only [isSpace, decide_eq_true_eq, List.mem_cons, List.not_mem_nil, or_false] at h
  exact h

/-- Numerals start with no white space, so none is skipped before one. -/
theorem dropWhile_isSpace_of_scanNumeral {t : Text} {r : Numeral × Text}
    (h : scanNumeral t = some r) : t.dropWhile isSpace = t := by
  cases t with
  | nil => rfl
  | cons c t =>
    by_cases hc : isSpace c = true
    · rcases isSpace_cases hc with rfl | rfl | rfl | rfl | rfl | rfl <;>
        simp [scanNumeral, scanSign, scanFrac] at h
    · simp [hc]

theorem stoInt_intText (bits : ℕ) (z : ℤ) :
    stoInt bits (intText z) = if InBits bits z then .ok z else .error .out_of_range := by
  obtain ⟨d, hd, -, -⟩ := scanNumeral_intText z
  unfold stoInt
  rw [dropWhile_isSpace_of_scanNumeral hd, scanInteger_intText]

section
variable (T : FloatType) (conv : SRat → SRat)

theorem strto_of_scan {t : Text} {d : Numeral} (h : scanNumeral t = some (d, [])) :
    strto T conv t =
      if T.InRange d.mag then .ok (conv (numeralValue d)) else .error .out_of_range := by
  unfold strto
  rw [dropWhile_isSpace_of_scanNumeral h, h]

theorem strto_intText (z : ℤ) :
    strto T conv (intText z) =
      if T.InRange |(z : ℚ)| then .ok (conv (SRat.ofInt z)) else .error .out_of_range := by
  obtain ⟨d, hd, hn, hm⟩ := scanNumeral_intText z
  have hv : numeralValue d = SRat.ofInt z := by
    refine SRat.ext' ?_ hm
    simp only [numeralValue, hn, SRat.ofInt, SRat.ofRat, Int.cast_eq_zero, Int.cast_lt_zero]
    by_cases hz : z = 0
    · simp [hz]
    · simp [hz]
  rw [strto_of_scan T conv hd, hm, hv]

/-- The value printed with `P` significant digits. -/
def SRat.sig (P : ℕ) (hP : 0 < P) (x : SRat) : SRat :=
  ⟨x.neg, (sigFormat P hP).round x.mag, (sigFormat P hP).round_nonneg x.mag_nonneg⟩

theorem strto_generalText {P : ℕ} (hP : 0 < P) (x : SRat) :
    strto T conv (generalText P hP x.neg x.mag) =
      if T.InRange ((sigFormat P hP).round x.mag) then .ok (conv (x.sig P hP))
      else .error .out_of_range := by
  obtain ⟨d, hd, hn, hm⟩ := scanNumeral_generalText hP x.neg x.mag_nonneg
  have hv : numeralValue d = x.sig P hP := SRat.ext' hn hm
  rw [strto_of_scan T conv hd, hm, hv]

end

theorem FloatType.InRange.of_le {T : FloatType} {q c : ℚ} (h0 : 0 ≤ q) (hle : q ≤ c)
    (hc : T.fmt.round c ≤ T.max) (hmin : q = 0 ∨ T.minNormal ≤ q) : T.InRange q := by
  refine ⟨(T.fmt.round_mono h0 hle).trans hc, ?_⟩
  rcases hmin with h | h
  · exact Or.inl h
  · exact Or.inr (Or.inl h)

end Cpp
