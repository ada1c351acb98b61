import Mathlib.Data.Int.Log
import Mathlib.Data.Rat.Floor
import Mathlib.Algebra.Order.Field.Power
import Mathlib.Tactic.FieldSimp
import Mathlib.Tactic.Linarith
import Mathlib.Tactic.Positivity
import Mathlib.Tactic.Ring
/-!
# Floating-point grids over `ℚ`

A `Format` is a radix, a precision and an optional smallest quantum exponent. Around `x` its
values are the multiples of one quantum `radix ^ qexp x`; `Format.round` goes to the nearest of
them, ties to even. Binary storage formats have a smallest quantum (subnormals), the rendering at
`n` significant decimal digits is the radix-10 format without one.

Main results: `round_mono`, `round_le_of_le` / `le_round_of_le` (grid points are barriers),
`round_fixed`, `round_eq_of_near`: a decimal with `n` digits is found again from any number near it,
and hence `round_round_of_digits`: it survives the trip through a binary format of precision `p` as
soon as `10 ^ n < 2 ^ (p - 1)`.
-/

namespace Grid

/-! ## Rounding to an integer -/

/-- Nearest integer, ties to even. -/
def roundEven (x : ℚ) : ℤ :=
  if x - ⌊x⌋ < 1 / 2 then ⌊x⌋
  else if 1 / 2 < x - ⌊x⌋ then ⌊x⌋ + 1
  else if ⌊x⌋ % 2 = 0 then ⌊x⌋ else ⌊x⌋ + 1

theorem roundEven_cases (x : ℚ) :
    (roundEven x = ⌊x⌋ ∧ x - ⌊x⌋ ≤ 1 / 2) ∨ (roundEven x = ⌊x⌋ + 1 ∧ 1 / 2 ≤ x - ⌊x⌋) := by
  unfold roundEven
  split_ifs with h1 h2 h3
  · exact Or.inl ⟨rfl, h1.le⟩
  · exact Or.inr ⟨rfl, h2.le⟩
  · exact Or.inl ⟨rfl, not_lt.1 h2⟩
  · exact Or.inr ⟨rfl, not_lt.1 h1⟩

theorem abs_roundEven_sub_le (x : ℚ) : |(roundEven x : ℚ) - x| ≤ 1 / 2 := by
  have h1 := Int.floor_le x
  have h2 := Int.lt_floor_add_one x
  rcases roundEven_cases x with ⟨h, hx⟩ | ⟨h, hx⟩ <;> rw [h, abs_le]
  · constructor <;> linarith
  · push_cast; constructor <;> linarith

theorem roundEven_intCast (n : ℤ) : roundEven (n : ℚ) = n := by
  unfold roundEven; simp

/-- Strictly within half a unit there is only one integer. -/
theorem roundEven_eq_of_abs_lt {x : ℚ} {n : ℤ} (h : |x - n| < 1 / 2) : roundEven x = n := by
  have h1 := abs_le.1 (abs_roundEven_sub_le x)
  have h2 := abs_lt.1 h
  have hlt : ((roundEven x : ℤ) : ℚ) < (n + 1 : ℤ) := by push_cast; linarith
  have hgt : ((n - 1 : ℤ) : ℚ) < (roundEven x : ℤ) := by push_cast; linarith
  have hlt' := Int.cast_lt.1 hlt
  have hgt' := Int.cast_lt.1 hgt
  omega

theorem roundEven_mono {x y : ℚ} (h : x ≤ y) : roundEven x ≤ roundEven y := by
  rcases h.eq_or_lt with rfl | h
  · exact le_rfl
  by_contra hc
  have hc' : ((roundEven y + 1 : ℤ) : ℚ) ≤ (roundEven x : ℤ) := Int.cast_le.2 (by omega)
  push_cast at hc'
  have hx := abs_le.1 (abs_roundEven_sub_le x)
  have hy := abs_le.1 (abs_roundEven_sub_le y)
  -- the two distances add up to at most one, and `x < y` makes that strict
  linarith [hx.2, hy.1]

theorem roundEven_le {x : ℚ} {n : ℤ} (h : x ≤ n) : roundEven x ≤ n := by
  simpa [roundEven_intCast] using roundEven_mono h

theorem le_roundEven {x : ℚ} {n : ℤ} (h : (n : ℚ) ≤ x) : n ≤ roundEven x := by
  simpa [roundEven_intCast] using roundEven_mono h

theorem roundEven_neg (x : ℚ) : roundEven (-x) = -roundEven x := by
  have hle := Int.floor_le x
  have hlt := Int.lt_floor_add_one x
  by_cases htie : x - ⌊x⌋ = 1 / 2
  · -- both sides go to the even neighbour
    have hfloor : ⌊-x⌋ = -⌊x⌋ - 1 := by
      rw [Int.floor_eq_iff]
      push_cast
      constructor <;> linarith
    unfold roundEven
    rw [hfloor]
    push_cast
    have hx : -x - (-(⌊x⌋ : ℚ) - 1) = 1 / 2 := by linarith
    rw [hx, htie]
    simp only [lt_irrefl, if_false]
    split_ifs <;> omega
  · refine roundEven_eq_of_abs_lt ?_
    have hdist : |x - roundEven x| < 1 / 2 := by
      refine lt_of_le_of_ne (by rw [abs_sub_comm]; exact abs_roundEven_sub_le x) ?_
      intro habs
      rcases roundEven_cases x with ⟨h, hx⟩ | ⟨h, hx⟩
      · rw [h, abs_of_nonneg (by linarith)] at habs
        exact htie habs
      · rw [h, abs_of_nonpos (by push_cast; linarith)] at habs
        push_cast at habs
        exact htie (by linarith)
    push_cast
    rwa [show -x - -(roundEven x : ℚ) = -(x - roundEven x) by ring, abs_neg]

/-! ## A fixed number of decimals -/

/-- The number of `k` decimals nearest to `q`. -/
def decimals (k : ℕ) (q : ℚ) : ℚ := roundEven (q * 10 ^ k) / 10 ^ k

theorem decimals_neg (k : ℕ) (q : ℚ) : decimals k (-q) = -decimals k q := by
  unfold decimals
  rw [neg_mul, roundEven_neg]
  push_cast
  ring

theorem decimals_mono (k : ℕ) {p q : ℚ} (h : p ≤ q) : decimals k p ≤ decimals k q := by
  have h10 : (0 : ℚ) < 10 ^ k := by positivity
  have hround := roundEven_mono (mul_le_mul_of_nonneg_right h h10.le)
  exact div_le_div_of_nonneg_right (Int.cast_le.2 hround) h10.le

theorem decimals_intCast (k : ℕ) (n : ℤ) : decimals k n = n := by
  have h10 : (10 : ℚ) ^ k ≠ 0 := by positivity
  unfold decimals
  rw [show (n : ℚ) * 10 ^ k = ((n * 10 ^ k : ℤ) : ℚ) by push_cast; rfl, roundEven_intCast]
  push_cast
  field_simp

/-- A dyadic fraction of `k` binary places has `k` decimals. -/
theorem decimals_eq_self {k : ℕ} {q : ℚ} {n : ℤ} (h : q = n * 2 ^ (-(k : ℤ))) :
    decimals k q = q := by
  have h2 : (2 : ℚ) ^ k ≠ 0 := by positivity
  have h10 : (10 : ℚ) ^ k ≠ 0 := by positivity
  have hint : q * 10 ^ k = ((n * 5 ^ k : ℤ) : ℚ) := by
    rw [h, zpow_neg, zpow_natCast, show (10 : ℚ) = 2 * 5 by norm_num, mul_pow]
    push_cast
    field_simp
  unfold decimals
  rw [hint, roundEven_intCast, ← hint]
  field_simp

theorem decimals_nonneg (k : ℕ) {q : ℚ} (h : 0 ≤ q) : 0 ≤ decimals k q := by
  simpa using (decimals_intCast k 0).symm.le.trans (decimals_mono k (by simpa using h))

/-- What is not zero is at least one unit of the last decimal. -/
theorem decimals_eq_zero_or (k : ℕ) (q : ℚ) : decimals k q = 0 ∨ 1 / 10 ^ k ≤ |decimals k q| := by
  have h10 : (0 : ℚ) < 10 ^ k := by positivity
  unfold decimals
  by_cases h : roundEven (q * 10 ^ k) = 0
  · exact Or.inl (by rw [h]; simp)
  · refine Or.inr ?_
    rw [abs_div, abs_of_pos h10]
    refine div_le_div_of_nonneg_right ?_ h10.le
    exact_mod_cast Int.one_le_abs h

/-! ## Formats -/

/-- A floating-point format without an upper bound on the exponent. `qmin` is the exponent of the
smallest quantum, `none` when the exponent is unbounded below. -/
structure Format where
  radix : ℕ
  prec : ℕ
  qmin : Option ℤ
  one_lt_radix : 1 < radix
  prec_pos : 0 < prec

variable (f : Format)

namespace Format

theorem radix_pos : (0 : ℚ) < f.radix := by
  have := f.one_lt_radix
  exact_mod_cast (by omega : 0 < f.radix)

theorem one_lt_radix_cast : (1 : ℚ) < f.radix := by exact_mod_cast f.one_lt_radix

/-- Exponent of the quantum in force at magnitude `x`. -/
def qexp (x : ℚ) : ℤ :=
  match f.qmin with
  | none => Int.log f.radix x - (f.prec - 1)
  | some e => max (Int.log f.radix x - (f.prec - 1)) e

def quantum (x : ℚ) : ℚ := (f.radix : ℚ) ^ f.qexp x

/-- The grid value nearest to the magnitude `x`, ties to the even significand. -/
def round (x : ℚ) : ℚ := roundEven (x / f.quantum x) * f.quantum x

theorem quantum_pos (x : ℚ) : 0 < f.quantum x := zpow_pos f.radix_pos _

theorem log_le_qexp (x : ℚ) : Int.log f.radix x - (f.prec - 1) ≤ f.qexp x := by
  unfold qexp; split
  · exact le_rfl
  · exact le_max_left _ _

theorem qexp_of_none (hm : f.qmin = none) (x : ℚ) :
    f.qexp x = Int.log f.radix x - (f.prec - 1) := by
  unfold qexp; rw [hm]

theorem qexp_eq_or (x : ℚ) :
    f.qexp x = Int.log f.radix x - (f.prec - 1) ∨ f.qmin = some (f.qexp x) := by
  unfold qexp
  cases h : f.qmin with
  | none => exact Or.inl rfl
  | some e => rcases max_choice (Int.log f.radix x - ((f.prec : ℤ) - 1)) e with h | h <;> simp [h]

theorem qmin_le_qexp {e : ℤ} (h : f.qmin = some e) (x : ℚ) : e ≤ f.qexp x := by
  unfold qexp; rw [h]; exact le_max_right _ _

theorem qexp_mono {x y : ℚ} (hx : 0 < x) (h : x ≤ y) : f.qexp x ≤ f.qexp y := by
  have := Int.log_mono_right (b := f.radix) hx h
  unfold qexp
  cases f.qmin <;> simp only <;> omega

/-- `c` is a multiple of `radix ^ k`. -/
def Multiple (k : ℤ) (c : ℚ) : Prop := ∃ n : ℤ, c = n * (f.radix : ℚ) ^ k

theorem multiple_zpow {k j : ℤ} (h : k ≤ j) : f.Multiple k ((f.radix : ℚ) ^ j) := by
  obtain ⟨n, hn⟩ := Int.le.dest h
  refine ⟨(f.radix : ℤ) ^ n, ?_⟩
  rw [← hn, add_comm, zpow_add₀ f.radix_pos.ne', zpow_natCast]
  push_cast; rfl

theorem multiple_mul {k : ℤ} {c : ℚ} (h : f.Multiple k c) (n : ℤ) : f.Multiple k (n * c) := by
  obtain ⟨m, rfl⟩ := h
  exact ⟨n * m, by push_cast; ring⟩

theorem multiple_mono {k j : ℤ} {c : ℚ} (hkj : k ≤ j) (h : f.Multiple j c) : f.Multiple k c := by
  obtain ⟨n, rfl⟩ := h
  exact f.multiple_mul (f.multiple_zpow hkj) n

theorem round_multiple (x : ℚ) : f.Multiple (f.qexp x) (f.round x) := ⟨_, rfl⟩

theorem abs_round_sub_le (x : ℚ) : |f.round x - x| ≤ f.quantum x / 2 := by
  have hq := f.quantum_pos x
  have h := abs_roundEven_sub_le (x / f.quantum x)
  have hx : f.round x - x = (roundEven (x / f.quantum x) - x / f.quantum x) * f.quantum x := by
    unfold round; field_simp
  rw [hx, abs_mul, abs_of_pos hq]
  nlinarith [h, hq]

/-- Grid points are barriers for rounding, from above… -/
theorem round_le_of_le {x c : ℚ} (hc : f.Multiple (f.qexp x) c) (h : x ≤ c) : f.round x ≤ c := by
  obtain ⟨n, rfl⟩ := hc
  have hq := f.quantum_pos x
  have : x / f.quantum x ≤ n := (div_le_iff₀ hq).2 h
  exact mul_le_mul_of_nonneg_right (Int.cast_le.2 (roundEven_le this)) hq.le

/-- …and from below. -/
theorem le_round_of_le {x c : ℚ} (hc : f.Multiple (f.qexp x) c) (h : c ≤ x) : c ≤ f.round x := by
  obtain ⟨n, rfl⟩ := hc
  have hq := f.quantum_pos x
  have : (n : ℚ) ≤ x / f.quantum x := (le_div_iff₀ hq).2 h
  exact mul_le_mul_of_nonneg_right (Int.cast_le.2 (le_roundEven this)) hq.le

/-- A grid value is its own rounding. -/
theorem round_fixed {x : ℚ} (h : f.Multiple (f.qexp x) x) : f.round x = x :=
  le_antisymm (f.round_le_of_le h le_rfl) (f.le_round_of_le h le_rfl)

/-- The only multiple of the quantum within half a quantum. -/
theorem round_eq_of_abs_lt {x c : ℚ} (hc : f.Multiple (f.qexp x) c)
    (h : |x - c| < f.quantum x / 2) : f.round x = c := by
  obtain ⟨n, rfl⟩ := hc
  have hq := f.quantum_pos x
  have hn : |x / f.quantum x - n| < 1 / 2 := by
    have e : x / f.quantum x - n = (x - n * f.quantum x) / f.quantum x := by field_simp
    rw [e, abs_div, abs_of_pos hq, div_lt_iff₀ hq]
    have : |x - n * f.quantum x| < f.quantum x / 2 := h
    linarith
  unfold round
  rw [roundEven_eq_of_abs_lt hn]; rfl

theorem round_nonneg {x : ℚ} (h : 0 ≤ x) : 0 ≤ f.round x :=
  f.le_round_of_le ⟨0, by simp⟩ h

@[simp] theorem round_zero : f.round 0 = 0 := f.round_fixed ⟨0, by simp⟩

/-! ### Powers of the radix around `x` -/

theorem zpow_log_le {x : ℚ} (hx : 0 < x) : (f.radix : ℚ) ^ Int.log f.radix x ≤ x :=
  Int.zpow_log_le_self f.one_lt_radix hx

theorem lt_zpow_log_succ (x : ℚ) : x < (f.radix : ℚ) ^ (Int.log f.radix x + 1) :=
  Int.lt_zpow_succ_log_self f.one_lt_radix x

theorem round_mono {x y : ℚ} (hx : 0 ≤ x) (h : x ≤ y) :
    f.round x ≤ f.round y := by
  rcases hx.eq_or_lt with rfl | hx
  · rw [round_zero]; exact f.round_nonneg h
  rcases (f.qexp_mono hx h).eq_or_lt with he | hlt
  · -- one quantum: monotone because `roundEven` is
    have hq : f.quantum x = f.quantum y := by unfold quantum; rw [he]
    unfold round
    rw [hq]
    have hqp := f.quantum_pos y
    exact mul_le_mul_of_nonneg_right
      (Int.cast_le.2 (roundEven_mono (div_le_div_of_nonneg_right h hqp.le))) hqp.le
  · -- the quantum grows, so `radix ^ log y` is a grid point between the two
    have hy : f.qexp y = Int.log f.radix y - (f.prec - 1) := by
      rcases f.qexp_eq_or y with h' | h'
      · exact h'
      · exact absurd (f.qmin_le_qexp h' x) (by omega)
    have hlog : Int.log f.radix x < Int.log f.radix y := by
      have := f.log_le_qexp x
      omega
    have hp := f.prec_pos
    have hxc : x ≤ (f.radix : ℚ) ^ Int.log f.radix y :=
      (f.lt_zpow_log_succ x).le.trans (zpow_le_zpow_right₀ f.one_lt_radix_cast.le (by omega))
    refine (f.round_le_of_le (f.multiple_zpow (by omega)) hxc).trans ?_
    exact f.le_round_of_le (f.multiple_zpow (by omega)) (f.zpow_log_le (hx.trans_le h))

/-- Without a smallest quantum nothing positive rounds to zero. -/
theorem zpow_log_le_round (hm : f.qmin = none) {x : ℚ} (hx : 0 < x) :
    (f.radix : ℚ) ^ Int.log f.radix x ≤ f.round x := by
  refine f.le_round_of_le (f.multiple_zpow ?_) (f.zpow_log_le hx)
  have := f.prec_pos
  rw [f.qexp_of_none hm]; omega

theorem round_le_zpow_log_succ (hm : f.qmin = none) (x : ℚ) :
    f.round x ≤ (f.radix : ℚ) ^ (Int.log f.radix x + 1) := by
  refine f.round_le_of_le (f.multiple_zpow ?_) (f.lt_zpow_log_succ x).le
  have := f.prec_pos
  rw [f.qexp_of_none hm]; omega

theorem round_pos (hm : f.qmin = none) {x : ℚ} (hx : 0 < x) : 0 < f.round x :=
  (zpow_pos f.radix_pos _).trans_le (f.zpow_log_le_round hm hx)

/-- Significant-digit rounding moves a magnitude by less than a factor `radix`. -/
theorem round_lt_radix_mul (hm : f.qmin = none) {x : ℚ} (hx : 0 < x) :
    f.round x ≤ f.radix * x := by
  have h := f.round_le_zpow_log_succ hm x
  rw [zpow_add_one₀ f.radix_pos.ne', mul_comm] at h
  exact h.trans (mul_le_mul_of_nonneg_left (f.zpow_log_le hx) f.radix_pos.le)

theorem lt_radix_mul_round (hm : f.qmin = none) {x : ℚ} (hx : 0 < x) :
    x < f.radix * f.round x := by
  have h := f.lt_zpow_log_succ x
  rw [zpow_add_one₀ f.radix_pos.ne', mul_comm] at h
  exact h.trans_le (mul_le_mul_of_nonneg_left (f.zpow_log_le_round hm hx) f.radix_pos.le)

/-- Rounding lands on the grid: it is a fixed point of rounding. -/
theorem round_round {x : ℚ} (hx : 0 ≤ x) : f.round (f.round x) = f.round x := by
  rcases hx.eq_or_lt with rfl | hx
  · simp
  rcases (f.round_nonneg hx.le).eq_or_lt with h0 | h0
  · rw [← h0]; simp
  apply f.round_fixed
  by_cases hle : f.qexp (f.round x) ≤ f.qexp x
  · exact f.multiple_mono hle (f.round_multiple x)
  · -- the rounding carried into the next binade, so it is a power of the radix
    have hlt : f.qexp x < f.qexp (f.round x) := not_le.1 hle
    have hy : f.qexp (f.round x) = Int.log f.radix (f.round x) - (f.prec - 1) := by
      rcases f.qexp_eq_or (f.round x) with h' | h'
      · exact h'
      · exact absurd (f.qmin_le_qexp h' x) (by omega)
    have hl := f.log_le_qexp x
    have hp := f.prec_pos
    have hle' : f.round x ≤ (f.radix : ℚ) ^ Int.log f.radix (f.round x) :=
      f.round_le_of_le (f.multiple_zpow (by omega))
        ((f.lt_zpow_log_succ x).le.trans (zpow_le_zpow_right₀ f.one_lt_radix_cast.le (by omega)))
    have heq := le_antisymm hle' (f.zpow_log_le h0)
    rw [heq]
    exact f.multiple_zpow (by rw [← heq]; omega)

/-! ### Numbers of either sign -/

/-- The grid value nearest to a number of either sign. -/
def nearest (q : ℚ) : ℚ := if q < 0 then -f.round (-q) else f.round q

theorem nearest_of_nonneg {q : ℚ} (h : 0 ≤ q) : f.nearest q = f.round q := if_neg (not_lt.2 h)

theorem nearest_neg (q : ℚ) : f.nearest (-q) = -f.nearest q := by
  rcases lt_trichotomy q 0 with h | rfl | h
  · rw [f.nearest_of_nonneg (by linarith)]
    unfold nearest
    rw [if_pos h, neg_neg]
  · simp [nearest]
  · rw [f.nearest_of_nonneg h.le]
    unfold nearest
    rw [if_pos (by linarith), neg_neg]

theorem abs_nearest (q : ℚ) : |f.nearest q| = f.round |q| := by
  unfold nearest
  split_ifs with h
  · rw [abs_neg, abs_of_nonneg (f.round_nonneg (by linarith)), abs_of_neg h]
  · rw [abs_of_nonneg (f.round_nonneg (not_lt.1 h)), abs_of_nonneg (not_lt.1 h)]

theorem abs_nearest_sub (q : ℚ) : |f.nearest q - q| = |f.round |q| - (|q|)| := by
  unfold nearest
  split_ifs with h
  · rw [abs_of_neg h, abs_sub_comm]
    congr 1
    ring
  · rw [abs_of_nonneg (not_lt.1 h)]

theorem nearest_mono {p q : ℚ} (h : p ≤ q) : f.nearest p ≤ f.nearest q := by
  unfold nearest
  split_ifs with hp hq hq
  · have hround := f.round_mono (x := -q) (y := -p) (by linarith) (by linarith)
    linarith
  · have hp' := f.round_nonneg (x := -p) (by linarith)
    have hq' := f.round_nonneg (not_lt.1 hq)
    linarith
  · exact absurd (lt_of_le_of_lt h hq) hp
  · exact f.round_mono (not_lt.1 hp) h

theorem nearest_eq_self {q : ℚ} (h : f.round |q| = |q|) : f.nearest q = q := by
  unfold nearest
  split_ifs with hneg
  · rw [abs_of_neg hneg] at h
    rw [h, neg_neg]
  · rwa [abs_of_nonneg (not_lt.1 hneg)] at h

/-! ### From one format to another -/

/-- A format with more digits and a smaller quantum. -/
theorem qexp_lt_qexp {f g : Format} (hradix : f.radix = g.radix) (hprec : f.prec < g.prec)
    {e e' : ℤ} (hf : f.qmin = some e) (hg : g.qmin = some e') (hmin : e' < e) (x : ℚ) :
    g.qexp x < f.qexp x := by
  unfold qexp
  rw [hf, hg, hradix]
  simp only
  omega

/-- A value of `f` is a value of a format of the same radix whose quantum is no larger. -/
theorem round_eq_self_of_qexp_le {f g : Format} (hradix : f.radix = g.radix) {x : ℚ}
    (hq : g.qexp x ≤ f.qexp x) (h : f.round x = x) : g.round x = x := by
  refine g.round_fixed (g.multiple_mono hq ?_)
  obtain ⟨n, hn⟩ := f.round_multiple x
  rw [h] at hn
  exact ⟨n, by rw [← hradix]; exact hn⟩

/-- Where the fine rounding of `q` lands on a value of the coarse format, so does the coarse one. -/
theorem round_eq_of_finer {f g : Format} (hradix : f.radix = g.radix) {q v : ℚ} (hq : 0 < q)
    (hlt : g.qexp q < f.qexp q) (hv : f.round v = v) (h : g.round q = v) : f.round q = v := by
  have hdist : |q - v| < f.quantum q / 2 := by
    have hstep : g.quantum q < f.quantum q := by
      unfold quantum
      rw [hradix]
      exact zpow_lt_zpow_right₀ g.one_lt_radix_cast hlt
    have herr := g.abs_round_sub_le q
    rw [h, abs_sub_comm] at herr
    linarith
  refine f.round_eq_of_abs_lt ?_ hdist
  rcases (h ▸ g.round_nonneg hq.le : 0 ≤ v).eq_or_lt with h0 | h0
  · exact ⟨0, by rw [← h0]; simp⟩
  · -- the quantum at `q` is no larger than the one at `v`
    refine f.multiple_mono ?_ (by have := f.round_multiple v; rwa [hv] at this)
    by_contra hc
    have hlt' : f.qexp v < f.qexp q := not_le.1 hc
    have hq' : f.qexp q = Int.log f.radix q - (f.prec - 1) := by
      rcases f.qexp_eq_or q with h' | h'
      · exact h'
      · exact absurd (f.qmin_le_qexp h' v) (by omega)
    have hbarrier : (g.radix : ℚ) ^ Int.log g.radix q ≤ v := by
      rw [← h]
      refine g.le_round_of_le (g.multiple_zpow ?_) (g.zpow_log_le hq)
      rw [← hradix]
      have := f.prec_pos
      omega
    have hlog := (Int.zpow_le_iff_le_log g.one_lt_radix h0).1 hbarrier
    have hle := f.log_le_qexp v
    rw [hradix] at hle hq'
    omega

theorem nearest_eq_of_finer {f g : Format} (hradix : f.radix = g.radix) {q v : ℚ}
    (hlt : g.qexp |q| < f.qexp |q|) (hv : f.nearest v = v) (h : g.nearest q = v) :
    f.nearest q = v := by
  have key : ∀ q v : ℚ, 0 < q → g.qexp q < f.qexp q → f.nearest v = v → g.nearest q = v →
      f.nearest q = v := by
    intro q v hq hlt hv h
    have hv0 : 0 ≤ v := by rw [← h, g.nearest_of_nonneg hq.le]; exact g.round_nonneg hq.le
    rw [g.nearest_of_nonneg hq.le] at h
    rw [f.nearest_of_nonneg hv0] at hv
    rw [f.nearest_of_nonneg hq.le]
    exact round_eq_of_finer hradix hq hlt hv h
  rcases lt_trichotomy q 0 with hq | rfl | hq
  · have hneg := key (-q) (-v) (by linarith) (by rwa [abs_of_neg hq] at hlt)
      (by rw [f.nearest_neg, hv]) (by rw [g.nearest_neg, h])
    rw [f.nearest_neg] at hneg
    exact neg_injective hneg
  · rw [← h, g.nearest_of_nonneg le_rfl, f.nearest_of_nonneg le_rfl, g.round_zero, f.round_zero]
  · exact key q v hq (by rwa [abs_of_pos hq] at hlt) hv h

/-- Without a smallest quantum, a value of at least `prec` digits before the point is an integer. -/
theorem exists_natCast_of_le (hm : f.qmin = none) {x : ℚ} (hfix : f.round x = x)
    (h : (f.radix : ℚ) ^ (f.prec - 1) ≤ x) : ∃ n : ℕ, x = n := by
  have hx : 0 < x := (pow_pos f.radix_pos _).trans_le h
  have hp := f.prec_pos
  have hlog : ((f.prec - 1 : ℕ) : ℤ) ≤ Int.log f.radix x :=
    (Int.zpow_le_iff_le_log f.one_lt_radix hx).1 (by rwa [zpow_natCast])
  have hmul := f.round_multiple x
  rw [hfix] at hmul
  obtain ⟨m, hm⟩ := f.multiple_mono (k := 0) (by rw [f.qexp_of_none hm]; omega) hmul
  rw [zpow_zero, mul_one] at hm
  have hm0 : 0 ≤ m := by
    have : (0 : ℚ) ≤ m := by rw [← hm]; exact hx.le
    exact_mod_cast this
  exact ⟨m.toNat, by rw [hm, ← Int.cast_natCast, Int.toNat_of_nonneg hm0]⟩

/-- An integer below the precision is a value. -/
theorem round_natCast {n : ℕ} (hmin : ∀ e, f.qmin = some e → e ≤ 0) (h : n < f.radix ^ f.prec) :
    f.round n = n := by
  rcases Nat.eq_zero_or_pos n with rfl | hpos
  · simp
  have hlog : Int.log f.radix (n : ℚ) < f.prec := by
    refine (Int.lt_zpow_iff_log_lt f.one_lt_radix (by exact_mod_cast hpos)).1 ?_
    rw [zpow_natCast]
    exact_mod_cast h
  have hq : f.qexp n ≤ 0 := by
    unfold qexp
    cases hm : f.qmin with
    | none => simp only; omega
    | some e => exact max_le (by omega) (hmin e hm)
  exact f.round_fixed (f.multiple_mono hq ⟨n, by simp⟩)

/-! ### Decimal digits surviving a binary format -/

/-- A positive value of the format is at least the smallest quantum. -/
theorem zpow_qmin_le {x : ℚ} {e : ℤ} (he : f.qmin = some e) (hx : 0 < x) (hfix : f.round x = x) :
    (f.radix : ℚ) ^ e ≤ x := by
  obtain ⟨n, hn⟩ := f.round_multiple x
  rw [hfix] at hn
  have hq : (0 : ℚ) < (f.radix : ℚ) ^ f.qexp x := f.quantum_pos x
  have hn0 : (0 : ℚ) < n := by
    by_contra hc
    have := mul_nonpos_of_nonpos_of_nonneg (not_lt.1 hc) hq.le
    linarith
  have hn1 : (1 : ℚ) ≤ n := by exact_mod_cast hn0
  calc (f.radix : ℚ) ^ e ≤ (f.radix : ℚ) ^ f.qexp x :=
        zpow_le_zpow_right₀ f.one_lt_radix_cast.le (f.qmin_le_qexp he x)
    _ ≤ n * (f.radix : ℚ) ^ f.qexp x := le_mul_of_one_le_left hq.le hn1
    _ = x := hn.symm

/-- In the normal range the rounding error is relative. -/
theorem abs_round_sub_le_mul {x : ℚ} (hx : 0 < x)
    (hn : f.qexp x = Int.log f.radix x - (f.prec - 1)) :
    |f.round x - x| ≤ x * (f.radix : ℚ) ^ (1 - (f.prec : ℤ)) / 2 := by
  refine (f.abs_round_sub_le x).trans ?_
  have hq : f.quantum x = (f.radix : ℚ) ^ Int.log f.radix x * (f.radix : ℚ) ^ (1 - (f.prec : ℤ)) := by
    rw [← zpow_add₀ f.radix_pos.ne', quantum, hn]; congr 1; ring
  rw [hq]
  have h := mul_le_mul_of_nonneg_right (f.zpow_log_le hx)
    (zpow_pos f.radix_pos (1 - (f.prec : ℤ))).le
  linarith

/-- Above the smallest normal magnitude the smallest quantum plays no part. -/
theorem qexp_of_normal {x : ℚ} {e : ℤ} (he : f.qmin = some e)
    (hx : (f.radix : ℚ) ^ (e + (f.prec - 1)) ≤ x) :
    f.qexp x = Int.log f.radix x - (f.prec - 1) := by
  have hpos : 0 < x := (zpow_pos f.radix_pos _).trans_le hx
  have hlog : e + (f.prec - 1) ≤ Int.log f.radix x :=
    (Int.zpow_le_iff_le_log f.one_lt_radix hpos).1 (by exact_mod_cast hx)
  unfold qexp
  rw [he]
  simp only
  omega

/-- A number of at most `prec` digits is a multiple of its own quantum. -/
theorem multiple_of_lt_pow (hm : f.qmin = none) {m : ℕ} (h0 : 0 < m) (h : m < f.radix ^ f.prec)
    (e : ℤ) : f.Multiple (f.qexp (m * (f.radix : ℚ) ^ e)) (m * (f.radix : ℚ) ^ e) := by
  have hq : f.qexp (m * (f.radix : ℚ) ^ e) ≤ e := by
    have hpos : (0 : ℚ) < m * (f.radix : ℚ) ^ e :=
      mul_pos (by exact_mod_cast h0) (zpow_pos f.radix_pos e)
    have hlt : (m : ℚ) * (f.radix : ℚ) ^ e < (f.radix : ℚ) ^ ((f.prec : ℤ) + e) := by
      rw [zpow_add₀ f.radix_pos.ne', zpow_natCast]
      exact mul_lt_mul_of_pos_right (by exact_mod_cast h) (zpow_pos f.radix_pos e)
    have hlog : Int.log f.radix ((m : ℚ) * (f.radix : ℚ) ^ e) < f.prec + e :=
      (Int.lt_zpow_iff_log_lt f.one_lt_radix hpos).1 (by exact_mod_cast hlt)
    rw [f.qexp_of_none hm]
    omega
  have hmul := f.multiple_mul (f.multiple_zpow hq) (m : ℤ)
  exact_mod_cast hmul

/-- The binade (or decade) of a magnitude. -/
theorem log_eq {v : ℚ} {k : ℤ} (h1 : (f.radix : ℚ) ^ k ≤ v) (h2 : v < (f.radix : ℚ) ^ (k + 1)) :
    Int.log f.radix v = k := by
  have hv : 0 < v := (zpow_pos f.radix_pos k).trans_le h1
  have hge := (Int.zpow_le_iff_le_log f.one_lt_radix hv).1 h1
  have hlt := (Int.lt_zpow_iff_log_lt f.one_lt_radix hv).1 h2
  omega

/-- Two multiples of one power are at least that power apart. -/
theorem Multiple.add_le {f : Format} {k : ℤ} {c d : ℚ} (hc : f.Multiple k c) (hd : f.Multiple k d)
    (h : c < d) : c + (f.radix : ℚ) ^ k ≤ d := by
  obtain ⟨m, rfl⟩ := hc
  obtain ⟨n, rfl⟩ := hd
  have hs := zpow_pos f.radix_pos k
  have hmn : m + 1 ≤ n := by exact_mod_cast lt_of_mul_lt_mul_right h hs.le
  have hmn' : (m : ℚ) + 1 ≤ n := by exact_mod_cast hmn
  linarith [mul_le_mul_of_nonneg_right hmn' hs.le]

/-- Two roundings in a row move a number by the errors of both. -/
theorem abs_sub_le_of_errors {x w v α β : ℚ} (hβ : 0 ≤ β) (hw : |w - x| ≤ x * α)
    (hv : |v - w| ≤ w * β) : |v - x| ≤ x * (α + β + α * β) := by
  have hle : w ≤ x * (1 + α) := by linarith [(abs_le.1 hw).2]
  calc |v - x| ≤ |v - w| + |w - x| := abs_sub_le v w x
    _ ≤ x * (1 + α) * β + x * α := add_le_add (hv.trans (mul_le_mul_of_nonneg_right hle hβ)) hw
    _ = x * (α + β + α * β) := by ring

/-- Without a smallest quantum, a value is found again from whatever is near it: within a relative
distance `δ` too small for the density of the significands. -/
theorem round_eq_of_near (hm : f.qmin = none) {x v δ : ℚ} (hx : 0 < x)
    (hd : f.Multiple (f.qexp x) x) (hδ : 2 * (f.radix : ℚ) ^ f.prec * δ < 1)
    (hv : |v - x| ≤ x * δ) : f.round v = x := by
  have hB := f.radix_pos
  have hprec := f.prec_pos
  set K := Int.log f.radix x with hK
  have hs := zpow_pos hB (K + 1 - f.prec)
  have hxK1 : x < (f.radix : ℚ) ^ (K + 1) := f.lt_zpow_log_succ x
  have hxK : (f.radix : ℚ) ^ K ≤ x := f.zpow_log_le hx
  have hqx : f.qexp x = K + 1 - f.prec := by rw [f.qexp_of_none hm]; ring
  rw [hqx] at hd
  -- the distance is less than half a unit of the last digit
  have hnear : ∀ j : ℤ, x ≤ (f.radix : ℚ) ^ j → |v - x| < (f.radix : ℚ) ^ (j - f.prec) / 2 := by
    intro j hj
    have hpow : 0 < (f.radix : ℚ) ^ f.prec := pow_pos hB _
    have hunit : (f.radix : ℚ) ^ (j - f.prec) * (f.radix : ℚ) ^ f.prec = (f.radix : ℚ) ^ j := by
      rw [← zpow_natCast, ← zpow_add₀ hB.ne', sub_add_cancel]
    have hscaled : x * (2 * (f.radix : ℚ) ^ f.prec * δ) < x * 1 := mul_lt_mul_of_pos_left hδ hx
    rw [← hunit] at hj
    have hlt : x * δ * 2 * (f.radix : ℚ) ^ f.prec <
        (f.radix : ℚ) ^ (j - f.prec) * (f.radix : ℚ) ^ f.prec := by linarith
    have hlt' := lt_of_mul_lt_mul_right hlt hpow.le
    linarith
  have herr := hnear (K + 1) hxK1.le
  have herr1 := abs_lt.1 herr
  have hvlt : v < (f.radix : ℚ) ^ (K + 1) := by
    have hgap := hd.add_le (f.multiple_zpow (j := K + 1) (by omega)) hxK1
    linarith
  by_cases hvK : (f.radix : ℚ) ^ K ≤ v
  · -- same decade: the last digits agree
    have hqv : f.qexp v = K + 1 - f.prec := by
      rw [f.qexp_of_none hm, f.log_eq hvK hvlt]; ring
    refine f.round_eq_of_abs_lt (by rw [hqv]; exact hd) ?_
    rw [quantum, hqv]
    exact herr
  · -- `v` fell into the decade below, which only happens from `x = radix ^ K`
    have hvK := not_le.1 hvK
    have hxeq : x = (f.radix : ℚ) ^ K := by
      by_contra hne
      have hgap := (f.multiple_zpow (j := K) (by omega)).add_le hd (lt_of_le_of_ne hxK (Ne.symm hne))
      linarith
    have herr2 := hnear K hxeq.le
    have hvlow : (f.radix : ℚ) ^ (K - 1) ≤ v := by
      have hB2 : (2 : ℚ) ≤ f.radix := by exact_mod_cast f.one_lt_radix
      have h1 := (abs_lt.1 herr2).1
      have h2 : (f.radix : ℚ) ^ (K - f.prec) ≤ (f.radix : ℚ) ^ (K - 1) :=
        zpow_le_zpow_right₀ f.one_lt_radix_cast.le (by omega)
      have h3 : (f.radix : ℚ) ^ K = f.radix * (f.radix : ℚ) ^ (K - 1) := by
        rw [← zpow_one_add₀ hB.ne']; congr 1; ring
      have h4 := zpow_pos hB (K - 1)
      nlinarith
    have hqv : f.qexp v = K - f.prec := by
      rw [f.qexp_of_none hm, f.log_eq hvlow (by rwa [sub_add_cancel])]; ring
    refine f.round_eq_of_abs_lt ?_ ?_
    · rw [hqv, hxeq]; exact f.multiple_zpow (by omega)
    · rw [quantum, hqv]; exact herr2

/-- A value of the unbounded format `g` survives rounding to `f` and back as soon as `g`'s
significands are sparser than `f`'s, `x` being in `f`'s normal range. -/
theorem round_round_of_digits (g : Format) (hg : g.qmin = none)
    (hfg : g.radix ^ g.prec < f.radix ^ (f.prec - 1)) {x : ℚ} (hx : 0 < x)
    (hn : f.qexp x = Int.log f.radix x - (f.prec - 1)) (hd : g.Multiple (g.qexp x) x) :
    g.round (f.round x) = x := by
  have hfp := f.prec_pos
  have hε : (f.radix : ℚ) ^ (1 - (f.prec : ℤ)) = ((f.radix : ℚ) ^ (f.prec - 1 : ℕ))⁻¹ := by
    rw [← zpow_natCast, ← zpow_neg]; congr 1; omega
  refine g.round_eq_of_near (δ := (f.radix : ℚ) ^ (1 - (f.prec : ℤ)) / 2) hg hx hd ?_ ?_
  · have hpos : (0 : ℚ) < (f.radix : ℚ) ^ (f.prec - 1 : ℕ) := pow_pos f.radix_pos _
    have hlt : (g.radix : ℚ) ^ g.prec < (f.radix : ℚ) ^ (f.prec - 1 : ℕ) := by exact_mod_cast hfg
    rw [hε]
    calc 2 * (g.radix : ℚ) ^ g.prec * (((f.radix : ℚ) ^ (f.prec - 1 : ℕ))⁻¹ / 2)
        = (g.radix : ℚ) ^ g.prec / (f.radix : ℚ) ^ (f.prec - 1 : ℕ) := by ring
      _ < 1 := (div_lt_one hpos).2 hlt
  · rw [← mul_div_assoc]
    exact f.abs_round_sub_le_mul hx hn

end Format
end Grid
