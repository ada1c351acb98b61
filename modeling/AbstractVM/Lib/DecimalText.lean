import AbstractVM.Lib.Grid
import Mathlib.Data.List.DropRight
/-!
# Decimal numerals as text

Scanning takes the longest prefix that is a numeral, the way the C conversion functions do;
printing gives the three renderings of the C library: integers (`%d`), a fixed number of decimals
(`%.kf`) and `P` significant digits (`%.Pg`).

Main results: `scanInteger_intText`, `fixedText_eq` with `mag_fixedNumeral`, and
`generalText_parts` with `scanNumeral_generalText`: each rendering is a numeral to its end, and
denotes the number it renders, rounded to the decimals or digits that were printed.
-/

namespace DecimalText

abbrev Text := List Char

/-- `int[.frac][e exp]` with its sign; `int` and `frac` hold digits only when scanned. -/
structure Numeral where
  neg : Bool
  int : Text
  frac : Text
  exp : ℤ
deriving DecidableEq, Repr

/-- The number of a digit string. -/
def digitsVal (ds : Text) : ℕ := Nat.ofDigitChars 10 ds 0

/-- Magnitude denoted by a numeral. -/
def Numeral.mag (d : Numeral) : ℚ :=
  (digitsVal (d.int ++ d.frac) : ℚ) * (10 : ℚ) ^ (d.exp - d.frac.length)

/-! ## Scanning -/

def scanSign : Text → Bool × Text
  | '-' :: t => (true, t)
  | '+' :: t => (false, t)
  | t => (false, t)

/-- `.` and the digits after it. -/
def scanFrac : Text → Text × Text
  | '.' :: t => (t.takeWhile Char.isDigit, t.dropWhile Char.isDigit)
  | t => ([], t)

def signed (neg : Bool) (n : ℕ) : ℤ := if neg then -n else n

/-- An exponent without digits is not part of the numeral. -/
def scanExp : Text → ℤ × Text
  | c :: t =>
    if c = 'e' ∨ c = 'E' then
      let (neg, u) := scanSign t
      let ds := u.takeWhile Char.isDigit
      if ds = [] then (0, c :: t) else (signed neg (digitsVal ds), u.dropWhile Char.isDigit)
    else (0, c :: t)
  | [] => (0, [])

/-- Longest prefix of the form `[sign] digits [. digits] [e [sign] digits]`, with at least one
digit in the mantissa, and what follows it. -/
def scanNumeral (t : Text) : Option (Numeral × Text) :=
  let (neg, t1) := scanSign t
  let int := t1.takeWhile Char.isDigit
  let (frac, t2) := scanFrac (t1.dropWhile Char.isDigit)
  if int = [] ∧ frac = [] then none
  else
    let (e, t3) := scanExp t2
    some (⟨neg, int, frac, e⟩, t3)

/-- Longest prefix of the form `[sign] digits`, and what follows it. -/
def scanInteger (t : Text) : Option (ℤ × Text) :=
  let (neg, t1) := scanSign t
  let ds := t1.takeWhile Char.isDigit
  if ds = [] then none else some (signed neg (digitsVal ds), t1.dropWhile Char.isDigit)

/-! ## Printing -/

def signText (neg : Bool) : Text := if neg then ['-'] else []

/-- `%d`. -/
def intText (z : ℤ) : Text := signText (decide (z < 0)) ++ Nat.toDigits 10 z.natAbs

/-- The `k` low decimal digits of `n`. -/
def fixedDigits : ℕ → ℕ → Text
  | 0, _ => []
  | k + 1, n => fixedDigits k (n / 10) ++ [Nat.digitChar (n % 10)]

/-- `%.kf` of a number given by sign and magnitude. -/
def fixedText (k : ℕ) (neg : Bool) (x : ℚ) : Text :=
  let n := (Grid.roundEven (x * 10 ^ k)).natAbs
  signText neg ++ Nat.toDigits 10 (n / 10 ^ k) ++ '.' :: fixedDigits k (n % 10 ^ k)

/-- The grid of `P` significant decimal digits. -/
def sigFormat (P : ℕ) (h : 0 < P) : Grid.Format := ⟨10, P, none, by decide, h⟩

/-- Rounding to significant digits moves a number by less than a factor of ten. -/
theorem sig_bounds {P : ℕ} (h : 0 < P) {x : ℚ} (hx : 0 ≤ x) :
    (sigFormat P h).round x ≤ 10 * x ∧ x ≤ 10 * (sigFormat P h).round x := by
  rcases hx.eq_or_lt with rfl | hpos
  · simp
  · have hradix : ((sigFormat P h).radix : ℚ) = 10 := rfl
    have hle := (sigFormat P h).round_lt_radix_mul rfl hpos
    have hge := (sigFormat P h).lt_radix_mul_round rfl hpos
    rw [hradix] at hle hge
    exact ⟨hle, hge.le⟩

/-- `int.frac` without the trailing zeros of the fraction, nor a point before nothing. -/
def pointText (int frac : Text) : Text :=
  match frac.rdropWhile (· == '0') with
  | [] => int
  | f => int ++ '.' :: f

/-- Exponent part: explicit sign, at least two digits. -/
def expText (e : ℤ) : Text :=
  let ds := Nat.toDigits 10 e.natAbs
  'e' :: (if e < 0 then '-' else '+') :: (if e.natAbs < 10 then '0' :: ds else ds)

/-- `%.Pg` of a number given by sign and magnitude: rounded to `P` significant digits, in
scientific notation when the decimal exponent `X` of the rounded value is below `-4` or not below
`P`, with trailing zeros of the fraction removed. -/
def generalText (P : ℕ) (hP : 0 < P) (neg : Bool) (x : ℚ) : Text :=
  if x = 0 then signText neg ++ ['0']
  else
    let r := (sigFormat P hP).round x
    let X := Int.log 10 r
    let ds := fixedDigits P (r / 10 ^ (X - (P - 1))).floor.natAbs
    signText neg ++
      if X < -4 ∨ P ≤ X then pointText (ds.take 1) (ds.drop 1) ++ expText X
      else if 0 ≤ X then pointText (ds.take (X.toNat + 1)) (ds.drop (X.toNat + 1))
      else pointText ['0'] (List.replicate (-X - 1).toNat '0' ++ ds)

example : generalText 6 (by decide) true (339999 / 10) = "-33999.9".toList := by decide +kernel
example : generalText 6 (by decide) false (999999999 : ℚ) = "1e+09".toList := by decide +kernel
example : generalText 6 (by decide) false (25 / 100000000 : ℚ) = "2.5e-07".toList := by
  decide +kernel
example : fixedText 6 false (1 / 8) = "0.125000".toList := by decide +kernel

/-! ## Digit strings -/

/-- A string of digits. -/
def Digits (ds : Text) : Prop := ∀ c ∈ ds, c.isDigit = true

instance (ds : Text) : Decidable (Digits ds) :=
  decidable_of_iff (ds.all Char.isDigit = true) List.all_eq_true

@[simp] theorem digits_nil : Digits [] := by simp [Digits]

@[simp] theorem digits_cons {c : Char} {ds : Text} :
    Digits (c :: ds) ↔ c.isDigit = true ∧ Digits ds := by simp [Digits]

@[simp] theorem digits_append {as bs : Text} : Digits (as ++ bs) ↔ Digits as ∧ Digits bs := by
  simp only [Digits, List.mem_append]
  constructor
  · intro h; exact ⟨fun c hc => h c (Or.inl hc), fun c hc => h c (Or.inr hc)⟩
  · rintro ⟨h1, h2⟩ c (hc | hc)
    · exact h1 c hc
    · exact h2 c hc

theorem digits_toDigits (n : ℕ) : Digits (Nat.toDigits 10 n) :=
  fun _ hc => Nat.isDigit_of_mem_toDigits (by decide) (by decide) hc

theorem digits_replicate_zero (k : ℕ) : Digits (List.replicate k '0') := by
  intro c hc
  rw [List.eq_of_mem_replicate hc]; decide

theorem digitsVal_append (as bs : Text) :
    digitsVal (as ++ bs) = 10 ^ bs.length * digitsVal as + digitsVal bs := by
  unfold digitsVal
  rw [Nat.ofDigitChars_append, Nat.ofDigitChars_eq_ofDigitChars_zero]

@[simp] theorem digitsVal_toDigits (n : ℕ) : digitsVal (Nat.toDigits 10 n) = n := by
  simp [digitsVal]

@[simp] theorem digitsVal_nil : digitsVal [] = 0 := by simp [digitsVal]

@[simp] theorem digitsVal_replicate_zero (k : ℕ) : digitsVal (List.replicate k '0') = 0 := by
  simp [digitsVal]

theorem digitsVal_digitChar {d : ℕ} (h : d < 10) : digitsVal [d.digitChar] = d := by
  simp [digitsVal, Nat.ofDigitChars_cons_digitChar_of_lt_ten h]

@[simp] theorem length_fixedDigits (k n : ℕ) : (fixedDigits k n).length = k := by
  induction k generalizing n with
  | zero => rfl
  | succ k ih => simp [fixedDigits, ih]

theorem digits_fixedDigits (k n : ℕ) : Digits (fixedDigits k n) := by
  induction k generalizing n with
  | zero => exact digits_nil
  | succ k ih =>
    have : n % 10 < 10 := Nat.mod_lt _ (by decide)
    simp [fixedDigits, ih, this]

theorem digitsVal_fixedDigits (k n : ℕ) : digitsVal (fixedDigits k n) = n % 10 ^ k := by
  induction k generalizing n with
  | zero => simp [fixedDigits, Nat.mod_one]
  | succ k ih =>
    have hd : n % 10 < 10 := Nat.mod_lt _ (by decide)
    rw [fixedDigits, digitsVal_append, digitsVal_digitChar hd, ih, pow_succ', Nat.mod_mul]
    simp [add_comm]

/-- Removing the zeros at the end of a fraction. -/
theorem rdropWhile_zero_append (frac : Text) :
    ∃ k, frac = frac.rdropWhile (· == '0') ++ List.replicate k '0' := by
  refine ⟨(frac.rtakeWhile (· == '0')).length, ?_⟩
  have h : frac.rtakeWhile (· == '0') =
      List.replicate (frac.rtakeWhile (· == '0')).length '0' := by
    refine List.eq_replicate_of_mem fun c hc => ?_
    simpa using List.mem_rtakeWhile_imp hc
  rw [← h, List.rdropWhile_append_rtakeWhile]

/-! ## What scanning makes of printed text -/

/-- A continuation at which a run of digits stops. -/
def NoDigit (t : Text) : Prop := ∀ c ∈ t.head?, c.isDigit = false

@[simp] theorem noDigit_nil : NoDigit [] := by simp [NoDigit]

@[simp] theorem noDigit_cons {c : Char} {t : Text} : NoDigit (c :: t) ↔ c.isDigit = false := by
  simp [NoDigit]

theorem takeWhile_digits {ds t : Text} (h : Digits ds) (ht : NoDigit t) :
    (ds ++ t).takeWhile Char.isDigit = ds ∧ (ds ++ t).dropWhile Char.isDigit = t := by
  rw [List.takeWhile_append_of_pos h, List.dropWhile_append_of_pos h]
  cases t with
  | nil => simp
  | cons c t => simp [noDigit_cons.1 ht]

/-- An optional sign. -/
inductive SignText : Text → Bool → Prop
  | none : SignText [] false
  | plus : SignText ['+'] false
  | minus : SignText ['-'] true

theorem signText_isSign (neg : Bool) : SignText (signText neg) neg := by
  cases neg
  · exact .none
  · exact .minus

/-- A text that starts with no sign. -/
def Unsigned (t : Text) : Prop := ∀ c ∈ t.head?, c ≠ '+' ∧ c ≠ '-'

theorem unsigned_digits {ds : Text} (h : Digits ds) : Unsigned ds := by
  cases ds with
  | nil => simp [Unsigned]
  | cons c ds =>
    have hc := (digits_cons.1 h).1
    have hplus : c ≠ '+' := by rintro rfl; exact absurd hc (by decide)
    have hminus : c ≠ '-' := by rintro rfl; exact absurd hc (by decide)
    simp [Unsigned, hplus, hminus]

theorem Unsigned.append {t u : Text} (h : Unsigned t) (hne : t ≠ []) : Unsigned (t ++ u) := by
  cases t with
  | nil => exact absurd rfl hne
  | cons c t => exact h

theorem scanSign_of_unsigned {t : Text} (h : Unsigned t) : scanSign t = (false, t) := by
  unfold scanSign
  split
  · exact absurd rfl (h '-' rfl).2
  · exact absurd rfl (h '+' rfl).1
  · rfl

theorem scanSign_sign {sgn t : Text} {neg : Bool} (hs : SignText sgn neg) (ht : Unsigned t) :
    scanSign (sgn ++ t) = (neg, t) := by
  cases hs with
  | none => exact scanSign_of_unsigned ht
  | plus => rfl
  | minus => rfl

/-- The longest run of digits at the start, and the rest. -/
theorem digits_split (t : Text) : ∃ ds u, t = ds ++ u ∧ Digits ds ∧ NoDigit u := by
  refine ⟨t.takeWhile Char.isDigit, t.dropWhile Char.isDigit, ?_, ?_, ?_⟩
  · exact List.takeWhile_append_dropWhile.symm
  · intro c hc
    exact List.mem_takeWhile_imp hc
  · intro c hc
    have hnot := List.head?_dropWhile_not Char.isDigit t
    rw [Option.mem_def.1 hc] at hnot
    simpa using hnot

/-- A signed run of digits is scanned as its integer. -/
theorem scanInteger_digits {sgn ds t : Text} {neg : Bool} (hs : SignText sgn neg) (hds : Digits ds)
    (hne : ds ≠ []) (ht : NoDigit t) :
    scanInteger (sgn ++ (ds ++ t)) = some (signed neg (digitsVal ds), t) := by
  have hun : Unsigned (ds ++ t) := (unsigned_digits hds).append hne
  obtain ⟨h1, h2⟩ := takeWhile_digits hds ht
  unfold scanInteger
  simp only [scanSign_sign hs hun, h1, h2, hne, if_false]

/-- `int`, or `int.frac`; both may be empty. -/
inductive Mantissa : Text → Text → Text → Prop
  | whole {int : Text} (hint : Digits int) : Mantissa int int []
  | point {int frac : Text} (hint : Digits int) (hfrac : Digits frac) :
      Mantissa (int ++ '.' :: frac) int frac

/-- A signed mantissa is scanned as such, before what follows it. -/
theorem scanNumeral_mantissa {sgn m int frac e : Text} {neg : Bool} (hs : SignText sgn neg)
    (hm : Mantissa m int frac) (hun : Unsigned (m ++ e)) (hnd : NoDigit e)
    (hdot : e.head? ≠ some '.') :
    scanNumeral (sgn ++ (m ++ e)) =
      if int = [] ∧ frac = [] then none
      else some (⟨neg, int, frac, (scanExp e).1⟩, (scanExp e).2) := by
  unfold scanNumeral
  rw [scanSign_sign hs hun]
  cases hm with
  | whole hint =>
    have hfrac : scanFrac e = ([], e) := by
      unfold scanFrac
      split
      · exact absurd rfl hdot
      · rfl
    obtain ⟨h1, h2⟩ := takeWhile_digits hint hnd
    simp only [h1, h2, hfrac]
  | @point int frac hint hfrac =>
    have hnd' : NoDigit ('.' :: (frac ++ e)) := noDigit_cons.2 (by decide)
    obtain ⟨h1, h2⟩ := takeWhile_digits hint hnd'
    obtain ⟨h3, h4⟩ := takeWhile_digits hfrac hnd
    have hassoc : int ++ '.' :: frac ++ e = int ++ '.' :: (frac ++ e) := by simp
    simp only [hassoc, h1, h2, scanFrac, h3, h4]

/-- Reading back any integer text gives the integer, and reads all of it. -/
theorem scanInteger_intText (z : ℤ) : scanInteger (intText z) = some (z, []) := by
  have h := scanInteger_digits (signText_isSign (decide (z < 0))) (digits_toDigits z.natAbs)
    Nat.toDigits_ne_nil noDigit_nil
  rw [List.append_nil, digitsVal_toDigits] at h
  have hz : signed (decide (z < 0)) z.natAbs = z := by
    unfold signed
    split
    · rename_i hneg
      have := of_decide_eq_true hneg
      omega
    · rename_i hneg
      have : ¬ z < 0 := fun hlt => hneg (decide_eq_true hlt)
      omega
  rwa [hz] at h

/-- A fraction part as it is printed: nothing, or a point and digits. -/
def fracText (frac : Text) : Text := if frac = [] then [] else '.' :: frac

theorem pointText_eq (int frac : Text) :
    pointText int frac = int ++ fracText (frac.rdropWhile (· == '0')) := by
  unfold pointText fracText
  split
  · rename_i h; rw [if_pos h, List.append_nil]
  · rename_i h; rw [if_neg h]

/-- An exponent part scanned to its end. -/
def ExpPart (t : Text) (e : ℤ) : Prop :=
  scanExp t = (e, []) ∧ NoDigit t ∧ t.head? ≠ some '.'

theorem expPart_nil : ExpPart [] 0 := by simp [ExpPart, scanExp]

theorem expPart_expText (e : ℤ) : ExpPart (expText e) e := by
  refine ⟨?_, by simp [expText], by simp [expText]⟩
  have key : ∀ ds : Text, Digits ds → ds ≠ [] → digitsVal ds = e.natAbs →
      scanExp ('e' :: (if e < 0 then '-' else '+') :: ds) = (e, []) := by
    intro ds hds hne hv
    obtain ⟨h1, h2⟩ := takeWhile_digits hds noDigit_nil
    rw [List.append_nil] at h1 h2
    by_cases he : e < 0
    · simp only [scanExp, he, if_true, true_or, scanSign, h1, h2, hne, if_false, hv, signed]
      congr 1; omega
    · simp only [scanExp, he, if_false, if_true, true_or, scanSign, h1, h2, hne, hv, signed,
        Bool.false_eq_true]
      congr 1; omega
  by_cases h10 : e.natAbs < 10
  · simp only [expText, h10, if_true]
    refine key _ ?_ (by simp) ?_
    · simp [digits_toDigits]
    · rw [← List.singleton_append, digitsVal_append]; simp [digitsVal, Nat.ofDigitChars_cons]
  · simp only [expText, h10, if_false]
    exact key _ (digits_toDigits _) Nat.toDigits_ne_nil (digitsVal_toDigits _)

theorem mantissa_fracText {int frac : Text} (hint : Digits int) (hfrac : Digits frac) :
    Mantissa (int ++ fracText frac) int frac := by
  unfold fracText
  split
  · rename_i hnil
    rw [hnil, List.append_nil]
    exact .whole hint
  · exact .point hint hfrac

/-- Every text `[-]int[.frac][exp]` is scanned to its end, into these very parts. -/
theorem scanNumeral_parts (neg : Bool) {int frac e : Text} {x : ℤ} (hint : Digits int)
    (hne : int ≠ []) (hfrac : Digits frac) (he : ExpPart e x) :
    scanNumeral (signText neg ++ (int ++ (fracText frac ++ e))) = some (⟨neg, int, frac, x⟩, []) := by
  have hun : Unsigned (int ++ fracText frac ++ e) := by
    rw [List.append_assoc]
    exact (unsigned_digits hint).append hne
  have h := scanNumeral_mantissa (signText_isSign neg) (mantissa_fracText hint hfrac) hun he.2.1
    he.2.2
  rwa [if_neg fun hc => hne hc.1, he.1, List.append_assoc] at h

/-- The value of a numeral does not depend on zeros at the end of the fraction. -/
theorem mag_rdropWhile_zero (neg : Bool) (int frac : Text) (e : ℤ) :
    (Numeral.mk neg int (frac.rdropWhile (· == '0')) e).mag = (Numeral.mk neg int frac e).mag := by
  obtain ⟨k, hk⟩ := rdropWhile_zero_append frac
  generalize frac.rdropWhile (· == '0') = f at hk
  subst hk
  unfold Numeral.mag
  simp only [← List.append_assoc, digitsVal_append, List.length_append, List.length_replicate,
    digitsVal_replicate_zero, add_zero]
  have h10 : (10 : ℚ) ≠ 0 := by norm_num
  have hz : e - (f.length : ℤ) = (e - ((f.length + k : ℕ) : ℤ)) + k := by push_cast; ring
  rw [hz, zpow_add₀ h10, zpow_natCast]
  push_cast; ring

theorem digits_rdropWhile {frac : Text} (h : Digits frac) :
    Digits (frac.rdropWhile (· == '0')) :=
  fun c hc => h c ((List.rdropWhile_prefix _ _).subset hc)

/-- `[-]pointText[exp]` is scanned to its end and denotes `int.frac * 10 ^ exp`. -/
theorem scanNumeral_pointText (neg : Bool) {int frac e : Text} {x : ℤ} (hint : Digits int)
    (hne : int ≠ []) (hfrac : Digits frac) (he : ExpPart e x) :
    ∃ d, scanNumeral (signText neg ++ (pointText int frac ++ e)) = some (d, []) ∧
      d.neg = neg ∧ d.mag = (Numeral.mk neg int frac x).mag := by
  refine ⟨⟨neg, int, frac.rdropWhile (· == '0'), x⟩, ?_, rfl, mag_rdropWhile_zero _ _ _ _⟩
  rw [pointText_eq, List.append_assoc]
  exact scanNumeral_parts neg hint hne (digits_rdropWhile hfrac) he

/-- `%d` text is also a numeral, of the same value. -/
theorem scanNumeral_intText (z : ℤ) :
    ∃ d, scanNumeral (intText z) = some (d, []) ∧ d.neg = decide (z < 0) ∧ d.mag = |(z : ℚ)| := by
  refine ⟨⟨decide (z < 0), Nat.toDigits 10 z.natAbs, [], 0⟩, ?_, rfl, ?_⟩
  · have h := scanNumeral_parts (decide (z < 0)) (digits_toDigits z.natAbs) Nat.toDigits_ne_nil
      digits_nil expPart_nil
    simpa [fracText, intText] using h
  · have : ((z.natAbs : ℕ) : ℚ) = |(z : ℚ)| := by
      rw [← Int.cast_abs, Int.abs_eq_natAbs]; rfl
    simp [Numeral.mag, this]

/-- The numeral in `%.kf` text. -/
def fixedNumeral (k : ℕ) (neg : Bool) (x : ℚ) : Numeral :=
  let n := (Grid.roundEven (x * 10 ^ k)).natAbs
  ⟨neg, Nat.toDigits 10 (n / 10 ^ k), fixedDigits k (n % 10 ^ k), 0⟩

/-- It denotes the number rounded to `k` decimals. -/
theorem mag_fixedNumeral (k : ℕ) (neg : Bool) {x : ℚ} (hx : 0 ≤ x) :
    (fixedNumeral k neg x).mag = Grid.decimals k x := by
  set n := (Grid.roundEven (x * 10 ^ k)).natAbs with hn
  have h0 : (0 : ℤ) ≤ Grid.roundEven (x * 10 ^ k) :=
    Grid.le_roundEven (by simp only [Int.cast_zero]; positivity)
  have hcast : (Grid.roundEven (x * 10 ^ k) : ℚ) = (n : ℚ) := by
    rw [hn, ← Int.cast_natCast, Int.natAbs_of_nonneg h0]
  have hmod : n % 10 ^ k % 10 ^ k = n % 10 ^ k := Nat.mod_mod _ _
  simp only [fixedNumeral, ← hn, Numeral.mag, digitsVal_append, digitsVal_toDigits,
    digitsVal_fixedDigits, length_fixedDigits, hmod, Nat.div_add_mod, zero_sub, zpow_neg,
    zpow_natCast, Grid.decimals, hcast, div_eq_mul_inv]

/-- `%.kf` text is a sign and the mantissa of its numeral. -/
theorem fixedText_eq (k : ℕ) (neg : Bool) (x : ℚ) :
    ∃ m, Mantissa m (fixedNumeral k neg x).int (fixedNumeral k neg x).frac ∧
      fixedText k neg x = signText neg ++ m := by
  refine ⟨_, .point (digits_toDigits _) (digits_fixedDigits _ _), ?_⟩
  unfold fixedText fixedNumeral
  rw [List.append_assoc]

/-! ### `%g` -/

section
variable {P : ℕ} (hP : 0 < P) {x : ℚ}

/-- The significand of a value with `P` digits, as an integer. -/
theorem floor_significand (hx : 0 < x) :
    let r := (sigFormat P hP).round x
    let X := Int.log 10 r
    0 < r ∧ ∃ m : ℕ, (r / 10 ^ (X - (P - 1))).floor.natAbs = m ∧ m < 10 ^ P ∧
      (m : ℚ) * 10 ^ (X - (P - 1)) = r := by
  intro r X
  have hr : 0 < r := (sigFormat P hP).round_pos rfl hx
  have h10 : (0 : ℚ) < 10 := by norm_num
  -- a rounded value is a multiple of its own last digit
  have hmul : (sigFormat P hP).Multiple ((sigFormat P hP).qexp r) r := by
    have := (sigFormat P hP).round_multiple r
    rwa [(sigFormat P hP).round_round hx.le] at this
  obtain ⟨m, hm⟩ := hmul
  have hq : (sigFormat P hP).qexp r = X - (P - 1) := (sigFormat P hP).qexp_of_none rfl r
  rw [hq] at hm
  have hm' : r = (m : ℚ) * 10 ^ (X - ((P : ℤ) - 1)) := hm
  have hpos := zpow_pos h10 (X - ((P : ℤ) - 1))
  have hm0 : 0 < m := by
    have : (0 : ℚ) < m := by
      by_contra hc
      have := mul_nonpos_of_nonpos_of_nonneg (not_lt.1 hc) hpos.le
      linarith
    exact_mod_cast this
  have hdiv : r / 10 ^ (X - ((P : ℤ) - 1)) = (m : ℚ) := by rw [hm']; field_simp
  refine ⟨hr, m.natAbs, ?_, ?_, ?_⟩
  · change (⌊r / 10 ^ (X - ((P : ℤ) - 1))⌋).natAbs = _
    rw [hdiv, Int.floor_intCast]
  · have hlt : r < (10 : ℚ) ^ (X + 1) := by
      have := Int.lt_zpow_succ_log_self (b := 10) (by decide) r
      exact_mod_cast this
    have : (m : ℚ) < 10 ^ (P : ℤ) := by
      have hexp : (P : ℤ) + (X - (P - 1)) = X + 1 := by ring
      rw [← hdiv, div_lt_iff₀ hpos, ← zpow_add₀ h10.ne', hexp]
      exact hlt
    rw [zpow_natCast] at this
    have hm2 : m < ((10 ^ P : ℕ) : ℤ) := by exact_mod_cast this
    omega
  · have : ((m.natAbs : ℕ) : ℚ) = (m : ℚ) := by
      rw [← Int.cast_natCast, Int.natAbs_of_nonneg hm0.le]
    rw [this]; exact hm'.symm

/-- The magnitudes `%.Pg` prints without an exponent. -/
def Plain (P : ℕ) (r : ℚ) : Prop := r = 0 ∨ (1 / 10 ^ 4 ≤ r ∧ r < 10 ^ P)

instance (P : ℕ) (r : ℚ) : Decidable (Plain P r) := by unfold Plain; infer_instance

theorem plain_iff_log {r : ℚ} (hr : 0 < r) :
    Plain P r ↔ ¬ (Int.log 10 r < -4 ∨ (P : ℤ) ≤ Int.log 10 r) := by
  have hlow : (1 / 10 ^ 4 : ℚ) ≤ r ↔ -4 ≤ Int.log 10 r := by
    rw [← Int.zpow_le_iff_le_log (by decide) hr]
    norm_num
  have hhigh : r < (10 : ℚ) ^ P ↔ Int.log 10 r < (P : ℤ) := by
    rw [← Int.lt_zpow_iff_log_lt (by decide) hr, zpow_natCast]
    norm_num
  unfold Plain
  rw [hlow, hhigh, or_iff_right hr.ne']
  omega

/-- `%.Pg` text: a sign, digits, perhaps a fraction, and an exponent part unless the rounded value
is plain. -/
theorem generalText_parts (neg : Bool) (hx : 0 ≤ x) :
    ∃ int frac e X, generalText P hP neg x = signText neg ++ (pointText int frac ++ e) ∧
      Digits int ∧ int ≠ [] ∧ Digits frac ∧
      (Numeral.mk neg int frac X).mag = (sigFormat P hP).round x ∧
      if Plain P ((sigFormat P hP).round x) then e = [] ∧ X = 0 else e = expText X := by
  have h0 : Digits ['0'] := by simp [Digits]
  rcases hx.eq_or_lt with rfl | hx
  · refine ⟨['0'], [], [], 0, ?_, h0, by simp, digits_nil, ?_, ?_⟩
    · simp [generalText, pointText]
    · simp [Numeral.mag, digitsVal, Nat.ofDigitChars_cons]
    · simp [Plain]
  obtain ⟨hr, m, hm, hmP, hval⟩ := floor_significand hP hx
  have hplain := plain_iff_log (P := P) hr
  unfold generalText
  rw [if_neg hx.ne']
  simp only [hm]
  generalize (sigFormat P hP).round x = r at *
  set X := Int.log 10 r
  have hds := digits_fixedDigits P m
  have hlen := length_fixedDigits P m
  have hv : digitsVal (fixedDigits P m) = m := by
    rw [digitsVal_fixedDigits, Nat.mod_eq_of_lt hmP]
  generalize fixedDigits P m = ds at *
  have htake : ∀ k, Digits (ds.take k) := fun k c hc => hds c (List.mem_of_mem_take hc)
  have hdrop : ∀ k, Digits (ds.drop k) := fun k c hc => hds c (List.mem_of_mem_drop hc)
  have hne : ∀ k, 0 < k → ds.take k ≠ [] := by
    intro k hk h
    have := congrArg List.length h
    rw [List.length_take, hlen, List.length_nil] at this
    omega
  split_ifs with h1 h2 h3 h4
  · exact absurd h1 (hplain.1 h2)
  · -- scientific notation: one digit before the point
    refine ⟨ds.take 1, ds.drop 1, expText X, X, rfl, htake 1, hne 1 (by decide), hdrop 1, ?_, rfl⟩
    simp only [Numeral.mag, List.take_append_drop, hv, List.length_drop, hlen]
    rw [← hval]; congr 2; omega
  · -- fixed notation, `X + 1` digits before the point
    refine ⟨ds.take (X.toNat + 1), ds.drop (X.toNat + 1), [], 0, by rw [List.append_nil],
      htake _, hne _ (by omega), hdrop _, ?_, rfl, rfl⟩
    simp only [Numeral.mag, List.take_append_drop, hv, List.length_drop, hlen]
    rw [← hval]; congr 2; omega
  · exact absurd (hplain.2 h1) h4
  · -- a magnitude below one: zeros after the point
    have hfrac : Digits (List.replicate (-X - 1).toNat '0' ++ ds) :=
      digits_append.2 ⟨digits_replicate_zero _, hds⟩
    refine ⟨['0'], _, [], 0, by rw [List.append_nil], h0, by simp, hfrac, ?_, rfl, rfl⟩
    have hz : digitsVal (['0'] ++ (List.replicate (-X - 1).toNat '0' ++ ds)) = m := by
      rw [digitsVal_append, digitsVal_append, hv]
      simp [digitsVal, Nat.ofDigitChars_cons]
    simp only [Numeral.mag, hz, List.length_append, List.length_replicate, hlen]
    rw [← hval]; congr 2; omega
  · exact absurd (hplain.2 h1) ‹_›

/-- `%.Pg` text denotes the number rounded to `P` significant digits. -/
theorem scanNumeral_generalText (neg : Bool) (hx : 0 ≤ x) :
    ∃ d, scanNumeral (generalText P hP neg x) = some (d, []) ∧ d.neg = neg ∧
      d.mag = (sigFormat P hP).round x := by
  obtain ⟨int, frac, e, X, htext, hint, hne, hfrac, hmag, hexp⟩ := generalText_parts hP neg hx
  have he : ExpPart e X := by
    split_ifs at hexp with hplain
    · rw [hexp.1, hexp.2]
      exact expPart_nil
    · rw [hexp]
      exact expPart_expText X
  obtain ⟨d, hd, hn, hm⟩ := scanNumeral_pointText neg hint hne hfrac he
  exact ⟨d, by rw [htext, hd], hn, hm.trans hmag⟩

end

end DecimalText
