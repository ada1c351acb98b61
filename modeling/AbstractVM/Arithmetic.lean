import AbstractVM.Cell
/-!
# The five operators on cells

| here | what it says of the source |
| --- | --- |
| `ArithOp` | one name for each of `+ - * / %`, with its operator, its `e_Operation` and its result on `ℤ` |
| `fitInt` | the range check of the factory, as an exact integer meets it |
| `operator_int` | on integers the detour over `str_`, `int64_t` and `to_string` loses nothing |
| `operator_cell` | on any two cells an operator yields a cell of the wider type, or an error of the value kind; no library exception leaves it |
-/

namespace AbstractVM

open DecimalText (Text Digits intText)
open Cpp

/-! ## Reading a cell back -/

theorem stoInt_toString {bits : ℕ} {T : IntType} {z : ℤ} (h : InBits bits z) :
    stoInt bits (Operand.new (.int T z)).toString = .ok z := by
  rw [Operand.toString_new_int, toStringInt, stoInt_intText, if_pos h]

/-- A 32-bit integer is in the range of every type with room for `2 ^ 31` and for one. -/
theorem inRange_of_int {T : FloatType} (hmax : T.fmt.round (2 ^ 31) ≤ T.max)
    (hmin : T.minNormal ≤ 1) {v : ℤ} (h : InBits 32 v) : T.InRange |(v : ℚ)| := by
  have habs : |v| ≤ 2 ^ 31 := abs_le.2 ⟨h.1, h.2.le⟩
  refine FloatType.InRange.of_le (abs_nonneg _) (by exact_mod_cast habs) hmax ?_
  by_cases hz : v = 0
  · exact Or.inl (by simp [hz])
  · have hone : 1 ≤ |v| := Int.one_le_abs hz
    exact Or.inr (hmin.trans (by exact_mod_cast hone))

/-- `long double` has room for ten times what a `double` can hold, and for a tenth of it. -/
theorem inRange_longDouble {q : ℚ} (h0 : 0 ≤ q) (hmax : q ≤ 10 * doubleType.max)
    (hmin : q = 0 ∨ 2 ^ (-1074 : ℤ) ≤ 10 * q) : longDoubleType.InRange q := by
  refine FloatType.InRange.of_le h0 hmax (by decide +kernel) (hmin.imp id fun h => ?_)
  have h1 : longDoubleType.minNormal * 10 ≤ 2 ^ (-1074 : ℤ) := by decide +kernel
  linarith

/-- Values of the two real types are small, and zero or not too small. -/
theorem real_bounds {T : RealType} {x : SRat} (hmax : x.mag ≤ T.type.max)
    (hfix : T.type.fmt.round x.mag = x.mag) :
    x.mag ≤ doubleType.max ∧ (x.mag = 0 ∨ 2 ^ (-1074 : ℤ) ≤ x.mag) := by
  have hle : T.type.max ≤ doubleType.max := by cases T <;> decide +kernel
  refine ⟨hmax.trans hle, x.mag_nonneg.eq_or_lt.imp Eq.symm fun hpos => ?_⟩
  cases T with
  | float => exact le_trans (by decide +kernel) (floatType.fmt.zpow_qmin_le rfl hpos hfix)
  | double => exact doubleType.fmt.zpow_qmin_le rfl hpos hfix

/-- `long double` is the finest type everywhere. -/
theorem longDouble_finer (T : RealType) (q : ℚ) :
    longDoubleType.fmt.qexp q < T.type.fmt.qexp q := by
  have hlong : longDoubleType.fmt.qmin = some (-16445) := rfl
  cases T with
  | float =>
    have hradix : floatType.fmt.radix = longDoubleType.fmt.radix := rfl
    have hfloat : floatType.fmt.qmin = some (-149) := rfl
    exact Grid.Format.qexp_lt_qexp hradix (by decide) hfloat hlong (by decide) q
  | double =>
    have hradix : doubleType.fmt.radix = longDoubleType.fmt.radix := rfl
    have hdouble : doubleType.fmt.qmin = some (-1074) := rfl
    exact Grid.Format.qexp_lt_qexp hradix (by decide) hdouble hlong (by decide) q

/-- Every value of a real type is a `long double`. -/
theorem longDouble_round {T : RealType} {q : ℚ} (hfix : T.type.fmt.round q = q) :
    longDoubleType.fmt.round q = q := by
  have hradix : T.type.fmt.radix = longDoubleType.fmt.radix := by cases T <;> rfl
  exact Grid.Format.round_eq_self_of_qexp_le hradix (longDouble_finer T q).le hfix

/-- `long double` is wide enough for whatever a cell prints. -/
theorem inRange_longDouble_sig {T : RealType} {x : SRat} (hmax : x.mag ≤ T.type.max)
    (hfix : T.type.fmt.round x.mag = x.mag) :
    longDoubleType.InRange ((DecimalText.sigFormat T.digits10 T.digits10_pos).round x.mag) := by
  obtain ⟨hle, hlow⟩ := real_bounds hmax hfix
  obtain ⟨hup, hdown⟩ := DecimalText.sig_bounds T.digits10_pos x.mag_nonneg
  refine inRange_longDouble (Grid.Format.round_nonneg _ x.mag_nonneg) (by linarith) ?_
  refine hlow.imp (fun hzero => ?_) fun h => h.trans hdown
  rw [hzero, Grid.Format.round_zero]

/-- The number a value prints. -/
def Value.printed : Value → SRat
  | .int _ v => SRat.ofInt v
  | .real T x => x.sig T.digits10 T.digits10_pos

/-- The number `stold` reads in the text of a value: the one it prints, as a `long double`. -/
def Value.argument (v : Value) : SRat := longDoubleType.cast v.printed

theorem stold_toString (c : Cell) : stold c.operand.toString = .ok c.value.argument := by
  rcases c.cases_on with ⟨T, v, h, rfl⟩ | ⟨T, x, hc, hmax, hfix⟩
  · have hr := inRange_of_int (T := longDoubleType) (by decide +kernel) (by decide +kernel) h.inBits
    exact (strto_intText _ _ _).trans (by rw [if_pos hr]; rfl)
  · have hs : c.operand.toString = Operand.render T x := by rw [Cell.operand, hc]; rfl
    rw [hs, hc]
    exact (strto_generalText _ _ T.digits10_pos x).trans
      (by rw [if_pos (inRange_longDouble_sig hmax hfix)]; rfl)

/-! ## The factory on printed integers -/

/-- The loop of `isValidValue` passes over digits. -/
theorem scanValue_append {ds : Text} (h : Digits ds) (b b' : Bool) (t : Text) :
    scanValue b b' (ds ++ t) = scanValue b b' t := by
  induction ds with
  | nil => rfl
  | cons c ds ih =>
    obtain ⟨hc, hds⟩ := DecimalText.digits_cons.1 h
    have hdot : c ≠ '.' := by rintro rfl; exact absurd hc (by decide)
    have hexp : c ≠ 'e' := by rintro rfl; exact absurd hc (by decide)
    simp [scanValue, hdot, hexp, hc, ih hds]

theorem scanValue_digits {ds : Text} (h : Digits ds) (b b' : Bool) : scanValue b b' ds = true := by
  have happ := scanValue_append h b b' []
  rwa [List.append_nil] at happ

theorem accepted_intText (type : OperandType) (z : ℤ) : Accepted type (intText z) := by
  have hds := DecimalText.digits_toDigits z.natAbs
  have hne : Nat.toDigits 10 z.natAbs ≠ [] := Nat.toDigits_ne_nil
  unfold Accepted isValidValue intText
  cases hd : Nat.toDigits 10 z.natAbs with
  | nil => exact absurd hd hne
  | cons c ds =>
    rw [hd] at hds
    have hc := (DecimalText.digits_cons.1 hds).1
    have hplus : c ≠ '+' := by rintro rfl; exact absurd hc (by decide)
    have hminus : c ≠ '-' := by rintro rfl; exact absurd hc (by decide)
    by_cases hz : z < 0
    · simp [DecimalText.signText, hz, scanValue_digits hds]
    · simp [DecimalText.signText, hz, hplus, hminus, scanValue_digits hds]

/-- The range check of `createInt8` and its siblings on an exact integer. -/
def fitInt (T : IntType) (z : ℤ) : Except AVMException Cell :=
  if hmax : T.max < z then .error (OverflowException (toStringInt z ++ T.notType))
  else if hmin : z < T.min then .error (UnderflowException (toStringInt z ++ T.notType))
  else .ok (.int T z ⟨not_lt.1 hmin, not_lt.1 hmax⟩)

theorem fitInt_of_fits {T : IntType} {z : ℤ} (h : T.Fits z) : fitInt T z = .ok (.int T z h) := by
  unfold fitInt
  rw [dif_neg (not_lt.2 h.2), dif_neg (not_lt.2 h.1)]

/-- The factory on the text of any 64-bit integer. -/
theorem createOperand_toStringInt (T : IntType) {z : ℤ} (h : InBits 64 z) :
    createOperand T.tag (toStringInt z) = (fitInt T z).map fun c => some c.operand := by
  have hacc : Accepted T.tag (toStringInt z) := accepted_intText T.tag z
  rw [createOperand_int T hacc]
  have hz : stoll (intText z) = .ok z := (stoInt_intText 64 z).trans (if_pos h)
  unfold createInt toStringInt
  rw [hz]
  by_cases hmax : T.max < z
  · simp [fitInt, hmax, Except.map, toStringInt]
  · by_cases hmin : z < T.min
    · simp [fitInt, hmax, hmin, Except.map, toStringInt]
    · have hfits : T.Fits z := ⟨not_lt.1 hmin, not_lt.1 hmax⟩
      rw [fitInt_of_fits hfits]
      simp [hmax, hmin, Except.map, IntType.wrap_eq hfits, Cell.operand, Cell.int]

/-! ## The five operators -/

inductive ArithOp
  | add | sub | mul | div | mod
deriving DecidableEq, Repr

namespace ArithOp

/-- The member function of `Operand<T>`. -/
def operator : ArithOp → Operand → Operand → Except Fault (Option Operand)
  | add => Operand.add
  | sub => Operand.sub
  | mul => Operand.mul
  | div => Operand.div
  | mod => Operand.mod

/-- The operation on `ℤ`: division truncates toward zero, the remainder follows the dividend. -/
def eval : ArithOp → ℤ → ℤ → ℤ
  | add => (· + ·)
  | sub => (· - ·)
  | mul => (· * ·)
  | div => Int.tdiv
  | mod => Int.tmod

/-- The operators that look at their divisor first. -/
def Divides (op : ArithOp) : Prop := op = div ∨ op = mod

instance (op : ArithOp) : Decidable op.Divides := by unfold Divides; infer_instance

end ArithOp

/-- The wider of two integer types. -/
def IntType.widest (T U : IntType) : IntType := if U.tag ≤ T.tag then T else U

theorem IntType.tag_lt_float (T : IntType) : T.tag < OperandType.Float := by cases T <;> decide

theorem RealType.float_le_tag (T : RealType) : ¬ T.tag < OperandType.Float := by cases T <;> decide

theorem IntType.tag_widest (T U : IntType) :
    (T.widest U).tag = if U.tag ≤ T.tag then T.tag else U.tag := by
  unfold IntType.widest
  split <;> rfl

/-- What an operator makes of two integers: the exact result, if the wider type can hold it. -/
def ArithOp.onInts (op : ArithOp) (T U : IntType) (a b : ℤ) : Except AVMException Cell :=
  if op.Divides ∧ b = 0 then .error DivModByZeroException else fitInt (T.widest U) (op.eval a b)

/-- No result on 32-bit values leaves 64 bits. -/
theorem ArithOp.inBits_eval (op : ArithOp) {a b : ℤ} (ha : InBits 32 a) (hb : InBits 32 b) :
    InBits 64 (op.eval a b) := by
  unfold InBits at *
  norm_num at *
  cases op with
  | add => simp only [eval]; omega
  | sub => simp only [eval]; omega
  | mul =>
    have habs : |a| ≤ 2147483648 := abs_le.2 ⟨ha.1, ha.2.le⟩
    have hbbs : |b| ≤ 2147483648 := abs_le.2 ⟨hb.1, hb.2.le⟩
    have hmul : |a * b| ≤ 2147483648 * 2147483648 := by
      rw [abs_mul]; exact mul_le_mul habs hbbs (abs_nonneg b) (by norm_num)
    obtain ⟨h1, h2⟩ := abs_le.1 hmul
    simp only [eval]; constructor <;> omega
  | div =>
    have h := Int.natAbs_tdiv_le_natAbs a b
    simp only [eval]; omega
  | mod =>
    have h := Int.natAbs_tmod a b
    have hle := Nat.mod_le a.natAbs b.natAbs
    simp only [eval]; omega

theorem widest_operand (a b : Cell) :
    Operand.widest a.operand b.operand = if b.tag ≤ a.tag then a.tag else b.tag := by
  simp [Operand.widest]

section
variable {T U : IntType} {a b : ℤ} (ha : T.Fits a) (hb : U.Fits b) {iop : ℤ → ℤ → ℤ}
  (rop : SRat → SRat → SRat)

theorem widest_int : Operand.widest (Cell.int T a ha).operand (Cell.int U b hb).operand =
    (T.widest U).tag := by
  rw [widest_operand, IntType.tag_widest]; rfl

theorem stoll_int : stoll (Cell.int U b hb).operand.toString = .ok b :=
  stoInt_toString (hb.inBits.mono (by decide))

theorem arith_int (h : InBits 64 (iop a b)) :
    Operand.arith iop rop (Cell.int T a ha).operand (Cell.int U b hb).operand =
      ofAvm ((fitInt (T.widest U) (iop a b)).map fun c => some c.operand) := by
  unfold Operand.arith
  simp only [widest_int ha hb, if_pos (T.widest U).tag_lt_float, stoll_int hb, ofStd_ok]
  rw [← createOperand_toStringInt _ h, ← Cpp.wrap_eq (by decide) h]
  rfl

theorem divArith_int (h : InBits 64 (iop a b)) :
    Operand.divArith iop rop (Cell.int T a ha).operand (Cell.int U b hb).operand =
      if b = 0 then .error (.avm DivModByZeroException)
      else ofAvm ((fitInt (T.widest U) (iop a b)).map fun c => some c.operand) := by
  unfold Operand.divArith
  simp only [widest_int ha hb, if_pos (T.widest U).tag_lt_float, stoll_int hb, ofStd_ok]
  rw [← createOperand_toStringInt _ h, ← Cpp.wrap_eq (by decide) h]
  rfl

/-- **Integer arithmetic is exact.** Neither the text of the right operand nor the 64-bit
intermediate loses anything; only the factory's range check can refuse the result. -/
theorem ArithOp.operator_int (op : ArithOp) :
    op.operator (Cell.int T a ha).operand (Cell.int U b hb).operand =
      ofAvm ((op.onInts T U a b).map fun c => some c.operand) := by
  have hexact := op.inBits_eval ha.inBits hb.inBits
  cases op with
  | add => exact arith_int ha hb _ hexact
  | sub => exact arith_int ha hb _ hexact
  | mul => exact arith_int ha hb _ hexact
  | div =>
    refine (divArith_int ha hb _ hexact).trans ?_
    by_cases h0 : b = 0 <;> simp [onInts, Divides, h0, Except.map, eval]
  | mod =>
    refine (divArith_int ha hb _ hexact).trans ?_
    by_cases h0 : b = 0 <;> simp [onInts, Divides, h0, Except.map, eval]

end

/-! ## Any two cells -/

/-- The errors that depend on the values of operands. -/
def ErrorType.OfValue (t : ErrorType) : Prop :=
  t = .InvalidValueFormatException ∨ t = .OverflowException ∨ t = .UnderflowException ∨
    t = .DivModByZeroException

/-- The errors of the factory: it knows nothing of divisors. -/
def ErrorType.OfFactory (t : ErrorType) : Prop :=
  t = .InvalidValueFormatException ∨ t = .OverflowException ∨ t = .UnderflowException

theorem ErrorType.OfFactory.ofValue {t : ErrorType} (h : t.OfFactory) : t.OfValue := by
  rcases h with h | h | h
  · exact Or.inl h
  · exact Or.inr (Or.inl h)
  · exact Or.inr (Or.inr (Or.inl h))

theorem createInt_error {T : IntType} {notType L : Text} {e : AVMException}
    (h : createInt T notType L = .error e) : e.type.OfFactory := by
  unfold createInt at h
  split at h
  · cases h; exact Or.inl rfl
  · cases h; exact Or.inr (Or.inl rfl)
  · split_ifs at h
    · cases h; exact Or.inr (Or.inl rfl)
    · cases h; exact Or.inr (Or.inr rfl)

theorem createReal_error {T : RealType} {notType L : Text} {e : AVMException}
    (h : createReal T notType L = .error e) : e.type.OfFactory := by
  unfold createReal at h
  split at h
  · cases h; exact Or.inl rfl
  · cases h; exact Or.inr (Or.inl rfl)
  · split_ifs at h
    · cases h; exact Or.inr (Or.inl rfl)
    · cases h; exact Or.inr (Or.inr rfl)

theorem map_eq_error {ε α β : Type} {x : Except ε α} {f : α → β} {e : ε} :
    x.map f = .error e ↔ x = .error e := by
  cases x <;> simp [Except.map]

theorem createOperand_error {t : OperandType} {L : Text} {e : AVMException}
    (h : createOperand t L = .error e) : e.type.OfFactory := by
  unfold createOperand at h
  split_ifs at h with h1 h2
  · cases h; exact Or.inl rfl
  · cases h; exact Or.inl rfl
  · cases t with
    | Int8 => exact createInt_error (map_eq_error.1 h)
    | Int16 => exact createInt_error (map_eq_error.1 h)
    | Int32 => exact createInt_error (map_eq_error.1 h)
    | Float => exact createReal_error (map_eq_error.1 h)
    | Double => exact createReal_error (map_eq_error.1 h)
    | NoType => cases h

theorem ofAvm_eq_error {α : Type} {x : Except AVMException α} {e : AVMException} :
    ofAvm x = .error (.avm e) ↔ x = .error e := by
  cases x <;> simp

/-- The number an operator reads in the text of its argument, a `long long` or a `long double`. -/
def Operand.argument (lhs rhs : Operand) : Except StdException ℚ :=
  if widest lhs rhs < .Float then (stoll rhs.toString).map fun z => (z : ℚ)
  else (stold rhs.toString).map SRat.toRat

section
variable (iop : ℤ → ℤ → ℤ) (rop : SRat → SRat → SRat) (lhs rhs : Operand)

/-- All that `operator+`, `operator-` and `operator*` can do. -/
theorem arith_cases :
    (∃ e, lhs.argument rhs = .error e ∧ Operand.arith iop rop lhs rhs = .error (.std e)) ∨
      ∃ q L, lhs.argument rhs = .ok q ∧
        Operand.arith iop rop lhs rhs = ofAvm (createOperand (Operand.widest lhs rhs) L) := by
  unfold Operand.arith Operand.argument
  by_cases hlt : Operand.widest lhs rhs < .Float
  · simp only [if_pos hlt]
    cases stoll rhs.toString with
    | error e => exact Or.inl ⟨e, rfl, rfl⟩
    | ok z => exact Or.inr ⟨z, _, rfl, rfl⟩
  · simp only [if_neg hlt]
    cases stold rhs.toString with
    | error e => exact Or.inl ⟨e, rfl, rfl⟩
    | ok x => exact Or.inr ⟨x.toRat, _, rfl, rfl⟩

/-- All that `operator/` and `operator%` can do. -/
theorem divArith_cases :
    (∃ e, lhs.argument rhs = .error e ∧ Operand.divArith iop rop lhs rhs = .error (.std e)) ∨
      (lhs.argument rhs = .ok 0 ∧
        Operand.divArith iop rop lhs rhs = .error (.avm DivModByZeroException)) ∨
      ∃ q L, lhs.argument rhs = .ok q ∧ q ≠ 0 ∧
        Operand.divArith iop rop lhs rhs = ofAvm (createOperand (Operand.widest lhs rhs) L) := by
  unfold Operand.divArith Operand.argument
  by_cases hlt : Operand.widest lhs rhs < .Float
  · simp only [if_pos hlt]
    cases stoll rhs.toString with
    | error e => exact Or.inl ⟨e, rfl, rfl⟩
    | ok z =>
      by_cases hz : z = 0
      · exact Or.inr (Or.inl ⟨congrArg Except.ok (Int.cast_eq_zero.2 hz), if_pos hz⟩)
      · exact Or.inr (Or.inr ⟨z, _, rfl, Int.cast_ne_zero.2 hz, if_neg hz⟩)
  · simp only [if_neg hlt]
    cases stold rhs.toString with
    | error e => exact Or.inl ⟨e, rfl, rfl⟩
    | ok x =>
      by_cases hx : x.toRat = 0
      · exact Or.inr (Or.inl ⟨congrArg Except.ok hx, if_pos hx⟩)
      · exact Or.inr (Or.inr ⟨x.toRat, _, rfl, hx, if_neg hx⟩)

variable {iop rop lhs rhs} {e : AVMException}

/-- What an operator throws of the program's own is about values. -/
theorem arith_error (h : Operand.arith iop rop lhs rhs = .error (.avm e)) : e.type.OfValue := by
  rcases arith_cases iop rop lhs rhs with ⟨x, -, hx⟩ | ⟨q, L, -, hL⟩
  · cases hx.symm.trans h
  · rw [hL] at h
    exact (createOperand_error (ofAvm_eq_error.1 h)).ofValue

theorem divArith_error (h : Operand.divArith iop rop lhs rhs = .error (.avm e)) :
    e.type.OfValue := by
  rcases divArith_cases iop rop lhs rhs with ⟨x, -, hx⟩ | ⟨-, hzero⟩ | ⟨q, L, -, -, hL⟩
  · cases hx.symm.trans h
  · cases hzero.symm.trans h
    exact Or.inr (Or.inr (Or.inr rfl))
  · rw [hL] at h
    exact (createOperand_error (ofAvm_eq_error.1 h)).ofValue

end

theorem ArithOp.operator_error {op : ArithOp} {l r : Operand} {e : AVMException}
    (h : op.operator l r = .error (.avm e)) : e.type.OfValue := by
  cases op with
  | add => exact arith_error h
  | sub => exact arith_error h
  | mul => exact arith_error h
  | div => exact divArith_error h
  | mod => exact divArith_error h

/-- What can come out of an operator: an error about values, or a cell of type `t`. -/
def YieldsCell (t : OperandType) (r : Except Fault (Option Operand)) : Prop :=
  (∃ e, r = .error (.avm e) ∧ e.type.OfValue) ∨ ∃ c : Cell, c.tag = t ∧ r = .ok (some c.operand)

theorem yieldsCell_createOperand {t : OperandType} (ht : t ≠ .NoType) (L : Text) :
    YieldsCell t (ofAvm (createOperand t L)) := by
  cases h : createOperand t L with
  | error e => exact Or.inl ⟨e, rfl, (createOperand_error h).ofValue⟩
  | ok r =>
    rcases createOperand_cell h with ⟨hno, -⟩ | ⟨c, hc, rfl⟩
    · exact absurd hno ht
    · exact Or.inr ⟨c, hc, rfl⟩

theorem Cell.tag_ne_noType (c : Cell) : c.tag ≠ .NoType := by
  rcases c.cases_on with ⟨T, v, h, rfl⟩ | ⟨T, x, hc, -, -⟩
  · cases T <;> simp [IntType.tag]
  · rw [Cell.tag_real hc]
    cases T <;> simp [RealType.tag]

section
variable (a b : Cell)

theorem widest_ne_noType : Operand.widest a.operand b.operand ≠ .NoType := by
  rw [widest_operand]
  split
  · exact a.tag_ne_noType
  · exact b.tag_ne_noType

/-- The text of a cell is always read: when the wider type is an integer type, so is that of the
right operand. -/
theorem argument_of_cell : ∃ q, a.operand.argument b.operand = .ok q := by
  unfold Operand.argument
  by_cases hlt : Operand.widest a.operand b.operand < .Float
  · rw [if_pos hlt]
    rcases b.cases_on with ⟨T, v, hv, rfl⟩ | ⟨T, x, hb, -, -⟩
    · rw [stoll_int hv]
      exact ⟨v, rfl⟩
    · exfalso
      have htag := Cell.tag_real hb
      rw [widest_operand, htag] at hlt
      have hT := T.float_le_tag
      split at hlt
      · rename_i hle
        exact hT (Nat.lt_of_le_of_lt hle hlt)
      · exact hT hlt
  · rw [if_neg hlt, stold_toString b]
    exact ⟨_, rfl⟩

theorem arith_cell (iop : ℤ → ℤ → ℤ) (rop : SRat → SRat → SRat) :
    YieldsCell (Operand.widest a.operand b.operand) (Operand.arith iop rop a.operand b.operand) := by
  obtain ⟨p, hp⟩ := argument_of_cell a b
  rcases arith_cases iop rop a.operand b.operand with ⟨e, he, -⟩ | ⟨q, L, -, hL⟩
  · cases he.symm.trans hp
  · rw [hL]
    exact yieldsCell_createOperand (widest_ne_noType a b) L

theorem divArith_cell (iop : ℤ → ℤ → ℤ) (rop : SRat → SRat → SRat) :
    YieldsCell (Operand.widest a.operand b.operand)
      (Operand.divArith iop rop a.operand b.operand) := by
  obtain ⟨p, hp⟩ := argument_of_cell a b
  rcases divArith_cases iop rop a.operand b.operand with ⟨e, he, -⟩ | ⟨-, hzero⟩ | ⟨q, L, -, -, hL⟩
  · cases he.symm.trans hp
  · rw [hzero]
    exact Or.inl ⟨_, rfl, Or.inr (Or.inr (Or.inr rfl))⟩
  · rw [hL]
    exact yieldsCell_createOperand (widest_ne_noType a b) L

/-- **No library exception leaves an operator**: reading the text of a cell back never throws. -/
theorem ArithOp.operator_cell (op : ArithOp) :
    YieldsCell (Operand.widest a.operand b.operand) (op.operator a.operand b.operand) := by
  cases op with
  | add => exact arith_cell a b _ _
  | sub => exact arith_cell a b _ _
  | mul => exact arith_cell a b _ _
  | div => exact divArith_cell a b _ _
  | mod => exact divArith_cell a b _ _

end

end AbstractVM
