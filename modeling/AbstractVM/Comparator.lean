import AbstractVM.Conversions
import AbstractVM.Execution
/-!
# The comparisons as relations

A comparison sets what its left side holds against what its right side prints, in the wider of the
two types. On integers these are the same, so `==` is symmetric and `<` is an order. A real whose
text is not its value breaks both.

| here | what it says of the source |
| --- | --- |
| `Cell.held`, `Cell.read` | the two numbers a comparison looks at |
| `sideFree_iff` | when the operands of a comparison may change sides |
| `sortComparator_iff` | on which operands `compareForStack` is a strict weak ordering |
-/

namespace AbstractVM

open Cpp
open CommandsExecutor (compareForStack)

namespace Cell

/-- What `a` holds, in the type a comparison with `b` uses. -/
def held (a b : Cell) : ℚ := (a.tag.wider b.tag).convert a.stored

/-- What `a` reads in the text of `b`, in the same type. -/
def read (a b : Cell) : ℚ := (a.tag.wider b.tag).convert b.printed

/-- The text of `b` can be read in that type. -/
def Legible (a b : Cell) : Prop := (a.tag.wider b.tag).Reads b.printed

instance (a b : Cell) : Decidable (a.Legible b) := by unfold Legible; infer_instance

/-- How far the text of `b` is from `b` in a comparison with `a`. -/
def slip (a b : Cell) : ℚ := a.read b - b.held a

end Cell

section
variable (a b : Cell)

theorem eq_cell : Operand.eq a.operand b.operand =
    if a.Legible b then .ok (decide (a.held b = a.read b)) else .error (.std .out_of_range) :=
  compareWith_spec a b fun x y => by simp

theorem lt_cell : Operand.lt a.operand b.operand =
    if a.Legible b then .ok (decide (a.held b < a.read b)) else .error (.std .out_of_range) :=
  compareWith_spec a b fun x y => by simp

theorem gt_cell : Operand.gt a.operand b.operand =
    if a.Legible b then .ok (decide (a.held b > a.read b)) else .error (.std .out_of_range) :=
  compareWith_spec a b fun x y => by simp

end

/-! ## Exchanging the sides -/

/-- How an instruction ends: normally, or with which fault. -/
def answer (r : Result Operand Unit) : Except Fault Unit :=
  match r with
  | .ok _ => .ok ()
  | .error (f, _) => .error f

/-- The machine `s` with `c` pushed on it. -/
def VM.topped (s : VM Operand Unit) (c : Cell) : VM Operand Unit :=
  { s with stack_ := some c.operand :: s.stack_ }

/-- No comparison of `a` and `b` depends on the side an operand stands on. -/
structure SideFree (a b : Cell) : Prop where
  eq : Operand.eq a.operand b.operand = .ok true ↔ Operand.eq b.operand a.operand = .ok true
  lt : Operand.lt a.operand b.operand = .ok true ↔ Operand.gt b.operand a.operand = .ok true
  assert : ∀ s : VM Operand Unit,
    answer (CommandsExecutor.assert plain (some b.operand) (s.topped a)) =
      answer (CommandsExecutor.assert plain (some a.operand) (s.topped b))

/-- Both texts are read or none is; and then the two slips cancel, or the operands are further
apart than either. -/
structure SlipsHarmless (a b : Cell) : Prop where
  legible : a.Legible b ↔ b.Legible a
  apart : a.Legible b →
    a.slip b + b.slip a = 0 ∨
      (a.held b - b.held a < a.slip b ∧ a.held b - b.held a < -b.slip a) ∨
      (a.slip b < a.held b - b.held a ∧ -b.slip a < a.held b - b.held a)

/-- `assert` passes on what `==` says. -/
theorem answer_assert (s : VM Operand Unit) (a b : Cell) :
    answer (CommandsExecutor.assert plain (some b.operand) (s.topped a)) =
      match Operand.eq a.operand b.operand with
      | .error e => .error e
      | .ok false => .error (.avm FalseAssertException)
      | .ok true => .ok () := by
  unfold CommandsExecutor.assert VM.topped
  simp only [plain, id]
  cases Operand.eq a.operand b.operand with
  | error e => rfl
  | ok r => cases r <;> rfl

/-- Two gaps `p` and `q` give the same verdict on `d` when they are equal, or `d` is on the same
side of both. -/
theorem same_verdict_iff {d p q : ℚ} :
    ((d = p ↔ d = q) ∧ (d < p ↔ d < q)) ↔ p = q ∨ (d < p ∧ d < q) ∨ (p < d ∧ q < d) := by
  constructor
  · rintro ⟨heq, hlt⟩
    rcases lt_trichotomy d p with h | h | h
    · exact Or.inr (Or.inl ⟨h, hlt.1 h⟩)
    · exact Or.inl (h.symm.trans (heq.1 h))
    · have hne : d ≠ q := fun hq => h.ne (heq.2 hq).symm
      have hnlt : ¬ d < q := fun hq => h.not_gt (hlt.2 hq)
      exact Or.inr (Or.inr ⟨h, lt_of_le_of_ne (not_lt.1 hnlt) hne.symm⟩)
  · rintro (rfl | ⟨hp, hq⟩ | ⟨hp, hq⟩)
    · exact ⟨Iff.rfl, Iff.rfl⟩
    · exact ⟨iff_of_false hp.ne hq.ne, iff_of_true hp hq⟩
    · exact ⟨iff_of_false hp.ne' hq.ne', iff_of_false hp.not_gt hq.not_gt⟩

/-- The two comparisons of two legible cells, as verdicts on their difference. -/
theorem apart_iff (a b : Cell) :
    ((a.held b = a.read b ↔ b.held a = b.read a) ∧ (a.held b < a.read b ↔ b.held a > b.read a)) ↔
      a.slip b + b.slip a = 0 ∨
        (a.held b - b.held a < a.slip b ∧ a.held b - b.held a < -b.slip a) ∨
        (a.slip b < a.held b - b.held a ∧ -b.slip a < a.held b - b.held a) := by
  have hcancel : a.slip b + b.slip a = 0 ↔ a.slip b = -b.slip a := eq_neg_iff_add_eq_zero.symm
  rw [hcancel, ← same_verdict_iff]
  unfold Cell.slip
  have heq : a.held b = a.read b ↔ a.held b - b.held a = a.read b - b.held a := by
    constructor <;> intro h <;> linarith
  have heq' : b.held a = b.read a ↔ a.held b - b.held a = -(b.read a - a.held b) := by
    constructor <;> intro h <;> linarith
  have hlt : a.held b < a.read b ↔ a.held b - b.held a < a.read b - b.held a := by
    constructor <;> intro h <;> linarith
  have hlt' : b.held a > b.read a ↔ a.held b - b.held a < -(b.read a - a.held b) := by
    constructor <;> intro h <;> linarith
  rw [heq, heq', hlt, hlt']

/-- **When the sides of a comparison may be exchanged.** -/
theorem sideFree_iff (a b : Cell) : SideFree a b ↔ SlipsHarmless a b := by
  constructor
  · rintro ⟨heq, hlt, hassert⟩
    have hlegible : a.Legible b ↔ b.Legible a := by
      have h := hassert (VM.init ())
      rw [answer_assert, answer_assert, eq_cell, eq_cell] at h
      by_cases ha : a.Legible b
      · by_cases hb : b.Legible a
        · exact iff_of_true ha hb
        · rw [if_pos ha, if_neg hb] at h
          cases hd : decide (a.held b = a.read b) <;> rw [hd] at h <;> cases h
      · by_cases hb : b.Legible a
        · rw [if_neg ha, if_pos hb] at h
          cases hd : decide (b.held a = b.read a) <;> rw [hd] at h <;> cases h
        · exact iff_of_false ha hb
    refine ⟨hlegible, ?_⟩
    intro ha
    rw [eq_cell, eq_cell, if_pos ha, if_pos (hlegible.1 ha)] at heq
    rw [lt_cell, gt_cell, if_pos ha, if_pos (hlegible.1 ha)] at hlt
    simp only [Except.ok.injEq, decide_eq_true_eq] at heq hlt
    exact (apart_iff a b).1 ⟨heq, hlt⟩
  · rintro ⟨hlegible, hapart⟩
    by_cases ha : a.Legible b
    · have hb := hlegible.1 ha
      obtain ⟨heq, hlt⟩ := (apart_iff a b).2 (hapart ha)
      refine ⟨?_, ?_, ?_⟩
      · rw [eq_cell, eq_cell, if_pos ha, if_pos hb]
        simpa using heq
      · rw [lt_cell, gt_cell, if_pos ha, if_pos hb]
        simpa using hlt
      · intro s
        rw [answer_assert, answer_assert, eq_cell, eq_cell, if_pos ha, if_pos hb, decide_eq_decide.2 heq]
    · have hb : ¬ b.Legible a := fun h => ha (hlegible.2 h)
      refine ⟨?_, ?_, ?_⟩
      · rw [eq_cell, eq_cell, if_neg ha, if_neg hb]
      · rw [lt_cell, gt_cell, if_neg ha, if_neg hb]
      · intro s
        rw [answer_assert, answer_assert, eq_cell, eq_cell, if_neg ha, if_neg hb]

/-- A `float` that prints short equals the integer of its value when it stands on the left only. -/
theorem not_sideFree : ¬ ∀ a b : Cell, SideFree a b := by
  intro h
  have heq := (h .sevenDigits (.int .int32_t 1234567 (by decide))).eq
  have hleft : Operand.eq Cell.sevenDigits.operand
      (Cell.int .int32_t 1234567 (by decide)).operand = .ok true := by decide +kernel
  have hright : Operand.eq (Cell.int .int32_t 1234567 (by decide)).operand
      Cell.sevenDigits.operand = .ok false := by decide +kernel
  rw [hright] at heq
  cases heq.1 hleft

/-! ## The comparator of `sort` -/

/-- `compareForStack(a, b)` holds. -/
def Before (a b : Cell) : Prop :=
  compareForStack plain (some a.operand) (some b.operand) = .ok true

/-- What `std::list::sort` asks of its comparator on the operands `S`: an answer to every pair, and
a strict weak ordering. -/
structure SortComparator (S : Set Cell) : Prop where
  answers : ∀ a ∈ S, ∀ b ∈ S,
    ∃ r, compareForStack plain (some a.operand) (some b.operand) = .ok r
  ordering : IsStrictWeakOrder S fun a b => Before a b

/-- Operands whose texts do not confuse `sort`. -/
structure Orderly (S : Set Cell) : Prop where
  /-- Every text is read by its own type… -/
  legible : ∀ x ∈ S, x.Legible x
  /-- …as a number not above the value. -/
  below : ∀ x ∈ S, x.read x ≤ x.stored
  /-- No `double` lies between a `float` and the text of that `float`. -/
  apart : ∀ x ∈ S, ∀ y ∈ S, x.tag = .Float → y.tag = .Double →
    ¬ (x.stored < x.read y ∧ y.stored < y.read x)
  /-- No number of another kind lies between the text of a `float` and that `float`, above some
  operand that is not below this text. -/
  gap : ∀ x ∈ S, ∀ y ∈ S, ∀ z ∈ S, y.tag = .Float → z.tag ≠ .Float →
    ¬ (x.read y ≤ x.held y ∧ y.read z ≤ y.held z ∧ x.held z < x.read z)
  /-- No integer parts a `float` and a `double` that it reaches by the rounding to `float` only. -/
  coarse : ∀ x ∈ S, ∀ y ∈ S, ∀ z ∈ S, y.tag < .Float →
    (x.tag = .Float ∧ z.tag = .Double ∨ x.tag = .Double ∧ z.tag = .Float) →
    ¬ (x.read y ≤ x.held y ∧ y.read z ≤ y.held z ∧ x.held z < x.read z)

/-! ### The three ways to compare -/

namespace Cell

theorem lt_float_or_real (c : Cell) : c.tag < .Float ∨ c.tag = .Float ∨ c.tag = .Double := by
  rcases c.kinds with ⟨h, -⟩ | ⟨T, h, -⟩
  · exact Or.inl h
  · cases T with
    | float => exact Or.inr (Or.inl h)
    | double => exact Or.inr (Or.inr h)

theorem le_float {c : Cell} (h : c.tag ≠ .Double) : c.tag ≤ .Float := by
  rcases c.lt_float_or_real with hc | hc | hc
  · exact Nat.le_of_lt hc
  · exact hc ▸ Nat.le_refl _
  · exact absurd hc h

theorem ne_double_of_lt {c : Cell} (h : c.tag < .Float) : c.tag ≠ .Double := by
  intro hc
  rw [hc] at h
  exact absurd h (by decide)

section
variable {x y : Cell}

theorem held_double (h : x.tag = .Double ∨ y.tag = .Double) : x.held y = x.stored := by
  unfold held
  rw [OperandType.wider_double x.tag_ne_noType y.tag_ne_noType h, x.double_convert_stored]

theorem read_double (h : x.tag = .Double ∨ y.tag = .Double) :
    x.read y = OperandType.Double.convert y.printed := by
  unfold read
  rw [OperandType.wider_double x.tag_ne_noType y.tag_ne_noType h]

theorem held_float (hx : x.tag ≠ .Double) (hy : y.tag ≠ .Double)
    (h : x.tag = .Float ∨ y.tag = .Float) : x.held y = OperandType.Float.convert x.stored := by
  unfold held
  rw [OperandType.wider_float (le_float hx) (le_float hy) h]

theorem read_float (hx : x.tag ≠ .Double) (hy : y.tag ≠ .Double)
    (h : x.tag = .Float ∨ y.tag = .Float) : x.read y = OperandType.Float.convert y.printed := by
  unfold read
  rw [OperandType.wider_float (le_float hx) (le_float hy) h]

theorem held_int (hx : x.tag < .Float) (hy : y.tag < .Float) : x.held y = x.stored :=
  OperandType.convert_of_lt_float (OperandType.wider_lt_float hx hy) _

theorem read_int (hx : x.tag < .Float) (hy : y.tag < .Float) : x.read y = y.stored := by
  unfold read
  rw [OperandType.convert_of_lt_float (OperandType.wider_lt_float hx hy), printed_of_lt_float hy]

end

theorem held_self (c : Cell) : c.held c = c.stored := by
  unfold held
  rw [OperandType.wider_self, c.convert_stored]

end Cell

/-- A text its own type can read is legible to all. -/
theorem legible_of_self (a : Cell) {b : Cell} (h : b.Legible b) : a.Legible b := by
  by_contra hno
  have hun := (unreadable_iff a b).2 hno
  refine (unreadable_iff b b).1 ?_ h
  unfold Unreadable at hun ⊢
  rcases b.cases_on with ⟨U, v, hv, rfl⟩ | ⟨U, x, hb, -, -⟩
  · exact hun
  · have htag := Cell.tag_real hb
    rw [Cell.value_operand, hb] at hun ⊢
    refine ⟨?_, hun.2⟩
    rw [Cell.type_operand, htag]
    exact Nat.le_refl _

theorem compareForStack_numbers (a b : Cell) :
    compareForStack plain (some a.operand) (some b.operand) =
      if a.Legible b then .ok (decide (a.held b < a.read b)) else .error (.std .out_of_range) :=
  lt_cell a b

theorem before_iff (a : Cell) {b : Cell} (h : b.Legible b) : Before a b ↔ a.held b < a.read b := by
  unfold Before
  rw [compareForStack_numbers, if_pos (legible_of_self a h)]
  simp

/-! ### Asymmetry -/

/-- Between kinds other than `float` and `double` no text is read above its value. -/
theorem read_le_held {x y : Cell} (hy : y.read y ≤ y.stored)
    (hno : ¬ (y.tag = .Float ∧ x.tag = .Double)) : x.read y ≤ y.held x := by
  unfold Cell.read Cell.held at *
  rw [OperandType.wider_self] at hy
  rw [OperandType.wider_comm y.tag]
  rcases y.kinds with ⟨hlt, -⟩ | ⟨T, hT, -⟩
  · rw [Cell.printed_of_lt_float hlt]
  · have hwider : x.tag.wider y.tag = y.tag := by
      rcases y.lt_float_or_real with h | h | h
      · rw [hT] at h
        exact absurd h T.float_le_tag
      · rw [OperandType.wider_float (Cell.le_float fun hx => hno ⟨h, hx⟩) (h ▸ Nat.le_refl _)
          (Or.inr h), h]
      · rw [OperandType.wider_double x.tag_ne_noType y.tag_ne_noType (Or.inr h), h]
    rw [hwider, y.convert_stored]
    exact hy

theorem Orderly.asymm {S : Set Cell} (h : Orderly S) {a b : Cell} (ha : a ∈ S) (hb : b ∈ S) :
    ¬ (a.held b < a.read b ∧ b.held a < b.read a) := by
  rintro ⟨hab, hba⟩
  by_cases h1 : a.tag = .Float ∧ b.tag = .Double
  · rw [Cell.held_double (Or.inr h1.2)] at hab
    rw [Cell.held_double (Or.inl h1.2)] at hba
    exact h.apart a ha b hb h1.1 h1.2 ⟨hab, hba⟩
  by_cases h2 : b.tag = .Float ∧ a.tag = .Double
  · rw [Cell.held_double (Or.inl h2.2)] at hab
    rw [Cell.held_double (Or.inr h2.2)] at hba
    exact h.apart b hb a ha h2.1 h2.2 ⟨hba, hab⟩
  have hra := read_le_held (h.below a ha) h1
  have hrb := read_le_held (h.below b hb) h2
  linarith

/-! ### Transitivity of the negation -/

section
variable {x y z : Cell}

/-- Two reals of one type: what is not before prints nothing above. -/
theorem printed_le_of_same {T : RealType} (hy : y.tag = T.tag) (hz : z.tag = T.tag)
    (hleg : z.Legible z) (hyz : y.read z ≤ y.held z) : z.printed ≤ y.printed := by
  obtain ⟨hyp, hyfix, -⟩ := Cell.real_of_tag hy
  obtain ⟨hzp, -, -⟩ := Cell.real_of_tag hz
  unfold Cell.Legible at hleg
  unfold Cell.read Cell.held at hyz
  rw [hz, OperandType.wider_self, OperandType.reads_tag] at hleg
  rw [hy, hz, OperandType.wider_self, OperandType.convert_tag, OperandType.convert_tag,
    T.type.fmt.nearest_eq_self hyfix] at hyz
  calc z.printed = T.decimal.nearest (T.type.fmt.nearest z.printed) := by
        rw [hzp] at hleg ⊢
        exact (decimal_nearest_survives T hleg).symm
    _ ≤ T.decimal.nearest y.stored := T.decimal.nearest_mono hyz
    _ = y.printed := hyp.symm

/-- Hence the negation of the comparator is transitive through them. -/
theorem not_before_same {T : RealType} (hy : y.tag = T.tag) (hz : z.tag = T.tag)
    (hleg : z.Legible z) (hxy : x.read y ≤ x.held y) (hyz : y.read z ≤ y.held z) :
    x.read z ≤ x.held z := by
  have hprinted := printed_le_of_same hy hz hleg hyz
  unfold Cell.read Cell.held at *
  rw [hz, ← hy]
  exact (OperandType.convert_mono _ hprinted).trans hxy

/-- Through two integers. -/
theorem not_before_int (hy : y.tag < .Float) (hz : z.tag < .Float) (hxy : x.read y ≤ x.held y)
    (hyz : y.read z ≤ y.held z) : x.read z ≤ x.held z := by
  rw [Cell.read_int hy hz, Cell.held_int hy hz] at hyz
  have hy' := Cell.ne_double_of_lt hy
  have hz' := Cell.ne_double_of_lt hz
  rcases x.lt_float_or_real with hx | hx | hx
  · rw [Cell.read_int hx hy, Cell.held_int hx hy] at hxy
    rw [Cell.read_int hx hz, Cell.held_int hx hz]
    exact hyz.trans hxy
  · have hx' : x.tag ≠ .Double := by rw [hx]; decide
    rw [Cell.read_float hx' hy' (Or.inl hx), Cell.held_float hx' hy' (Or.inl hx),
      Cell.printed_of_lt_float hy] at hxy
    rw [Cell.read_float hx' hz' (Or.inl hx), Cell.held_float hx' hz' (Or.inl hx),
      Cell.printed_of_lt_float hz]
    exact (OperandType.convert_mono _ hyz).trans hxy
  · rw [Cell.read_double (Or.inl hx), Cell.held_double (Or.inl hx)] at hxy ⊢
    rw [Cell.printed_of_lt_float hz, z.double_convert_stored]
    rw [Cell.printed_of_lt_float hy, y.double_convert_stored] at hxy
    exact hyz.trans hxy

/-- Through an integer to a `float`, unless from a `double`. -/
theorem not_before_int_float (hx : x.tag ≠ .Double) (hy : y.tag < .Float) (hz : z.tag = .Float)
    (hxy : x.read y ≤ x.held y) (hyz : y.read z ≤ y.held z) : x.read z ≤ x.held z := by
  have hy' := Cell.ne_double_of_lt hy
  have hz' : z.tag ≠ .Double := by rw [hz]; decide
  rw [Cell.read_float hy' hz' (Or.inr hz), Cell.held_float hy' hz' (Or.inr hz)] at hyz
  rw [Cell.read_float hx hz' (Or.inr hz), Cell.held_float hx hz' (Or.inr hz)]
  refine hyz.trans ?_
  rcases x.lt_float_or_real with hlt | hfl | hdb
  · rw [Cell.read_int hlt hy, Cell.held_int hlt hy] at hxy
    exact OperandType.convert_mono _ hxy
  · rw [Cell.read_float hx hy' (Or.inl hfl), Cell.held_float hx hy' (Or.inl hfl),
      Cell.printed_of_lt_float hy] at hxy
    exact hxy
  · exact absurd hdb hx

/-- Through an integer to a `double`, unless from a `float`. -/
theorem not_before_int_double (hx : x.tag ≠ .Float) (hy : y.tag < .Float) (hz : z.tag = .Double)
    (hxy : x.read y ≤ x.held y) (hyz : y.read z ≤ y.held z) : x.read z ≤ x.held z := by
  rw [Cell.read_double (Or.inr hz), Cell.held_double (Or.inr hz)] at hyz ⊢
  refine hyz.trans ?_
  rcases x.lt_float_or_real with hlt | hfl | hdb
  · rwa [Cell.read_int hlt hy, Cell.held_int hlt hy] at hxy
  · exact absurd hfl hx
  · rwa [Cell.read_double (Or.inl hdb), Cell.held_double (Or.inl hdb),
      Cell.printed_of_lt_float hy, y.double_convert_stored] at hxy

/-- Numbers of at most fifteen digits that a `double` is not below are not above its text. -/
theorem le_printed_of_decimal (hy : y.tag = .Double) {q : ℚ}
    (hq : RealType.double.decimal.nearest q = q) (hr : doubleType.InRange |q|)
    (hle : OperandType.Double.convert q ≤ y.stored) : q ≤ y.printed := by
  obtain ⟨hyp, -, -⟩ := Cell.real_of_tag (T := .double) hy
  calc q = RealType.double.decimal.nearest (doubleType.fmt.nearest q) := by
        have h := decimal_nearest_survives .double (q := q) (by rw [hq]; exact hr)
        rw [hq] at h
        exact h.symm
    _ ≤ RealType.double.decimal.nearest y.stored := RealType.double.decimal.nearest_mono hle
    _ = y.printed := hyp.symm

/-- Through a `double` to an integer. -/
theorem not_before_double_int (hy : y.tag = .Double) (hz : z.tag < .Float)
    (hxy : x.read y ≤ x.held y) (hyz : y.read z ≤ y.held z) : x.read z ≤ x.held z := by
  obtain ⟨n, hn, habs⟩ := Cell.abs_stored_of_lt hz
  have hdec : RealType.double.decimal.nearest z.stored = z.stored := by
    refine Grid.Format.nearest_eq_self _ ?_
    rw [habs]
    refine Grid.Format.round_natCast _ (fun e he => by cases he) ?_
    exact lt_of_le_of_lt hn (by decide)
  have hrange : doubleType.InRange |z.stored| := by
    rcases z.kinds with ⟨-, T, v, hv, rfl⟩ | ⟨T, hT, -⟩
    · rw [Cell.stored_int]
      exact inRange_int (T := .double) hv.inBits
    · rw [hT] at hz
      exact absurd hz T.float_le_tag
  rw [Cell.read_double (Or.inl hy), Cell.held_double (Or.inl hy),
    Cell.printed_of_lt_float hz] at hyz
  rw [Cell.read_double (Or.inr hy), Cell.held_double (Or.inr hy)] at hxy
  have hle : z.stored ≤ x.stored := by
    calc z.stored = OperandType.Double.convert z.stored := z.double_convert_stored.symm
      _ ≤ OperandType.Double.convert y.printed :=
        OperandType.convert_mono _ (le_printed_of_decimal hy hdec hrange hyz)
      _ ≤ x.stored := hxy
  unfold Cell.read Cell.held
  rw [Cell.printed_of_lt_float hz]
  exact OperandType.convert_mono _ hle

/-- A `double` that the text of a `float` is read as is a `float` if it is an integer. -/
theorem float_convert_int (hx : x.tag < .Float) (hz : z.tag = .Float) (hne : z.printed ≠ x.stored)
    (heq : OperandType.Double.convert z.printed = x.stored) :
    OperandType.Float.convert x.stored = x.stored := by
  obtain ⟨n, hn, habs⟩ := Cell.abs_stored_of_lt hx
  by_cases hsmall : n < 2 ^ 24
  · refine floatType.fmt.nearest_eq_self ?_
    rw [habs]
    exact floatType.fmt.round_natCast (fun e he => by cases he; decide) hsmall
  · -- a number of six digits that large is an integer, and read exactly
    exfalso
    have hint : ∀ m : ℕ, m < 2 ^ 53 → doubleType.fmt.round m = m :=
      fun m hm => doubleType.fmt.round_natCast (fun e he => by cases he; decide) hm
    have hround : doubleType.fmt.round |z.printed| = n := by
      rw [← doubleType.fmt.abs_nearest, ← habs, ← heq]
      rfl
    have hlow : ((10 ^ 5 : ℕ) : ℚ) ≤ |z.printed| := by
      by_contra hc
      have hmono := doubleType.fmt.round_mono (abs_nonneg _) (not_le.1 hc).le
      rw [hround, hint _ (by decide)] at hmono
      have : n ≤ 10 ^ 5 := by exact_mod_cast hmono
      omega
    have hfix : RealType.float.decimal.round |z.printed| = |z.printed| :=
      Cell.round_printed (T := .float) hz
    obtain ⟨m, hm⟩ := RealType.float.decimal.exists_natCast_of_le rfl hfix (by exact_mod_cast hlow)
    have hhigh : m < 2 ^ 53 := by
      by_contra hc
      have hle : ((2 ^ 32 : ℕ) : ℚ) ≤ |z.printed| := by
        rw [hm]
        exact_mod_cast (by decide : 2 ^ 32 ≤ 2 ^ 53).trans (not_lt.1 hc)
      have hmono := doubleType.fmt.round_mono (by positivity) hle
      rw [hround, hint _ (by decide)] at hmono
      have : 2 ^ 32 ≤ n := by exact_mod_cast hmono
      omega
    refine hne ?_
    rw [← heq]
    exact (doubleType.fmt.nearest_eq_self (by rw [hm]; exact hint m hhigh)).symm

/-- Where the text of a `float` becomes a value in a `double`, it becomes the same in a `float`. -/
theorem float_convert_le (hx : x.tag ≠ .Double) (hz : z.tag = .Float)
    (h : OperandType.Double.convert z.printed ≤ x.stored) :
    OperandType.Float.convert z.printed ≤ OperandType.Float.convert x.stored := by
  by_cases hle : z.printed ≤ x.stored
  · exact OperandType.convert_mono _ hle
  have heq : OperandType.Double.convert z.printed = x.stored := by
    refine le_antisymm h ?_
    rw [← x.double_convert_stored]
    exact OperandType.convert_mono _ (not_le.1 hle).le
  have hfloat : OperandType.Float.convert x.stored = x.stored := by
    rcases x.lt_float_or_real with hlt | hfl | hdb
    · exact float_convert_int hlt hz (fun hc => hle hc.le) heq
    · rw [← hfl]
      exact x.convert_stored
    · exact absurd hdb hx
  rw [hfloat]
  exact le_of_eq (Grid.Format.nearest_eq_of_finer (f := floatType.fmt) (g := doubleType.fmt) rfl
    (double_finer _) hfloat heq)

/-- Through a `double` to a `float`. -/
theorem not_before_double_float (hy : y.tag = .Double) (hz : z.tag = .Float)
    (hleg : z.Legible z) (hxy : x.read y ≤ x.held y) (hyz : y.read z ≤ y.held z) :
    x.read z ≤ x.held z := by
  have hz' : z.tag ≠ .Double := by rw [hz]; decide
  have hleg' := legible_of_self y hleg
  unfold Cell.Legible at hleg'
  rw [OperandType.wider_double y.tag_ne_noType z.tag_ne_noType (Or.inl hy)] at hleg'
  have hdec : RealType.double.decimal.nearest z.printed = z.printed := by
    have hradix : RealType.float.decimal.radix = RealType.double.decimal.radix := rfl
    have hqexp : RealType.double.decimal.qexp |z.printed| ≤
        RealType.float.decimal.qexp |z.printed| := by
      rw [Grid.Format.qexp_of_none _ rfl, Grid.Format.qexp_of_none _ rfl]
      exact sub_le_sub_left (by decide) _
    have hfix := Cell.round_printed (T := .float) hz
    exact Grid.Format.nearest_eq_self _ (Grid.Format.round_eq_self_of_qexp_le hradix hqexp hfix)
  rw [Cell.read_double (Or.inl hy), Cell.held_double (Or.inl hy)] at hyz
  rw [Cell.read_double (Or.inr hy), Cell.held_double (Or.inr hy)] at hxy
  have hle : OperandType.Double.convert z.printed ≤ x.stored :=
    (OperandType.convert_mono _ (le_printed_of_decimal hy hdec hleg' hyz)).trans hxy
  by_cases hx : x.tag = .Double
  · rw [Cell.read_double (Or.inl hx), Cell.held_double (Or.inl hx)]
    exact hle
  · rw [Cell.read_float hx hz' (Or.inr hz), Cell.held_float hx hz' (Or.inr hz)]
    exact float_convert_le hx hz hle

end

/-- Not coming before is transitive on orderly operands. -/
theorem Orderly.not_before {S : Set Cell} (h : Orderly S) {x y z : Cell} (hx : x ∈ S) (hy : y ∈ S)
    (hz : z ∈ S) (hxy : x.read y ≤ x.held y) (hyz : y.read z ≤ y.held z) : x.read z ≤ x.held z := by
  have hleg := h.legible z hz
  rcases y.lt_float_or_real with hy' | hy' | hy'
  · rcases z.lt_float_or_real with hz' | hz' | hz'
    · exact not_before_int hy' hz' hxy hyz
    · by_cases hx' : x.tag = .Double
      · exact not_lt.1 fun hlt => h.coarse x hx y hy z hz hy' (Or.inr ⟨hx', hz'⟩) ⟨hxy, hyz, hlt⟩
      · exact not_before_int_float hx' hy' hz' hxy hyz
    · by_cases hx' : x.tag = .Float
      · exact not_lt.1 fun hlt => h.coarse x hx y hy z hz hy' (Or.inl ⟨hx', hz'⟩) ⟨hxy, hyz, hlt⟩
      · exact not_before_int_double hx' hy' hz' hxy hyz
  · by_cases hz' : z.tag = .Float
    · exact not_before_same (T := .float) hy' hz' hleg hxy hyz
    · exact not_lt.1 fun hlt => h.gap x hx y hy z hz hy' hz' ⟨hxy, hyz, hlt⟩
  · rcases z.lt_float_or_real with hz' | hz' | hz'
    · exact not_before_double_int hy' hz' hxy hyz
    · exact not_before_double_float hy' hz' hleg hxy hyz
    · exact not_before_same (T := .double) hy' hz' hleg hxy hyz

/-- **Where `sort` has a strict weak ordering to sort by.** -/
theorem sortComparator_iff (S : Set Cell) : SortComparator S ↔ Orderly S := by
  constructor
  · rintro ⟨hanswers, hordering⟩
    obtain ⟨hasymm, htrans⟩ := ListSort.isStrictWeakOrder_iff.1 hordering
    have hleg : ∀ x ∈ S, x.Legible x := by
      intro x hx
      obtain ⟨r, hr⟩ := hanswers x hx x hx
      rw [compareForStack_numbers] at hr
      by_contra hno
      rw [if_neg hno] at hr
      cases hr
    have hbefore : ∀ {a b : Cell}, b ∈ S → (Before a b ↔ a.held b < a.read b) :=
      fun hb => before_iff _ (hleg _ hb)
    have hneg : ∀ x ∈ S, ∀ y ∈ S, ∀ z ∈ S,
        ¬ (x.read y ≤ x.held y ∧ y.read z ≤ y.held z ∧ x.held z < x.read z) := by
      rintro x hx y hy z hz ⟨hxy, hyz, hxz⟩
      refine htrans ⟨x, hx⟩ ⟨y, hy⟩ ⟨z, hz⟩ ?_ ?_ ((hbefore hz).2 hxz)
      · exact fun hc => absurd ((hbefore hy).1 hc) (not_lt.2 hxy)
      · exact fun hc => absurd ((hbefore hz).1 hc) (not_lt.2 hyz)
    refine ⟨hleg, ?_, ?_, ?_, ?_⟩
    · intro x hx
      have hirrefl := hordering.irrefl ⟨x, hx⟩
      rw [hbefore hx, x.held_self] at hirrefl
      exact not_lt.1 hirrefl
    · rintro x hx y hy hfl hdb ⟨hxy, hyx⟩
      refine hasymm ⟨x, hx⟩ ⟨y, hy⟩ ((hbefore hy).2 ?_) ((hbefore hx).2 ?_)
      · rwa [Cell.held_double (Or.inr hdb)]
      · rwa [Cell.held_double (Or.inl hdb)]
    · intro x hx y hy z hz _ _
      exact hneg x hx y hy z hz
    · intro x hx y hy z hz _ _
      exact hneg x hx y hy z hz
  · intro h
    have hbefore : ∀ {a b : Cell}, b ∈ S → (Before a b ↔ a.held b < a.read b) :=
      fun hb => before_iff _ (h.legible _ hb)
    refine ⟨?_, ListSort.isStrictWeakOrder_iff.2 ⟨?_, ?_⟩⟩
    · intro a _ b hb
      rw [compareForStack_numbers, if_pos (legible_of_self a (h.legible b hb))]
      exact ⟨_, rfl⟩
    · rintro ⟨a, ha⟩ ⟨b, hb⟩ hab hba
      exact h.asymm ha hb ⟨(hbefore hb).1 hab, (hbefore ha).1 hba⟩
    · rintro ⟨a, ha⟩ ⟨b, hb⟩ ⟨c, hc⟩ hab hbc hac
      rw [hbefore hb, not_lt] at hab
      rw [hbefore hc, not_lt] at hbc
      rw [hbefore hc] at hac
      exact absurd (h.not_before ha hb hc hab hbc) (not_le.2 hac)

/-- The `float` 1234567 comes before itself. -/
theorem not_sortComparator : ¬ SortComparator Set.univ := by
  rintro ⟨-, hordering⟩
  have hself : Before Cell.sevenDigits Cell.sevenDigits := by
    unfold Before
    decide +kernel
  exact hordering.irrefl ⟨Cell.sevenDigits, Set.mem_univ _⟩ hself

end AbstractVM
