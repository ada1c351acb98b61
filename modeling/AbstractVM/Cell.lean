import AbstractVM.Operators
/-!
# Cells: the values an operand of the machine can hold

A `Value` on its own may be anything; a `Cell` is one that its type can represent. Everything the
factory builds is the operand of a cell, so a stack of the machine is a list of cells.

| here | what it says of the source |
| --- | --- |
| `IntType.Fits`, `Value.Valid` | the range of the template argument; a real is finite and on its grid |
| `createInt_eq_ok`, `createReal_eq_ok` | when `createInt8` … `createDouble` succeed, and with which value |
| `createOperand_cell` | what `createOperand` returns is a cell of the requested type, or the null of `NoType` |
-/

namespace AbstractVM

open DecimalText (Text)
open Cpp

/-! ## Integers -/

namespace IntType

def Fits (T : IntType) (z : ℤ) : Prop := T.min ≤ z ∧ z ≤ T.max

instance (T : IntType) (z : ℤ) : Decidable (T.Fits z) := by unfold Fits; infer_instance

theorem fits_iff_inBits (T : IntType) (z : ℤ) : T.Fits z ↔ InBits T.bits z := by
  unfold Fits InBits min max
  omega

theorem bits_pos (T : IntType) : 0 < T.bits := by cases T <;> decide

theorem bits_le (T : IntType) : T.bits ≤ 32 := by cases T <;> decide

theorem wrap_eq {T : IntType} {z : ℤ} (h : T.Fits z) : wrap T.bits z = z :=
  Cpp.wrap_eq T.bits_pos ((T.fits_iff_inBits z).1 h)

/-- Every integer cell is a 32-bit value. -/
theorem Fits.inBits {T : IntType} {z : ℤ} (h : T.Fits z) : InBits 32 z :=
  ((T.fits_iff_inBits z).1 h).mono T.bits_le

/-- The end of the error text of `createInt8` and its siblings. -/
def notType : IntType → Text
  | int8_t => " is not int8 type".toList
  | int16_t => " is not int16 type".toList
  | int32_t => " is not int32 type".toList

end IntType

/-! ## Reals -/

namespace RealType

/-- The end of the error text of `createFloat` and `createDouble`. -/
def notType : RealType → Text
  | float => " is not float type".toList
  | double => " is not double type".toList

theorem max_nonneg (T : RealType) : 0 ≤ T.type.max := by cases T <;> decide +kernel

/-- The largest value is a value. -/
theorem round_max (T : RealType) : T.type.fmt.round T.type.max = T.type.max := by
  cases T <;> decide +kernel

theorem round_le_max (T : RealType) {q : ℚ} (h0 : 0 ≤ q) (h : q ≤ T.type.max) :
    T.type.fmt.round q ≤ T.type.max := by
  have hm := T.type.fmt.round_mono h0 h
  rwa [T.round_max] at hm

end RealType

/-! Tags tell the template arguments apart. -/

theorem IntType.tag_injective : Function.Injective IntType.tag := by
  intro T U h
  cases T <;> cases U <;> first | rfl | cases h

theorem RealType.tag_injective : Function.Injective RealType.tag := by
  intro T U h
  cases T <;> cases U <;> first | rfl | cases h

theorem IntType.tag_ne_tag (T : IntType) (U : RealType) : T.tag ≠ U.tag := by
  intro h
  cases T <;> cases U <;> cases h

/-- What is said of the real type of an integer. -/
theorem IntType.forall_tag (T : IntType) (P : RealType → Prop) : ∀ U : RealType, T.tag = U.tag → P U :=
  fun U hU => absurd hU (T.tag_ne_tag U)

/-- What is said of the real type of a real. -/
theorem RealType.forall_tag {T : RealType} {P : RealType → Prop} :
    (∀ U : RealType, T.tag = U.tag → P U) ↔ P T := by
  constructor
  · exact fun h => h T rfl
  · intro h U hU
    exact RealType.tag_injective hU ▸ h

/-- A value its type can hold. -/
def Value.Valid : Value → Prop
  | .int T v => T.Fits v
  | .real T x => x.mag ≤ T.type.max ∧ T.type.fmt.round x.mag = x.mag

/-- A valid value: the content of an operand. -/
structure Cell where
  value : Value
  valid : value.Valid

namespace Cell

def operand (c : Cell) : Operand := Operand.new c.value

def tag (c : Cell) : OperandType := c.value.tag

/-- An integer cell. -/
def int (T : IntType) (v : ℤ) (h : T.Fits v) : Cell := ⟨.int T v, h⟩

/-- A real cell. -/
def real (T : RealType) (x : SRat) (h : (Value.real T x).Valid) : Cell := ⟨.real T x, h⟩

@[simp] theorem getType_operand (c : Cell) : c.operand.getType = c.tag := Operand.getType_new _
@[simp] theorem type_operand (c : Cell) : c.operand.type_ = c.tag := Operand.type_new _
@[simp] theorem value_operand (c : Cell) : c.operand.value_ = c.value := Operand.value_new _
@[simp] theorem tag_int (T : IntType) (v : ℤ) (h : T.Fits v) : (int T v h).tag = T.tag := rfl

theorem tag_real {c : Cell} {T : RealType} {x : SRat} (h : c.value = .real T x) : c.tag = T.tag := by
  unfold tag
  rw [h]
  rfl

/-- A cell is an integer of a type, or a real of a type. -/
theorem cases_on (c : Cell) :
    (∃ T v h, c = int T v h) ∨
      ∃ T x, c.value = .real T x ∧ x.mag ≤ T.type.max ∧ T.type.fmt.round x.mag = x.mag := by
  obtain ⟨value, valid⟩ := c
  cases value with
  | int T v => exact Or.inl ⟨T, v, valid, rfl⟩
  | real T x => exact Or.inr ⟨T, x, rfl, valid⟩

end Cell

/-! ## What the factory builds -/

theorem createInt_eq_ok {T : IntType} {notType L : Text} {o : Operand} :
    createInt T notType L = .ok o ↔ ∃ z, stoll L = .ok z ∧ T.Fits z ∧ o = Operand.new (.int T z) := by
  unfold createInt
  cases h : stoll L with
  | error e => cases e <;> simp
  | ok z =>
    simp only [Except.ok.injEq, exists_eq_left']
    by_cases hmax : z > T.max
    · simp [hmax, IntType.Fits, not_le.2 hmax]
    · by_cases hmin : z < T.min
      · simp [hmax, hmin, IntType.Fits, not_le.2 hmin]
      · have hfits : T.Fits z := ⟨not_lt.1 hmin, not_lt.1 hmax⟩
        simp [hmax, hmin, hfits, IntType.wrap_eq hfits, eq_comm]

theorem createReal_eq_ok {T : RealType} {notType L : Text} {o : Operand} :
    createReal T notType L = .ok o ↔
      ∃ x, stold L = .ok x ∧ x.mag ≤ T.type.max ∧ o = Operand.new (.real T (T.type.cast x)) := by
  unfold createReal
  cases h : stold L with
  | error e => cases e <;> simp
  | ok x =>
    simp only [Except.ok.injEq, exists_eq_left']
    have hmag := x.mag_nonneg
    have hmaxnn := T.max_nonneg
    have hiff : x.mag ≤ T.type.max ↔ ¬ x.toRat > T.type.max ∧ ¬ x.toRat < -T.type.max := by
      unfold SRat.toRat
      split
      · constructor
        · intro hle; constructor <;> intro hc <;> linarith
        · rintro ⟨-, h2⟩; linarith [not_lt.1 h2]
      · constructor
        · intro hle; constructor <;> intro hc <;> linarith
        · rintro ⟨h1, -⟩; exact not_lt.1 h1
    rw [hiff]
    by_cases h1 : x.toRat > T.type.max
    · simp [h1]
    · by_cases h2 : x.toRat < -T.type.max
      · simp [h1, h2]
      · simp [h1, h2, eq_comm]

/-- The two checks before the `switch`. -/
def Accepted (type : OperandType) (L : Text) : Prop := L ≠ [] ∧ isValidValue type L = true

theorem createOperand_int (T : IntType) {L : Text} (h : Accepted T.tag L) :
    createOperand T.tag L = (createInt T T.notType L).map some := by
  unfold createOperand
  rw [if_neg h.1, h.2]
  cases T <;> rfl

theorem createOperand_real (T : RealType) {L : Text} (h : Accepted T.tag L) :
    createOperand T.tag L = (createReal T T.notType L).map some := by
  unfold createOperand
  rw [if_neg h.1, h.2]
  cases T <;> rfl

/-- Success passes the two checks. -/
theorem accepted_of_createOperand {type : OperandType} {L : Text} {r : Option Operand}
    (h : createOperand type L = .ok r) : Accepted type L := by
  unfold createOperand at h
  split at h
  · cases h
  · split at h
    · cases h
    · rename_i h1 h2
      exact ⟨h1, by simpa using h2⟩

/-- Every type is an integer type, a real type, or none. -/
theorem OperandType.cases_tag (t : OperandType) :
    (∃ T : IntType, t = T.tag) ∨ (∃ T : RealType, t = T.tag) ∨ t = .NoType := by
  cases t with
  | Int8 => exact Or.inl ⟨.int8_t, rfl⟩
  | Int16 => exact Or.inl ⟨.int16_t, rfl⟩
  | Int32 => exact Or.inl ⟨.int32_t, rfl⟩
  | Float => exact Or.inr (Or.inl ⟨.float, rfl⟩)
  | Double => exact Or.inr (Or.inl ⟨.double, rfl⟩)
  | NoType => exact Or.inr (Or.inr rfl)

theorem createOperand_int_eq_ok {T : IntType} {L : Text} {r : Option Operand} :
    createOperand T.tag L = .ok r ↔
      Accepted T.tag L ∧ ∃ z, stoll L = .ok z ∧ T.Fits z ∧ r = some (Operand.new (.int T z)) := by
  constructor
  · intro h
    have hacc := accepted_of_createOperand h
    rw [createOperand_int T hacc, ListSort.map_eq_ok] at h
    obtain ⟨o, ho, rfl⟩ := h
    obtain ⟨z, hz, hfits, rfl⟩ := createInt_eq_ok.1 ho
    exact ⟨hacc, z, hz, hfits, rfl⟩
  · rintro ⟨hacc, z, hz, hfits, rfl⟩
    rw [createOperand_int T hacc, createInt_eq_ok.2 ⟨z, hz, hfits, rfl⟩]
    rfl

theorem createOperand_real_eq_ok {T : RealType} {L : Text} {r : Option Operand} :
    createOperand T.tag L = .ok r ↔ Accepted T.tag L ∧ ∃ x, stold L = .ok x ∧
      x.mag ≤ T.type.max ∧ r = some (Operand.new (.real T (T.type.cast x))) := by
  constructor
  · intro h
    have hacc := accepted_of_createOperand h
    rw [createOperand_real T hacc, ListSort.map_eq_ok] at h
    obtain ⟨o, ho, rfl⟩ := h
    obtain ⟨x, hx, hmax, rfl⟩ := createReal_eq_ok.1 ho
    exact ⟨hacc, x, hx, hmax, rfl⟩
  · rintro ⟨hacc, x, hx, hmax, rfl⟩
    rw [createOperand_real T hacc, createReal_eq_ok.2 ⟨x, hx, hmax, rfl⟩]
    rfl

/-- A cast lands on the grid of the type, and inside its range. -/
theorem valid_cast {T : RealType} {x : SRat} (h : x.mag ≤ T.type.max) :
    (Value.real T (T.type.cast x)).Valid :=
  ⟨T.round_le_max x.mag_nonneg h, T.type.fmt.round_round x.mag_nonneg⟩

/-- **The factory builds cells.** -/
theorem createOperand_cell {t : OperandType} {L : Text} {r : Option Operand}
    (h : createOperand t L = .ok r) :
    (t = .NoType ∧ r = none) ∨ ∃ c : Cell, c.tag = t ∧ r = some c.operand := by
  rcases t.cases_tag with ⟨T, rfl⟩ | ⟨T, rfl⟩ | rfl
  · obtain ⟨-, z, -, hfits, rfl⟩ := createOperand_int_eq_ok.1 h
    exact Or.inr ⟨.int T z hfits, rfl, rfl⟩
  · obtain ⟨-, x, -, hmax, rfl⟩ := createOperand_real_eq_ok.1 h
    exact Or.inr ⟨⟨_, valid_cast hmax⟩, rfl, rfl⟩
  · refine Or.inl ⟨rfl, ?_⟩
    obtain ⟨h1, h2⟩ := accepted_of_createOperand h
    unfold createOperand at h
    rw [if_neg h1, h2] at h
    exact (Except.ok.inj h).symm

end AbstractVM
