import AbstractVM.PushBack
/-!
# Copies of operands (`Operand.tpp:43-66`)

`Operand<T>(IOperand const &)` and `operator=` take any operand, and set the members of an
`Operand<T>` from what the argument tells of itself: its type, its precision and its text.

| here | there |
| --- | --- |
| `Value.convertTo` | the conversion to `T` on assignment to `value_` |
| `readAs` | the branches of `operator=`: the number read in the text |
| `overwrite`, `assign` | `operator=`, its body and its test for self-assignment |
| `construct` | `Operand<T>::Operand(IOperand const & rhs)` |

Objects are told apart by their addresses, of any type `ι`. Neither function ever assigns `str_`, and
`type_` becomes the type of the argument whatever `T` is. (An argument of the static type
`Operand<T>` goes to the implicit members instead, which copy memberwise.)

Main results: `construct_not_consistent`, `assign_copy_iff`, together `copy_iff`.
-/

namespace AbstractVM

open DecimalText (Text)
open Cpp

/-- Assigning `v` to a `value_` that holds `self`: the conversion to its type, `none` where it has no
defined result. -/
def Value.convertTo : Value → Value → Option Value
  | .int T _, .int _ v => some (.int T (wrap T.bits v))
  | .int T _, .real _ x => if T.Fits x.trunc then some (.int T x.trunc) else none
  | .real T _, .int _ v => some (.real T (T.type.cast (SRat.ofInt v)))
  | .real T _, .real _ x => if x.mag ≤ T.type.max then some (.real T (T.type.cast x)) else none

/-- How a call ends. -/
inductive Completion
  | returns
  | throws (e : StdException)
  | undefined
deriving DecidableEq, Repr

namespace Operand

/-- The right side of `value_ = …`. -/
def readAs (type : OperandType) (str : Text) : Except StdException Value :=
  if type = .Int8 then (stoi str).map fun z => .int .int8_t (wrap 8 z)
  else if type = .Int16 then (stoi str).map fun z => .int .int16_t (wrap 16 z)
  else if type = .Int32 then (stoi str).map fun z => .int .int32_t z
  else if type = .Float then (stof str).map fun x => .real .float x
  else (stod str).map fun x => .real .double x

/-- The body of `operator=`: what the object holds afterwards, and how it ends. -/
def overwrite (self rhs : Operand) : Operand × Completion :=
  let self := { self with type_ := rhs.getType, precision_ := rhs.getPrecision }
  match readAs self.type_ rhs.toString with
  | .error e => (self, .throws e)
  | .ok v =>
    match self.value_.convertTo v with
    | none => (self, .undefined)
    | some value => ({ self with value_ := value }, .returns)

section
variable {ι : Type} [DecidableEq ι]

/-- `operator=` on the object at `this`, with the object at `rhs`. -/
def assign (objects : ι → Operand) (this rhs : ι) : (ι → Operand) × Completion :=
  if rhs ≠ this then
    let (self, completion) := overwrite (objects this) (objects rhs)
    (Function.update objects this self, completion)
  else (objects, .returns)

/-- `Operand(IOperand const & rhs)` at the address `this`. Before its body only `str_` is
initialised; `value_`, `type_` and `precision_` are whatever the memory holds. -/
def construct (objects : ι → Operand) (this rhs : ι) (value_ : Value) (type_ : OperandType)
    (precision_ : ℕ) : (ι → Operand) × Completion :=
  assign (Function.update objects this ⟨value_, [], type_, precision_⟩) this rhs

end

/-! ## What a copy is for -/

/-- The representation of an operand: the tag of its own `T`, the rendering of its value. -/
structure Consistent (o : Operand) : Prop where
  type : o.type_ = o.value_.tag
  text : o.str_ = (new o.value_).str_

end Operand

inductive Comparison
  | eq | lt | gt
deriving DecidableEq, Repr

/-- The member function of `Operand<T>`. -/
def Comparison.operator : Comparison → Operand → Operand → Except Fault Bool
  | eq => Operand.eq
  | lt => Operand.lt
  | gt => Operand.gt

/-- No observer tells `o` from `p`, on either side of an operator. -/
structure Operand.Interchangeable (o p : Operand) : Prop where
  getType : o.getType = p.getType
  getPrecision : o.getPrecision = p.getPrecision
  toString : o.toString = p.toString
  arithmetic : ∀ (op : ArithOp) (c : Cell), op.operator o c.operand = op.operator p c.operand ∧
    op.operator c.operand o = op.operator c.operand p
  comparison : ∀ (cmp : Comparison) (c : Cell),
    cmp.operator o c.operand = cmp.operator p c.operand ∧
      cmp.operator c.operand o = cmp.operator c.operand p

/-- The call returns and leaves a consistent operand, and one of the type of `rhs` is
interchangeable with it. -/
structure CopyOf (rhs : Operand) (result : Operand × Completion) : Prop where
  returns : result.2 = .returns
  consistent : result.1.Consistent
  same : rhs.getType = result.1.value_.tag → result.1.Interchangeable rhs

theorem Cell.consistent_operand (c : Cell) : c.operand.Consistent := by
  refine ⟨?_, ?_⟩
  · rw [type_operand, value_operand]
    rfl
  · rw [value_operand]
    rfl

theorem copyOf_self (c : Cell) : CopyOf c.operand (c.operand, .returns) where
  returns := rfl
  consistent := c.consistent_operand
  same _ := ⟨rfl, rfl, rfl, fun _ _ => ⟨rfl, rfl⟩, fun _ _ => ⟨rfl, rfl⟩⟩

/-! ## The body of `operator=` -/

theorem Value.tag_convertTo {self v w : Value} (h : self.convertTo v = some w) : w.tag = self.tag := by
  unfold convertTo at h
  split at h
  · cases h
    rfl
  · split_ifs at h
    cases h
    rfl
  · cases h
    rfl
  · split_ifs at h
    cases h
    rfl

/-- A value of the same `T` is taken over as it is. -/
theorem Value.convertTo_of_valid {self w : Value} (hw : w.Valid) (htag : self.tag = w.tag) :
    self.convertTo w = some w := by
  cases w with
  | int T v =>
    cases self with
    | int U u =>
      rw [IntType.tag_injective htag]
      show some (Value.int T (wrap T.bits v)) = _
      rw [IntType.wrap_eq hw]
    | real U u => exact absurd htag.symm (T.tag_ne_tag U)
  | real T x =>
    cases self with
    | int U u => exact absurd htag (U.tag_ne_tag T)
    | real U u =>
      have hcast : T.type.cast x = x := SRat.ext' rfl hw.2
      rw [RealType.tag_injective htag]
      refine (if_pos hw.1).trans ?_
      rw [hcast]

namespace Operand

section
variable (o rhs : Operand)

/-- **The text is never assigned.** -/
theorem overwrite_str : (overwrite o rhs).1.str_ = o.str_ := by
  unfold overwrite
  dsimp only
  split
  · rfl
  · split <;> rfl

/-- The type is, whatever `T` is. -/
theorem overwrite_type : (overwrite o rhs).1.type_ = rhs.type_ := by
  unfold overwrite
  dsimp only
  split
  · rfl
  · split <;> rfl

/-- The value stays one of `T`. -/
theorem overwrite_tag : (overwrite o rhs).1.value_.tag = o.value_.tag := by
  unfold overwrite
  dsimp only
  split
  · rfl
  · split
    · rfl
    · rename_i hconv
      exact Value.tag_convertTo hconv

end

end Operand

/-- An integer is read exactly. -/
theorem overwrite_int {o : Operand} {T : IntType} {v : ℤ} (hv : T.Fits v)
    (htag : o.value_.tag = T.tag) :
    o.overwrite (Cell.int T v hv).operand = (⟨.int T v, o.str_, T.tag, 0⟩, .returns) := by
  have hread : Operand.readAs T.tag (toStringInt v) = .ok (.int T v) := by
    have hz : stoi (toStringInt v) = .ok v := (stoInt_intText 32 v).trans (if_pos hv.inBits)
    have hwrap := IntType.wrap_eq hv
    unfold Operand.readAs
    rw [hz]
    cases T with
    | int8_t => exact congrArg (fun z => Except.ok (Value.int .int8_t z)) hwrap
    | int16_t => exact congrArg (fun z => Except.ok (Value.int .int16_t z)) hwrap
    | int32_t => rfl
  have hconv : o.value_.convertTo (.int T v) = some (.int T v) :=
    Value.convertTo_of_valid hv htag
  unfold Operand.overwrite
  change (match Operand.readAs T.tag (toStringInt v) with | .error e => _ | .ok w => _) = _
  rw [hread]
  dsimp only
  rw [hconv]
  rfl

/-- What the text of a real is read as, by its own type. -/
def RealType.reread (T : RealType) (x : SRat) : SRat := T.type.cast (x.sig T.digits10 T.digits10_pos)

section
variable {T : RealType} {x : SRat}

theorem valid_reread (h : T.type.InRange (T.decimal.round x.mag)) :
    (Value.real T (T.reread x)).Valid :=
  ⟨h.1, T.type.fmt.round_round (T.decimal.round_nonneg x.mag_nonneg)⟩

theorem readAs_real (T : RealType) (x : SRat) :
    Operand.readAs T.tag (Operand.render T x) =
      if T.type.InRange (T.decimal.round x.mag) then .ok (.real T (T.reread x))
      else .error .out_of_range := by
  have hread : strto T.type T.type.cast (Operand.render T x) =
      if T.type.InRange (T.decimal.round x.mag) then .ok (T.reread x)
      else .error .out_of_range := strto_generalText T.type T.type.cast T.digits10_pos x
  have hbranch : Operand.readAs T.tag (Operand.render T x) =
      (strto T.type T.type.cast (Operand.render T x)).map fun y => .real T y := by
    cases T <;> rfl
  rw [hbranch, hread]
  split <;> rfl

/-- A real is read as its text says, if at all. -/
theorem overwrite_real {o : Operand} (hx : (Value.real T x).Valid) (htag : o.value_.tag = T.tag) :
    o.overwrite (Cell.real T x hx).operand =
      if T.type.InRange (T.decimal.round x.mag) then
        (⟨.real T (T.reread x), o.str_, T.tag, T.digits10⟩, .returns)
      else (⟨o.value_, o.str_, T.tag, T.digits10⟩, .throws .out_of_range) := by
  have hread := readAs_real T x
  unfold Operand.overwrite
  change (match Operand.readAs T.tag (Operand.render T x) with | .error e => _ | .ok w => _) = _
  by_cases hr : T.type.InRange (T.decimal.round x.mag)
  · rw [if_pos hr] at hread ⊢
    have hconv : o.value_.convertTo (.real T (T.reread x)) = some (.real T (T.reread x)) :=
      Value.convertTo_of_valid (valid_reread hr) htag
    rw [hread]
    dsimp only
    rw [hconv]
    rfl
  · rw [if_neg hr] at hread ⊢
    rw [hread]
    rfl

/-- A copy of a real equals the text it was read from. -/
theorem eq_reread (hx : (Value.real T x).Valid) (hr : T.type.InRange (T.decimal.round x.mag))
    (str : Text) (precision : ℕ) :
    Operand.eq ⟨.real T (T.reread x), str, T.tag, precision⟩ (Cell.real T x hx).operand =
      .ok true := by
  let c : Cell := .real T x hx
  let d : Cell := .real T (T.reread x) (valid_reread hr)
  -- the left side enters with its value and its type only
  have hleft : Operand.eq ⟨.real T (T.reread x), str, T.tag, precision⟩ c.operand =
      Operand.eq d.operand c.operand := rfl
  have hspec : Operand.eq d.operand c.operand = if (d.tag.wider c.tag).Reads c.printed then
      .ok (decide ((d.tag.wider c.tag).convert d.stored = (d.tag.wider c.tag).convert c.printed))
      else .error (.std .out_of_range) := compareWith_spec d c fun u v => by simp
  have htag : d.tag.wider c.tag = T.tag := OperandType.wider_self _
  have hreads : T.tag.Reads c.printed := by
    rw [OperandType.reads_tag]
    have habs : |c.printed| = T.decimal.round x.mag := SRat.abs_toRat _
    rwa [habs]
  have hprinted : T.tag.convert c.printed = d.stored := by
    rw [OperandType.convert_tag]
    exact (SRat.toRat_round _ _).symm
  have hstored : T.tag.convert d.stored = d.stored := d.convert_stored
  rw [hleft, hspec, htag, if_pos hreads, hprinted, hstored, decide_eq_true rfl]

end

/-! ## When it makes a copy -/

section
variable {o : Operand}

theorem copyOf_overwrite_int {T : IntType} {v : ℤ} (hv : T.Fits v) (htag : o.value_.tag = T.tag) :
    CopyOf (Cell.int T v hv).operand (o.overwrite (Cell.int T v hv).operand) ↔
      o.str_ = (Cell.int T v hv).operand.str_ := by
  rw [overwrite_int hv htag]
  constructor
  · exact fun h => h.consistent.text
  · intro htext
    rw [htext]
    exact copyOf_self (.int T v hv)

theorem copyOf_overwrite_real {T : RealType} {x : SRat} (hx : (Value.real T x).Valid)
    (htag : o.value_.tag = T.tag) :
    CopyOf (Cell.real T x hx).operand (o.overwrite (Cell.real T x hx).operand) ↔
      o.str_ = (Cell.real T x hx).operand.str_ ∧ HasDecimal T x.mag := by
  rw [overwrite_real hx htag, ← readsBack_iff T x.mag_nonneg]
  by_cases hr : T.type.InRange (T.decimal.round x.mag)
  · rw [if_pos hr]
    constructor
    · intro h
      have hsame := h.same rfl
      refine ⟨hsame.toString, ?_⟩
      -- as the left side of `==` the two agree on the operand itself
      have heq := (hsame.comparison .eq (.real T x hx)).1
      exact (eq_self_real hx.2 hx.1).1 (heq.symm.trans (eq_reread hx hr _ _))
    · rintro ⟨htext, -, hback⟩
      have hvalue : T.reread x = x := SRat.ext' rfl hback
      rw [htext, hvalue]
      exact copyOf_self (.real T x hx)
  · rw [if_neg hr]
    refine iff_of_false ?_ fun h => hr h.2.1
    intro h
    cases h.returns

/-- **When the body of `operator=` makes a copy.** -/
theorem copyOf_overwrite_iff (o : Operand) (c : Cell) :
    CopyOf c.operand (o.overwrite c.operand) ↔ o.value_.tag = c.tag ∧
      o.str_ = c.operand.str_ ∧ ∀ T : RealType, c.tag = T.tag → HasDecimal T |c.stored| := by
  by_cases htag : o.value_.tag = c.tag
  · rw [and_iff_right htag]
    obtain ⟨value, valid⟩ := c
    cases value with
    | int T v =>
      exact (copyOf_overwrite_int valid htag).trans (and_iff_left (T.forall_tag _)).symm
    | real T x =>
      have hstored : |Cell.stored ⟨.real T x, valid⟩| = x.mag := SRat.abs_toRat x
      rw [hstored]
      refine (copyOf_overwrite_real valid htag).trans (and_congr_right fun _ => ?_)
      exact (RealType.forall_tag (T := T) (P := fun U => HasDecimal U x.mag)).symm
  · refine iff_of_false ?_ fun h => htag h.1
    intro h
    have htype := h.consistent.type
    rw [Operand.overwrite_type, Operand.overwrite_tag, Cell.type_operand] at htype
    exact htag htype.symm

end

/-! ## The two members -/

section
variable {ι : Type} [DecidableEq ι] (objects : ι → Operand) (this rhs : ι)

/-- What a call on the object at `this` leaves there, and how it ends. -/
def resultAt (this : ι) (r : (ι → Operand) × Completion) : Operand × Completion := (r.1 this, r.2)

theorem assign_self : Operand.assign objects this this = (objects, .returns) :=
  if_neg (not_not_intro rfl)

theorem resultAt_assign (h : rhs ≠ this) :
    resultAt this (Operand.assign objects this rhs) = (objects this).overwrite (objects rhs) := by
  unfold Operand.assign resultAt
  rw [if_pos h]
  exact Prod.ext (Function.update_self _ _ _) rfl

/-- No other object changes. -/
theorem assign_other {i : ι} (h : i ≠ this) :
    (Operand.assign objects this rhs).1 i = objects i := by
  unfold Operand.assign
  split
  · exact Function.update_of_ne h _ _
  · rfl

/-- `operator=` leaves the text of its receiver as it was. -/
theorem assign_str (i : ι) : ((Operand.assign objects this rhs).1 i).str_ = (objects i).str_ := by
  by_cases hi : i = this
  · subst hi
    by_cases h : rhs = i
    · rw [h, assign_self]
    · have hresult := congrArg Prod.fst (resultAt_assign objects i rhs h)
      change (Operand.assign objects i rhs).1 i = _ at hresult
      rw [hresult, Operand.overwrite_str]
  · rw [assign_other objects this rhs hi]

theorem construct_str (value_ : Value) (type_ : OperandType) (precision_ : ℕ) :
    ((Operand.construct objects this rhs value_ type_ precision_).1 this).str_ = [] := by
  unfold Operand.construct
  rw [assign_str, Function.update_self]

/-- **A constructed copy is never consistent**: its text is empty. -/
theorem construct_not_consistent (value_ : Value) (type_ : OperandType) (precision_ : ℕ) :
    ¬ ((Operand.construct objects this rhs value_ type_ precision_).1 this).Consistent := by
  intro h
  have htext := h.text
  rw [construct_str] at htext
  exact toString_new_ne_nil _ htext.symm

/-- **When assignment makes a copy.** -/
theorem assign_copy_iff {c : Cell} (hc : objects rhs = c.operand) :
    CopyOf c.operand (resultAt this (Operand.assign objects this rhs)) ↔ rhs = this ∨
      ((objects this).value_.tag = c.tag ∧ (objects this).str_ = c.operand.str_ ∧
        ∀ T : RealType, c.tag = T.tag → HasDecimal T |c.stored|) := by
  by_cases h : rhs = this
  · refine iff_of_true ?_ (Or.inl h)
    subst h
    rw [assign_self]
    change CopyOf c.operand (objects rhs, .returns)
    rw [hc]
    exact copyOf_self c
  · rw [or_iff_right h, resultAt_assign objects this rhs h, hc]
    exact copyOf_overwrite_iff (objects this) c

/-- **Which copies are faithful.** The constructor makes none. Assignment makes one exactly when it
is a self-assignment, or when the receiver is of the type of the argument and already has its text,
and the argument is an integer, or the real nearest to some decimal of at most `digits10`
significant digits. -/
theorem copy_iff {c : Cell} (hc : objects rhs = c.operand) :
    (∀ value_ type_ precision_, ¬ CopyOf c.operand
      (resultAt this (Operand.construct objects this rhs value_ type_ precision_))) ∧
    (CopyOf c.operand (resultAt this (Operand.assign objects this rhs)) ↔ rhs = this ∨
      ((objects this).value_.tag = c.tag ∧ (objects this).str_ = c.operand.str_ ∧
        ∀ T : RealType, c.tag = T.tag → HasDecimal T |c.stored|)) := by
  constructor
  · intro value_ type_ precision_ h
    exact construct_not_consistent objects this rhs value_ type_ precision_ h.consistent
  · exact assign_copy_iff objects this rhs hc

end

/-- `int8(42)`. -/
def Cell.fortyTwo : Cell := int .int8_t 42 (by decide)

/-- `int8(42)` assigned to another `int8(42)`. -/
theorem copy_forty_two : CopyOf Cell.fortyTwo.operand
    (resultAt true (Operand.assign (fun _ => Cell.fortyTwo.operand) true false)) :=
  (copy_iff (fun _ : Bool => Cell.fortyTwo.operand) true false rfl).2.2
    (Or.inr ⟨rfl, rfl, fun T hT => by cases T <;> cases hT⟩)

/-- A copy of `int8(42)` has the empty text, and `42` assigned to the object that holds `7` leaves
it with the text `7`. -/
theorem not_copyOf :
    (¬ ∀ value_ type_ precision_, CopyOf Cell.fortyTwo.operand (resultAt true
      (Operand.construct (fun _ => Cell.fortyTwo.operand) true false value_ type_ precision_))) ∧
    ¬ CopyOf Cell.fortyTwo.operand (resultAt true (Operand.assign
      (fun i => if i then Operand.new (.int .int8_t 7) else Cell.fortyTwo.operand) true false)) := by
  constructor
  · intro h
    have htext := (h (.int .int8_t 0) .Int8 0).consistent.text
    exact absurd htext (by decide)
  · intro h
    exact absurd h.consistent.text (by decide)

end AbstractVM
