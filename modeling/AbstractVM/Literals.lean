import AbstractVM.Arithmetic
/-!
# Literals: which are accepted, as what, and which error the others get

`isValidValue` scans the characters with two flags; `stoll` and `stold` then convert the longest
prefix that is a number, `stold` to the nearest `long double`, and how much they consumed is not
looked at.

| here | what it says of the source |
| --- | --- |
| `IntLiteral`, `DecimalLiteral` | what a literal of an integer or of a real type ought to be, with what it denotes |
| `accepted_int_iff`, `accepted_real_iff` | what `isValidValue` lets through |
| `fitReal` | the range check of `createFloat` and `createDouble`, on the number read |
| `createOperand_intLiteral`, `createOperand_mantissa` | what becomes of it |

Main results: `range_errors_iff`, `whole_literal_iff`.
-/

namespace AbstractVM

open DecimalText
open Cpp

/-! ## The two languages -/

/-- An optional sign and at least one digit, denoting `v`. -/
def IntLiteral (s : Text) (v : ℤ) : Prop :=
  ∃ sgn ds neg, SignText sgn neg ∧ Digits ds ∧ ds ≠ [] ∧ s = sgn ++ ds ∧ v = signed neg (digitsVal ds)

/-- Nothing, or `e` and digits, perhaps none. -/
inductive ExpTail : Text → Prop
  | none : ExpTail []
  | exp {ds : Text} (hds : Digits ds) : ExpTail ('e' :: ds)

/-- Nothing, or `e` and at least one digit, denoting the exponent. -/
inductive Exponent : Text → ℤ → Prop
  | none : Exponent [] 0
  | exp {ds : Text} (hds : Digits ds) (hne : ds ≠ []) : Exponent ('e' :: ds) (digitsVal ds)

/-- An optional sign, a mantissa with at least one digit, perhaps an exponent: the numeral `d`. -/
def DecimalLiteral (s : Text) (d : Numeral) : Prop :=
  ∃ sgn m e, SignText sgn d.neg ∧ Mantissa m d.int d.frac ∧ ¬ (d.int = [] ∧ d.frac = []) ∧
    Exponent e d.exp ∧ s = sgn ++ (m ++ e)

/-- A sign, a mantissa with at least one digit, and an `e` at the end. -/
def BareExponent (s : Text) : Prop :=
  ∃ sgn m int frac neg, SignText sgn neg ∧ Mantissa m int frac ∧ ¬ (int = [] ∧ frac = []) ∧
    s = sgn ++ (m ++ ['e'])

/-! ## What `isValidValue` lets through -/

/-- The loop of `isValidValue` lets digits, `.` and `e` through. -/
theorem scanValue_chars {hasDot hasExp : Bool} {l : Text} (h : scanValue hasDot hasExp l = true) :
    ∀ c ∈ l, c.isDigit = true ∨ c = '.' ∨ c = 'e' := by
  induction l generalizing hasDot hasExp with
  | nil => simp
  | cons c l ih =>
    simp only [scanValue] at h
    rw [List.forall_mem_cons]
    split_ifs at h with hdot hd hexp he hdigit
    · exact ⟨Or.inr (Or.inl hdot), ih h⟩
    · exact ⟨Or.inr (Or.inr hexp), ih h⟩
    · exact ⟨Or.inl (by simpa using hdigit), ih h⟩

theorem scanValue_unsigned {hasDot hasExp : Bool} {l : Text}
    (h : scanValue hasDot hasExp l = true) : Unsigned l := by
  intro c hc
  rcases scanValue_chars h c (List.mem_of_mem_head? hc) with hd | rfl | rfl
  · exact unsigned_digits (digits_cons.2 ⟨hd, digits_nil⟩) c rfl
  · decide
  · decide

/-- The sign is stepped over, and something must follow it. -/
theorem isValidValue_iff {type : OperandType} {s : Text} :
    isValidValue type s = true ↔ ∃ sgn l neg, SignText sgn neg ∧ l ≠ [] ∧
      scanValue (decide (type < .Float)) (decide (type < .Float)) l = true ∧ s = sgn ++ l := by
  generalize hint : decide (type < OperandType.Float) = isInt
  constructor
  · intro h
    cases s with
    | nil => cases h
    | cons c rest =>
      simp only [isValidValue, hint] at h
      by_cases hsign : c = '+' ∨ c = '-'
      · rw [if_pos hsign] at h
        split_ifs at h with hne
        rcases hsign with rfl | rfl
        · exact ⟨['+'], rest, false, .plus, hne, h, rfl⟩
        · exact ⟨['-'], rest, true, .minus, hne, h, rfl⟩
      · rw [if_neg hsign, if_neg (List.cons_ne_nil c rest)] at h
        exact ⟨[], c :: rest, false, .none, List.cons_ne_nil c rest, h, rfl⟩
  · rintro ⟨sgn, l, neg, hs, hne, hscan, rfl⟩
    cases hs with
    | none =>
      cases l with
      | nil => exact absurd rfl hne
      | cons c rest =>
        have hun := scanValue_unsigned hscan c rfl
        simpa [isValidValue, hint, hun.1, hun.2] using hscan
    | plus => simpa [isValidValue, hint, hne] using hscan
    | minus => simpa [isValidValue, hint, hne] using hscan

theorem isValidValue_chars {type : OperandType} {l : Text} (h : isValidValue type l = true) :
    ∀ c ∈ l, c.isDigit = true ∨ c = '.' ∨ c = 'e' ∨ c = '+' ∨ c = '-' := by
  obtain ⟨sgn, u, neg, hs, -, hscan, rfl⟩ := isValidValue_iff.1 h
  intro c hc
  rcases List.mem_append.1 hc with hc | hc
  · cases hs with
    | none => cases hc
    | plus => simp [List.mem_singleton.1 hc]
    | minus => simp [List.mem_singleton.1 hc]
  · rcases scanValue_chars hscan c hc with h | h | h
    · exact Or.inl h
    · exact Or.inr (Or.inl h)
    · exact Or.inr (Or.inr (Or.inl h))

/-- A delimiter is in no literal. -/
theorem isValidValue_not_mem {type : OperandType} {l : Text} {d : Char}
    (hd : ¬ (d.isDigit = true ∨ d = '.' ∨ d = 'e' ∨ d = '+' ∨ d = '-'))
    (h : isValidValue type l = true) : d ∉ l :=
  fun hmem => hd (isValidValue_chars h d hmem)

/-- No literal starts with white space. -/
theorem dropWhile_isSpace {type : OperandType} {s : Text} (h : isValidValue type s = true) :
    s.dropWhile isSpace = s := by
  cases s with
  | nil => rfl
  | cons c s =>
    by_cases hc : isSpace c = true
    · have hchar := isValidValue_chars h c List.mem_cons_self
      rcases isSpace_cases hc with rfl | rfl | rfl | rfl | rfl | rfl <;>
        exact absurd hchar (by decide)
    · simp [hc]

/-- After an `e`, or in an integer, only digits. -/
theorem scanValue_digits_iff {b : Bool} {l : Text} : scanValue b true l = true ↔ Digits l := by
  constructor
  · intro h
    obtain ⟨ds, u, rfl, hds, hu⟩ := digits_split l
    rw [scanValue_append hds] at h
    cases u with
    | nil => simpa using hds
    | cons c u =>
      have hc := noDigit_cons.1 hu
      simp [scanValue, hc] at h
  · exact fun h => scanValue_digits h b true

/-- After the point, digits and perhaps an exponent. -/
theorem scanValue_point_iff {l : Text} :
    scanValue true false l = true ↔ ∃ ds e, l = ds ++ e ∧ Digits ds ∧ ExpTail e := by
  constructor
  · intro h
    obtain ⟨ds, u, rfl, hds, hu⟩ := digits_split l
    rw [scanValue_append hds] at h
    cases u with
    | nil => exact ⟨ds, [], rfl, hds, .none⟩
    | cons c u =>
      have hc := noDigit_cons.1 hu
      by_cases hexp : c = 'e'
      · subst hexp
        exact ⟨ds, 'e' :: u, rfl, hds, .exp (scanValue_digits_iff.1 (by simpa [scanValue] using h))⟩
      · simp [scanValue, hexp, hc] at h
  · rintro ⟨ds, e, rfl, hds, he⟩
    rw [scanValue_append hds]
    cases he with
    | none => rfl
    | exp hds => simpa [scanValue] using scanValue_digits_iff.2 hds

/-- From the start: a mantissa and perhaps an exponent, either of which may lack its digits. -/
theorem scanValue_real_iff {l : Text} :
    scanValue false false l = true ↔
      ∃ m int frac e, l = m ++ e ∧ Mantissa m int frac ∧ ExpTail e := by
  constructor
  · intro h
    obtain ⟨ds, u, rfl, hds, hu⟩ := digits_split l
    rw [scanValue_append hds] at h
    cases u with
    | nil => exact ⟨ds, ds, [], [], rfl, .whole hds, .none⟩
    | cons c u =>
      have hc := noDigit_cons.1 hu
      by_cases hdot : c = '.'
      · subst hdot
        obtain ⟨frac, e, rfl, hfrac, he⟩ := scanValue_point_iff.1 (by simpa [scanValue] using h)
        exact ⟨ds ++ '.' :: frac, ds, frac, e, by simp, .point hds hfrac, he⟩
      · by_cases hexp : c = 'e'
        · subst hexp
          exact ⟨ds, ds, [], 'e' :: u, rfl, .whole hds,
            .exp (scanValue_digits_iff.1 (by simpa [scanValue] using h))⟩
        · simp [scanValue, hdot, hexp, hc] at h
  · rintro ⟨m, int, frac, e, rfl, hm, he⟩
    cases hm with
    | whole hint =>
      rw [scanValue_append hint]
      cases he with
      | none => rfl
      | exp hds => simpa [scanValue] using scanValue_digits_iff.2 hds
    | @point int frac hint hfrac =>
      rw [List.append_assoc, scanValue_append hint]
      simpa [scanValue] using scanValue_point_iff.2 ⟨frac, e, rfl, hfrac, he⟩

theorem accepted_int_iff (T : IntType) {s : Text} :
    Accepted T.tag s ↔ ∃ v, IntLiteral s v := by
  have hint : decide (T.tag < OperandType.Float) = true := decide_eq_true T.tag_lt_float
  unfold Accepted
  rw [isValidValue_iff, hint]
  constructor
  · rintro ⟨-, sgn, l, neg, hs, hne, hscan, rfl⟩
    exact ⟨_, sgn, l, neg, hs, scanValue_digits_iff.1 hscan, hne, rfl, rfl⟩
  · rintro ⟨v, sgn, ds, neg, hs, hds, hne, rfl, -⟩
    refine ⟨by simp [hne], sgn, ds, neg, hs, hne, scanValue_digits_iff.2 hds, rfl⟩

theorem accepted_real_iff (T : RealType) {s : Text} :
    Accepted T.tag s ↔ ∃ sgn m int frac e neg, SignText sgn neg ∧ Mantissa m int frac ∧ ExpTail e ∧
      m ++ e ≠ [] ∧ s = sgn ++ (m ++ e) := by
  have hreal : decide (T.tag < OperandType.Float) = false := decide_eq_false T.float_le_tag
  unfold Accepted
  rw [isValidValue_iff, hreal]
  constructor
  · rintro ⟨-, sgn, l, neg, hs, hne, hscan, rfl⟩
    obtain ⟨m, int, frac, e, rfl, hm, he⟩ := scanValue_real_iff.1 hscan
    exact ⟨sgn, m, int, frac, e, neg, hs, hm, he, hne, rfl⟩
  · rintro ⟨sgn, m, int, frac, e, neg, hs, hm, he, hne, rfl⟩
    refine ⟨fun h => hne (List.append_eq_nil_iff.1 h).2, sgn, m ++ e, neg, hs, hne, ?_, rfl⟩
    exact scanValue_real_iff.2 ⟨m, int, frac, e, rfl, hm, he⟩

/-! ## Errors -/

/-- The factory throws an exception of type `t`. -/
def Refuses (type : OperandType) (s : Text) (t : ErrorType) : Prop :=
  ∃ e, createOperand type s = .error e ∧ e.type = t

theorem Refuses.unique {type : OperandType} {s : Text} {t u : ErrorType} (h : Refuses type s t)
    (h' : Refuses type s u) : t = u := by
  obtain ⟨e, he, rfl⟩ := h
  obtain ⟨e', he', rfl⟩ := h'
  rw [he] at he'
  cases he'
  rfl

theorem refuses_of_not_accepted {type : OperandType} {s : Text} (h : ¬ Accepted type s) :
    Refuses type s .InvalidValueFormatException := by
  unfold Refuses createOperand
  by_cases hempty : s = []
  · rw [if_pos hempty]
    exact ⟨_, rfl, rfl⟩
  · have hinvalid : (!isValidValue type s) = true := by
      by_contra hvalid
      exact h ⟨hempty, by simpa using hvalid⟩
    rw [if_neg hempty, if_pos hinvalid]
    exact ⟨_, rfl, rfl⟩

/-! ## Integer literals -/

section
variable (T : IntType) {s : Text} {v : ℤ}

theorem IntLiteral.unique {w : ℤ} (h : IntLiteral s v) (h' : IntLiteral s w) : v = w := by
  have hscan : ∀ {u : ℤ}, IntLiteral s u → scanInteger s = some (u, []) := by
    rintro u ⟨sgn, ds, neg, hs, hds, hne, rfl, rfl⟩
    simpa using scanInteger_digits hs hds hne noDigit_nil
  have heq := (hscan h).symm.trans (hscan h')
  cases heq
  rfl

theorem stoll_intLiteral (h : IntLiteral s v) :
    stoll s = if InBits 64 v then .ok v else .error .out_of_range := by
  have hacc := (accepted_int_iff .int8_t).2 ⟨v, h⟩
  obtain ⟨sgn, ds, neg, hs, hds, hne, rfl, rfl⟩ := h
  have hscan := scanInteger_digits hs hds hne noDigit_nil
  rw [List.append_nil] at hscan
  unfold stoll stoInt
  rw [dropWhile_isSpace hacc.2, hscan]

/-- What the factory makes of an integer literal: beyond 64 bits it does not look at the sign. -/
theorem createOperand_intLiteral (h : IntLiteral s v) :
    createOperand T.tag s =
      if ¬ InBits 64 v ∨ T.max < v then .error (OverflowException (s ++ T.notType))
      else if v < T.min then .error (UnderflowException (s ++ T.notType))
      else .ok (some (Operand.new (.int T v))) := by
  rw [createOperand_int T ((accepted_int_iff T).2 ⟨v, h⟩)]
  unfold createInt
  rw [stoll_intLiteral h]
  by_cases hbits : InBits 64 v
  · by_cases hmax : T.max < v
    · simp [hbits, hmax, Except.map]
    · by_cases hmin : v < T.min
      · simp [hbits, hmax, hmin, Except.map]
      · have hfits : T.Fits v := ⟨not_lt.1 hmin, not_lt.1 hmax⟩
        simp [hbits, hmax, hmin, Except.map, IntType.wrap_eq hfits]
  · simp [hbits, Except.map]

/-- The errors of an integer type are the ones its literals ask for. -/
def IntSides (T : IntType) (s : Text) : Prop :=
  (Refuses T.tag s .InvalidValueFormatException ↔ ¬ ∃ v, IntLiteral s v) ∧
    ∀ v, IntLiteral s v →
      (Refuses T.tag s .OverflowException ↔ T.max < v) ∧
      (Refuses T.tag s .UnderflowException ↔ v < T.min) ∧
      (T.Fits v → createOperand T.tag s = .ok (some (Operand.new (.int T v))))

theorem max_lt_bits : T.max < 2 ^ 63 ∧ -2 ^ 63 ≤ T.min ∧ 0 ≤ T.max := by cases T <;> decide

theorem intSides_iff : IntSides T s ↔ ¬ ∃ v, IntLiteral s v ∧ v < -2 ^ 63 := by
  obtain ⟨hmaxlt, hminle, hmaxnn⟩ := max_lt_bits T
  constructor
  · rintro ⟨-, hsides⟩ ⟨v, hv, hlow⟩
    have hbits : ¬ InBits 64 v := by
      rintro ⟨h1, -⟩
      norm_num at h1 hlow
      omega
    have hover : Refuses T.tag s .OverflowException := by
      refine ⟨OverflowException (s ++ T.notType), ?_, rfl⟩
      rw [createOperand_intLiteral T hv, if_pos (Or.inl hbits)]
    have := (hsides v hv).1.1 hover
    norm_num at hlow
    omega
  · intro hno
    by_cases hlit : ∃ v, IntLiteral s v
    · obtain ⟨v, hv⟩ := hlit
      have hlow : -2 ^ 63 ≤ v := by
        by_contra hlt
        exact hno ⟨v, hv, not_le.1 hlt⟩
      have hbits : ¬ InBits 64 v → T.max < v := by
        intro hnot
        unfold InBits at hnot
        norm_num at hnot hlow hmaxlt
        omega
      have hcreate := createOperand_intLiteral T hv
      rw [if_congr (or_iff_right_of_imp hbits) rfl rfl] at hcreate
      have hformat : ¬ Refuses T.tag s .InvalidValueFormatException := by
        rintro ⟨e, he, htype⟩
        rw [hcreate] at he
        split_ifs at he <;> cases he <;> cases htype
      refine ⟨iff_of_false hformat (fun h => h ⟨v, hv⟩), ?_⟩
      intro w hw
      cases hv.unique hw
      unfold Refuses
      rw [hcreate]
      refine ⟨?_, ?_, ?_⟩
      · constructor
        · rintro ⟨e, he, htype⟩
          split_ifs at he with h1 h2
          · exact h1
          · cases he
            cases htype
        · intro h
          rw [if_pos h]
          exact ⟨_, rfl, rfl⟩
      · constructor
        · rintro ⟨e, he, htype⟩
          split_ifs at he with h1 h2
          · cases he
            cases htype
          · exact h2
        · intro h
          have hle : T.min ≤ T.max := by cases T <;> decide
          rw [if_neg (by omega), if_pos h]
          exact ⟨_, rfl, rfl⟩
      · intro h
        rw [if_neg (not_lt.2 h.2), if_neg (not_lt.2 h.1)]
    · have hnot : ¬ Accepted T.tag s := fun h => hlit ((accepted_int_iff T).1 h)
      exact ⟨iff_of_true (refuses_of_not_accepted hnot) hlit, fun v hv => absurd ⟨v, hv⟩ hlit⟩

end

/-! ## The range check of a real -/

/-- The range check of `createFloat` and `createDouble` on the number `num`, read in `value`. -/
def fitReal (T : RealType) (value : Text) (num : SRat) : Except AVMException Cell :=
  if hmax : T.type.max < num.toRat then .error (OverflowException (value ++ T.notType))
  else if hmin : num.toRat < -T.type.max then .error (UnderflowException (value ++ T.notType))
  else
    .ok ⟨.real T (T.type.cast num), valid_cast (by
      rw [← SRat.abs_toRat]
      exact abs_le.2 ⟨not_lt.1 hmin, not_lt.1 hmax⟩)⟩

section
variable {T : RealType} {value : Text} {num : SRat} {e : AVMException} {c : Cell}

theorem createReal_of_stold (h : stold value = .ok num) :
    createReal T T.notType value = (fitReal T value num).map Cell.operand := by
  unfold createReal fitReal
  rw [h]
  by_cases hmax : T.type.max < num.toRat
  · simp [hmax, Except.map]
  · by_cases hmin : num.toRat < -T.type.max
    · simp [hmax, hmin, Except.map]
    · simp [hmax, hmin, Except.map, Cell.operand]

theorem fitReal_of_le (h : num.mag ≤ T.type.max) (hc : c.value = .real T (T.type.cast num)) :
    fitReal T value num = .ok c := by
  obtain ⟨v, hv⟩ := c
  cases hc
  rw [← SRat.abs_toRat] at h
  unfold fitReal
  rw [dif_neg (not_lt.2 (abs_le.1 h).2), dif_neg (not_lt.2 (abs_le.1 h).1)]

theorem value_of_fitReal (h : fitReal T value num = .ok c) :
    c.value = .real T (T.type.cast num) := by
  unfold fitReal at h
  split at h
  · cases h
  · split at h
    · cases h
    · cases h
      rfl

theorem fitReal_error (h : fitReal T value num = .error e) :
    e.type = .OverflowException ∨ e.type = .UnderflowException := by
  unfold fitReal at h
  split at h
  · cases h
    exact Or.inl rfl
  · split at h
    · cases h
      exact Or.inr rfl
    · cases h

end

/-! A `long double` has the sign of the number it is read from. -/

section
variable {T : RealType} {value : Text} {x : SRat} {e : AVMException}

theorem pos_of_fitReal_overflow (h : fitReal T value (longDoubleType.cast x) = .error e)
    (htype : e.type = .OverflowException) : 0 < x.toRat := by
  have hmaxnn := T.max_nonneg
  unfold fitReal at h
  split at h
  · rename_i hmax
    by_contra hno
    have hsign := longDoubleType.toRat_cast_nonpos (not_lt.1 hno)
    linarith
  · split at h
    · cases h
      cases htype
    · cases h

theorem neg_of_fitReal_underflow (h : fitReal T value (longDoubleType.cast x) = .error e)
    (htype : e.type = .UnderflowException) : x.toRat < 0 := by
  have hmaxnn := T.max_nonneg
  unfold fitReal at h
  split at h
  · cases h
    cases htype
  · split at h
    · rename_i hmin
      by_contra hno
      have hsign := longDoubleType.toRat_cast_nonneg (not_lt.1 hno)
      linarith
    · cases h

end

/-! ## Real literals -/

theorem scanExp_exponent {e : Text} {x : ℤ} (h : Exponent e x) : scanExp e = (x, []) := by
  cases h with
  | none => rfl
  | @exp ds hds hne =>
    obtain ⟨h1, h2⟩ := takeWhile_digits hds noDigit_nil
    rw [List.append_nil] at h1 h2
    have hsign := scanSign_of_unsigned (unsigned_digits hds)
    simp [scanExp, hsign, h1, h2, hne, signed]

theorem Exponent.tail {e : Text} {x : ℤ} (h : Exponent e x) : ExpTail e := by
  cases h with
  | none => exact .none
  | exp hds _ => exact .exp hds

/-- An exponent lacks its digits, or is one. -/
theorem ExpTail.cases {e : Text} (h : ExpTail e) : e = ['e'] ∨ ∃ x, Exponent e x := by
  cases h with
  | none => exact Or.inr ⟨0, .none⟩
  | @exp ds hds =>
    by_cases hne : ds = []
    · exact Or.inl (by rw [hne])
    · exact Or.inr ⟨_, .exp hds hne⟩

section
variable (T : RealType) {sgn m int frac e : Text} {neg : Bool}

theorem accepted_mantissa (hs : SignText sgn neg) (hm : Mantissa m int frac) (he : ExpTail e)
    (hdigit : ¬ (int = [] ∧ frac = [])) : Accepted T.tag (sgn ++ (m ++ e)) := by
  refine (accepted_real_iff T).2 ⟨sgn, m, int, frac, e, neg, hs, hm, he, ?_, rfl⟩
  intro hempty
  rw [(List.append_eq_nil_iff.1 hempty).1] at hm
  generalize hnil : ([] : Text) = m' at hm
  cases hm with
  | whole hint => exact hdigit ⟨hnil.symm, rfl⟩
  | point hint hfrac => simp at hnil

/-- What `stold` makes of an accepted text. -/
theorem stold_mantissa (hs : SignText sgn neg) (hm : Mantissa m int frac) (he : ExpTail e)
    (hacc : Accepted T.tag (sgn ++ (m ++ e))) :
    stold (sgn ++ (m ++ e)) =
      if int = [] ∧ frac = [] then .error .invalid_argument
      else if longDoubleType.InRange (Numeral.mk neg int frac (scanExp e).1).mag then
        .ok (longDoubleType.cast (numeralValue ⟨neg, int, frac, (scanExp e).1⟩))
      else .error .out_of_range := by
  have hun : Unsigned (m ++ e) :=
    scanValue_unsigned (scanValue_real_iff.2 ⟨m, int, frac, e, rfl, hm, he⟩)
  have hstop : NoDigit e ∧ e.head? ≠ some '.' := by
    cases he with
    | none => simp
    | exp hds => exact ⟨noDigit_cons.2 (by decide), by simp⟩
  unfold stold strto
  rw [dropWhile_isSpace hacc.2, scanNumeral_mantissa hs hm hun hstop.1 hstop.2]
  by_cases hdigit : int = [] ∧ frac = []
  · rw [if_pos hdigit, if_pos hdigit]
  · rw [if_neg hdigit, if_neg hdigit]

/-- What the factory makes of a text with a digit in its mantissa: whatever is out of the range of
`long double` is called an overflow. -/
theorem createOperand_mantissa (hs : SignText sgn neg) (hm : Mantissa m int frac) (he : ExpTail e)
    (hdigit : ¬ (int = [] ∧ frac = [])) :
    createOperand T.tag (sgn ++ (m ++ e)) =
      if longDoubleType.InRange (Numeral.mk neg int frac (scanExp e).1).mag then
        (fitReal T (sgn ++ (m ++ e))
          (longDoubleType.cast (numeralValue ⟨neg, int, frac, (scanExp e).1⟩))).map
            fun c => some c.operand
      else .error (OverflowException (sgn ++ (m ++ e) ++ T.notType)) := by
  have hacc := accepted_mantissa T hs hm he hdigit
  have hread := stold_mantissa T hs hm he hacc
  rw [if_neg hdigit] at hread
  rw [createOperand_real T hacc]
  by_cases hrange : longDoubleType.InRange (Numeral.mk neg int frac (scanExp e).1).mag
  · rw [if_pos hrange] at hread ⊢
    rw [createReal_of_stold hread]
    cases fitReal T _ _ <;> rfl
  · rw [if_neg hrange] at hread ⊢
    unfold createReal
    rw [hread]
    rfl

/-- Without a digit in the mantissa there is no number. -/
theorem refuses_of_no_digit (hs : SignText sgn neg) (hm : Mantissa m int frac) (he : ExpTail e)
    (hnone : int = [] ∧ frac = []) (hacc : Accepted T.tag (sgn ++ (m ++ e))) :
    Refuses T.tag (sgn ++ (m ++ e)) .InvalidValueFormatException := by
  refine ⟨InvalidValueFormatException (sgn ++ (m ++ e)), ?_, rfl⟩
  rw [createOperand_real T hacc]
  unfold createReal
  rw [stold_mantissa T hs hm he hacc, if_pos hnone]
  rfl

/-- The factory on a decimal number. -/
theorem createOperand_decimal {s : Text} {d : Numeral} (h : DecimalLiteral s d) :
    createOperand T.tag s =
      if longDoubleType.InRange d.mag then
        (fitReal T s (longDoubleType.cast (numeralValue d))).map fun c => some c.operand
      else .error (OverflowException (s ++ T.notType)) := by
  obtain ⟨sgn, m, e, hs, hm, hdigit, he, rfl⟩ := h
  have hcreate := createOperand_mantissa T hs hm he.tail hdigit
  rwa [scanExp_exponent he] at hcreate

/-- `%.kf` text is a decimal number. -/
theorem decimalLiteral_fixedText (k : ℕ) (x : SRat) :
    DecimalLiteral (fixedText k x.neg x.mag) (fixedNumeral k x.neg x.mag) ∧
      numeralValue (fixedNumeral k x.neg x.mag) = x.fixed k := by
  obtain ⟨m, hm, htext⟩ := fixedText_eq k x.neg x.mag
  refine ⟨⟨signText x.neg, m, [], signText_isSign _, hm, ?_, .none, ?_⟩, ?_⟩
  · exact fun h => Nat.toDigits_ne_nil h.1
  · rw [List.append_nil, htext]
  · exact SRat.ext' rfl (mag_fixedNumeral k x.neg x.mag_nonneg)

/-- The factory on `%.kf` text of a number within `long double`. -/
theorem createOperand_fixedText {k : ℕ} {x : SRat} (hx : longDoubleType.InRange (x.fixed k).mag) :
    createOperand T.tag (fixedText k x.neg x.mag) =
      (fitReal T (fixedText k x.neg x.mag) (longDoubleType.cast (x.fixed k))).map
        fun c => some c.operand := by
  obtain ⟨hlit, hval⟩ := decimalLiteral_fixedText k x
  have hmag : (fixedNumeral k x.neg x.mag).mag = (x.fixed k).mag := congrArg SRat.mag hval
  have hcreate := createOperand_decimal T hlit
  rwa [hval, hmag, if_pos hx] at hcreate

/-- The finite values of a real type have 1074 decimals at most. -/
theorem fixed_eq_self {x : SRat} (hfix : T.type.fmt.round x.mag = x.mag) : x.fixed 1074 = x := by
  have hmul := T.type.fmt.round_multiple x.mag
  rw [hfix] at hmul
  have hmin : T.type.fmt.Multiple (-1074) x.mag := by
    refine T.type.fmt.multiple_mono ?_ hmul
    cases T with
    | float => exact le_trans (by decide) (floatType.fmt.qmin_le_qexp rfl x.mag)
    | double => exact doubleType.fmt.qmin_le_qexp rfl x.mag
  obtain ⟨n, hn⟩ := hmin
  have hradix : (T.type.fmt.radix : ℚ) = 2 := by cases T <;> rfl
  rw [hradix] at hn
  exact SRat.ext' rfl (Grid.decimals_eq_self hn)

/-- **The factory can make every cell.** -/
theorem exists_createOperand (c : Cell) : ∃ s, createOperand c.tag s = .ok (some c.operand) := by
  rcases c.cases_on with ⟨U, v, hv, rfl⟩ | ⟨U, x, hc, hmax, hfix⟩
  · refine ⟨toStringInt v, ?_⟩
    rw [Cell.tag_int, createOperand_toStringInt U (hv.inBits.mono (by decide)), fitInt_of_fits hv]
    rfl
  · have hfixed := fixed_eq_self U hfix
    have hrange : longDoubleType.InRange x.mag := by
      obtain ⟨hle, hlow⟩ := real_bounds hmax hfix
      have h0 := x.mag_nonneg
      refine inRange_longDouble h0 (by linarith) (hlow.imp id fun h => ?_)
      linarith
    have hlong : longDoubleType.cast x = x := SRat.ext' rfl (longDouble_round hfix)
    have hcast : U.type.cast x = x := SRat.ext' rfl hfix
    refine ⟨fixedText 1074 x.neg x.mag, ?_⟩
    have hcreate := createOperand_fixedText U (k := 1074) (x := x) (by rwa [hfixed])
    have hvalue : c.value = .real U (U.type.cast x) := by rw [hc, hcast]
    rw [hfixed, hlong, fitReal_of_le hmax hvalue] at hcreate
    rw [Cell.tag_real hc]
    exact hcreate

/-- An overflow is reported for positive numbers only, an underflow for negative ones. -/
def RealSides (T : RealType) (s : Text) : Prop :=
  ∀ d, DecimalLiteral s d →
    (Refuses T.tag s .OverflowException → 0 < (numeralValue d).toRat) ∧
    (Refuses T.tag s .UnderflowException → (numeralValue d).toRat < 0)

theorem realSides_iff {s : Text} :
    RealSides T s ↔ ¬ ∃ d, DecimalLiteral s d ∧ (numeralValue d).toRat < 0 ∧
      ¬ longDoubleType.InRange d.mag := by
  constructor
  · rintro hsides ⟨d, hd, hneg, hrange⟩
    have hover : Refuses T.tag s .OverflowException := by
      refine ⟨OverflowException (s ++ T.notType), ?_, rfl⟩
      rw [createOperand_decimal T hd, if_neg hrange]
    exact absurd ((hsides d hd).1 hover) (not_lt.2 hneg.le)
  · intro hno d hd
    unfold Refuses
    rw [createOperand_decimal T hd]
    by_cases hrange : longDoubleType.InRange d.mag
    · rw [if_pos hrange]
      exact ⟨fun ⟨e, he, htype⟩ => pos_of_fitReal_overflow (map_eq_error.1 he) htype,
        fun ⟨e, he, htype⟩ => neg_of_fitReal_underflow (map_eq_error.1 he) htype⟩
    · rw [if_neg hrange]
      refine ⟨fun _ => ?_, ?_⟩
      · -- out of the range of `long double`, hence not zero, and not negative either
        have hne : (numeralValue d).toRat ≠ 0 := by
          intro hzero
          have hmag : d.mag = 0 := by
            rw [← abs_eq_zero, SRat.abs_toRat] at hzero
            exact hzero
          refine hrange ⟨?_, Or.inl hmag⟩
          rw [hmag, Grid.Format.round_zero]
          decide +kernel
        exact lt_of_le_of_ne (not_lt.1 fun hneg => hno ⟨d, hd, hneg, hrange⟩) (Ne.symm hne)
      · rintro ⟨e, he, htype⟩
        cases he
        cases htype

/-- Whatever is accepted is a decimal number as a whole, and is converted as that number, to
`long double` and then to the type; whatever is not one is refused for its format. -/
def WholeLiteral (T : RealType) (s : Text) : Prop :=
  (∀ r, createOperand T.tag s = .ok r → ∃ d, DecimalLiteral s d ∧
    r = some (Operand.new (.real T (T.type.cast (longDoubleType.cast (numeralValue d)))))) ∧
  ((¬ ∃ d, DecimalLiteral s d) → Refuses T.tag s .InvalidValueFormatException)

theorem sign_not_mem_e (h : SignText sgn neg) : 'e' ∉ sgn := by
  cases h with
  | none => simp
  | plus => simp
  | minus => simp

theorem mantissa_not_mem_e (h : Mantissa m int frac) : 'e' ∉ m := by
  have hdigits : ∀ {ds : Text}, Digits ds → 'e' ∉ ds := fun hds hmem => absurd (hds _ hmem) (by decide)
  cases h with
  | whole hint => exact hdigits hint
  | point hint hfrac => simp [hdigits hint, hdigits hfrac]

/-- A bare `e` is no exponent. -/
theorem BareExponent.not_decimal {s : Text} (h : BareExponent s) : ¬ ∃ d, DecimalLiteral s d := by
  obtain ⟨sgn, m, int, frac, neg, -, -, -, rfl⟩ := h
  rintro ⟨d, sgn', m', e', hs', hm', -, he', heq⟩
  have hlast : (sgn' ++ (m' ++ e')).getLast? = some 'e' := by rw [← heq]; simp
  generalize d.exp = x at he'
  cases he' with
  | none =>
    have hmem : 'e' ∈ sgn' ++ (m' ++ []) := List.mem_of_getLast? hlast
    rw [List.append_nil, List.mem_append] at hmem
    rcases hmem with hmem | hmem
    · exact sign_not_mem_e hs' hmem
    · exact mantissa_not_mem_e hm' hmem
  | @exp ds hds hne =>
    have hds' : (sgn' ++ (m' ++ 'e' :: ds)).getLast? = ds.getLast? := by
      rw [List.getLast?_append, List.getLast?_append, List.getLast?_cons]
      cases ds with
      | nil => exact absurd rfl hne
      | cons c ds => simp [List.getLast?_eq_some_getLast]
    rw [hds'] at hlast
    exact absurd (hds 'e' (List.mem_of_getLast? hlast)) (by decide)

theorem not_refuses_format {s : Text} (h : BareExponent s) :
    ¬ Refuses T.tag s .InvalidValueFormatException := by
  obtain ⟨sgn, m, int, frac, neg, hs, hm, hdigit, rfl⟩ := h
  rintro ⟨e, he, htype⟩
  rw [createOperand_mantissa T hs hm (.exp digits_nil) hdigit] at he
  split at he
  · rcases fitReal_error (map_eq_error.1 he) with h | h <;> cases htype.symm.trans h
  · cases he
    cases htype

/-- **Which literals are read as a whole.** For every string and both real types: what the factory
accepts is a decimal number, converted in full, and everything else is refused for its format,
unless the string is a number followed by a bare `e`. -/
theorem whole_literal_iff (s : Text) : WholeLiteral T s ↔ ¬ BareExponent s := by
  constructor
  · rintro ⟨-, hformat⟩ hbare
    exact not_refuses_format T hbare (hformat hbare.not_decimal)
  · intro hbare
    by_cases hacc : Accepted T.tag s
    · obtain ⟨sgn, m, int, frac, e, neg, hs, hm, he, -, rfl⟩ := (accepted_real_iff T).1 hacc
      by_cases hdigit : int = [] ∧ frac = []
      · have hrefuse := refuses_of_no_digit T hs hm he hdigit hacc
        refine ⟨?_, fun _ => hrefuse⟩
        intro r hr
        obtain ⟨x, hx, -⟩ := hrefuse
        cases hr.symm.trans hx
      · rcases he.cases with rfl | ⟨x, hx⟩
        · exact absurd ⟨sgn, m, int, frac, neg, hs, hm, hdigit, rfl⟩ hbare
        · have hd : DecimalLiteral (sgn ++ (m ++ e)) ⟨neg, int, frac, x⟩ :=
            ⟨sgn, m, e, hs, hm, hdigit, hx, rfl⟩
          refine ⟨?_, fun hno => absurd ⟨_, hd⟩ hno⟩
          intro r hr
          rw [createOperand_decimal T hd] at hr
          split at hr
          · obtain ⟨c, hc, rfl⟩ := ListSort.map_eq_ok.1 hr
            exact ⟨_, hd, congrArg (some ∘ Operand.new) (value_of_fitReal hc)⟩
          · cases hr
    · have hrefuse := refuses_of_not_accepted hacc
      refine ⟨?_, fun _ => hrefuse⟩
      intro r hr
      exact absurd (accepted_of_createOperand hr) hacc

end

/-- `1e` is accepted as the number one. -/
theorem not_whole_literal : ¬ WholeLiteral .float "1e".toList := by
  rintro ⟨-, hformat⟩
  have hbare : BareExponent "1e".toList :=
    ⟨[], ['1'], ['1'], [], false, .none, .whole (by decide), by simp, rfl⟩
  obtain ⟨e, he, -⟩ := hformat hbare.not_decimal
  have hok : (createOperand .Float "1e".toList).isOk = true := by decide +kernel
  change createOperand .Float "1e".toList = .error e at he
  rw [he] at hok
  cases hok

/-- **Which range errors name the right side.** For every string: an integer type reports what it
should unless the string is an integer below `-2^63`; a real type does unless the string is a
negative decimal number out of the range of `long double`. -/
theorem range_errors_iff (s : Text) :
    (∀ T : IntType, IntSides T s ↔ ¬ ∃ v, IntLiteral s v ∧ v < -2 ^ 63) ∧
      ∀ T : RealType, RealSides T s ↔ ¬ ∃ d, DecimalLiteral s d ∧ (numeralValue d).toRat < 0 ∧
        ¬ longDoubleType.InRange d.mag :=
  ⟨fun T => intSides_iff T, fun T => realSides_iff T⟩

/-- Below 64 bits an underflow is called an overflow. -/
theorem not_intSides : ¬ IntSides .int8_t "-9223372036854775809".toList := by
  rintro ⟨-, hsides⟩
  have hlit : IntLiteral "-9223372036854775809".toList (-9223372036854775809) :=
    ⟨['-'], "9223372036854775809".toList, true, .minus, by decide, by decide, rfl, by decide⟩
  have hover : Refuses .Int8 "-9223372036854775809".toList .OverflowException :=
    ⟨_, rfl, rfl⟩
  have hmax := (hsides _ hlit).1.1 hover
  exact absurd hmax (by decide)

end AbstractVM
