import AbstractVM.Output
import AbstractVM.Types
import AbstractVM.Comments
/-!
# The standard error

Every error is one line, whatever its text quotes: a line of the program has no newline in it, nor has
the number an operator could not store. The two phases have their own kinds of errors; in particular no
operator ever finds the format of a value invalid.

| here | what it says of the source |
| --- | --- |
| `tokenFaults_oneLine`, `missingParenthesis_oneLine` | what the errors of a line quote |
| `ErrorType.OfParsing`, `ErrorType.OfExecution` | the kinds of errors of the two phases |
| `frontEnd_error` | an error of the lexer or the parser |
| `Command.breaks_error` | an error of `execute` |

Main result: `stderr_lines`.
-/

namespace AbstractVM

open DecimalText (Text signText)
open Machine

/-! ## What an error quotes -/

theorem not_mem_lines {input line : Text} (h : line ∈ Cpp.lines input) : '\n' ∉ line := by
  induction input generalizing line with
  | nil => simp [Cpp.lines] at h
  | cons d input ih =>
    unfold Cpp.lines at h
    split_ifs at h with hd
    · rcases List.mem_cons.1 h with rfl | h
      · exact List.not_mem_nil
      · exact ih h
    · cases hl : Cpp.lines input with
      | nil =>
        rw [hl] at h
        rw [List.mem_singleton.1 h]
        simpa [eq_comm] using hd
      | cons first rest =>
        rw [hl] at h ih
        rcases List.mem_cons.1 h with rfl | h
        · have hfirst := ih List.mem_cons_self
          simpa [hfirst, eq_comm] using hd
        · exact ih (List.mem_cons_of_mem _ h)

theorem notType_oneLine :
    (∀ T : IntType, '\n' ∉ T.notType) ∧ ∀ T : RealType, '\n' ∉ T.notType := by
  refine ⟨fun T => ?_, fun T => ?_⟩
  · cases T <;> decide
  · cases T <;> decide

section
variable {L : Text} (hL : '\n' ∉ L) {e : AVMException}
include hL

theorem createInt_oneLine {T : IntType} {notType : Text} (hT : '\n' ∉ notType)
    (h : createInt T notType L = .error e) : '\n' ∉ e.error_part := by
  have hboth : '\n' ∉ L ++ notType := by simp [hL, hT]
  unfold createInt at h
  split at h
  · cases h
    exact hL
  · cases h
    exact hboth
  · split_ifs at h
    · cases h
      exact hboth
    · cases h
      exact hboth

theorem createReal_oneLine {T : RealType} {notType : Text} (hT : '\n' ∉ notType)
    (h : createReal T notType L = .error e) : '\n' ∉ e.error_part := by
  have hboth : '\n' ∉ L ++ notType := by simp [hL, hT]
  unfold createReal at h
  split at h
  · cases h
    exact hL
  · cases h
    exact hboth
  · split_ifs at h
    · cases h
      exact hboth
    · cases h
      exact hboth

/-- The factory quotes its literal. -/
theorem createOperand_oneLine {t : OperandType} (h : createOperand t L = .error e) :
    '\n' ∉ e.error_part := by
  unfold createOperand at h
  split_ifs at h with h1 h2
  · cases h
    decide
  · cases h
    exact hL
  · cases t with
    | Int8 => exact createInt_oneLine hL (by decide) (map_eq_error.1 h)
    | Int16 => exact createInt_oneLine hL (by decide) (map_eq_error.1 h)
    | Int32 => exact createInt_oneLine hL (by decide) (map_eq_error.1 h)
    | Float => exact createReal_oneLine hL (by decide) (map_eq_error.1 h)
    | Double => exact createReal_oneLine hL (by decide) (map_eq_error.1 h)
    | NoType => cases h

/-- The fields of a token are parts of its line. -/
theorem token_oneLine (n : ℕ) :
    '\n' ∉ (lexLine n L).1.instruction ∧ '\n' ∉ (lexLine n L).1.operandType ∧
      '\n' ∉ (lexLine n L).1.literal := by
  rcases line_shapes L with h | ⟨w, r, rfl, h, hr⟩ | ⟨w, t, l, x, rfl, h, ht, hl⟩ |
    ⟨w, t, l, rfl, h, ht, hl⟩
  · rw [lexLine_word h]
    exact ⟨hL, List.not_mem_nil, List.not_mem_nil⟩
  · rw [lexLine_noParen h hr]
    simp only [List.mem_append, List.mem_cons, not_or] at hL
    exact ⟨hL.1, List.not_mem_nil, List.not_mem_nil⟩
  · rw [lexLine_closed h ht hl]
    simp only [List.mem_append, List.mem_cons, not_or] at hL
    exact ⟨hL.1, hL.2.2.1, hL.2.2.2.2.1⟩
  · rw [lexLine_open h ht hl]
    simp only [List.mem_append, List.mem_cons, not_or] at hL
    exact ⟨hL.1, hL.2.2.1, hL.2.2.2.2⟩

end

/-! ## The kinds of errors -/

/-- The errors of the lexer and the parser. -/
def ErrorType.OfParsing (t : ErrorType) : Prop :=
  t = .MissingParException ∨ t = .UnknownInstructionException ∨ t = .InvalidTypeException ∨
    t = .NoValueExpectedException ∨ t.OfFactory

/-- The errors of `execute`. -/
def ErrorType.OfExecution (t : ErrorType) : Prop :=
  t = .EmtpyStackException ∨ t = .ImpossibleInstructionException ∨ t = .FalseAssertException ∨
    t = .InvalidPrintException ∨ t = .NoExitException ∨ t.OfRange

theorem builtErrorMessage_oneLine {e : Error} (h : '\n' ∉ e.error_part) :
    '\n' ∉ builtErrorMessage e := by
  have hdigits : '\n' ∉ Nat.toDigits 10 e.line := fun hd =>
    absurd (DecimalText.digits_toDigits _ _ hd) (by decide)
  have hexplain : '\n' ∉ explain e.type := by
    cases e.type <;> decide +kernel
  have hpart : '\n' ∉ if e.error_part = [] then [] else " --> ".toList ++ e.error_part := by
    split
    · exact List.not_mem_nil
    · simp [h]
  unfold builtErrorMessage
  simp only [List.mem_append, not_or]
  exact ⟨⟨⟨⟨by decide, hdigits⟩, by decide⟩, hexplain⟩, hpart⟩

/-! ### Lines of the program -/

theorem tokenFaults_error {w t l : Text} (hw : '\n' ∉ w) (ht : '\n' ∉ t) (hl : '\n' ∉ l)
    {e : AVMException} (h : e ∈ tokenFaults w t l) : e.type.OfParsing ∧ '\n' ∉ e.error_part := by
  unfold tokenFaults at h
  rcases List.mem_append.1 h with h | h
  · rw [toOperation_error (mem_thrown.1 h)]
    exact ⟨Or.inr (Or.inl rfl), hw⟩
  · split_ifs at h with htake hval
    · rcases List.mem_append.1 h with h | h
      · rw [toType_error (mem_thrown.1 h)]
        exact ⟨Or.inr (Or.inr (Or.inl rfl)), ht⟩
      · have hthrown := mem_thrown.1 h
        exact ⟨Or.inr (Or.inr (Or.inr (Or.inr (createOperand_error hthrown)))),
          createOperand_oneLine hl hthrown⟩
    · rw [List.mem_singleton.1 h]
      exact ⟨Or.inr (Or.inr (Or.inr (Or.inl rfl))), List.not_mem_nil⟩
    · cases h

theorem missingParenthesis_error {line : Text} (hline : '\n' ∉ line) {e : AVMException}
    (h : e ∈ missingParenthesis line) : e.type.OfParsing ∧ '\n' ∉ e.error_part := by
  unfold missingParenthesis at h
  cases hc : cut ' ' line with
  | none =>
    rw [hc] at h
    cases h
  | some p =>
    obtain ⟨w, rest⟩ := p
    obtain ⟨rfl, -⟩ := cut_eq_some.1 hc
    rw [hc] at h
    have hrest : '\n' ∉ rest := by
      simp only [List.mem_append, List.mem_cons, not_or] at hline
      exact hline.2.2
    simp only [findOperandAndType] at h
    split at h
    · cases h
    · split at h
      · cases h
      · rw [List.mem_singleton.1 h]
        exact ⟨Or.inl rfl, hrest⟩

/-- The lines of a program are lines. -/
theorem programLine_oneLine {cin : Bool} {input : Text} {p : Text × ℕ}
    (h : p ∈ programLines cin input) : '\n' ∉ p.1 := by
  obtain ⟨-, hget, -⟩ := mem_numbered h
  obtain ⟨hlt, hget⟩ := List.getElem?_eq_some_iff.1 hget
  have hmem : p.1 ∈ readLines cin (Cpp.lines input) := hget ▸ List.getElem_mem hlt
  suffices hline : p.1 ∈ Cpp.lines input from not_mem_lines hline
  cases cin with
  | false => exact hmem
  | true => exact (List.takeWhile_prefix _).subset hmem

/-- **An error of the front end** is of its kind, in one line, at a line of the file. -/
theorem frontEnd_error {cin : Bool} {input : Text} {e : Error} (h : e ∈ (frontEnd cin input).2) :
    e.type.OfParsing ∧ '\n' ∉ e.error_part ∧ 0 < e.line ∧ e.line ≤ (Cpp.lines input).length := by
  -- the line it is about
  have hline : ∃ p ∈ programLines cin input, e ∈ lexErrors p ∨ e ∈ parseErrors p := by
    rw [frontEnd_eq] at h
    rcases List.mem_append.1 h with h | h
    · obtain ⟨p, hp, he⟩ := List.mem_flatMap.1 h
      exact ⟨p, hp, Or.inl he⟩
    · obtain ⟨p, hp, he⟩ := List.mem_flatMap.1 h
      exact ⟨p, hp, Or.inr he⟩
  obtain ⟨p, hp, he⟩ := hline
  obtain ⟨hpos, hget, -⟩ := mem_numbered hp
  obtain ⟨hlt, -⟩ := List.getElem?_eq_some_iff.1 hget
  have hone := programLine_oneLine hp
  have hlength : (readLines cin (Cpp.lines input)).length ≤ (Cpp.lines input).length := by
    cases cin with
    | false => exact le_rfl
    | true => exact (List.takeWhile_prefix _).length_le
  have hnumber : e.line = p.2 → 0 < e.line ∧ e.line ≤ (Cpp.lines input).length := by
    intro hl
    omega
  obtain ⟨hw, ht, hl⟩ := token_oneLine hone 0
  rcases he with he | he
  · have hl := (lexErrors_line he).1
    rw [lexErrors_eq] at he
    obtain ⟨x, hx, rfl⟩ := List.mem_map.1 he
    obtain ⟨htype, hpart⟩ := missingParenthesis_error hone hx
    exact ⟨htype, hpart, hnumber hl⟩
  · have hl' := parseErrors_line he
    rw [parseErrors_eq] at he
    obtain ⟨x, hx, rfl⟩ := List.mem_map.1 he
    obtain ⟨htype, hpart⟩ := tokenFaults_error hw ht hl hx
    exact ⟨htype, hpart, hnumber hl'⟩

/-- The report goes through the lines in order. -/
theorem sortErrors_sorted (errors : List Error) :
    (sortErrors errors).Pairwise fun a b => a.line ≤ b.line := by
  have hlt : ∀ a b : Error, True → True →
      (Except.ok (compareByLine a b) : Except Empty Bool) = .ok (decide (a.line < b.line)) :=
    fun _ _ _ _ => rfl
  obtain ⟨l, hl, hsorted, -⟩ := ListSort.listSort_key hlt (l := errors) (fun _ _ => trivial)
  unfold sortErrors
  rw [hl]
  exact hsorted

/-! ### Commands -/

theorem oneLine_of_numeric {t : Text} (h : ∀ c ∈ t, Numeric c) : '\n' ∉ t :=
  fun hn => absurd (h _ hn) (by unfold Numeric; decide)

theorem numeric_intText (z : ℤ) : ∀ c ∈ Cpp.toStringInt z, Numeric c := by
  intro c hc
  rcases List.mem_append.1 (show c ∈ signText _ ++ Nat.toDigits 10 _ from hc) with hc | hc
  · exact numeric_signText _ c hc
  · exact numeric_digits (DecimalText.digits_toDigits _) c hc

theorem numeric_fixedText (x : Cpp.SRat) : ∀ c ∈ Cpp.toStringReal x, Numeric c := by
  intro c hc
  unfold Cpp.toStringReal DecimalText.fixedText at hc
  simp only [List.mem_append, List.mem_cons] at hc
  rcases hc with (hc | hc) | rfl | hc
  · exact numeric_signText _ c hc
  · exact numeric_digits (DecimalText.digits_toDigits _) c hc
  · exact Or.inr (Or.inl rfl)
  · exact numeric_digits (DecimalText.digits_fixedDigits _ _) c hc

theorem fitInt_oneLine {T : IntType} {z : ℤ} {e : AVMException} (h : fitInt T z = .error e) :
    '\n' ∉ e.error_part := by
  have hboth : '\n' ∉ Cpp.toStringInt z ++ T.notType := by
    simp [oneLine_of_numeric (numeric_intText z), notType_oneLine.1 T]
  unfold fitInt at h
  split_ifs at h
  · cases h
    exact hboth
  · cases h
    exact hboth

theorem fitResult_oneLine {T : RealType} {x : Cpp.SRat} {e : AVMException}
    (h : fitResult T x = .error e) : '\n' ∉ e.error_part := by
  have hboth : '\n' ∉ Cpp.toStringReal x ++ T.notType := by
    simp [oneLine_of_numeric (numeric_fixedText x), notType_oneLine.2 T]
  unfold fitResult fitReal at h
  split_ifs at h
  · cases h
    exact hboth
  · cases h
    exact hboth

theorem onCells_oneLine {op : ArithOp} {l r : Cell} {e : AVMException}
    (h : op.onCells l r = .error e) : '\n' ∉ e.error_part := by
  unfold ArithOp.onCells at h
  split at h
  · unfold ArithOp.onInts at h
    split at h
    · cases h
      exact List.not_mem_nil
    · exact fitInt_oneLine h
  · split at h
    · cases h
      exact List.not_mem_nil
    · exact fitResult_oneLine h

/-- **An error of an instruction** is of its kind and in one line. -/
theorem Command.breaks_error {c : Command Cell} {s : State Cell} {e : AVMException}
    (h : Breaks Cell.numbers s c (.throws e)) : e.type.OfExecution ∧ '\n' ∉ e.error_part := by
  have hempty : ErrorType.EmtpyStackException.OfExecution := Or.inl rfl
  have hshort : ErrorType.ImpossibleInstructionException.OfExecution := Or.inr (Or.inl rfl)
  have hprint : ErrorType.InvalidPrintException.OfExecution :=
    Or.inr (Or.inr (Or.inr (Or.inl rfl)))
  cases h with
  | emptyAssert c hs => exact ⟨hempty, List.not_mem_nil⟩
  | falseAssert hs heq => exact ⟨Or.inr (Or.inr (Or.inl rfl)), List.not_mem_nil⟩
  | emptyPop hs => exact ⟨hempty, List.not_mem_nil⟩
  | shortSwap hs => exact ⟨hshort, by decide⟩
  | shortArith op hs => exact ⟨hshort, by cases op <;> decide⟩
  | arith hs hop =>
    exact ⟨Or.inr (Or.inr (Or.inr (Or.inr (Or.inr (ArithOp.onCells_error hop))))),
      onCells_oneLine hop⟩
  | emptyPrint hs => exact ⟨hempty, List.not_mem_nil⟩
  | notInt8 hs hv => exact ⟨hprint, by decide⟩
  | @notPrintable top v rest hs hv hp =>
    have htext : '\n' ∉ top.text := oneLine_of_numeric top.text_numeric
    refine ⟨hprint, ?_⟩
    show '\n' ∉ top.text ++ " is not printable".toList
    simp [htext]

/-! ## The whole of it -/

/-- What `main` has written on the standard error. An exception that ends the process finds nothing
there, and the message that `std::terminate` then leaves is not the program's. -/
def Outcome.stderr : Outcome → Text
  | .exited _ stderr _ => stderr
  | .terminated _ _ => []

/-- The report of some errors, each in one line. -/
theorem lines_report {errors : List Error} (h : ∀ e ∈ errors, '\n' ∉ e.error_part) :
    Cpp.lines (errors.flatMap fun e => endl (builtErrorMessage e)) =
      errors.map builtErrorMessage := by
  rw [← List.flatMap_map, lines_endl]
  intro line hline
  obtain ⟨e, he, rfl⟩ := List.mem_map.1 hline
  exact builtErrorMessage_oneLine (h e he)

/-- The number of a command is that of a line of the file. -/
theorem number_le {cin : Bool} {input : Text} {ls : List (Command.Line Cell)}
    (h : frontEnd cin input = (ls.map Command.Line.instr, [])) :
    ∀ l ∈ ls, l.number ≤ (Cpp.lines input).length := by
  intro l hl
  obtain ⟨line, hget, -⟩ := instr_physical (Command.instr_mem h hl)
  obtain ⟨hlt, -⟩ := List.getElem?_eq_some_iff.1 hget
  have hnumber : l.instr.line = l.number := rfl
  omega

/-- **The standard error** of any run of any text. A rejected text prints one line for each error
recorded, in the order of the lines, each of a kind the front end has. A clean one prints nothing when
it exits, and when it stops, one line, of a kind that `execute` has. No text that an error quotes
breaks a line. -/
theorem stderr_lines (cin : Bool) (input : Text) :
    ((frontEnd cin input).2 ≠ [] → ∃ errors : List Error, errors.Perm (frontEnd cin input).2 ∧
        errors.Pairwise (fun a b => a.line ≤ b.line) ∧
        Cpp.lines (run cin input).stderr = errors.map builtErrorMessage ∧
        ∀ e ∈ errors, e.type.OfParsing ∧ 0 < e.line ∧ e.line ≤ (Cpp.lines input).length) ∧
      ((frontEnd cin input).2 = [] →
        ((run cin input).status? = some 0 → (run cin input).stderr = []) ∧
          ((run cin input).status? = some 1 → ∃ e : Error,
            Cpp.lines (run cin input).stderr = [builtErrorMessage e] ∧ e.type.OfExecution ∧
              e.line ≤ (Cpp.lines input).length)) ∧
      WholeLines (run cin input).stderr := by
  have hwhole : ∀ errors : List Error,
      WholeLines (errors.flatMap fun e => endl (builtErrorMessage e)) := by
    intro errors
    rw [← List.flatMap_map]
    exact wholeLines_endl _
  by_cases hclean : (frontEnd cin input).2 = []
  · obtain ⟨ls, hfront⟩ := Command.exists_lines hclean
    have hnumber := number_le hfront
    -- one error, in one line
    have hone : ∀ e : Error, '\n' ∉ e.error_part →
        Cpp.lines (endl (builtErrorMessage e)) = [builtErrorMessage e] ∧
          WholeLines (endl (builtErrorMessage e)) := by
      intro e he
      have hlines := lines_report (List.forall_mem_singleton.2 he)
      have hends := hwhole [e]
      rw [List.flatMap_singleton] at hlines hends
      exact ⟨hlines, hends⟩
    rw [run_of_lines hfront]
    have hreports := Command.reports (N := Cell.numbers) ls
    generalize Command.report ls _ = o at hreports ⊢
    refine ⟨fun h => absurd hclean h, fun _ => ?_, ?_⟩
    · cases hreports with
      | noExit h =>
        refine ⟨fun h0 => (by cases h0), fun _ => ⟨_, (hone _ List.not_mem_nil).1, ?_, ?_⟩⟩
        · exact Or.inr (Or.inr (Or.inr (Or.inr (Or.inl rfl))))
        · show Command.lastNumber ls ≤ _
          unfold Command.lastNumber
          cases hlast : ls.getLast? with
          | none => exact Nat.zero_le _
          | some l => exact hnumber l (List.mem_of_getLast? hlast)
      | exit hsplit h hl => exact ⟨fun _ => rfl, fun h1 => by cases h1⟩
      | throws hsplit h hl =>
        obtain ⟨htype, hpart⟩ := Command.breaks_error hl
        refine ⟨fun h0 => (by cases h0), fun _ => ⟨_, (hone _ hpart).1, htype, ?_⟩⟩
        exact hnumber _ (by rw [hsplit]; simp)
      | outOfRange hsplit h hl => exact ⟨fun h0 => (by cases h0), fun h1 => by cases h1⟩
    · cases hreports with
      | noExit h => exact (hone _ List.not_mem_nil).2
      | exit hsplit h hl => exact Or.inl rfl
      | throws hsplit h hl => exact (hone _ (Command.breaks_error hl).2).2
      | outOfRange hsplit h hl => exact Or.inl rfl
  · have hrun : run cin input = .exited [] (printErrors (frontEnd cin input).2) 1 := by
      rw [run_eq, if_pos hclean]
    rw [hrun]
    have hmem : ∀ e ∈ sortErrors (frontEnd cin input).2, e ∈ (frontEnd cin input).2 :=
      fun e he => (sortErrors_perm _).mem_iff.1 he
    refine ⟨fun _ => ⟨_, sortErrors_perm _, sortErrors_sorted _, ?_, fun e he => ?_⟩,
      fun h => absurd h hclean, hwhole _⟩
    · exact lines_report fun e he => (frontEnd_error (hmem e he)).2.1
    · obtain ⟨htype, -, hpos, hle⟩ := frontEnd_error (hmem e he)
      exact ⟨htype, hpos, hle⟩

end AbstractVM
