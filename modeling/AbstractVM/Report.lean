import AbstractVM.FrontEnd
/-!
# The report is the one a single pass would give

The lexer and the parser push their errors into one list, phase after phase; sorted by line, with
a stable sort, it is what one pass over the lines would produce (`singlePass`), each line giving
its errors in a fixed order (`lineFaults`) and depending on nothing but its own text.

Main results: `sortErrors_frontEnd` and `report_complete`.
-/

namespace AbstractVM

open DecimalText (Text)

/-! ## One line -/

/-- The exception a call throws, if it throws one. -/
def thrown {α : Type} : Except AVMException α → List AVMException
  | .ok _ => []
  | .error e => [e]

/-- The operand field of a line has a `(` and no `)` after it. -/
def missingParenthesis (line : Text) : List AVMException :=
  match cut ' ' line with
  | none => []
  | some (_, rest) => (findOperandAndType ⟨[], [], [], 0⟩ rest).2.toList

/-- What is wrong with the instruction, the type and the value of a token. -/
def tokenFaults (instruction operandType literal : Text) : List AVMException :=
  thrown (toOperation instruction) ++
    if ∃ op ∈ (toOperation instruction).toOption, op.TakesOperand then
      let type := (toType operandType).toOption.getD .NoType
      thrown (toType operandType) ++ thrown (createOperand type literal)
    else if operandType ≠ [] ∨ literal ≠ [] then [NoValueExpectedException]
    else []

/-- The errors of a line, in the order of a single pass: missing parenthesis, unknown instruction,
then type and value, or the value that was not expected. -/
def lineFaults (line : Text) : List AVMException :=
  if Skipped line then []
  else
    let token := (lexLine 0 line).1
    missingParenthesis line ++ tokenFaults token.instruction token.operandType token.literal

/-- The report of the lines of a file from line `n + 1` on. -/
def singlePass (n : ℕ) (ls : List Text) : List Error :=
  (ls.zipIdx (n + 1)).flatMap fun p => (lineFaults p.1).map (·.pushError p.2)

/-! ## The two phases -/

theorem tryPush_snd {α : Type} (n : ℕ) (a : α) (r : Except AVMException α) :
    (tryPush n a r).2 = (thrown r).map (·.pushError n) := by
  cases r <;> rfl

theorem tryPush_fst {α : Type} (n : ℕ) (a : α) (r : Except AVMException α) :
    (tryPush n a r).1 = r.toOption.getD a := by
  cases r <;> rfl

/-- The parser's errors for a token. -/
theorem parseToken_errors (t : LexToken) :
    (parseToken t).2 =
      (tokenFaults t.instruction t.operandType t.literal).map (·.pushError t.line) := by
  unfold tokenFaults
  by_cases htake : ∃ op ∈ (toOperation t.instruction).toOption, op.TakesOperand
  · rw [if_pos htake]
    obtain ⟨op, hmem, hop⟩ := htake
    cases ht : toOperation t.instruction with
    | error e => rw [ht] at hmem; cases hmem
    | ok op' =>
      rw [ht] at hmem
      cases hmem
      rw [parseToken_takes ht hop]
      simp only [tryPush_snd, tryPush_fst, List.map_append]
      rfl
  · rw [if_neg htake]
    have hno : ∀ op, toOperation t.instruction = .ok op → ¬ op.TakesOperand :=
      fun op hop ht => htake ⟨op, by rw [hop]; rfl, ht⟩
    rw [parseToken_other hno]
    simp only [tryPush_snd, List.map_append]
    split <;> rfl

/-- The token of a line does not depend on its number. -/
theorem lexLine_fst (n : ℕ) (line : Text) :
    (lexLine n line).1 = { (lexLine 0 line).1 with line := n } := by
  rcases line_shapes line with h | ⟨w, r, rfl, h, hr⟩ | ⟨w, t, l, x, rfl, h, ht, hl⟩ |
    ⟨w, t, l, rfl, h, ht, hl⟩
  · rw [lexLine_word h, lexLine_word h]
  · rw [lexLine_noParen h hr, lexLine_noParen h hr]
  · rw [lexLine_closed h ht hl, lexLine_closed h ht hl]
  · rw [lexLine_open h ht hl, lexLine_open h ht hl]

theorem lexErrors_eq (p : Text × ℕ) :
    lexErrors p = (missingParenthesis p.1).map (·.pushError p.2) := by
  obtain ⟨line, n⟩ := p
  unfold lexErrors missingParenthesis
  rcases line_shapes line with h | ⟨w, r, rfl, h, hr⟩ | ⟨w, t, l, x, rfl, h, ht, hl⟩ |
    ⟨w, t, l, rfl, h, ht, hl⟩
  · simp [lexLine_word h, cut_eq_none.2 h]
  · simp [lexLine_noParen h hr, cut_append h, findOperandAndType, cut_eq_none.2 hr]
  · simp [lexLine_closed h ht hl, cut_append h, findOperandAndType, cut_append ht, cut_append hl]
  · simp [lexLine_open h ht hl, cut_append h, findOperandAndType, cut_append ht, cut_eq_none.2 hl]

theorem parseErrors_eq (p : Text × ℕ) :
    parseErrors p = (tokenFaults (lexLine 0 p.1).1.instruction (lexLine 0 p.1).1.operandType
      (lexLine 0 p.1).1.literal).map (·.pushError p.2) := by
  unfold parseErrors
  rw [parseToken_errors, lexLine_fst]

/-- Lines stepped over have no errors, so the pass over all lines is a pass over the others. -/
theorem singlePass_eq (n : ℕ) (ls : List Text) :
    singlePass n ls = (numbered n ls).flatMap fun p => lexErrors p ++ parseErrors p := by
  induction ls generalizing n with
  | nil => rfl
  | cons line ls ih =>
    have hcons : singlePass n (line :: ls) =
        (lineFaults line).map (·.pushError (n + 1)) ++ singlePass (n + 1) ls := by
      simp [singlePass, List.zipIdx_cons]
    rw [hcons, numbered_cons, ih]
    unfold lineFaults
    by_cases h : Skipped line
    · rw [if_pos h, if_pos h]
      rfl
    · rw [if_neg h, if_neg h, List.flatMap_cons, lexErrors_eq, parseErrors_eq]
      simp

/-- **The sorted errors of the two phases are the report of one pass over the lines.** -/
theorem sortErrors_frontEnd (cin : Bool) (input : Text) :
    sortErrors (frontEnd cin input).2 = singlePass 0 (readLines cin (Cpp.lines input)) := by
  have hlt : ∀ a b : Error, True → True →
      (Except.ok (compareByLine a b) : Except Empty Bool) = .ok (decide (a.line < b.line)) :=
    fun _ _ _ _ => rfl
  have hsort := ListSort.listSort_two_passes hlt (fun _ => trivial)
    (numbered_pairwise 0 (readLines cin (Cpp.lines input)))
    (fun p _ e he => (lexErrors_line he).1) (fun p _ e he => parseErrors_line he)
  rw [frontEnd_eq, singlePass_eq]
  unfold sortErrors programLines
  rw [hsort]

/-! ## Two files one after the other -/

/-- The error of a line that has moved down by `n` lines. -/
def Error.raise (n : ℕ) (e : Error) : Error := { e with line := e.line + n }

theorem singlePass_append (n : ℕ) (ls ls' : List Text) :
    singlePass n (ls ++ ls') = singlePass n ls ++ singlePass (n + ls.length) ls' := by
  unfold singlePass
  rw [List.zipIdx_append, List.flatMap_append]
  congr 3
  omega

theorem singlePass_add (k n : ℕ) (ls : List Text) :
    singlePass (n + k) ls = (singlePass n ls).map (Error.raise k) := by
  induction ls generalizing n with
  | nil => rfl
  | cons line ls ih =>
    have ih' := ih (n + 1)
    unfold singlePass at ih' ⊢
    rw [Nat.add_right_comm n 1 k] at ih'
    simp only [List.zipIdx_cons, List.flatMap_cons, List.map_append, List.map_map]
    rw [ih']
    congr 1
    refine List.map_congr_left fun e _ => ?_
    simp only [AVMException.pushError, Error.raise, Function.comp]
    congr 1
    omega

/-- A text that ends in a newline, or is empty, is a whole number of lines. -/
def WholeLines (P : Text) : Prop := P = [] ∨ ∃ P', P = P' ++ ['\n']

theorem lines_wholeLines {P : Text} (h : WholeLines P) (Q : Text) :
    Cpp.lines (P ++ Q) = Cpp.lines P ++ Cpp.lines Q := by
  rcases h with rfl | ⟨P', rfl⟩
  · rfl
  · rw [List.append_assoc]
    exact Cpp.lines_append P' Q

/-- **The report is complete, in order and local to lines.** What is printed is the report of one
pass over the lines; and the report of a file after `n` lines of another is its own report with
the line numbers raised by `n`. -/
theorem report_complete :
    (∀ (cin : Bool) (input : Text),
        sortErrors (frontEnd cin input).2 = singlePass 0 (readLines cin (Cpp.lines input)) ∧
          printErrors (frontEnd cin input).2 =
            (singlePass 0 (readLines cin (Cpp.lines input))).flatMap fun error =>
              endl (builtErrorMessage error)) ∧
      ∀ P Q : Text, WholeLines P →
        sortErrors (frontEnd false (P ++ Q)).2 =
          sortErrors (frontEnd false P).2 ++
            (sortErrors (frontEnd false Q).2).map (Error.raise (Cpp.lines P).length) := by
  constructor
  · intro cin input
    refine ⟨sortErrors_frontEnd cin input, ?_⟩
    unfold printErrors
    rw [sortErrors_frontEnd]
  · intro P Q hP
    have hread : ∀ ls : List Text, readLines false ls = ls := fun _ => rfl
    simp only [sortErrors_frontEnd, hread]
    rw [lines_wholeLines hP, singlePass_append, singlePass_add]

end AbstractVM
