import AbstractVM.Grammar
/-!
# A program written down is read back

An `Instruction` carries the operand the factory makes of its literal. Written one to a line, with
empty lines and comment lines between them, the instructions are what the front end returns.

| here | what it says of the source |
| --- | --- |
| `Instruction.text`, `Instruction.parsed` | the line of an instruction, and the `t_ParsedInstr` it stands for |
| `Row` | a line of the file: an instruction, or one the lexer steps over |
| `instrAt_text` | one line: the pieces hold none of the delimiters, the names are in the tables |
| `frontEnd_programText` | the whole file |
-/

namespace AbstractVM

open DecimalText (Text)

/-! ## Names -/

/-- The word `toOperation` knows the operation by. -/
def Operation.mnemonic (op : Operation) : Text :=
  ((opMap.find? fun p => p.2 = op).map (·.1)).getD []

/-- The word `toType` knows the type by. -/
def OperandType.name (type : OperandType) : Text :=
  ((typeMap.find? fun p => p.2 = type).map (·.1)).getD []

theorem Operation.mnemonic_mem {op : Operation} (h : op ≠ .NONE) : (op.mnemonic, op) ∈ opMap := by
  cases op with
  | NONE => exact absurd rfl h
  | _ => decide

theorem OperandType.name_mem {type : OperandType} (h : type ≠ .NoType) :
    (type.name, type) ∈ typeMap := by
  cases type with
  | NoType => exact absurd rfl h
  | _ => decide

/-! ## Instructions and lines -/

/-- An instruction without operand, or one with a type and a literal of that type. -/
inductive Instruction
  | plain (op : Operation) (known : op ≠ .NONE) (hop : ¬ op.TakesOperand)
  | value (op : Operation) (hop : op.TakesOperand) (type : OperandType) (literal : Text)
      (o : Operand) (created : createOperand type literal = .ok (some o))

namespace Instruction

def text : Instruction → Text
  | plain op _ _ => op.mnemonic
  | value op _ type literal _ _ =>
    op.mnemonic ++ ' ' :: (type.name ++ '(' :: (literal ++ [')']))

/-- The instruction on line `n`. -/
def parsed (n : ℕ) : Instruction → ParsedInstr Operand
  | plain op _ _ => ⟨op, .NoType, none, n⟩
  | value op _ type _ o _ => ⟨op, type, some o, n⟩

end Instruction

/-- A line of a file; `cin` says that it is the standard input, where `;;` ends the program. -/
inductive Row (cin : Bool)
  | instr (i : Instruction)
  | skip (line : Text) (skipped : Skipped line) (oneLine : '\n' ∉ line)
      (noEnd : cin = true → line ≠ [';', ';'])

namespace Row

variable {cin : Bool}

def text : Row cin → Text
  | instr i => i.text
  | skip line _ _ _ => line

/-- What the line `n` adds to the instruction list. -/
def parsed (n : ℕ) : Row cin → Option (ParsedInstr Operand)
  | instr i => some (i.parsed n)
  | skip _ _ _ _ => none

end Row

/-- The file. -/
def programText {cin : Bool} (rows : List (Row cin)) : Text := rows.flatMap fun r => r.text ++ ['\n']

/-- The instructions of the file, each with the number of its line. -/
def programInstrs {cin : Bool} (rows : List (Row cin)) : List (ParsedInstr Operand) :=
  (rows.zipIdx 1).filterMap fun p => p.1.parsed p.2

/-! ## One line -/

theorem createOperand_ne_noType {type : OperandType} {l : Text} {o : Operand}
    (h : createOperand type l = .ok (some o)) : type ≠ .NoType := by
  rcases createOperand_cell h with ⟨-, ho⟩ | ⟨c, hc, -⟩
  · cases ho
  · exact hc ▸ c.tag_ne_noType

/-- Neither a blank, nor a newline, nor a semicolon in the words of the tables. -/
theorem opMap_chars {w : Text} {op : Operation} (h : (w, op) ∈ opMap) :
    ' ' ∉ w ∧ '\n' ∉ w ∧ w.head? ≠ some ';' ∧ w ≠ [] := by
  have hall : ∀ p ∈ opMap, ' ' ∉ p.1 ∧ '\n' ∉ p.1 ∧ p.1.head? ≠ some ';' ∧ p.1 ≠ [] := by decide
  exact hall _ h

theorem typeMap_chars {t : Text} {type : OperandType} (h : (t, type) ∈ typeMap) :
    '(' ∉ t ∧ '\n' ∉ t := by
  have hall : ∀ p ∈ typeMap, '(' ∉ p.1 ∧ '\n' ∉ p.1 := by decide
  exact hall _ h

/-- **One line.** The line of an instruction is cut into the pieces it was made of, and they are
parsed without error. -/
theorem instrAt_text (i : Instruction) (n : ℕ) :
    lexErrors (i.text, n) = [] ∧ parseErrors (i.text, n) = [] ∧ instrAt (i.text, n) = i.parsed n := by
  unfold lexErrors parseErrors instrAt
  cases i with
  | plain op known hop =>
    have hmem := Operation.mnemonic_mem known
    have hto : toOperation op.mnemonic = .ok op := toOperation_eq_ok.2 hmem
    have hothers : ∀ op', toOperation op.mnemonic = .ok op' → ¬ op'.TakesOperand := by
      intro op' hop'
      rw [hto] at hop'
      cases hop'
      exact hop
    have hlex : lexLine n (Instruction.plain op known hop).text = (⟨op.mnemonic, [], [], n⟩, []) :=
      lexLine_word (opMap_chars hmem).1
    simp only [hlex]
    rw [parseToken_other hothers]
    simp [hto, tryPush, Instruction.parsed]
  | value op hop type literal o created =>
    have hknown : op ≠ .NONE := by rintro rfl; rcases hop with h | h <;> cases h
    have hmem := Operation.mnemonic_mem hknown
    have htype := OperandType.name_mem (createOperand_ne_noType created)
    have hliteral : ')' ∉ literal := isValidValue_noParen (accepted_of_createOperand created).2
    have hlex : lexLine n (Instruction.value op hop type literal o created).text =
        (⟨op.mnemonic, type.name, literal, n⟩, []) :=
      lexLine_closed (opMap_chars hmem).1 (typeMap_chars htype).1 hliteral
    simp only [hlex]
    rw [parseToken_takes (toOperation_eq_ok.2 hmem) hop]
    simp [toType_eq_ok.2 htype, created, tryPush, Instruction.parsed]

theorem text_not_skipped (i : Instruction) : ¬ Skipped i.text := by
  have key : ∀ {w : Text} {op : Operation} (r : Text), (w, op) ∈ opMap → ¬ Skipped (w ++ r) := by
    intro w op r hmem hskip
    obtain ⟨-, -, hhead, hne⟩ := opMap_chars hmem
    cases w with
    | nil => exact hne rfl
    | cons c w =>
      rcases hskip with h | h
      · cases h
      · exact hhead h
  cases i with
  | plain op known hop => simpa [Instruction.text] using key [] (Operation.mnemonic_mem known)
  | value op hop type literal o created =>
    have hknown : op ≠ .NONE := by rintro rfl; rcases hop with h | h <;> cases h
    exact key _ (Operation.mnemonic_mem hknown)

theorem text_oneLine (i : Instruction) : '\n' ∉ i.text := by
  cases i with
  | plain op known hop => exact (opMap_chars (Operation.mnemonic_mem known)).2.1
  | value op hop type literal o created =>
    have hknown : op ≠ .NONE := by rintro rfl; rcases hop with h | h <;> cases h
    have hw := (opMap_chars (Operation.mnemonic_mem hknown)).2.1
    have ht := (typeMap_chars (OperandType.name_mem (createOperand_ne_noType created))).2
    have hl : '\n' ∉ literal :=
      isValidValue_not_mem (by decide) (accepted_of_createOperand created).2
    simp [Instruction.text, hw, ht, hl]

/-! ## The file -/

section
variable {cin : Bool}

theorem lines_programText (rows : List (Row cin)) :
    Cpp.lines (programText rows) = rows.map Row.text := by
  induction rows with
  | nil => rfl
  | cons r rows ih =>
    have hline : '\n' ∉ r.text := by
      cases r with
      | instr i => exact text_oneLine i
      | skip line skipped oneLine noEnd => exact oneLine
    have hsplit : programText (r :: rows) = r.text ++ '\n' :: programText rows := by
      simp [programText]
    rw [hsplit, Cpp.lines_cons hline, ih, List.map_cons]

/-- No row ends the program. -/
theorem readLines_rows (rows : List (Row cin)) :
    readLines cin (rows.map Row.text) = rows.map Row.text := by
  cases cin with
  | false => rfl
  | true =>
    refine List.takeWhile_eq_self_iff.2 ?_
    intro line hmem
    obtain ⟨r, -, rfl⟩ := List.mem_map.1 hmem
    cases r with
    | instr i =>
      have hne : i.text ≠ [';', ';'] := fun h => text_not_skipped i (Or.inr (by rw [h]; rfl))
      exact decide_eq_true hne
    | skip line skipped oneLine noEnd => exact decide_eq_true (noEnd rfl)

/-- The induction over the lines, which keeps the line counter. -/
theorem numbered_rows (n : ℕ) (rows : List (Row cin)) :
    (numbered n (rows.map Row.text)).map instrAt =
        (rows.zipIdx (n + 1)).filterMap (fun p => p.1.parsed p.2) ∧
      ∀ p ∈ numbered n (rows.map Row.text), lexErrors p = [] ∧ parseErrors p = [] := by
  induction rows generalizing n with
  | nil => exact ⟨rfl, by simp⟩
  | cons r rows ih =>
    obtain ⟨hinstrs, hclean⟩ := ih (n + 1)
    rw [List.map_cons, numbered_cons, List.zipIdx_cons]
    cases r with
    | instr i =>
      obtain ⟨hlex, hparse, hat⟩ := instrAt_text i (n + 1)
      rw [Row.text, if_neg (text_not_skipped i)]
      refine ⟨?_, ?_⟩
      · rw [List.map_cons, hinstrs, hat]
        rfl
      · intro p hp
        rcases List.mem_cons.1 hp with rfl | hp
        · exact ⟨hlex, hparse⟩
        · exact hclean p hp
    | skip line skipped oneLine noEnd =>
      rw [Row.text, if_pos skipped]
      exact ⟨hinstrs, hclean⟩

/-- **A program written down is read back.** Whatever the instructions, and whatever lines to be
stepped over are put between them, the front end reports nothing and returns the instructions, each
with the operand the factory makes of its literal and the number of its line. -/
theorem frontEnd_programText (rows : List (Row cin)) :
    frontEnd cin (programText rows) = (programInstrs rows, []) := by
  have hlines : programLines cin (programText rows) = numbered 0 (rows.map Row.text) := by
    unfold programLines
    rw [lines_programText, readLines_rows]
  obtain ⟨hinstrs, hclean⟩ := numbered_rows 0 rows
  refine Prod.ext ?_ ?_
  · rw [frontEnd_eq, hlines]
    exact hinstrs
  · refine clean_iff.2 ?_
    rw [hlines]
    exact hclean

end

/-- A comment and an empty line before an instruction move its number only. -/
example :
    let rows : List (Row true) := [.skip ";x".toList (by decide) (by decide) (by decide),
      .skip [] (by decide) (by decide) (by decide), .instr (.plain .POP (by decide) (by decide))]
    programInstrs rows = [⟨.POP, .NoType, none, 3⟩] := rfl

end AbstractVM
