import AbstractVM.Main
import AbstractVM.Cell
/-!
# The front end, line by line

The lexer and the parser are two loops over the whole program, but each line is treated alone.

| here | what it says of the source |
| --- | --- |
| `programLines` | the lines that become tokens, with their physical numbers |
| `instrAt`, `lexErrors`, `parseErrors` | what one line adds to the instruction list and to `errors_` |
| `frontEnd_eq` | the two loops are the concatenation of the lines |
| `line_shapes` | the four shapes `findOperandAndType` distinguishes |
| `wellFormed_of_clean` | a line without error is an instruction `execute` can run |
-/

namespace AbstractVM

open DecimalText (Text)

/-! ## The lines of a program -/

/-- The lines read: on the standard input, up to the line `;;`. -/
def readLines (cin : Bool) (ls : List Text) : List Text :=
  if cin then ls.takeWhile (· ≠ [';', ';']) else ls

/-- A file is read to its end. -/
theorem readLines_file (ls : List Text) : readLines false ls = ls := rfl

/-- The lines that are not stepped over, numbered from `n + 1`. -/
def numbered (n : ℕ) (ls : List Text) : List (Text × ℕ) :=
  (ls.zipIdx (n + 1)).filter fun p => ¬ Skipped p.1

def programLines (cin : Bool) (input : Text) : List (Text × ℕ) :=
  numbered 0 (readLines cin (Cpp.lines input))

@[simp] theorem numbered_nil (n : ℕ) : numbered n [] = [] := rfl

theorem numbered_cons (n : ℕ) (line : Text) (ls : List Text) :
    numbered n (line :: ls) =
      if Skipped line then numbered (n + 1) ls else (line, n + 1) :: numbered (n + 1) ls := by
  unfold numbered
  rw [List.zipIdx_cons]
  by_cases h : Skipped line <;> simp [h]

theorem numbered_append (n : ℕ) (ls ls' : List Text) :
    numbered n (ls ++ ls') = numbered n ls ++ numbered (n + ls.length) ls' := by
  unfold numbered
  rw [List.zipIdx_append, List.filter_append]
  congr 3
  omega

/-- A number in the list is the position of its line in the file. -/
theorem mem_numbered {n : ℕ} {ls : List Text} {p : Text × ℕ} (h : p ∈ numbered n ls) :
    n < p.2 ∧ ls[p.2 - n - 1]? = some p.1 ∧ ¬ Skipped p.1 := by
  unfold numbered at h
  obtain ⟨hm, hs⟩ := List.mem_filter.1 h
  obtain ⟨hle, hget⟩ := List.mem_zipIdx_iff_le_and_getElem?_sub.1 hm
  refine ⟨hle, ?_, by simpa using hs⟩
  rw [← hget]
  congr 1

theorem numbered_pairwise (n : ℕ) (ls : List Text) :
    (numbered n ls).Pairwise fun p q => p.2 < q.2 := by
  induction ls generalizing n with
  | nil => exact List.Pairwise.nil
  | cons line ls ih =>
    rw [numbered_cons]
    split
    · exact ih (n + 1)
    · exact List.pairwise_cons.2 ⟨fun q hq => (mem_numbered hq).1, ih (n + 1)⟩

/-! ## One line -/

def instrAt (p : Text × ℕ) : ParsedInstr Operand := (parseToken (lexLine p.2 p.1).1).1

def lexErrors (p : Text × ℕ) : List Error := (lexLine p.2 p.1).2

def parseErrors (p : Text × ℕ) : List Error := (parseToken (lexLine p.2 p.1).1).2

theorem lexLoop_eq (cin : Bool) (n : ℕ) (ls : List Text) :
    lexLoop cin n ls =
      ((numbered n (readLines cin ls)).map fun p => (lexLine p.2 p.1).1,
        (numbered n (readLines cin ls)).flatMap lexErrors) := by
  induction ls generalizing n with
  | nil => cases cin <;> rfl
  | cons line ls ih =>
    unfold lexLoop
    by_cases hend : cin = true ∧ line = [';', ';']
    · simp [hend, readLines]
    · rw [if_neg hend]
      have hread : readLines cin (line :: ls) = line :: readLines cin ls := by
        cases cin with
        | false => rfl
        | true =>
          have hne : line ≠ [';', ';'] := fun h => hend ⟨rfl, h⟩
          simp [readLines, hne]
      rw [hread, numbered_cons]
      by_cases hs : Skipped line
      · rw [if_pos hs, if_pos hs]
        exact ih (n + 1)
      · rw [if_neg hs, if_neg hs, ih (n + 1)]
        rfl

/-- **The front end works line by line**, the errors of the lexer before those of the parser. -/
theorem frontEnd_eq (cin : Bool) (input : Text) :
    frontEnd cin input =
      ((programLines cin input).map instrAt,
        (programLines cin input).flatMap lexErrors ++
          (programLines cin input).flatMap parseErrors) := by
  unfold frontEnd lexicalAnalisys parse
  rw [lexLoop_eq]
  simp only [List.map_map, List.flatMap_map]
  rfl

theorem clean_iff {cin : Bool} {input : Text} :
    (frontEnd cin input).2 = [] ↔
      ∀ p ∈ programLines cin input, lexErrors p = [] ∧ parseErrors p = [] := by
  rw [frontEnd_eq]
  simp only [List.append_eq_nil_iff, List.flatMap_eq_nil_iff]
  constructor
  · rintro ⟨h1, h2⟩ p hp
    exact ⟨h1 p hp, h2 p hp⟩
  · intro h
    exact ⟨fun p hp => (h p hp).1, fun p hp => (h p hp).2⟩

/-! ## The shapes of a line -/

section
variable {n : ℕ} {w r t l x : Text}

theorem lexLine_word (h : ' ' ∉ w) : lexLine n w = (⟨w, [], [], n⟩, []) := by
  unfold lexLine
  rw [cut_eq_none.2 h]

/-- The rest of the line is for `findOperandAndType`. -/
theorem lexLine_rest (h : ' ' ∉ w) :
    lexLine n (w ++ ' ' :: r) =
      match findOperandAndType ⟨w, [], [], n⟩ r with
      | (token, none) => (token, [])
      | (token, some e) => (token, [e.pushError n]) := by
  rcases hf : findOperandAndType ⟨w, [], [], n⟩ r with ⟨token, _ | e⟩
  · simp [lexLine, cut_append h, hf]
  · simp [lexLine, cut_append h, hf]

theorem lexLine_noParen (h : ' ' ∉ w) (hr : '(' ∉ r) :
    lexLine n (w ++ ' ' :: r) = (⟨w, [], [], n⟩, []) := by
  rw [lexLine_rest h, findOperandAndType, cut_eq_none.2 hr]

theorem lexLine_closed (h : ' ' ∉ w) (ht : '(' ∉ t) (hl : ')' ∉ l) :
    lexLine n (w ++ ' ' :: (t ++ '(' :: (l ++ ')' :: x))) = (⟨w, t, l, n⟩, []) := by
  rw [lexLine_rest h, findOperandAndType, cut_append ht]
  simp only [cut_append hl]

theorem lexLine_open (h : ' ' ∉ w) (ht : '(' ∉ t) (hl : ')' ∉ l) :
    lexLine n (w ++ ' ' :: (t ++ '(' :: l)) =
      (⟨w, t, l, n⟩, [(MissingParException (t ++ '(' :: l)).pushError n]) := by
  rw [lexLine_rest h, findOperandAndType, cut_append ht]
  simp only [cut_eq_none.2 hl]

/-- **Four shapes**: a word alone; a word, a blank and no parenthesis; an operand that is closed;
an operand that is not. -/
theorem line_shapes (line : Text) :
    ' ' ∉ line ∨
      (∃ w r, line = w ++ ' ' :: r ∧ ' ' ∉ w ∧ '(' ∉ r) ∨
      (∃ w t l x, line = w ++ ' ' :: (t ++ '(' :: (l ++ ')' :: x)) ∧ ' ' ∉ w ∧ '(' ∉ t ∧ ')' ∉ l) ∨
      ∃ w t l, line = w ++ ' ' :: (t ++ '(' :: l) ∧ ' ' ∉ w ∧ '(' ∉ t ∧ ')' ∉ l := by
  cases hc : cut ' ' line with
  | none => exact Or.inl (cut_eq_none.1 hc)
  | some p =>
    obtain ⟨w, r⟩ := p
    obtain ⟨rfl, hw⟩ := cut_eq_some.1 hc
    cases hp : cut '(' r with
    | none => exact Or.inr (Or.inl ⟨w, r, rfl, hw, cut_eq_none.1 hp⟩)
    | some p =>
      obtain ⟨t, u⟩ := p
      obtain ⟨rfl, ht⟩ := cut_eq_some.1 hp
      cases hq : cut ')' u with
      | none => exact Or.inr (Or.inr (Or.inr ⟨w, t, u, rfl, hw, ht, cut_eq_none.1 hq⟩))
      | some p =>
        obtain ⟨l, x⟩ := p
        obtain ⟨rfl, hl⟩ := cut_eq_some.1 hq
        exact Or.inr (Or.inr (Or.inl ⟨w, t, l, x, rfl, hw, ht, hl⟩))

end

/-! ## Lines of errors -/

theorem lexLine_line (n : ℕ) (line : Text) : (lexLine n line).1.line = n := by
  rcases line_shapes line with h | ⟨w, r, rfl, h, hr⟩ | ⟨w, t, l, x, rfl, h, ht, hl⟩ |
    ⟨w, t, l, rfl, h, ht, hl⟩
  · rw [lexLine_word h]
  · rw [lexLine_noParen h hr]
  · rw [lexLine_closed h ht hl]
  · rw [lexLine_open h ht hl]

theorem lexErrors_line {p : Text × ℕ} {e : Error} (he : e ∈ lexErrors p) :
    e.line = p.2 ∧ e.type = .MissingParException := by
  obtain ⟨line, n⟩ := p
  unfold lexErrors at he
  rcases line_shapes line with h | ⟨w, r, rfl, h, hr⟩ | ⟨w, t, l, x, rfl, h, ht, hl⟩ |
    ⟨w, t, l, rfl, h, ht, hl⟩
  · simp [lexLine_word h] at he
  · simp [lexLine_noParen h hr] at he
  · simp [lexLine_closed h ht hl] at he
  · simp only [lexLine_open h ht hl, List.mem_singleton] at he
    rw [he]
    exact ⟨rfl, rfl⟩

theorem tryPush_line {α : Type} {n : ℕ} {a : α} {r : Except AVMException α} {e : Error}
    (he : e ∈ (tryPush n a r).2) : e.line = n := by
  cases r with
  | ok b => simp [tryPush] at he
  | error x =>
    simp only [tryPush, List.mem_singleton] at he
    rw [he]
    rfl

theorem parseToken_line (t : LexToken) :
    (parseToken t).1.line = t.line ∧ ∀ e ∈ (parseToken t).2, e.line = t.line := by
  unfold parseToken
  simp only
  split
  · refine ⟨rfl, fun e he => ?_⟩
    rcases List.mem_append.1 he with he | he
    · rcases List.mem_append.1 he with he | he
      · exact tryPush_line he
      · exact tryPush_line he
    · exact tryPush_line he
  · split
    · refine ⟨rfl, fun e he => ?_⟩
      rcases List.mem_append.1 he with he | he
      · exact tryPush_line he
      · rw [List.mem_singleton.1 he]
        rfl
    · exact ⟨rfl, fun e he => tryPush_line he⟩

theorem instrAt_line (p : Text × ℕ) : (instrAt p).line = p.2 := by
  unfold instrAt
  rw [(parseToken_line _).1, lexLine_line]

theorem parseErrors_line {p : Text × ℕ} {e : Error} (he : e ∈ parseErrors p) : e.line = p.2 := by
  rw [(parseToken_line _).2 e he, lexLine_line]

/-! ## Lines without error -/

/-- The operations of the first dispatch table. -/
def Operation.TakesOperand (op : Operation) : Prop := op = .PUSH ∨ op = .ASSERT

instance (op : Operation) : Decidable op.TakesOperand := by
  unfold Operation.TakesOperand; infer_instance

theorem Operation.le_assert_iff {op : Operation} : op ≤ .ASSERT ↔ op.TakesOperand := by
  cases op <;> decide

/-- An instruction `execute` can run: its operation is known, and `push` and `assert`, and no
others, have an operand, which is a cell of the type named. -/
structure WellFormed (i : ParsedInstr Operand) : Prop where
  known : i.instruction ≠ .NONE
  operand : i.instruction.TakesOperand → ∃ c : Cell, i.operand = some c.operand ∧ c.tag = i.operandType
  noOperand : ¬ i.instruction.TakesOperand → i.operand = none ∧ i.operandType = .NoType

theorem toOperation_ne_none {w : Text} {op : Operation} (h : toOperation w = .ok op) :
    op ≠ .NONE := by
  have hall : ∀ p ∈ opMap, p.2 ≠ .NONE := by decide
  exact hall _ (toOperation_eq_ok.1 h)

theorem toType_ne_noType {t : Text} {type : OperandType} (h : toType t = .ok type) :
    type ≠ .NoType := by
  have hall : ∀ p ∈ typeMap, p.2 ≠ .NoType := by decide
  exact hall _ (toType_eq_ok.1 h)

theorem tryPush_eq_nil {α : Type} {n : ℕ} {a : α} {r : Except AVMException α} :
    (tryPush n a r).2 = [] ↔ ∃ b, r = .ok b := by
  cases r <;> simp [tryPush]

/-- The two branches of the loop body: an operation that takes an operand, and any other. -/
theorem parseToken_takes {t : LexToken} {op : Operation} (hop : toOperation t.instruction = .ok op)
    (htake : op.TakesOperand) :
    parseToken t =
      let type := tryPush t.line .NoType (toType t.operandType)
      let operand := tryPush t.line none (createOperand type.1 t.literal)
      (⟨op, type.1, operand.1, t.line⟩, type.2 ++ operand.2) := by
  unfold parseToken
  rw [hop]
  exact if_pos (Operation.le_assert_iff.2 htake)

theorem parseToken_other {t : LexToken}
    (hno : ∀ op, toOperation t.instruction = .ok op → ¬ op.TakesOperand) :
    parseToken t =
      let op := tryPush t.line .NONE (toOperation t.instruction)
      (⟨op.1, .NoType, none, t.line⟩,
        op.2 ++ if t.operandType ≠ [] ∨ t.literal ≠ [] then
          [NoValueExpectedException.pushError t.line] else []) := by
  have hle : ¬ (tryPush t.line .NONE (toOperation t.instruction)).1 ≤ .ASSERT := by
    cases hop : toOperation t.instruction with
    | error e => exact (by decide : ¬ Operation.NONE ≤ .ASSERT)
    | ok op => exact fun h => hno op hop (Operation.le_assert_iff.1 h)
  unfold parseToken
  rw [if_neg hle]
  split
  · rfl
  · simp

/-- When a token is parsed without error, and the instruction it becomes. -/
theorem parseToken_eq_nil {t : LexToken} :
    (parseToken t).2 = [] ↔
      (∃ op type o, toOperation t.instruction = .ok op ∧ op.TakesOperand ∧
        toType t.operandType = .ok type ∧ createOperand type t.literal = .ok (some o) ∧
        (parseToken t).1 = ⟨op, type, some o, t.line⟩) ∨
      ∃ op, toOperation t.instruction = .ok op ∧ ¬ op.TakesOperand ∧
        t.operandType = [] ∧ t.literal = [] ∧ (parseToken t).1 = ⟨op, .NoType, none, t.line⟩ := by
  by_cases htake : ∃ op, toOperation t.instruction = .ok op ∧ op.TakesOperand
  · obtain ⟨op, hop, htake⟩ := htake
    rw [parseToken_takes hop htake]
    constructor
    · intro h
      obtain ⟨h1, h2⟩ := List.append_eq_nil_iff.1 h
      obtain ⟨type, hty⟩ := tryPush_eq_nil.1 h1
      obtain ⟨r, hcr⟩ := tryPush_eq_nil.1 h2
      rw [hty] at hcr
      rcases createOperand_cell hcr with ⟨hno, -⟩ | ⟨c, hc, rfl⟩
      · exact absurd hno (toType_ne_noType hty)
      · refine Or.inl ⟨op, type, c.operand, hop, htake, hty, hcr, ?_⟩
        simp only [hty, tryPush] at hcr ⊢
        rw [hcr]
    · rintro (⟨op', type, o, -, -, hty, hcr, -⟩ | ⟨op', hop', hno, -⟩)
      · simp [hty, hcr, tryPush]
      · rw [hop] at hop'
        cases hop'
        exact absurd htake hno
  · have hno : ∀ op, toOperation t.instruction = .ok op → ¬ op.TakesOperand :=
      fun op hop h => htake ⟨op, hop, h⟩
    rw [parseToken_other hno]
    constructor
    · intro h
      obtain ⟨h1, h2⟩ := List.append_eq_nil_iff.1 h
      obtain ⟨op, hop⟩ := tryPush_eq_nil.1 h1
      have hempty : ¬ (t.operandType ≠ [] ∨ t.literal ≠ []) := by
        intro hc
        rw [if_pos hc] at h2
        cases h2
      rw [not_or, not_not, not_not] at hempty
      exact Or.inr ⟨op, hop, hno op hop, hempty.1, hempty.2, by rw [hop]; rfl⟩
    · rintro (⟨op, type, o, hop, ht, -⟩ | ⟨op, hop, -, h1, h2, -⟩)
      · exact absurd ht (hno op hop)
      · simp [hop, h1, h2, tryPush]

theorem wellFormed_of_clean {p : Text × ℕ} (h : parseErrors p = []) : WellFormed (instrAt p) := by
  unfold parseErrors at h
  unfold instrAt
  rcases parseToken_eq_nil.1 h with ⟨op, type, o, hop, htake, hty, hcr, heq⟩ |
    ⟨op, hop, htake, -, -, heq⟩
  · rw [heq]
    refine ⟨toOperation_ne_none hop, fun _ => ?_, fun hno => absurd htake hno⟩
    rcases createOperand_cell hcr with ⟨hno, -⟩ | ⟨c, hc, ho⟩
    · exact absurd hno (toType_ne_noType hty)
    · exact ⟨c, ho, hc⟩
  · rw [heq]
    exact ⟨toOperation_ne_none hop, fun h => absurd h htake, fun _ => ⟨rfl, rfl⟩⟩

/-- **A clean program is well formed**, instruction by instruction. -/
theorem wellFormed_of_frontEnd {cin : Bool} {input : Text} (h : (frontEnd cin input).2 = []) :
    ∀ i ∈ (frontEnd cin input).1, WellFormed i := by
  intro i hi
  rw [frontEnd_eq] at hi
  obtain ⟨p, hp, rfl⟩ := List.mem_map.1 hi
  exact wellFormed_of_clean (clean_iff.1 h p hp).2

end AbstractVM
