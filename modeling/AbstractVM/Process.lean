import AbstractVM.StandardError
import AbstractVM.Readable
/-!
# The process (`main.cpp`)

| here | there |
| --- | --- |
| `World` | the arguments, the files and the standard input |
| `source` | the tests of `argc` and of the file (`main.cpp:44-64`) |
| `main` | `main` in the standard build |
| `lexListing`, `parseListing` | `printTokens` of the lexer and of the parser (`:10-37`) |
| `runDebug`, `mainDebug` | `main` under `DEBUG` (`:67-73`) |
| `Outcome.Reported` | `main` came to its end, having written on `std::cerr` |

Main results: `main_status`, `stdin_as_file` and `debug_stdout`. The messages about the arguments go
to the standard output, those about the program to the standard error.
-/

namespace AbstractVM

open DecimalText (Text)

/-- What the process finds: its arguments, what opening a path gives, and the standard input. -/
structure World where
  args : List Text
  file? : Text → Option Text
  cin : Text

/-- The stream that is read, and whether it is `std::cin`; or the message instead. -/
def source (w : World) : Except Text (Bool × Text) :=
  match w.args with
  | [] => .ok (true, w.cin)
  | [path] =>
    if path = [] then .error "Error: file argument must not be empty.".toList
    else
      match w.file? path with
      | none => .error ("Error: could not open file ".toList ++ path)
      | some input => .ok (false, input)
  | _ => .error "Usage: ./avm [file]".toList

def main (w : World) : Outcome :=
  match source w with
  | .error message => .exited (endl message) [] 1
  | .ok (cin, input) => run cin input

/-! ## The debug build -/

/-- A number in the listing: `nb++ << ":\n"`. -/
def ordinal (nb : ℕ) : Text := Nat.toDigits 10 nb ++ [':']

def orNone (t : Text) : Text := if t = [] then "<none>".toList else t

/-- The lines that `printTokens` writes for the tokens of the lexer. -/
def lexListing (tokens : List LexToken) : List Text :=
  "##### Lexer output #####".toList :: "------------------------".toList ::
    (tokens.zipIdx 1).flatMap fun (token, nb) =>
      [ordinal nb, "  instruction: ".toList ++ token.instruction,
        "  operandType: ".toList ++ orNone token.operandType,
        "  literal:     ".toList ++ orNone token.literal, "------------------------".toList]

/-- The lines that `printTokens` writes for the instructions; the enumerations print as numbers. -/
def parseListing (tokens : List (ParsedInstr Operand)) : List Text :=
  "##### Parser output #####".toList :: "-------------------------".toList ::
    (tokens.zipIdx 1).flatMap fun (token, nb) =>
      [ordinal nb, "  instruction: ".toList ++ Nat.toDigits 10 token.instruction.toNat,
        "  operandType: ".toList ++ Nat.toDigits 10 token.operandType.toNat,
        "  operand:     ".toList ++ ((token.operand.map Operand.toString).getD "<none>".toList),
        "-------------------------".toList]

def outputHeader : Text := "##### Program output #####".toList

/-- What the debug build writes of the tokens and the instructions. -/
def tokenListing (cin : Bool) (input : Text) : List Text :=
  lexListing (lexicalAnalisys cin input).1 ++ [] :: parseListing (frontEnd cin input).1 ++ [[]]

/-- What it writes before it looks at the errors. -/
def listing (cin : Bool) (input : Text) : List Text :=
  tokenListing cin input ++ [outputHeader, []]

def runDebug (cin : Bool) (input : Text) : Outcome :=
  (run cin input).after ((listing cin input).flatMap endl)

def mainDebug (w : World) : Outcome :=
  match source w with
  | .error message => .exited (endl message) [] 1
  | .ok (cin, input) => runDebug cin input

/-! ## The exit status -/

/-- `main` has returned, with lines of its own on the standard error. -/
def Outcome.Reported (o : Outcome) : Prop :=
  ∃ stdout stderr status, o = .exited stdout stderr status ∧ stderr ≠ []

section
variable (cin : Bool) (input : Text)

theorem contract_iff_status : Contract cin input ↔ (run cin input).status? ≠ none := by
  constructor
  · rintro ⟨hone, -⟩ hnone
    exact not_exactlyOne_of_terminated hnone hone
  · intro hstatus
    by_cases hclean : (frontEnd cin input).2 = []
    · exact contract_of_exited hclean hstatus
    · exact contract_of_rejected hclean

theorem endl_ne_nil (t : Text) : endl t ≠ [] := by
  unfold endl
  simp

/-- The listing changes nothing of how the process ends. -/
theorem status_runDebug : (runDebug cin input).status? = (run cin input).status? := by
  unfold runDebug
  cases run cin input <;> rfl

/-- The ways to end, by the status. -/
theorem status_cases : (run cin input).status? = none ∨
    ((run cin input).status? = some 0 ∧ Exited cin input (run cin input)) ∨
      ((run cin input).status? = some 1 ∧ (run cin input).Reported) := by
  by_cases hnone : (run cin input).status? = none
  · exact Or.inl hnone
  right
  obtain ⟨hone, -⟩ := (contract_iff_status cin input).2 hnone
  rcases hone with ⟨hr, -, -⟩ | ⟨-, he, -⟩ | ⟨-, -, hf⟩
  · refine Or.inr ⟨hr.status, ?_⟩
    obtain ⟨hne, errors, hperm, ho⟩ := hr
    refine ⟨_, _, _, ho, ?_⟩
    cases errors with
    | nil => exact absurd hperm.nil_eq.symm hne
    | cons e errors => simp [endl_ne_nil]
  · exact Or.inl ⟨he.status, he⟩
  · refine Or.inr ⟨hf.status, ?_⟩
    rcases hf with ⟨-, ⟨done, i, rest, s, e, s', line, -, -, -, -, -, ho⟩ | ⟨s, -, ho⟩⟩
    · exact ⟨_, _, _, ho, endl_ne_nil _⟩
    · exact ⟨_, _, _, ho, endl_ne_nil _⟩

end

/-- **The exit status.** It is 0 exactly when a program could be read and was executed up to an
`exit`; it is 1 exactly when the arguments were refused, or a program could be read and `main` came to
its end with something on the standard error; and the process ends otherwise exactly when a program
could be read and its run leaves the contract. The debug build ends in the same way. -/
theorem main_status (w : World) :
    ((main w).status? = some 0 ↔
        ∃ cin input, source w = .ok (cin, input) ∧ Exited cin input (main w)) ∧
      ((main w).status? = some 1 ↔ (∃ message, source w = .error message) ∨
        ∃ cin input, source w = .ok (cin, input) ∧ (main w).Reported) ∧
      ((main w).status? = none ↔
        ∃ cin input, source w = .ok (cin, input) ∧ ¬ Contract cin input) ∧
      (mainDebug w).status? = (main w).status? := by
  unfold main mainDebug
  cases hsource : source w with
  | error message =>
    refine ⟨iff_of_false (fun h => by cases h) ?_, iff_of_true rfl (Or.inl ⟨message, rfl⟩),
      iff_of_false (fun h => by cases h) ?_, rfl⟩
    · rintro ⟨cin, input, h, -⟩
      cases h
    · rintro ⟨cin, input, h, -⟩
      cases h
  | ok stream =>
    obtain ⟨cin, input⟩ := stream
    have hthis : ∀ P : Bool → Text → Prop,
        (∃ cin' input', (Except.ok (cin, input) : Except Text _) = .ok (cin', input') ∧
          P cin' input') ↔ P cin input := by
      intro P
      constructor
      · rintro ⟨cin', input', h, hP⟩
        cases h
        exact hP
      · exact fun hP => ⟨cin, input, rfl, hP⟩
    have hno : ¬ ∃ message, (Except.ok (cin, input) : Except Text _) = .error message := by
      rintro ⟨message, h⟩
      cases h
    rw [hthis fun cin' input' => Exited cin' input' (run cin input),
      hthis fun _ _ => (run cin input).Reported, hthis fun cin' input' => ¬ Contract cin' input',
      or_iff_right hno, contract_iff_status, not_not]
    refine ⟨⟨fun h0 => ?_, fun h => h.status⟩, ⟨fun h1 => ?_, fun h => ?_⟩, Iff.rfl,
      status_runDebug cin input⟩
    · rcases status_cases cin input with hs | ⟨-, he⟩ | ⟨hs, -⟩
      · cases hs.symm.trans h0
      · exact he
      · cases hs.symm.trans h0
    · rcases status_cases cin input with hs | ⟨hs, -⟩ | ⟨-, hne⟩
      · cases hs.symm.trans h1
      · cases hs.symm.trans h1
      · exact hne
    · obtain ⟨stdout, stderr, status, ho, hne⟩ := h
      rcases status_cases cin input with hs | ⟨-, he⟩ | ⟨hs, -⟩
      · rw [ho] at hs
        cases hs
      · obtain ⟨-, done, i, rest, s, -, -, -, ho'⟩ := he
        cases ho.symm.trans ho'
        exact absurd rfl hne
      · exact hs

/-! ## The standard input -/

theorem numbered_eq_nil {n : ℕ} {ls : List Text} :
    numbered n ls = [] ↔ ∀ line ∈ ls, Skipped line := by
  induction ls generalizing n with
  | nil => simp
  | cons line ls ih =>
    rw [numbered_cons, List.forall_mem_cons]
    by_cases h : Skipped line
    · rw [if_pos h, ih]
      exact (and_iff_right h).symm
    · rw [if_neg h]
      exact iff_of_false (List.cons_ne_nil _ _) fun hall => h hall.1

/-- **The standard input is a file that ends at the first line `;;`.** The same text in a file is the
same program exactly when only comments and empty lines follow that line. -/
theorem stdin_as_file (input : Text) :
    run true input =
        run false (((Cpp.lines input).takeWhile (· ≠ ";;".toList)).flatMap endl) ∧
      (frontEnd true input = frontEnd false input ↔
        ∀ line ∈ (Cpp.lines input).dropWhile (· ≠ ";;".toList), Skipped line) := by
  constructor
  · have hone : ∀ line ∈ (Cpp.lines input).takeWhile (· ≠ ";;".toList), '\n' ∉ line :=
      fun line hline => not_mem_lines ((List.takeWhile_prefix _).subset hline)
    have hlines : programLines true input =
        programLines false (((Cpp.lines input).takeWhile (· ≠ ";;".toList)).flatMap endl) := by
      unfold programLines
      rw [readLines_file, lines_endl hone]
      rfl
    have hfront : frontEnd true input =
        frontEnd false (((Cpp.lines input).takeWhile (· ≠ ";;".toList)).flatMap endl) := by
      rw [frontEnd_eq, frontEnd_eq, hlines]
    rw [run_eq, run_eq, hfront]
  · obtain ⟨k, hk⟩ : ∃ k, programLines false input = programLines true input ++
        numbered k ((Cpp.lines input).dropWhile (· ≠ ";;".toList)) := by
      refine ⟨0 + ((Cpp.lines input).takeWhile (· ≠ ";;".toList)).length, ?_⟩
      unfold programLines
      rw [readLines_file]
      conv_lhs =>
        rw [← List.takeWhile_append_dropWhile (p := (· ≠ ";;".toList)) (l := Cpp.lines input)]
      exact numbered_append 0 _ _
    rw [← numbered_eq_nil (n := k)]
    constructor
    · intro h
      -- the file has an instruction for each line that follows
      have hlength : (frontEnd true input).1.length = (frontEnd false input).1.length := by rw [h]
      simp only [frontEnd_eq, hk, List.length_map, List.length_append] at hlength
      exact List.eq_nil_of_length_eq_zero (Nat.left_eq_add.1 hlength)
    · intro h
      rw [frontEnd_eq, frontEnd_eq, hk, h, List.append_nil]

/-! ## The listing -/

/-- A line that the listing may have: of one line, and not the header of the output. -/
def Listed (line : Text) : Prop := '\n' ∉ line ∧ line ≠ outputHeader

/-- A field behind its name, which starts with a blank. -/
theorem listed_field {name value : Text} (hname : name.head? = some ' ' ∧ '\n' ∉ name)
    (hvalue : '\n' ∉ value) : Listed (name ++ value) := by
  obtain ⟨hhead, hname⟩ := hname
  refine ⟨by simp [hname, hvalue], fun header => ?_⟩
  have hfirst : (name ++ value).head? = some ' ' := by
    cases name with
    | nil => cases hhead
    | cons c name => exact hhead
  rw [header] at hfirst
  exact absurd hfirst (by decide)

theorem digits_oneLine (n : ℕ) : '\n' ∉ Nat.toDigits 10 n :=
  oneLine_of_numeric (numeric_digits (DecimalText.digits_toDigits n))

theorem listed_ordinal (nb : ℕ) : Listed (ordinal nb) := by
  unfold ordinal
  have hdigits := digits_oneLine nb
  generalize Nat.toDigits 10 nb = digits at hdigits ⊢
  refine ⟨by simp [hdigits], fun header => ?_⟩
  have hlast := congrArg List.getLast? header
  rw [List.getLast?_concat] at hlast
  exact absurd hlast (by decide)

theorem orNone_oneLine {t : Text} (h : '\n' ∉ t) : '\n' ∉ orNone t := by
  unfold orNone
  split
  · decide
  · exact h

theorem listed_lexListing {tokens : List LexToken}
    (h : ∀ t ∈ tokens, '\n' ∉ t.instruction ∧ '\n' ∉ t.operandType ∧ '\n' ∉ t.literal) :
    ∀ line ∈ lexListing tokens, Listed line := by
  have hrule : Listed "------------------------".toList := ⟨by decide, by decide⟩
  refine List.forall_mem_cons.2 ⟨⟨by decide, by decide⟩, List.forall_mem_cons.2 ⟨hrule, ?_⟩⟩
  intro line hline
  obtain ⟨⟨t, nb⟩, ht, hline⟩ := List.mem_flatMap.1 hline
  obtain ⟨hinstr, htype, hliteral⟩ := h t (List.fst_mem_of_mem_zipIdx ht)
  simp only [List.mem_cons, List.not_mem_nil, or_false] at hline
  rcases hline with rfl | rfl | rfl | rfl | rfl
  · exact listed_ordinal nb
  · exact listed_field (by decide) hinstr
  · exact listed_field (by decide) (orNone_oneLine htype)
  · exact listed_field (by decide) (orNone_oneLine hliteral)
  · exact hrule

theorem listed_parseListing {tokens : List (ParsedInstr Operand)}
    (h : ∀ t ∈ tokens, ∀ o ∈ t.operand, '\n' ∉ o.toString) :
    ∀ line ∈ parseListing tokens, Listed line := by
  have hrule : Listed "-------------------------".toList := ⟨by decide, by decide⟩
  refine List.forall_mem_cons.2 ⟨⟨by decide, by decide⟩, List.forall_mem_cons.2 ⟨hrule, ?_⟩⟩
  intro line hline
  obtain ⟨⟨t, nb⟩, ht, hline⟩ := List.mem_flatMap.1 hline
  have ho := h t (List.fst_mem_of_mem_zipIdx ht)
  simp only [List.mem_cons, List.not_mem_nil, or_false] at hline
  rcases hline with rfl | rfl | rfl | rfl | rfl
  · exact listed_ordinal nb
  · exact listed_field (by decide) (digits_oneLine _)
  · exact listed_field (by decide) (digits_oneLine _)
  · refine listed_field (by decide) ?_
    cases hto : t.operand with
    | none => decide
    | some o => exact ho o hto
  · exact hrule

/-- An operand of the parser prints in one line. -/
theorem operand_oneLine {t : OperandType} {literal : Text} {o : Operand}
    (h : createOperand t literal = .ok (some o)) : '\n' ∉ o.toString := by
  rcases createOperand_cell h with ⟨-, ho⟩ | ⟨c, -, ho⟩
  · cases ho
  · cases ho
    rw [c.toString_operand]
    exact oneLine_of_numeric c.text_numeric

theorem instrAt_oneLine (p : Text × ℕ) : ∀ o ∈ (instrAt p).operand, '\n' ∉ o.toString := by
  intro o ho
  unfold instrAt parseToken at ho
  simp only [tryPush_fst] at ho
  split at ho
  · cases hcreate : createOperand ((toType (lexLine p.2 p.1).1.operandType).toOption.getD .NoType)
        (lexLine p.2 p.1).1.literal with
    | error e =>
      rw [hcreate] at ho
      cases ho
    | ok r =>
      rw [hcreate] at ho
      cases show r = some o from ho
      exact operand_oneLine hcreate
  · split at ho
    · cases ho
    · cases ho

theorem listed_tokenListing (cin : Bool) (input : Text) :
    ∀ line ∈ tokenListing cin input, Listed line := by
  have hnil : Listed [] := ⟨List.not_mem_nil, by decide⟩
  have htokens : (lexicalAnalisys cin input).1 =
      (programLines cin input).map fun p => (lexLine p.2 p.1).1 := by
    unfold lexicalAnalisys
    rw [lexLoop_eq]
    rfl
  have hlex : ∀ line ∈ lexListing (lexicalAnalisys cin input).1, Listed line := by
    refine listed_lexListing fun t ht => ?_
    rw [htokens] at ht
    obtain ⟨p, hp, rfl⟩ := List.mem_map.1 ht
    exact token_oneLine (programLine_oneLine hp) p.2
  have hparse : ∀ line ∈ parseListing (frontEnd cin input).1, Listed line := by
    refine listed_parseListing fun i hi => ?_
    rw [frontEnd_eq] at hi
    obtain ⟨p, -, rfl⟩ := List.mem_map.1 hi
    exact instrAt_oneLine p
  intro line hline
  unfold tokenListing at hline
  simp only [List.mem_append, List.mem_cons, List.not_mem_nil, or_false] at hline
  rcases hline with (hline | rfl | hline) | rfl
  · exact hlex line hline
  · exact hnil
  · exact hparse line hline
  · exact hnil

/-- No line of the output of a program is the header. -/
theorem OutLine.ne_header {line : Text} (h : OutLine line) : line ≠ outputHeader := by
  have hblank : ' ' ∈ outputHeader := by decide
  have hnumeric : ¬ Numeric ' ' := by unfold Numeric; decide
  rintro rfl
  generalize hh : outputHeader = header at h hblank
  cases h with
  | number c => exact hnumeric (c.text_numeric _ hblank)
  | char hp =>
    have hlength := congrArg List.length hh
    rw [List.length_singleton] at hlength
    exact absurd hlength (by decide)

/-- **The debug build** writes its listing and then does what the standard build does: same status,
same standard error. Whatever the words of the program, its standard output has one line only that is the
header of the program's output, and after it, below an empty line, stands this output. -/
theorem debug_stdout (cin : Bool) (input : Text) :
    (runDebug cin input).status? = (run cin input).status? ∧
      (runDebug cin input).stderr = (run cin input).stderr ∧
      ∃ before, outputHeader ∉ before ∧ outputHeader ∉ Cpp.lines (run cin input).stdout ∧
        Cpp.lines (runDebug cin input).stdout =
          before ++ outputHeader :: [] :: Cpp.lines (run cin input).stdout := by
  have hout := (stdout_tidy cin input).2
  have hlisted := listed_tokenListing cin input
  refine ⟨status_runDebug cin input, ?_, _, fun h => (hlisted _ h).2 rfl,
    fun h => (hout _ h).ne_header rfl, ?_⟩
  · unfold runDebug
    cases run cin input <;> rfl
  · have hstdout : (runDebug cin input).stdout =
        (listing cin input).flatMap endl ++ (run cin input).stdout := by
      unfold runDebug
      cases run cin input <;> rfl
    have hone : ∀ line ∈ listing cin input, '\n' ∉ line := by
      intro line hline
      rcases List.mem_append.1 hline with hline | hline
      · exact (hlisted line hline).1
      · simp only [List.mem_cons, List.not_mem_nil, or_false] at hline
        rcases hline with rfl | rfl <;> decide
    rw [hstdout, lines_wholeLines (wholeLines_endl _), lines_endl hone]
    exact List.append_assoc _ _ _

end AbstractVM
