import AbstractVM.Concatenation
import AbstractVM.StandardError
/-!
# Files with carriage returns

`std::getline` takes the newline off a line and nothing else, so in a file saved with `\r\n` at the
ends of its lines every line keeps a `\r`. Where does it go? Into the instruction, if the line is one
word; otherwise behind the operand, where the lexer does not look.

| here | what it says of the source |
| --- | --- |
| `toOperation_return` | no instruction ends in `\r` |
| `clean_withReturn_iff` | a line with one, through `lexicalAnalisys` and `parse` |
| `clean_crlf_iff`, `frontEnd_crlf` | a file of such lines |
| `frontEnd_crlf_cin` | `;;` on the standard input |

Main result: `run_crlf`.
-/

namespace AbstractVM

open DecimalText (Text)

/-- The text with `\r\n` for each newline. -/
def crlf (P : Text) : Text := P.flatMap fun c => if c = '\n' then ['\r', '\n'] else [c]

/-- A line that keeps its `\r`. -/
def withReturn (line : Text) : Text := line ++ ['\r']

/-! ## The lines of the file -/

/-- Whole lines are their lines, each with its newline. -/
theorem endl_lines {P : Text} (h : WholeLines P) : (Cpp.lines P).flatMap endl = P := by
  rcases h with rfl | ⟨t, rfl⟩
  · rfl
  induction t with
  | nil => rfl
  | cons c t ih =>
    rw [List.cons_append, Cpp.lines]
    by_cases hc : c = '\n'
    · rw [if_pos hc, List.flatMap_cons, ih, hc]
      rfl
    · rw [if_neg hc]
      cases hls : Cpp.lines (t ++ ['\n']) with
      | nil =>
        rw [hls] at ih
        exact absurd ih.symm (by simp)
      | cons l ls =>
        rw [hls] at ih
        rw [← ih]
        rfl

theorem crlf_line {line : Text} (h : '\n' ∉ line) : crlf (endl line) = endl (withReturn line) := by
  induction line with
  | nil => rfl
  | cons c line ih =>
    rw [List.mem_cons, not_or] at h
    have ih' := ih h.2
    unfold crlf at ih' ⊢
    rw [endl, List.cons_append, List.flatMap_cons, if_neg (Ne.symm h.1)]
    exact congrArg (c :: ·) ih'

theorem crlf_lines {ls : List Text} (h : ∀ line ∈ ls, '\n' ∉ line) :
    crlf (ls.flatMap endl) = (ls.map withReturn).flatMap endl := by
  induction ls with
  | nil => rfl
  | cons line ls ih =>
    obtain ⟨hline, hls⟩ := List.forall_mem_cons.1 h
    have happend : crlf (endl line ++ ls.flatMap endl) = crlf (endl line) ++ crlf (ls.flatMap endl) :=
      List.flatMap_append
    rw [List.flatMap_cons, happend, crlf_line hline, ih hls]
    rfl

theorem wholeLines_crlf {P : Text} (h : WholeLines P) : WholeLines (crlf P) := by
  rw [← endl_lines h, crlf_lines fun _ => not_mem_lines]
  exact wholeLines_endl _

theorem lines_crlf {P : Text} (h : WholeLines P) :
    Cpp.lines (crlf P) = (Cpp.lines P).map withReturn := by
  conv_lhs => rw [← endl_lines h]
  rw [crlf_lines fun _ => not_mem_lines, lines_endl]
  intro l hl
  obtain ⟨line, hline, rfl⟩ := List.mem_map.1 hl
  simp [withReturn, not_mem_lines hline]

/-! ## One line -/

/-- No name of an instruction has a `\r` in it. -/
theorem toOperation_return {w : Text} (h : '\r' ∈ w) :
    toOperation w = .error (UnknownInstructionException w) := by
  have hall : ∀ p ∈ opMap, '\r' ∉ p.1 := by decide
  cases hop : toOperation w with
  | error e => rw [toOperation_error hop]
  | ok op => exact absurd h (hall _ (toOperation_eq_ok.1 hop))

theorem skipped_withReturn {line : Text} : Skipped (withReturn line) ↔ line.head? = some ';' := by
  cases line with
  | nil => simp [Skipped, withReturn]
  | cons c line => simp [Skipped, withReturn]

/-- The lexer and the parser find nothing wrong with the line. -/
def CleanLine (p : Text × ℕ) : Prop := lexErrors p = [] ∧ parseErrors p = []

/-- **A line with a `\r`**: it is accepted if it has a blank and was accepted without, and then means
the same. -/
theorem cleanLine_withReturn (line : Text) (n : ℕ) :
    (CleanLine (withReturn line, n) ↔ CleanLine (line, n) ∧ ' ' ∈ line) ∧
      (CleanLine (line, n) → ' ' ∈ line → instrAt (withReturn line, n) = instrAt (line, n)) := by
  have hsame : ∀ {line : Text}, ' ' ∈ line → lexLine n (withReturn line) = lexLine n line →
      (CleanLine (withReturn line, n) ↔ CleanLine (line, n) ∧ ' ' ∈ line) ∧
        (CleanLine (line, n) → ' ' ∈ line → instrAt (withReturn line, n) = instrAt (line, n)) := by
    intro line hblank hlex
    obtain ⟨hi, hl, hp⟩ := sameLine_of_lexLine hlex
    unfold CleanLine
    rw [hl, hp, hi]
    exact ⟨(and_iff_left hblank).symm, fun _ _ => rfl⟩
  rcases line_shapes line with h | ⟨w, r, rfl, h, hr⟩ | ⟨w, t, l, x, rfl, h, ht, hl⟩ |
    ⟨w, t, l, rfl, h, ht, hl⟩
  · -- one word: the `\r` is in the instruction
    refine ⟨iff_of_false ?_ fun hc => h hc.2, fun _ hblank => absurd hblank h⟩
    rintro ⟨-, hparse⟩
    have hw : ' ' ∉ withReturn line := by simp [withReturn, h]
    rw [parseErrors_eq, lexLine_word hw] at hparse
    unfold tokenFaults at hparse
    rw [toOperation_return (by simp [withReturn])] at hparse
    simp [thrown] at hparse
  · refine hsame (by simp) ?_
    have hr' : '(' ∉ r ++ ['\r'] := by simp [hr]
    have hassoc : withReturn (w ++ ' ' :: r) = w ++ ' ' :: (r ++ ['\r']) := by simp [withReturn]
    rw [hassoc, lexLine_noParen h hr', lexLine_noParen h hr]
  · refine hsame (by simp) ?_
    have hassoc : withReturn (w ++ ' ' :: (t ++ '(' :: (l ++ ')' :: x))) =
        w ++ ' ' :: (t ++ '(' :: (l ++ ')' :: (x ++ ['\r']))) := by simp [withReturn]
    rw [hassoc, lexLine_closed h ht hl, lexLine_closed h ht hl]
  · -- a parenthesis is missing in both
    have hl' : ')' ∉ l ++ ['\r'] := by simp [hl]
    have hassoc : withReturn (w ++ ' ' :: (t ++ '(' :: l)) =
        w ++ ' ' :: (t ++ '(' :: (l ++ ['\r'])) := by simp [withReturn]
    have hopen : ¬ CleanLine (w ++ ' ' :: (t ++ '(' :: l), n) := by
      rintro ⟨hlex, -⟩
      unfold lexErrors at hlex
      rw [lexLine_open h ht hl] at hlex
      cases hlex
    refine ⟨iff_of_false ?_ fun hc => hopen hc.1, fun hc => absurd hc hopen⟩
    rintro ⟨hlex, -⟩
    unfold lexErrors at hlex
    rw [hassoc, lexLine_open h ht hl'] at hlex
    cases hlex

/-! ## The file -/

/-- The line is a comment or has a blank. -/
def Safe (line : Text) : Prop := line.head? = some ';' ∨ ' ' ∈ line

theorem numbered_withReturn (n : ℕ) (ls : List Text) :
    ((∀ p ∈ numbered n (ls.map withReturn), CleanLine p) ↔
        (∀ p ∈ numbered n ls, CleanLine p) ∧ ∀ line ∈ ls, Safe line) ∧
      ((∀ p ∈ numbered n (ls.map withReturn), CleanLine p) →
        (numbered n (ls.map withReturn)).map instrAt = (numbered n ls).map instrAt) := by
  induction ls generalizing n with
  | nil => simp
  | cons line ls ih =>
    obtain ⟨hclean, hinstr⟩ := ih (n + 1)
    rw [List.map_cons, numbered_cons, numbered_cons]
    by_cases hcomment : line.head? = some ';'
    · rw [if_pos (skipped_withReturn.2 hcomment), if_pos (show Skipped line from Or.inr hcomment)]
      refine ⟨hclean.trans (and_congr_right fun _ => ?_), hinstr⟩
      rw [List.forall_mem_cons]
      exact (and_iff_right (Or.inl hcomment)).symm
    rw [if_neg (mt skipped_withReturn.1 hcomment)]
    obtain ⟨hline, hsame⟩ := cleanLine_withReturn line (n + 1)
    have hsafe : Safe line ↔ ' ' ∈ line := or_iff_right hcomment
    by_cases hs : Skipped line
    · -- an empty line has no blank
      have hblank : ' ' ∉ line := by
        rw [hs.resolve_right hcomment]
        exact List.not_mem_nil
      have hno : ¬ CleanLine (withReturn line, n + 1) := fun h => hblank (hline.1 h).2
      refine ⟨iff_of_false (fun h => hno (List.forall_mem_cons.1 h).1) fun h => ?_,
        fun h => absurd (List.forall_mem_cons.1 h).1 hno⟩
      exact hblank (hsafe.1 (List.forall_mem_cons.1 h.2).1)
    · rw [if_neg hs]
      simp only [List.forall_mem_cons, hclean, hline, hsafe, List.map_cons]
      refine ⟨and_and_and_comm, ?_⟩
      rintro ⟨⟨hc, hblank⟩, hrest⟩
      rw [hsame hc hblank, hinstr (hclean.2 hrest)]

theorem programLines_crlf {P : Text} (h : WholeLines P) :
    programLines false (crlf P) = numbered 0 ((Cpp.lines P).map withReturn) := by
  unfold programLines
  rw [lines_crlf h]
  rfl

theorem clean_crlf_iff {P : Text} (h : WholeLines P) :
    (frontEnd false (crlf P)).2 = [] ↔
      (frontEnd false P).2 = [] ∧ ∀ line ∈ Cpp.lines P, Safe line := by
  rw [clean_iff, clean_iff, programLines_crlf h]
  exact (numbered_withReturn 0 (Cpp.lines P)).1

theorem frontEnd_crlf {P : Text} (h : WholeLines P) (hclean : (frontEnd false (crlf P)).2 = []) :
    frontEnd false (crlf P) = frontEnd false P := by
  refine Prod.ext ?_ (hclean.trans ((clean_crlf_iff h).1 hclean).1.symm)
  rw [clean_iff, programLines_crlf h] at hclean
  rw [frontEnd_eq, frontEnd_eq, programLines_crlf h]
  exact (numbered_withReturn 0 (Cpp.lines P)).2 hclean

/-- The line `;;` does not end the standard input: it is a comment like others. -/
theorem frontEnd_crlf_cin {P last : Text} (hP : WholeLines P) (hlast : '\n' ∉ last) :
    frontEnd true (crlf P ++ last) = frontEnd false (crlf P ++ last) := by
  have hsame : programLines true (crlf P ++ last) = programLines false (crlf P ++ last) := by
    unfold programLines
    rw [lines_wholeLines (wholeLines_crlf hP), lines_crlf hP]
    have hreturn : ∀ l ∈ (Cpp.lines P).map withReturn, decide (l ≠ [';', ';']) = true := by
      intro l hl
      obtain ⟨line, -, rfl⟩ := List.mem_map.1 hl
      refine decide_eq_true fun he => ?_
      have hlast := congrArg List.getLast? he
      simp [withReturn] at hlast
    have htake : readLines true ((Cpp.lines P).map withReturn ++ Cpp.lines last) =
        (Cpp.lines P).map withReturn ++ (Cpp.lines last).takeWhile (· ≠ [';', ';']) :=
      List.takeWhile_append_of_pos hreturn
    rw [htake, readLines_file, numbered_append, numbered_append]
    congr 1
    by_cases hne : last = []
    · rw [hne]
      rfl
    rw [Cpp.lines_last hlast hne]
    by_cases hend : last = [';', ';']
    · rw [hend]
      rfl
    · have hkeep : [last].takeWhile (fun l => decide (l ≠ [';', ';'])) = [last] := by simp [hend]
      rw [hkeep]
  rw [frontEnd_eq, frontEnd_eq, hsame]

/-- **A file with carriage returns**, read from a file or from the standard input, is accepted
exactly when it is without them and each of its lines, but for one that ends the file without a
newline, is a comment or has a blank; and then it does the same. -/
theorem run_crlf {P last : Text} (hP : WholeLines P) (hlast : '\n' ∉ last) (cin : Bool) :
    ((frontEnd cin (crlf P ++ last)).2 = [] ↔
        (frontEnd false (P ++ last)).2 = [] ∧
          ∀ line ∈ Cpp.lines P, line.head? = some ';' ∨ ' ' ∈ line) ∧
      ((frontEnd cin (crlf P ++ last)).2 = [] →
        run cin (crlf P ++ last) = run false (P ++ last)) := by
  have hcin : frontEnd cin (crlf P ++ last) = frontEnd false (crlf P ++ last) := by
    cases cin with
    | false => rfl
    | true => exact frontEnd_crlf_cin hP hlast
  have hcount : (Cpp.lines (crlf P)).length = (Cpp.lines P).length := by
    rw [lines_crlf hP, List.length_map]
  rw [hcin, clean_append (wholeLines_crlf hP), clean_append hP, clean_crlf_iff hP]
  refine ⟨and_right_comm, fun h => ?_⟩
  have hclean := (clean_crlf_iff hP).2 h.1
  have hfront : frontEnd false (crlf P ++ last) = frontEnd false (P ++ last) := by
    refine Prod.ext ?_ ?_
    · rw [frontEnd_append (wholeLines_crlf hP), frontEnd_append hP, frontEnd_crlf hP hclean, hcount]
    · rw [(clean_append (wholeLines_crlf hP) last).2 ⟨hclean, h.2⟩,
        (clean_append hP last).2 ⟨h.1.1, h.2⟩]
  rw [run_eq, run_eq, hcin, hfront]

/-- Only the last line is one word. -/
theorem run_crlf_push :
    run true (crlf "push int8(1)\n;\ndump \n;;\n".toList ++ "exit".toList) =
      run false ("push int8(1)\n;\ndump \n;;\n".toList ++ "exit".toList) :=
  (run_crlf (Or.inr ⟨"push int8(1)\n;\ndump \n;;".toList, by decide⟩) (by decide) true).2
    (by decide +kernel)

end AbstractVM
