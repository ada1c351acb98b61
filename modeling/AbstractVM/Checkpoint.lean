import AbstractVM.Concatenation
import AbstractVM.Output
import AbstractVM.Sources
import AbstractVM.PushBack
/-!
# Saving a stack and going on from it

What `dump` prints of a stack, put behind `push` and the names of the types, bottom first, is a
program. It rebuilds the stack when each text is read back (`PushesBack`); and as what was printed
before matters to nothing after, a program cut in two can go on from the saved stack.

| here | what it says of the source |
| --- | --- |
| `saveText` | the stack as a program |
| `saves_iff` | when that program gives the stack back |
| `Command.run_after` | no command looks at what was written |
| `resume` | a program cut in two, with the stack saved at the cut |
-/

namespace AbstractVM

open DecimalText (Text)
open Machine

/-- What `dump` prints of a cell, as a line that pushes it. -/
def pushLine (c : Cell) : Text := "push ".toList ++ (c.tag.name ++ '(' :: (c.text ++ [')']))

/-- The stack, its top first, as a program. -/
def saveText (cells : List Cell) : Text := cells.reverse.flatMap fun c => pushLine c ++ ['\n']

/-- What the factory makes of the text of a cell. -/
def Rereads (c d : Cell) : Prop := createOperand c.tag c.text = .ok (some d.operand)

namespace Command

/-- The commands that push cells, on lines from `n` on. -/
def pushes (n : ℕ) (cells : List Cell) : List (Line Cell) :=
  (cells.zipIdx n).map fun p => ⟨p.2, push p.1⟩

theorem run_pushes (n : ℕ) (cells : List Cell) (s : State Cell) :
    run Cell.numbers (pushes n cells) s = .fell { s with stack := cells.reverse ++ s.stack } := by
  induction cells generalizing n s with
  | nil => rfl
  | cons c cells ih =>
    have hstep := ih (n + 1) { s with stack := c :: s.stack }
    rw [List.reverse_cons, List.append_assoc, List.singleton_append]
    exact hstep

/-- The file that pushes cells. -/
theorem push_rows {cells : List Cell} {reread : List Cell}
    (h : List.Forall₂ Rereads cells reread) (n : ℕ) :
    ∃ rows : List (Row false), programText rows = (cells.flatMap fun c => pushLine c ++ ['\n']) ∧
      rows.length = cells.length ∧
      (rows.zipIdx n).filterMap (fun p => p.1.parsed p.2) = (pushes n reread).map Line.instr := by
  induction h generalizing n with
  | nil => exact ⟨[], rfl, rfl, rfl⟩
  | @cons c d cells reread hc _ ih =>
    obtain ⟨rows, htext, hlen, hrows⟩ := ih (n + 1)
    have htag : d.tag = c.tag := by
      rcases createOperand_cell hc with ⟨-, hno⟩ | ⟨e, he, heq⟩
      · cases hno
      · cases operand_injective (Option.some.inj heq)
        exact he
    refine ⟨.instr (.value .PUSH (Or.inl rfl) c.tag c.text d.operand hc) :: rows, ?_, ?_, ?_⟩
    · rw [List.flatMap_cons, ← htext]
      rfl
    · rw [List.length_cons, hlen, List.length_cons]
    · rw [List.zipIdx_cons, List.filterMap_cons]
      have hfirst : Line.instr ⟨n, push d⟩ = ⟨.PUSH, c.tag, some d.operand, n⟩ := by
        rw [← htag]
        rfl
      simp only [pushes, List.zipIdx_cons, List.map_cons, hfirst]
      exact congrArg _ hrows

end Command

/-! ## Saving -/

theorem rereads_self_iff (c : Cell) : Rereads c c ↔ PushesBack c := by
  unfold Rereads
  rw [← c.toString_operand, ← c.getType_operand]
  refine ⟨pushesBack_of_eq, fun h => ?_⟩
  obtain ⟨value, valid⟩ := c
  cases value with
  | int T v =>
    have hv : T.Fits v := valid
    refine (createOperand_toStringInt T (hv.inBits.mono (by decide))).trans ?_
    rw [fitInt_of_fits hv]
    rfl
  | real T x =>
    obtain ⟨hplain, hfix⟩ := (pushesBack_real valid).1 h
    have hvalue : T.repushed x = x := Cpp.SRat.ext' rfl hfix
    refine (createOperand_render T valid).trans ?_
    rw [if_pos hplain, hvalue]
    rfl

theorem pushLine_oneLine (c : Cell) : '\n' ∉ pushLine c := by
  have hname : '\n' ∉ c.tag.name := (typeMap_chars (OperandType.name_mem c.tag_ne_noType)).2
  have htext : '\n' ∉ c.text := c.text_not_mem (by unfold Numeric; decide)
  unfold pushLine
  simp [hname, htext]

theorem not_skipped_pushLine (c : Cell) : ¬ Skipped (pushLine c) := by
  rintro (h | h)
  · cases h
  · exact absurd (Option.some.inj h) (by decide)

theorem saveText_eq (cells : List Cell) :
    saveText cells = (cells.reverse.map pushLine).flatMap endl := by
  unfold saveText
  rw [List.flatMap_map]
  rfl

theorem lines_saveText (cells : List Cell) :
    Cpp.lines (saveText cells) = cells.reverse.map pushLine := by
  rw [saveText_eq, lines_endl]
  intro line hline
  obtain ⟨c, -, rfl⟩ := List.mem_map.1 hline
  exact pushLine_oneLine c

/-- A line that is accepted is read as some cell. -/
theorem exists_rereads {c : Cell} {n : ℕ} (h : parseErrors (pushLine c, n) = []) :
    ∃ d : Cell, Rereads c d := by
  have hname := typeMap_chars (OperandType.name_mem c.tag_ne_noType)
  have hlex : lexLine n (pushLine c) = (⟨"push".toList, c.tag.name, c.text, n⟩, []) :=
    lexLine_closed (w := "push".toList) (by decide) hname.1 (c.text_not_mem (by unfold Numeric; decide))
  have hpush : toOperation "push".toList = .ok .PUSH := by decide
  unfold parseErrors at h
  rw [hlex] at h
  rcases parseToken_eq_nil.1 h with ⟨op, type, o, -, -, htype, hcreate, -⟩ | ⟨op, hop, hno, -⟩
  · have htag : toType c.tag.name = .ok c.tag := toType_eq_ok.2 (OperandType.name_mem c.tag_ne_noType)
    cases htype.symm.trans htag
    rcases createOperand_cell hcreate with ⟨-, ho⟩ | ⟨d, -, ho⟩
    · cases ho
    · exact ⟨d, hcreate.trans (congrArg _ ho)⟩
  · cases hop.symm.trans hpush
    exact absurd (Or.inl rfl) hno

theorem exists_forall₂ {cells : List Cell} (h : ∀ c ∈ cells, ∃ d : Cell, Rereads c d) :
    ∃ reread : List Cell, List.Forall₂ Rereads cells reread := by
  induction cells with
  | nil => exact ⟨[], .nil⟩
  | cons c cells ih =>
    obtain ⟨hc, hcells⟩ := List.forall_mem_cons.1 h
    obtain ⟨d, hd⟩ := hc
    obtain ⟨reread, hreread⟩ := ih hcells
    exact ⟨d :: reread, .cons hd hreread⟩

/-- The front end on a saved stack. -/
theorem frontEnd_saveText {cells reread : List Cell}
    (h : List.Forall₂ Rereads cells.reverse reread) :
    frontEnd false (saveText cells) = ((Command.pushes 1 reread).map Command.Line.instr, []) := by
  obtain ⟨rows, htext, -, hrows⟩ := Command.push_rows h 1
  unfold saveText
  rw [← htext, frontEnd_programText]
  exact Prod.ext hrows rfl

/-- Operands that can be pushed back come back. -/
theorem saves {cells : List Cell} (h : ∀ c ∈ cells, PushesBack c) :
    ∃ ls : List (Command.Line Cell), frontEnd false (saveText cells) = (ls.map Command.Line.instr, []) ∧
      Command.run Cell.numbers ls Command.State.init = .fell ⟨cells, []⟩ := by
  have hsame : List.Forall₂ Rereads cells.reverse cells.reverse :=
    List.forall₂_same.2 fun c hc => (rereads_self_iff c).2 (h c (List.mem_reverse.1 hc))
  refine ⟨_, frontEnd_saveText hsame, ?_⟩
  rw [Command.run_pushes, List.reverse_reverse]
  simp [Command.State.init]

/-- **When a saved stack comes back.** The program of `push` instructions that `dump` and the names
of the types make of a stack rebuilds this stack, each value and each zero's sign, exactly when
every operand on it can be pushed back. -/
theorem saves_iff (cells : List Cell) :
    (∃ ls : List (Command.Line Cell),
        frontEnd false (saveText cells) = (ls.map Command.Line.instr, []) ∧
          Command.run Cell.numbers ls Command.State.init = .fell ⟨cells, []⟩) ↔
      ∀ c ∈ cells, PushesBack c := by
  constructor
  · rintro ⟨ls, hfront, hrun⟩
    have hclean : (frontEnd false (saveText cells)).2 = [] := by rw [hfront]
    have hall : ∀ c ∈ cells.reverse, ∃ d : Cell, Rereads c d := by
      intro c hc
      have hmem : pushLine c ∈ Cpp.lines (saveText cells) := by
        rw [lines_saveText]
        exact List.mem_map_of_mem hc
      have haccepted := numbered_forall (P := fun line => lexErrors (line, 0) = [] ∧
        parseErrors (line, 0) = []).1 (fun p hp => (clean_number p).1 (clean_iff.1 hclean p hp))
        (pushLine c) hmem
      rcases haccepted with hskip | haccepted
      · exact absurd hskip (not_skipped_pushLine c)
      · exact exists_rereads haccepted.2
    obtain ⟨reread, hreread⟩ := exists_forall₂ hall
    have hls := congrArg Prod.fst (hfront.symm.trans (frontEnd_saveText hreread))
    cases List.map_injective_iff.2 Command.instr_injective hls
    have hstack := hrun.symm.trans (Command.run_pushes 1 reread Command.State.init)
    have hcells : cells = reread.reverse := by simpa [Command.State.init] using hstack
    rw [hcells, List.reverse_reverse] at hreread
    intro c hc
    rw [hcells, List.mem_reverse] at hc
    exact (rereads_self_iff c).1 (List.forall₂_same.1 hreread c hc)
  · exact saves

/-! ## What was written does not matter -/

/-- Numbers do what they do. -/
theorem Numbers.follows_self {C : Type} (N : Numbers C) :
    N.Follows N Eq fun _ _ _ => False where
  apply := by
    rintro l r _ _ op rfl rfl
    right
    cases N.apply op l r with
    | error e => rfl
    | ok c => rfl
  equal := by rintro a b _ _ rfl rfl; rfl
  before := by rintro a b _ _ rfl rfl; rfl
  text := by rintro a _ rfl; rfl
  int8? := by rintro a _ rfl; rfl

namespace Command

theorem Line.rel_self {C : Type} (l : Line C) : Line.Rel Eq l l := by
  obtain ⟨n, c⟩ := l
  refine ⟨rfl, ?_⟩
  cases c with
  | push c => exact .push rfl
  | assert c => exact .assert rfl
  | arith op => exact .arith op
  | pop => exact .pop
  | swap => exact .swap
  | dump => exact .dump
  | print => exact .print
  | sort => exact .sort
  | exit => exact .exit

/-- No command looks at what was written. -/
theorem run_after {C : Type} {N : Numbers C} (pre : Text) (ls : List (Line C)) (stack : List C) :
    (along Eq pre).Finals (Line.Rel Eq) (run N ls ⟨stack, pre⟩) (run N ls ⟨stack, []⟩) := by
  have hstart : (along Eq pre).state (⟨stack, pre⟩ : State C) ⟨stack, []⟩ :=
    ⟨List.forall₂_same.2 fun _ _ => rfl, (List.append_nil pre).symm⟩
  rcases run_follows N.follows_self (List.forall₂_same.2 fun l _ => Line.rel_self l) hstart with
    ⟨-, h⟩ | ⟨⟨parts⟩⟩
  · exact h
  · obtain ⟨_, _, _, _, _, _, hoff⟩ := parts.off
    exact absurd hoff id

/-- No stack is higher than the commands executed are many. -/
theorem length_stack_le {C : Type} {N : Numbers C} {ls : List (Line C)} {t : State C}
    (h : run N ls State.init = .fell t) :
    t.stack.length ≤ ls.length := by
  refine run_keeps (fun done s => s.stack.length ≤ done.length) h (Nat.le_refl 0) ?_
  rintro done ⟨n, c⟩ u v - hu hgoes
  rw [List.length_append, List.length_singleton]
  cases hgoes with
  | push c => exact Nat.succ_le_succ hu
  | assert hs heq => exact Nat.le_succ_of_le hu
  | pop hs =>
    rw [hs, List.length_cons] at hu
    simp only
    omega
  | swap hs =>
    rw [hs, List.length_cons, List.length_cons] at hu
    simp only [List.length_cons]
    omega
  | dump => exact Nat.le_succ_of_le hu
  | arith hs hop =>
    rw [hs, List.length_cons, List.length_cons] at hu
    simp only [List.length_cons]
    omega
  | print hs hv hp => exact Nat.le_succ_of_le hu
  | sort hl =>
    have hlen := (ListSort.listSort_perm hl).length_eq
    rw [List.length_reverse] at hlen
    simp only [List.length_reverse, hlen]
    exact Nat.le_succ_of_le hu

end Command

/-! ## Going on -/

/-- The stack as a program of `n` lines. -/
def checkpoint (n : ℕ) (cells : List Cell) : Text :=
  saveText cells ++ List.replicate (n - cells.length) '\n'

theorem numbered_length_le (n : ℕ) (ls : List Text) : (numbered n ls).length ≤ ls.length := by
  unfold numbered
  refine (List.length_filter_le _ _).trans ?_
  rw [List.length_zipIdx]

theorem wholeLines_saveText (cells : List Cell) : WholeLines (saveText cells) := by
  rw [saveText_eq]
  exact wholeLines_endl _

theorem lines_newlines (k : ℕ) : Cpp.lines (List.replicate k '\n') = List.replicate k [] := by
  induction k with
  | zero => rfl
  | succ k ih => rw [List.replicate_succ, Cpp.lines_newline, ih, List.replicate_succ]

theorem lines_checkpoint {n : ℕ} {cells : List Cell} (h : cells.length ≤ n) :
    (Cpp.lines (checkpoint n cells)).length = n := by
  unfold checkpoint
  rw [lines_wholeLines (wholeLines_saveText cells), lines_saveText, lines_newlines]
  simp only [List.length_append, List.length_map, List.length_reverse, List.length_replicate]
  omega

theorem wholeLines_checkpoint (n : ℕ) (cells : List Cell) : WholeLines (checkpoint n cells) := by
  refine wholeLines_append (wholeLines_saveText cells) ?_
  cases hk : n - cells.length with
  | zero => exact Or.inl rfl
  | succ k => exact Or.inr ⟨List.replicate k '\n', by rw [List.replicate_succ']⟩

/-- Empty lines at the end add nothing. -/
theorem frontEnd_newlines {P : Text} (hP : WholeLines P) (k : ℕ) :
    frontEnd false (P ++ List.replicate k '\n') = frontEnd false P := by
  have hempty : numbered (Cpp.lines P).length (List.replicate k []) = [] := by
    refine List.filter_eq_nil_iff.2 ?_
    rintro ⟨line, n⟩ hline
    have hnil : line = [] := List.eq_of_mem_replicate (List.fst_mem_of_mem_zipIdx hline)
    simp [hnil, Skipped]
  have hlines : programLines false (P ++ List.replicate k '\n') = programLines false P := by
    unfold programLines
    rw [readLines_file, readLines_file, lines_wholeLines hP, lines_newlines, numbered_append, Nat.zero_add, hempty,
      List.append_nil]
  rw [frontEnd_eq, frontEnd_eq, hlines]

/-- **A program cut in two.** Let a file be whole lines `P` and then `Q`, accepted, and let the
commands of `P` come to their end. If every operand then on the stack can be pushed back, the file
that begins with the saved stack instead of `P`, as many lines, does from there on what the whole
file does: the same output after what `P` wrote, the same status, the same error on the same line. -/
theorem resume {P Q : Text} (hP : WholeLines P) (hclean : (frontEnd false (P ++ Q)).2 = [])
    (hQ : (frontEnd false Q).1 ≠ []) (ls : List (Command.Line Cell)) (t : Command.State Cell)
    (hls : (frontEnd false P).1 = ls.map Command.Line.instr)
    (hrun : Command.run Cell.numbers ls Command.State.init = .fell t)
    (hback : ∀ c ∈ t.stack, PushesBack c) :
    run false (P ++ Q) =
      (run false (checkpoint (Cpp.lines P).length t.stack ++ Q)).after t.out := by
  obtain ⟨hcP, hcQ⟩ := (clean_append hP Q).1 hclean
  obtain ⟨ls', hfQ⟩ := Command.exists_lines hcQ
  have hfP : frontEnd false P = (ls.map Command.Line.instr, []) := Prod.ext hls hcP
  have hne : ls' ≠ [] := by
    rintro rfl
    exact hQ (congrArg Prod.fst hfQ)
  -- the saved stack is a program of as many lines as `P`
  have hheight : t.stack.length ≤ (Cpp.lines P).length := by
    have hcount : ls.length ≤ (Cpp.lines P).length := by
      have hlen := congrArg List.length hls
      rw [frontEnd_eq, List.length_map, List.length_map] at hlen
      rw [← hlen]
      exact numbered_length_le 0 _
    exact (Command.length_stack_le hrun).trans hcount
  obtain ⟨saved, hsaved, hrestored⟩ := saves hback
  have hfC : frontEnd false (checkpoint (Cpp.lines P).length t.stack) =
      (saved.map Command.Line.instr, []) := by
    unfold checkpoint
    rw [frontEnd_newlines (wholeLines_saveText _), hsaved]
  have hlinesC := lines_checkpoint hheight
  rw [run_of_lines (Command.frontEnd_lines_append hP hfP hfQ),
    run_of_lines (Command.frontEnd_lines_append (wholeLines_checkpoint _ _) hfC hfQ), hlinesC]
  generalize (Cpp.lines P).length = n
  have hlast : ∀ before : List (Command.Line Cell),
      Command.lastNumber (before ++ ls'.map (Command.Line.raise n)) =
        Command.lastNumber (ls'.map (Command.Line.raise n)) := by
    intro before
    unfold Command.lastNumber
    rw [List.getLast?_append_of_ne_nil _ (by simpa using hne)]
  refine Command.report_follows (R := Eq) ?_ ((hlast _).trans (hlast _).symm)
  have hsim := Command.run_after (N := Cell.numbers) t.out (ls'.map (Command.Line.raise n)) t.stack
  unfold Command.run at hrun hrestored hsim ⊢
  rw [run_append_of_fell hrun, run_append_of_fell hrestored]
  exact hsim

/-- A sum, printed, its stack saved, then multiplied. -/
theorem resume_sum :
    run false ("push int8(1)\npush int8(2)\nadd\ndump\n".toList ++
        "push int16(5)\nmul\ndump\nexit\n".toList) =
      (run false (checkpoint 4 [.int .int8_t 3 (by decide)] ++
        "push int16(5)\nmul\ndump\nexit\n".toList)).after "3\n".toList :=
  resume (Or.inr ⟨"push int8(1)\npush int8(2)\nadd\ndump".toList, by decide⟩) (by decide +kernel)
    (by decide +kernel) [⟨1, .push (.int .int8_t 1 (by decide))⟩,
      ⟨2, .push (.int .int8_t 2 (by decide))⟩, ⟨3, .arith .add⟩, ⟨4, .dump⟩]
    ⟨[.int .int8_t 3 (by decide)], "3\n".toList⟩ (by decide +kernel) rfl
    (List.forall_mem_singleton.2 (pushesBack_int _))

end AbstractVM
