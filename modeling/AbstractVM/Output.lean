import AbstractVM.Denotation
import AbstractVM.Report
/-!
# The standard output

`dump` and `print` are the only commands that write, whole lines both: the text of a number, or one
printable character. How many lines there are follows from the operations executed.

| here | what it says of the source |
| --- | --- |
| `Cell.text_numeric` | the characters of a number, as `operator<<` and `std::to_string` print it |
| `OutLine`, `Tidy` | a line of the output; an output of such lines |
| `tally`, `tallies` | the height of the stack and the lines written, counted over the operations |
| `Command.tidy` | what every command keeps |

Main result: `stdout_lines`.
-/

namespace AbstractVM

open DecimalText (Text Digits signText intText expText pointText)
open Machine

/-! ## The characters of a number -/

def Numeric (c : Char) : Prop := c.isDigit = true ∨ c = '.' ∨ c = 'e' ∨ c = '+' ∨ c = '-'

theorem numeric_digits {ds : Text} (h : Digits ds) : ∀ c ∈ ds, Numeric c :=
  fun c hc => Or.inl (h c hc)

theorem numeric_signText (neg : Bool) : ∀ c ∈ signText neg, Numeric c := by
  cases neg <;> simp [signText, Numeric]

theorem numeric_expText (e : ℤ) : ∀ c ∈ expText e, Numeric c := by
  have hds := numeric_digits (DecimalText.digits_toDigits e.natAbs)
  have hzero : Numeric '0' := Or.inl (by decide)
  have htail : ∀ c ∈ if e.natAbs < 10 then '0' :: Nat.toDigits 10 e.natAbs
      else Nat.toDigits 10 e.natAbs, Numeric c := by
    split
    · exact List.forall_mem_cons.2 ⟨hzero, hds⟩
    · exact hds
  unfold expText
  refine List.forall_mem_cons.2 ⟨by simp [Numeric], List.forall_mem_cons.2 ⟨?_, htail⟩⟩
  split <;> simp [Numeric]

theorem numeric_pointText {int frac : Text} (hint : Digits int) (hfrac : Digits frac) :
    ∀ c ∈ pointText int frac, Numeric c := by
  have hfrac' := numeric_digits (DecimalText.digits_rdropWhile hfrac)
  rw [DecimalText.pointText_eq]
  intro c hc
  rcases List.mem_append.1 hc with hc | hc
  · exact numeric_digits hint c hc
  · unfold DecimalText.fracText at hc
    split at hc
    · cases hc
    · rcases List.mem_cons.1 hc with rfl | hc
      · simp [Numeric]
      · exact hfrac' c hc

namespace Cell

/-- **The text of a number** has no other characters. -/
theorem text_numeric (c : Cell) : ∀ x ∈ c.text, Numeric x := by
  obtain ⟨value, valid⟩ := c
  cases value with
  | int T v =>
    intro x hx
    rcases List.mem_append.1 (show x ∈ signText _ ++ Nat.toDigits 10 _ from hx) with hx | hx
    · exact numeric_signText _ x hx
    · exact numeric_digits (DecimalText.digits_toDigits _) x hx
  | real T y =>
    obtain ⟨int, frac, e, X, htext, hint, -, hfrac, -, hexp⟩ :=
      DecimalText.generalText_parts T.digits10_pos y.neg y.mag_nonneg
    have he : ∀ x ∈ e, Numeric x := by
      split at hexp
      · rw [hexp.1]
        simp
      · rw [hexp]
        exact numeric_expText X
    intro x hx
    have hx' : x ∈ signText y.neg ++ (pointText int frac ++ e) := htext ▸ hx
    rcases List.mem_append.1 hx' with hx | hx
    · exact numeric_signText _ x hx
    · rcases List.mem_append.1 hx with hx | hx
      · exact numeric_pointText hint hfrac x hx
      · exact he x hx

theorem text_not_mem (c : Cell) {d : Char} (hd : ¬ Numeric d) : d ∉ c.text :=
  fun h => hd (c.text_numeric d h)

end Cell

/-! ## Lines -/

/-- A line that `dump` or `print` writes. -/
inductive OutLine : Text → Prop
  | number (c : Cell) : OutLine c.text
  | char {v : ℤ} (h : Cpp.isprint v = true) : OutLine [Char.ofNat v.toNat]

theorem OutLine.oneLine {line : Text} (h : OutLine line) : '\n' ∉ line := by
  cases h with
  | number c => exact c.text_not_mem (by unfold Numeric; decide)
  | @char v h =>
    simp only [Cpp.isprint, Bool.decide_and, Bool.and_eq_true, decide_eq_true_eq] at h
    have hcontrol : ∀ n : Fin 127, Char.ofNat n = '\n' → (n : ℕ) < 32 := by decide
    intro hmem
    have := hcontrol ⟨v.toNat, by omega⟩ (List.mem_singleton.1 hmem).symm
    simp only at this
    omega

/-- An output of `n` lines, all of them written by `dump` or `print`. -/
structure Tidy (n : ℕ) (out : Text) : Prop where
  whole : WholeLines out
  count : (Cpp.lines out).length = n
  line : ∀ line ∈ Cpp.lines out, OutLine line

theorem tidy_nil : Tidy 0 [] := ⟨Or.inl rfl, rfl, fun _ h => by cases h⟩

theorem lines_endl {ls : List Text} (h : ∀ l ∈ ls, '\n' ∉ l) : Cpp.lines (ls.flatMap endl) = ls := by
  induction ls with
  | nil => rfl
  | cons l ls ih =>
    obtain ⟨hl, hls⟩ := List.forall_mem_cons.1 h
    rw [List.flatMap_cons, endl, List.append_assoc, List.singleton_append, Cpp.lines_cons hl, ih hls]

theorem wholeLines_append {P Q : Text} (hP : WholeLines P) (hQ : WholeLines Q) :
    WholeLines (P ++ Q) := by
  rcases hQ with rfl | ⟨Q', rfl⟩
  · rwa [List.append_nil]
  · exact Or.inr ⟨P ++ Q', (List.append_assoc _ _ _).symm⟩

theorem wholeLines_endl (ls : List Text) : WholeLines (ls.flatMap endl) := by
  induction ls with
  | nil => exact Or.inl rfl
  | cons l ls ih =>
    rw [List.flatMap_cons]
    exact wholeLines_append (Or.inr ⟨l, rfl⟩) ih

theorem Tidy.append {n : ℕ} {out : Text} (h : Tidy n out) (ls : List Text)
    (hls : ∀ l ∈ ls, OutLine l) : Tidy (n + ls.length) (out ++ ls.flatMap endl) := by
  have hlines : Cpp.lines (out ++ ls.flatMap endl) = Cpp.lines out ++ ls := by
    rw [lines_wholeLines h.whole, lines_endl fun l hl => (hls l hl).oneLine]
  refine ⟨wholeLines_append h.whole (wholeLines_endl ls), ?_, ?_⟩
  · rw [hlines, List.length_append, h.count]
  · rw [hlines]
    intro line hline
    rcases List.mem_append.1 hline with hl | hl
    · exact h.line line hl
    · exact hls line hl

/-! ## Counting lines -/

/-- What an operation makes of the height of the stack and of the number of lines written. -/
def tally (op : Operation) (p : ℕ × ℕ) : ℕ × ℕ :=
  match op with
  | .PUSH => (p.1 + 1, p.2)
  | .POP | .ADD | .SUB | .MUL | .DIV | .MOD => (p.1 - 1, p.2)
  | .DUMP => (p.1, p.2 + p.1)
  | .PRINT => (p.1, p.2 + 1)
  | _ => p

def tallies (ops : List Operation) : ℕ × ℕ := ops.foldl (fun p op => tally op p) (0, 0)

theorem tallies_snoc (ops : List Operation) (op : Operation) :
    tallies (ops ++ [op]) = tally op (tallies ops) := by
  simp [tallies]

theorem tally_arith (op : ArithOp) (p : ℕ × ℕ) : tally op.operation p = (p.1 - 1, p.2) := by
  cases op <;> rfl

namespace Command

/-- The operations of some commands. -/
def operations (ls : List (Line Cell)) : List Operation := ls.map fun l => l.command.operation

/-- The stack is as high, and the output as long, as the operations executed say. -/
def Counted (done : List (Line Cell)) (s : State Cell) : Prop :=
  s.stack.length = (tallies (operations done)).1 ∧ Tidy (tallies (operations done)).2 s.out

/-- **Step lemma.** -/
theorem Counted.step {done : List (Line Cell)} {l : Line Cell} {s t : State Cell} (h : Counted done s)
    (hgoes : Goes Cell.numbers s l.command t) : Counted (done ++ [l]) t := by
  obtain ⟨hlen, htidy⟩ := h
  unfold Counted operations at *
  rw [List.map_append, List.map_cons, List.map_nil, tallies_snoc, ← Prod.eta (tallies _), ← hlen]
  generalize (tallies _).2 = n at htidy ⊢
  obtain ⟨number, c⟩ := l
  cases hgoes with
  | push c => exact ⟨rfl, htidy⟩
  | assert hs heq => exact ⟨rfl, htidy⟩
  | pop hs => exact ⟨by simp [hs, operation, tally], htidy⟩
  | swap hs => exact ⟨by simp [hs, operation, tally], htidy⟩
  | dump =>
    refine ⟨rfl, ?_⟩
    have happ := htidy.append (s.stack.map Cell.text) fun line hline => by
      obtain ⟨c, -, rfl⟩ := List.mem_map.1 hline
      exact .number c
    rw [List.flatMap_map, List.length_map] at happ
    exact happ
  | @arith op right left c rest hs hop =>
    simp only [operation, tally_arith]
    exact ⟨by simp [hs], htidy⟩
  | print hs hv hp =>
    refine ⟨rfl, ?_⟩
    have happ := htidy.append [[Char.ofNat _]] (List.forall_mem_singleton.2 (.char hp))
    rw [List.flatMap_singleton] at happ
    exact happ
  | sort hl =>
    refine ⟨?_, htidy⟩
    rw [List.length_reverse, (ListSort.listSort_perm hl).length_eq, List.length_reverse]
    rfl

/-- **Run lemma.** -/
theorem counted {ls : List (Line Cell)} {t : State Cell}
    (h : run Cell.numbers ls State.init = .fell t) : Counted ls t :=
  run_keeps Counted h ⟨rfl, tidy_nil⟩ fun _ _ _ _ _ hs hgoes => hs.step hgoes

end Command

def Outcome.stdout : Outcome → Text
  | .exited stdout _ _ => stdout
  | .terminated stdout _ => stdout

/-- The commands executed before a run ends: a `takeWhile` when it ends by `exit`. -/
theorem takeWhile_exit {done rest : List (Command.Line Cell)} {l : Command.Line Cell}
    {t : Command.State Cell}
    (h : Command.run Cell.numbers done Command.State.init = .fell t) (hl : l.command = .exit) :
    (done ++ l :: rest).takeWhile (fun l => l.command.operation ≠ .EXIT) = done := by
  have hexit : l.command.operation = .EXIT := by rw [hl]; rfl
  rw [List.takeWhile_append_of_pos fun l hl => by simpa using Command.ne_exit_of_fell h l hl,
    List.takeWhile_cons_of_neg (by simp [hexit]), List.append_nil]

/-- Whatever the end, the output is that of the commands executed; the next one, if there is one, did
not go on. -/
theorem stdout_executed {cin : Bool} {input : Text} {ls : List (Command.Line Cell)}
    (h : frontEnd cin input = (ls.map Command.Line.instr, [])) :
    ∃ done rest t, ls = done ++ rest ∧
      Command.run Cell.numbers done Command.State.init = .fell t ∧
      (∀ l ∈ rest.head?, ∀ u, Command.effect Cell.numbers l.command t ≠ .next u) ∧
      (run cin input).stdout = t.out ∧ ((run cin input).status? = some 0 →
        done = ls.takeWhile fun l => l.command.operation ≠ .EXIT) := by
  rw [run_of_lines h]
  cases hrun : Command.run Cell.numbers ls Command.State.init with
  | fell t => exact ⟨ls, [], t, (List.append_nil ls).symm, hrun, by simp, rfl, fun h0 => by cases h0⟩
  | stopped l t =>
    obtain ⟨done, rest, u, hsplit, hdone, hstop⟩ := exists_of_stopped hrun
    obtain ⟨hexit, rfl⟩ := Command.effect_stop hstop
    refine ⟨done, l :: rest, t, hsplit, hdone, ?_, rfl, fun _ => ?_⟩
    · rintro l' ⟨rfl⟩ u hu
      cases hstop.symm.trans hu
    · rw [hsplit, takeWhile_exit hdone hexit]
  | failed l f =>
    obtain ⟨done, rest, u, hsplit, hdone, hfail⟩ := exists_of_failed hrun
    obtain ⟨-, hout⟩ := Command.effect_fail hfail
    have hstop : ∀ l' ∈ (l :: rest).head?, ∀ v,
        Command.effect Cell.numbers l'.command u ≠ .next v := by
      rintro l' ⟨rfl⟩ v hv
      cases hfail.symm.trans hv
    obtain ⟨trap, out⟩ := f
    change out = u.out at hout
    subst hout
    cases trap with
    | throws e => exact ⟨done, l :: rest, u, hsplit, hdone, hstop, rfl, fun h0 => by cases h0⟩
    | outOfRange => exact ⟨done, l :: rest, u, hsplit, hdone, hstop, rfl, fun h0 => by cases h0⟩

theorem stdout_of_rejected {cin : Bool} {input : Text} (h : (frontEnd cin input).2 ≠ []) :
    (run cin input).stdout = [] := by
  rw [run_eq, if_pos h]
  rfl

/-- Only whole lines are written, and only by `dump` and `print`. -/
theorem stdout_tidy (cin : Bool) (input : Text) :
    WholeLines (run cin input).stdout ∧
      ∀ line ∈ Cpp.lines (run cin input).stdout, OutLine line := by
  by_cases hclean : (frontEnd cin input).2 = []
  · obtain ⟨ls, hls⟩ := Command.exists_lines hclean
    obtain ⟨done, rest, t, -, hdone, -, hout, -⟩ := stdout_executed hls
    obtain ⟨-, hwhole, -, hline⟩ := Command.counted hdone
    rw [hout]
    exact ⟨hwhole, hline⟩
  · rw [stdout_of_rejected hclean]
    exact ⟨tidy_nil.whole, tidy_nil.line⟩

/-- **The standard output** of any run of any text: whole lines, each the text of a number or one
printable character; nothing when the text was rejected, and otherwise as many lines as the operations
executed say. The commands executed are those before the first that did not go on, and when the run
is successful, those before the first `exit`. -/
theorem stdout_lines (cin : Bool) (input : Text) :
    WholeLines (run cin input).stdout ∧
      (∀ line ∈ Cpp.lines (run cin input).stdout, OutLine line) ∧
      ((frontEnd cin input).2 ≠ [] → (run cin input).stdout = []) ∧
      ((frontEnd cin input).2 = [] →
        ∃ (done rest : List (Command.Line Cell)) (t : Command.State Cell),
        (frontEnd cin input).1 = (done ++ rest).map Command.Line.instr ∧
          Command.run Cell.numbers done Command.State.init = .fell t ∧
          (∀ l ∈ rest.head?, ∀ u, Command.effect Cell.numbers l.command t ≠ .next u) ∧
          (Cpp.lines (run cin input).stdout).length =
            (tallies (done.map fun l => l.command.operation)).2 ∧
          ((run cin input).status? = some 0 →
            done.map Command.Line.instr =
              (frontEnd cin input).1.takeWhile fun i => i.instruction ≠ .EXIT)) := by
  refine ⟨(stdout_tidy cin input).1, (stdout_tidy cin input).2, stdout_of_rejected, fun hclean => ?_⟩
  obtain ⟨ls, hls⟩ := Command.exists_lines hclean
  obtain ⟨done, rest, t, hsplit, hdone, hnext, hout, hstatus⟩ := stdout_executed hls
  refine ⟨done, rest, t, ?_, hdone, hnext, ?_, fun h0 => ?_⟩
  · rw [hls, hsplit]
  · rw [hout]
    exact (Command.counted hdone).2.count
  · rw [hls, List.takeWhile_map, hstatus h0]
    rfl

end AbstractVM
