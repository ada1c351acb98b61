import AbstractVM.Concatenation
import AbstractVM.Output
/-!
# Exchanging some lines of a file

Which lines may be written for others, whatever stands before and after them? Those that are as many
and of equal effect, a failure being on the same line. Nothing else of a line is ever looked at again.

| here | what it says of the source |
| --- | --- |
| `Command.report_number` | `execute` and `main` know a line by its number |
| `singlePass_exchange` | the errors of the other lines stay as they are |

Main result: `run_exchange`.
-/

namespace AbstractVM

open DecimalText (Text)
open Machine

namespace Command

/-- What is left behind tells the lines apart by their numbers. -/
theorem report_number {C : Type} {ls ls' : List (Line C)} {r r' : Final (Line C) Failure (State C)}
    (h : r.map Line.number = r'.map Line.number) (hlast : lastNumber ls = lastNumber ls') :
    report ls r = report ls' r' := by
  cases r with
  | fell s =>
    cases r' with
    | fell t =>
      cases h
      simp only [report, hlast]
    | stopped l t => cases h
    | failed l f => cases h
  | stopped l s =>
    cases r' with
    | fell t => cases h
    | stopped l' t =>
      simp only [Final.map, Final.stopped.injEq] at h
      simp only [report, h.2]
    | failed l' f => cases h
  | failed l f =>
    cases r' with
    | fell t => cases h
    | stopped l' t => cases h
    | failed l' f' =>
      simp only [Final.map, Final.failed.injEq] at h
      obtain ⟨hnumber, rfl⟩ := h
      obtain ⟨trap, out⟩ := f
      cases trap with
      | throws e => simp only [report, hnumber]
      | outOfRange => rfl

/-- The last command of a file: one behind the exchanged block, or one in the blocks, on one line. -/
theorem lastNumber_exchange {C : Type} {before ls ls' after : List (Line C)}
    (h : after ≠ [] ∨ ls.getLast?.map Line.number = ls'.getLast?.map Line.number) :
    lastNumber (before ++ ls ++ after) = lastNumber (before ++ ls' ++ after) := by
  unfold lastNumber
  by_cases hafter : after = []
  · have hlast := h.resolve_left (not_not_intro hafter)
    rw [hafter, List.append_nil, List.append_nil, List.getLast?_append, List.getLast?_append]
    cases hl : ls.getLast? with
    | none =>
      cases hl' : ls'.getLast? with
      | none => rfl
      | some l' => simp [hl, hl'] at hlast
    | some l =>
      cases hl' : ls'.getLast? with
      | none => simp [hl, hl'] at hlast
      | some l' => simpa [hl, hl'] using hlast
  · rw [List.getLast?_append_of_ne_nil _ hafter, List.getLast?_append_of_ne_nil _ hafter]

/-- Blocks of equal effect are of equal effect `n` lines further down. -/
theorem same_raise {C : Type} {N : Numbers C} {P : State C → Prop} {ls ls' : List (Line C)} (n : ℕ)
    (h : Same (fun l => effect N l.command) Line.number P ls ls') :
    Same (fun l => effect N l.command) Line.number P (ls.map (Line.raise n))
      (ls'.map (Line.raise n)) := by
  have hraise : ∀ r : Final (Line C) Failure (State C),
      (r.map (Line.raise n)).map Line.number = (r.map Line.number).map (· + n) := by
    intro r
    cases r <;> rfl
  intro s hs
  have hrun := run_raise (N := N) n
  unfold run at hrun
  rw [hrun, hrun, hraise, hraise, h s hs]

end Command

/-- The errors of a file do not depend on a block of lines that has none. -/
theorem singlePass_exchange {A B B' C : List Text} (hlength : B.length = B'.length)
    (hB : singlePass 0 B = []) (hB' : singlePass 0 B' = []) :
    singlePass 0 (A ++ B ++ C) = singlePass 0 (A ++ B' ++ C) := by
  have hnone : ∀ (n : ℕ) {ls : List Text}, singlePass 0 ls = [] → singlePass n ls = [] := by
    intro n ls h
    have hadd := singlePass_add n 0 ls
    rw [Nat.zero_add, h] at hadd
    exact hadd
  simp only [singlePass_append, hnone _ hB, hnone _ hB', List.length_append, hlength]

/-- **Exchanging some lines of a file.** Let `B` and `B'` be as many lines, both accepted, and let
their commands, from every state in which what stands before can leave the machine, end alike and in
the same state, on the same line if they stop or fail. Then `B` may be written for `B'`, whether the
rest of the file is accepted or not: before lines with a command in them, and also at the end of the
commands if the last ones of both blocks are on one line, where a missing `exit` is reported. -/
theorem run_exchange {P B B' Q : Text} (hP : WholeLines P) (hB : WholeLines B)
    (hB' : WholeLines B') (hlines : (Cpp.lines B).length = (Cpp.lines B').length)
    (ls ls' : List (Command.Line Cell))
    (hend : (frontEnd false Q).1 ≠ [] ∨
      ls.getLast?.map Command.Line.number = ls'.getLast?.map Command.Line.number)
    (hls : frontEnd false B = (ls.map Command.Line.instr, []))
    (hls' : frontEnd false B' = (ls'.map Command.Line.instr, []))
    (hsame : ∀ (before : List (Command.Line Cell)) (t : Command.State Cell),
      frontEnd false P = (before.map Command.Line.instr, []) →
      Command.run Cell.numbers before Command.State.init = .fell t →
      (Command.run Cell.numbers ls t).map Command.Line.number =
        (Command.run Cell.numbers ls' t).map Command.Line.number) :
    run false (P ++ B ++ Q) = run false (P ++ B' ++ Q) := by
  have hPB := wholeLines_append hP hB
  have hPB' := wholeLines_append hP hB'
  have hclean : (frontEnd false (P ++ B ++ Q)).2 = [] ↔
      (frontEnd false P).2 = [] ∧ (frontEnd false Q).2 = [] := by
    rw [clean_append hPB, clean_append hP, hls, eq_self_iff_true, and_true]
  have hclean' : (frontEnd false (P ++ B' ++ Q)).2 = [] ↔
      (frontEnd false P).2 = [] ∧ (frontEnd false Q).2 = [] := by
    rw [clean_append hPB', clean_append hP, hls', eq_self_iff_true, and_true]
  by_cases hc : (frontEnd false P).2 = [] ∧ (frontEnd false Q).2 = []
  · obtain ⟨before, hfP⟩ := Command.exists_lines hc.1
    obtain ⟨after, hfQ⟩ := Command.exists_lines hc.2
    have hafter : (frontEnd false Q).1 ≠ [] → after ≠ [] := by
      rintro hQ rfl
      exact hQ (congrArg Prod.fst hfQ)
    have hcount : (Cpp.lines (P ++ B)).length = (Cpp.lines (P ++ B')).length := by
      rw [lines_wholeLines hP, lines_wholeLines hP, List.length_append, List.length_append, hlines]
    rw [run_of_lines (Command.frontEnd_lines_append hPB
        (Command.frontEnd_lines_append hP hfP hls) hfQ),
      run_of_lines (Command.frontEnd_lines_append hPB'
        (Command.frontEnd_lines_append hP hfP hls') hfQ), hcount]
    refine Command.report_number ?_ ?_
    · exact (Command.same_raise _ fun t ht => hsame before t hfP ht).replace fun t ht => ht
    · refine Command.lastNumber_exchange (hend.imp (fun hQ => ?_) fun hlast => ?_)
      · simpa using hafter hQ
      · have hraise := congrArg (Option.map (· + (Cpp.lines P).length)) hlast
        rw [Option.map_map, Option.map_map] at hraise
        rw [List.getLast?_map, List.getLast?_map, Option.map_map, Option.map_map]
        exact hraise
  · -- neither file is accepted, for the same errors
    have hnone : ∀ {B : Text}, (frontEnd false B).2 = [] → singlePass 0 (Cpp.lines B) = [] := by
      intro B h
      have hsort := sortErrors_frontEnd false B
      rw [h] at hsort
      exact hsort.symm
    have herrors : sortErrors (frontEnd false (P ++ B ++ Q)).2 =
        sortErrors (frontEnd false (P ++ B' ++ Q)).2 := by
      rw [sortErrors_frontEnd, sortErrors_frontEnd, readLines_file, readLines_file,
        lines_wholeLines hPB, lines_wholeLines hPB', lines_wholeLines hP, lines_wholeLines hP]
      exact singlePass_exchange hlines (hnone (congrArg Prod.snd hls)) (hnone (congrArg Prod.snd hls'))
    rw [run_eq, run_eq, if_pos (mt hclean.1 hc), if_pos (mt hclean'.1 hc)]
    unfold printErrors
    rw [herrors]

/-- What is pushed and popped might as well be commented out. -/
theorem run_exchange_pop :
    run false ("push int8(1)\n".toList ++ "push int32(70000)\npop\n".toList ++ "dump\nexit".toList) =
      run false ("push int8(1)\n".toList ++ ";push int32(70000)\n\n".toList ++ "dump\nexit".toList) :=
  run_exchange (Or.inr ⟨"push int8(1)".toList, by decide⟩)
    (Or.inr ⟨"push int32(70000)\npop".toList, by decide⟩)
    (Or.inr ⟨";push int32(70000)\n".toList, by decide⟩) (by decide)
    [⟨1, .push (.int .int32_t 70000 (by decide))⟩, ⟨2, .pop⟩] [] (Or.inl (by decide))
    (by decide +kernel) (by decide) (fun _ _ _ _ => rfl)

end AbstractVM
