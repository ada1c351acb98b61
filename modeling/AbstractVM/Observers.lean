import AbstractVM.Checkpoint
import AbstractVM.StandardError
/-!
# Commands that only look

`assert`, `dump` and `print` leave the stack as it is. What becomes of a program when some of them
are commented out? The lines they write are missing, and the errors they raise; nothing else.

| here | what it says of the source |
| --- | --- |
| `commentOut` | a file with a `;` before some of its lines |
| `frontEnd_commentOut` | `lexicalAnalisys` and `parse` on such a file |
| `Command.thins` | the same stack, and some of the lines |
| `Command.effect_thins`, `effect_observes` | one command of both programs; one that is left out |

Main result: `run_commentOut`.
-/

namespace AbstractVM

open DecimalText (Text)
open Machine

/-! ## The file -/

/-- The file with a `;` before each of the lines `drop`. -/
def commentOut (drop : ℕ → Bool) (P : Text) : Text :=
  ((Cpp.lines P).zipIdx 1).flatMap fun p => endl (if drop p.2 then ';' :: p.1 else p.1)

theorem lines_commentOut (drop : ℕ → Bool) (P : Text) :
    Cpp.lines (commentOut drop P) =
      ((Cpp.lines P).zipIdx 1).map fun p => if drop p.2 then ';' :: p.1 else p.1 := by
  unfold commentOut
  rw [← List.flatMap_map, lines_endl]
  intro l hl
  obtain ⟨p, hp, rfl⟩ := List.mem_map.1 hl
  have hline := not_mem_lines (List.fst_mem_of_mem_zipIdx hp)
  split
  · exact List.not_mem_cons_of_ne_of_not_mem (by decide) hline
  · exact hline

theorem numbered_commented (drop : ℕ → Bool) (n : ℕ) (ls : List Text) :
    numbered n ((ls.zipIdx (n + 1)).map fun p => if drop p.2 then ';' :: p.1 else p.1) =
      (numbered n ls).filter fun p => !drop p.2 := by
  induction ls generalizing n with
  | nil => rfl
  | cons line ls ih =>
    have hcomment : Skipped (';' :: line) := Or.inr rfl
    rw [List.zipIdx_cons, List.map_cons, numbered_cons, numbered_cons, ih]
    by_cases hd : drop (n + 1) = true
    · simp only [hd, if_true, if_pos hcomment]
      split
      · rfl
      · rw [List.filter_cons_of_neg (by simp [hd])]
    · simp only [hd, Bool.false_eq_true, if_false]
      split
      · rfl
      · rw [List.filter_cons_of_pos (by simp [hd])]

theorem programLines_commentOut (drop : ℕ → Bool) (P : Text) :
    programLines false (commentOut drop P) = (programLines false P).filter fun p => !drop p.2 := by
  unfold programLines
  rw [readLines_file, readLines_file, lines_commentOut]
  exact numbered_commented drop 0 _

/-- **The commands that are left**, on the lines they were on. -/
theorem frontEnd_commentOut (drop : ℕ → Bool) {P : Text} {ls : List (Command.Line Cell)}
    (h : frontEnd false P = (ls.map Command.Line.instr, [])) :
    frontEnd false (commentOut drop P) =
      ((ls.filter fun l => !drop l.number).map Command.Line.instr, []) := by
  have hfilter : ∀ ps : List (Text × ℕ), (ps.filter fun p => !drop p.2).map instrAt =
      (ps.map instrAt).filter fun i => !drop i.line := by
    intro ps
    rw [List.filter_map]
    congr 1
    refine List.filter_congr fun p _ => ?_
    rw [Function.comp_apply, instrAt_line]
  refine Prod.ext ?_ ?_
  · have hls := congrArg Prod.fst h
    rw [frontEnd_eq] at hls ⊢
    simp only at hls ⊢
    rw [programLines_commentOut, hfilter, hls, List.filter_map]
    rfl
  · have hclean := clean_iff.1 (congrArg Prod.snd h)
    refine clean_iff.2 fun p hp => hclean p ?_
    rw [programLines_commentOut] at hp
    exact (List.mem_filter.1 hp).1

/-! ## The machine -/

/-- The operation leaves the stack as it is, if it succeeds. -/
def Operation.Observes (op : Operation) : Prop := op = .ASSERT ∨ op = .DUMP ∨ op = .PRINT

instance (op : Operation) : Decidable op.Observes := by
  unfold Operation.Observes
  infer_instance

namespace Command

/-- The lines of the second output are some of those of the first; all, if `silent`. -/
structure Thins (silent : Prop) (out out' : Text) : Prop where
  whole : WholeLines out
  whole' : WholeLines out'
  sublist : (Cpp.lines out').Sublist (Cpp.lines out)
  silent : silent → out' = out

/-- Equal stacks, and some of the lines. -/
def thins (silent : Prop) : Coupling Failure (State Cell) Failure (State Cell) where
  state s t := s.stack = t.stack ∧ Thins silent s.out t.out
  final s t := Thins silent s.out t.out
  fault f g := f.trap = g.trap ∧ Thins silent f.out g.out

section
variable {silent : Prop} {out out' : Text}

theorem Thins.append (h : Thins silent out out') (ls : List Text) (hls : ∀ l ∈ ls, OutLine l) :
    Thins silent (out ++ ls.flatMap endl) (out' ++ ls.flatMap endl) := by
  have hlines : Cpp.lines (ls.flatMap endl) = ls := lines_endl fun l hl => (hls l hl).oneLine
  refine ⟨wholeLines_append h.whole (wholeLines_endl ls),
    wholeLines_append h.whole' (wholeLines_endl ls), ?_, fun hs => by rw [h.silent hs]⟩
  rw [lines_wholeLines h.whole, lines_wholeLines h.whole', hlines]
  exact h.sublist.append (List.Sublist.refl ls)

/-- Lines that only the first program writes. -/
theorem Thins.appendLeft (h : Thins silent out out') (ls : List Text) (hloud : ¬ silent) :
    Thins silent (out ++ ls.flatMap endl) out' := by
  refine ⟨wholeLines_append h.whole (wholeLines_endl ls), h.whole', ?_,
    fun hs => absurd hs hloud⟩
  rw [lines_wholeLines h.whole]
  exact h.sublist.trans (List.sublist_append_left _ _)

/-- **What a command writes**, whatever was written before. -/
theorem written {c : Command Cell} {s t : State Cell} (h : Goes Cell.numbers s c t) :
    ∃ ls : List Text, t.out = s.out ++ ls.flatMap endl ∧ (∀ l ∈ ls, OutLine l) ∧
      (c.operation = .DUMP ∨ c.operation = .PRINT ∨ ls = []) := by
  have hnone : ∃ ls : List Text, s.out = s.out ++ ls.flatMap endl ∧ (∀ l ∈ ls, OutLine l) ∧
      (c.operation = .DUMP ∨ c.operation = .PRINT ∨ ls = []) :=
    ⟨[], (List.append_nil _).symm, List.forall_mem_nil _, Or.inr (Or.inr rfl)⟩
  cases h with
  | dump =>
    refine ⟨s.stack.map Cell.text, by rw [List.flatMap_map]; rfl, ?_, Or.inl rfl⟩
    intro l hl
    obtain ⟨d, -, rfl⟩ := List.mem_map.1 hl
    exact .number d
  | @print top v rest hs hv hp =>
    refine ⟨[[Char.ofNat v.toNat]], by simp, ?_, Or.inr (Or.inl rfl)⟩
    intro l hl
    obtain rfl := List.mem_singleton.1 hl
    exact .char hp
  | _ => exact hnone

/-- **A command of both programs.** -/
theorem effect_thins (l : Line Cell) (s t : State Cell) (hst : (thins silent).state s t) :
    (thins silent).Effects (effect Cell.numbers l.command s) (effect Cell.numbers l.command t) := by
  obtain ⟨stack, out⟩ := s
  obtain ⟨stack', out'⟩ := t
  obtain ⟨hstack, hthins⟩ := hst
  change stack = stack' at hstack
  change Thins silent out out' at hthins
  subst hstack
  -- both effects are the effect on an empty output, with more written before
  have hfollow : ∀ pre : Text, (along Eq pre).Effects (effect Cell.numbers l.command ⟨stack, pre⟩)
      (effect Cell.numbers l.command ⟨stack, []⟩) := by
    intro pre
    have hstart : (along Eq pre).state (⟨stack, pre⟩ : State Cell) ⟨stack, []⟩ :=
      ⟨List.forall₂_same.2 fun _ _ => rfl, (List.append_nil pre).symm⟩
    refine (effect_follows Cell.numbers.follows_self (Line.rel_self l) hstart).resolve_left ?_
    rintro ⟨_, _, _, _, _, _, hoff⟩
    exact hoff
  have h := hfollow out
  have h' := hfollow out'
  generalize effect Cell.numbers l.command ⟨stack, out⟩ = e at h ⊢
  generalize effect Cell.numbers l.command ⟨stack, out'⟩ = e' at h' ⊢
  generalize he : effect Cell.numbers l.command ⟨stack, []⟩ = e₀ at h h'
  have hwrites : ∀ u : State Cell, e₀ = .next u → Thins silent (out ++ u.out) (out' ++ u.out) := by
    rintro u rfl
    obtain ⟨ls, hls, hlines, -⟩ := written (effect_next he)
    rw [hls]
    exact hthins.append ls hlines
  cases h with
  | @next s u hs =>
    cases h' with
    | @next s' _ hs' =>
      refine .next ⟨?_, ?_⟩
      · have h1 := hs.1
        have h2 := hs'.1
        rw [List.forall₂_eq_eq_eq] at h1 h2
        exact h1.trans h2.symm
      · rw [hs.2, hs'.2]
        exact hwrites u rfl
  | @stop s u hs =>
    cases h' with
    | @stop s' _ hs' =>
      obtain ⟨-, rfl⟩ := effect_stop he
      refine .stop ?_
      change Thins silent s.out s'.out
      rw [hs, hs', List.append_nil, List.append_nil]
      exact hthins
  | @fail f g hf =>
    cases h' with
    | @fail f' _ hf' =>
      obtain ⟨-, hout⟩ := effect_fail he
      refine .fail ⟨hf.1.trans hf'.1.symm, ?_⟩
      rw [hf.2, hf'.2, hout, List.append_nil, List.append_nil]
      exact hthins

/-- **A command left out.** -/
theorem effect_observes {l : Line Cell} (hl : l.command.operation.Observes)
    (hsilent : silent → l.command.operation = .ASSERT) (s t : State Cell)
    (hst : (thins silent).state s t) :
    (∃ u, effect Cell.numbers l.command s = .next u ∧ (thins silent).state u t) ∨
      ∃ f, effect Cell.numbers l.command s = .fail f := by
  obtain ⟨hstack, hthins⟩ := hst
  cases he : effect Cell.numbers l.command s with
  | next u =>
    left
    have hgoes := effect_next he
    have hsame : u.stack = s.stack := by
      generalize l.command = c at hgoes hl
      cases hgoes with
      | assert => rfl
      | dump => rfl
      | print => rfl
      | @arith op => cases op <;> rcases hl with hl | hl | hl <;> cases hl
      | _ => rcases hl with hl | hl | hl <;> cases hl
    refine ⟨u, rfl, hsame.trans hstack, ?_⟩
    obtain ⟨ls, hls, hlines, hop⟩ := written hgoes
    rw [hls]
    rcases hop with hop | hop | rfl
    · refine hthins.appendLeft ls fun hs => ?_
      rw [hsilent hs] at hop
      cases hop
    · refine hthins.appendLeft ls fun hs => ?_
      rw [hsilent hs] at hop
      cases hop
    · rw [List.flatMap_nil, List.append_nil]
      exact hthins
  | stop u =>
    obtain ⟨hexit, -⟩ := effect_stop he
    rw [hexit] at hl
    rcases hl with hl | hl | hl <;> cases hl
  | fail f => exact Or.inr ⟨f, rfl⟩

end
end Command

/-! ## The program -/

/-- The same end, but for lines missing on the standard output, and the number of the line on which
a missing `exit` is reported. -/
inductive Outcome.Thins (silent : Prop) : Outcome → Outcome → Prop
  | exited {out out' : Text} (h : Command.Thins silent out out') (stderr : Text) (status : ℕ) :
      Thins silent (.exited out stderr status) (.exited out' stderr status)
  | noExit {out out' : Text} (h : Command.Thins silent out out') (n n' : ℕ) :
      Thins silent (.exited out (endl (builtErrorMessage (NoExitException.pushError n))) 1)
        (.exited out' (endl (builtErrorMessage (NoExitException.pushError n'))) 1)
  | terminated {out out' : Text} (h : Command.Thins silent out out') (f : Fault) :
      Thins silent (.terminated out f) (.terminated out' f)

/-- **Looking changes nothing.** In an accepted file let some lines with `assert`, `dump` or `print`
be commented out. Either the run of the file fails on one of them; or the other file is accepted and
ends as this one does, with the same error on the same line, its standard output being some of the
lines of this one's, and all of them if only `assert` was commented out. -/
theorem run_commentOut {P : Text} {ls : List (Command.Line Cell)}
    (h : frontEnd false P = (ls.map Command.Line.instr, [])) (drop : ℕ → Bool)
    (hdrop : ∀ l ∈ ls, drop l.number = true → l.command.operation.Observes) :
    (∃ l ∈ ls, drop l.number = true ∧
        ∃ f, Command.run Cell.numbers ls Command.State.init = .failed l f) ∨
      Outcome.Thins (∀ l ∈ ls, drop l.number = true → l.command.operation = .ASSERT)
        (run false P) (run false (commentOut drop P)) := by
  rw [run_of_lines h, run_of_lines (frontEnd_commentOut drop h)]
  generalize hsilent : (∀ l ∈ ls, drop l.number = true → l.command.operation = .ASSERT) = silent
  have hstart : (Command.thins silent).state Command.State.init Command.State.init :=
    ⟨rfl, ⟨Or.inl rfl, Or.inl rfl, List.Sublist.refl _, fun _ => rfl⟩⟩
  have hassert : ∀ l ∈ ls, drop l.number = true → silent → l.command.operation = .ASSERT :=
    fun l hl hd hs => (hsilent ▸ hs) l hl hd
  have hrun := Coupling.run_filter (fun l : Command.Line Cell => drop l.number)
    (fun l _ _ => Command.effect_thins l)
    (fun l hl hd => Command.effect_observes (hdrop l hl hd) (hassert l hl hd)) hstart
  rcases hrun with hfailed | hfinals
  · exact Or.inl hfailed
  right
  change Command.thins silent |>.Finals Eq (Command.run Cell.numbers ls Command.State.init)
    (Command.run Cell.numbers (ls.filter fun l => !drop l.number) Command.State.init) at hfinals
  generalize Command.run Cell.numbers ls Command.State.init = r at hfinals ⊢
  generalize Command.run Cell.numbers _ Command.State.init = r' at hfinals ⊢
  cases hfinals with
  | fell h => exact .noExit h.2 _ _
  | stopped hij h => exact .exited h _ _
  | @failed l l' f g hij h =>
    subst hij
    obtain ⟨trap, out⟩ := f
    obtain ⟨trap', out'⟩ := g
    obtain ⟨htrap, hthins⟩ := h
    change trap = trap' at htrap
    subst htrap
    cases trap with
    | throws e => exact .exited hthins _ _
    | outOfRange => exact .terminated hthins _

/-- A one, looked at twice. -/
def Command.lookTwice : List (Command.Line Cell) :=
  [⟨1, .push (.int .int8_t 1 (by decide))⟩, ⟨2, .dump⟩,
    ⟨3, .assert (.int .int8_t 1 (by decide))⟩, ⟨4, .exit⟩]

/-- The `dump` and the `assert` of lines 2 and 3. -/
theorem run_commentOut_sum :
    (∃ l ∈ Command.lookTwice, decide (l.number ∈ [2, 3]) = true ∧
        ∃ f, Command.run Cell.numbers Command.lookTwice Command.State.init = .failed l f) ∨
      Outcome.Thins
        (∀ l ∈ Command.lookTwice, decide (l.number ∈ [2, 3]) = true →
          l.command.operation = .ASSERT)
        (run false "push int8(1)\ndump\nassert int8(1)\nexit\n".toList)
        (run false (commentOut (fun n => decide (n ∈ [2, 3]))
          "push int8(1)\ndump\nassert int8(1)\nexit\n".toList)) :=
  run_commentOut (by decide +kernel) (fun n => decide (n ∈ [2, 3])) (by decide +kernel)

end AbstractVM
