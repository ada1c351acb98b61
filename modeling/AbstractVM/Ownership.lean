import AbstractVM.Erasure
import AbstractVM.Lib.Ledger
/-!
# Every operand has one owner

The same program over a memory that numbers the operands it creates and logs those it deletes. An
operand is held by the stack, by `left_`, by `right_` or by an operand field of the instruction
list; the ledger over these places stays balanced through every instruction, whether it ends
normally or throws.

| here | what it says of the source |
| --- | --- |
| `tracked` | `new` and `delete` of operands, numbered and logged |
| `holders` | the places that own an operand: stack, two member slots, operand fields |
| `Step.balanced`, `Fails.balanced` | one instruction, on each of its paths |
| `tracked_run` | forgetting the numbers gives the run of `Main` |

Main result: `single_ownership`.
-/

namespace AbstractVM

open DecimalText (Text)
open CommandsExecutor Ledger

/-- Operands under the number they were created with. -/
def tracked : Memory (Ref Operand) Heap := ⟨Heap.alloc, Heap.free, Ref.obj⟩

/-- What the operand fields of an instruction list own. -/
def fields (is : List (ParsedInstr (Ref Operand))) : Multiset ℕ := ownAll (is.map (·.operand))

/-- What the machine owns. -/
def machine (s : VM (Ref Operand) Heap) : Multiset ℕ := ownAll s.stack_ + own s.left_ + own s.right_

/-- Everything that owns an operand. -/
def holders (s : VM (Ref Operand) Heap) (is : List (ParsedInstr (Ref Operand))) : Multiset ℕ :=
  machine s + fields is

@[simp] theorem fields_nil : fields [] = 0 := rfl

@[simp] theorem fields_cons (i : ParsedInstr (Ref Operand)) (is : List (ParsedInstr (Ref Operand))) :
    fields (i :: is) = own i.operand + fields is := ownAll_cons _ _

@[simp] theorem fields_append (is js : List (ParsedInstr (Ref Operand))) :
    fields (is ++ js) = fields is + fields js := by
  simp [fields]

/-- Released fields own nothing. -/
@[simp] theorem fields_release (is : List (ParsedInstr (Ref Operand))) :
    fields (is.map release) = 0 := by
  induction is with
  | nil => rfl
  | cons i is ih => simpa [release] using ih

/-! ## Creating and deleting -/

section
variable {held : Multiset ℕ} {h : Heap}

theorem balanced_newPtr (hb : Balanced held h) (o : Option Operand) :
    Balanced (own (tracked.newPtr o h).1 + held) (tracked.newPtr o h).2 := by
  cases o with
  | none => simpa [Memory.newPtr] using hb
  | some o => exact hb.alloc o

theorem balanced_deletePtr {p : Option (Ref Operand)} (hb : Balanced (own p + held) h) :
    Balanced held (tracked.deletePtr p h) := by
  cases p with
  | none => simpa [Memory.deletePtr] using hb
  | some r => exact hb.free

/-- Deleting a list of pointers, in any order. -/
theorem balanced_foldl (l : List (Option (Ref Operand))) (hb : Balanced (ownAll l + held) h) :
    Balanced held (l.foldl (fun m p => tracked.deletePtr p m) h) := by
  induction l generalizing h with
  | nil => simpa using hb
  | cons p l ih =>
    rw [ownAll_cons, add_assoc] at hb
    exact ih (balanced_deletePtr hb)

theorem balanced_cleanTokens (is : List (ParsedInstr (Ref Operand)))
    (hb : Balanced (fields is + held) h) : Balanced held (cleanTokens tracked is h) := by
  have hfold : cleanTokens tracked is h =
      (is.map (·.operand)).foldl (fun m p => tracked.deletePtr p m) h := by
    rw [List.foldl_map]
    rfl
  rw [hfold]
  exact balanced_foldl _ hb

theorem balanced_destroy (s : VM (Ref Operand) Heap) (hb : Balanced (machine s + held) s.mem) :
    Balanced held (destroy tracked s) := by
  unfold destroy
  refine balanced_deletePtr (balanced_deletePtr (balanced_foldl _ ?_))
  rw [ownAll_reverse]
  unfold machine at hb
  rw [← add_assoc, ← add_assoc]
  exact hb

/-- The operands of a program, each in the field of its instruction. -/
theorem balanced_createOperands (is : List (ParsedInstr Operand)) (hb : Balanced held h) :
    Balanced (fields (createOperands tracked is h).1 + held) (createOperands tracked is h).2 := by
  induction is generalizing held h with
  | nil => simpa [createOperands] using hb
  | cons i is ih =>
    simp only [createOperands, fields_cons]
    have hnew := ih (balanced_newPtr hb i.operand)
    rwa [← add_assoc, add_comm (fields _)] at hnew

end

/-! ## One instruction -/

section
variable {i : ParsedInstr (Ref Operand)} {s s' : VM (Ref Operand) Heap} {held : Multiset ℕ}

/-- Between instructions the two slots are empty and the ledger is balanced. -/
structure Owned (s : VM (Ref Operand) Heap) (held : Multiset ℕ) : Prop where
  left : s.left_ = none
  right : s.right_ = none
  balanced : Balanced (ownAll s.stack_ + held) s.mem

/-- **Step lemma**: the operand field of an executed instruction is emptied, and the rest of the
program, `held`, is not touched. -/
theorem owned_of_step (hfield : ¬ i.instruction.TakesOperand → i.operand = none)
    (h : Owned s (own i.operand + held)) (hstep : Step tracked i s s') : Owned s' held := by
  obtain ⟨hleft, hright, hb⟩ := h
  have hquiet : ¬ i.instruction.TakesOperand → Balanced (ownAll s.stack_ + held) s.mem := by
    intro hno
    rw [hfield hno] at hb
    simpa using hb
  cases hstep with
  | push hop =>
    refine ⟨hleft, hright, ?_⟩
    show Balanced (ownAll (i.operand :: s.stack_) + held) s.mem
    rw [ownAll_cons]
    convert hb using 1
    abel
  | assert hop hs ho heq =>
    refine ⟨hleft, hright, balanced_deletePtr ?_⟩
    show Balanced (own i.operand + (ownAll s.stack_ + held)) s.mem
    convert hb using 1
    abel
  | @pop hop top rest hs =>
    refine ⟨hleft, hright, balanced_deletePtr ?_⟩
    have hb' := hquiet (by rw [hop]; decide)
    rw [hs, ownAll_cons, add_assoc] at hb'
    exact hb'
  | @swap hop right left rest hs =>
    refine ⟨rfl, rfl, ?_⟩
    have hb' := hquiet (by rw [hop]; decide)
    rw [hs] at hb'
    show Balanced (ownAll (left :: right :: rest) + held) s.mem
    convert hb' using 1
    simp only [ownAll_cons]
    abel
  | dump hop out => exact ⟨hleft, hright, hquiet (by rw [hop]; decide)⟩
  | @arith op hop l r rest hs result hres =>
    refine ⟨rfl, rfl, ?_⟩
    have hb' := hquiet (by rw [hop]; cases op <;> decide)
    rw [hs] at hb'
    have hnew := balanced_newPtr hb' result
    show Balanced (ownAll ((tracked.newPtr result s.mem).1 :: rest) + held)
      (tracked.deletePtr (some r) (tracked.deletePtr (some l) (tracked.newPtr result s.mem).2))
    refine balanced_deletePtr (balanced_deletePtr ?_)
    convert hnew using 1
    simp only [ownAll_cons]
    abel
  | print hop hs out => exact ⟨hleft, hright, hquiet (by rw [hop]; decide)⟩
  | @sort hop l hl =>
    refine ⟨hleft, hright, ?_⟩
    have hperm := (ListSort.listSort_perm hl).trans (List.reverse_perm _)
    show Balanced (ownAll l.reverse + held) s.mem
    rw [ownAll_reverse, ownAll_perm hperm]
    exact hquiet (by rw [hop]; decide)
  | exit hop => exact ⟨hleft, hright, hquiet (by rw [hop]; decide)⟩
  | none hop => exact ⟨hleft, hright, hquiet (by rw [hop]; decide)⟩

/-- The error paths: an operator leaves its operands in the two slots, `assert` has deleted its
operand. -/
theorem balanced_of_fails (hfield : ¬ i.instruction.TakesOperand → i.operand = none)
    (h : Owned s (own i.operand + held)) {e : AVMException} (hfail : Fails tracked i s (.avm e) s') :
    Balanced (machine s' + (own (afterFailure tracked i).operand + held)) s'.mem := by
  obtain ⟨hleft, hright, hb⟩ := h
  have hmachine : machine s = ownAll s.stack_ := by simp [machine, hleft, hright]
  -- the field of an instruction without operand is empty, and stays so
  have hquiet : ¬ i.instruction.TakesOperand →
      own (afterFailure tracked i).operand = 0 ∧ Balanced (ownAll s.stack_ + held) s.mem := by
    intro hno
    have hfld := hfield hno
    rw [hfld] at hb
    refine ⟨?_, by simpa using hb⟩
    unfold afterFailure
    split
    · rfl
    · rw [hfld]
      rfl
  have hsame : ¬ i.instruction.TakesOperand →
      Balanced (machine s + (own (afterFailure tracked i).operand + held)) s.mem := by
    intro hno
    obtain ⟨h0, hbal⟩ := hquiet hno
    rw [h0, hmachine, zero_add]
    exact hbal
  -- `assert` has deleted its operand before it throws
  have hassert : i.instruction = .ASSERT →
      Balanced (machine (s.delete tracked i.operand) + (own (afterFailure tracked i).operand + held))
        (s.delete tracked i.operand).mem := by
    intro hop
    have hrel : own (afterFailure tracked i).operand = 0 := by
      unfold afterFailure
      rw [hop]
      rfl
    rw [hrel, zero_add]
    refine balanced_deletePtr ?_
    show Balanced (own i.operand + (machine s + held)) s.mem
    rw [hmachine]
    convert hb using 1
    abel
  cases hfail with
  | emptyAssert hop hs => exact hassert hop
  | falseAssert hop hs ho heq => exact hassert hop
  | assertThrows hop hs ho heq => exact absurd heq (compareWith_ne_avm _ _ _ _ e)
  | emptyPop hop hs => exact hsame (by rw [hop]; decide)
  | shortSwap hop hs => exact hsame (by rw [hop]; decide)
  | shortArith op hop hs => exact hsame (by rw [hop]; cases op <;> decide)
  | @arithThrows op hop l r rest hs f hres =>
    obtain ⟨h0, hbal⟩ := hquiet (by rw [hop]; cases op <;> decide)
    rw [hs] at hbal
    rw [h0, zero_add]
    show Balanced (ownAll rest + own (some l) + own (some r) + held) s.mem
    convert hbal using 1
    simp only [ownAll_cons]
    abel
  | emptyPrint hop hs => exact hsame (by rw [hop]; decide)
  | badPrint hop hs part => exact hsame (by rw [hop]; decide)
  | sortThrows hop hl => exact hsame (by rw [hop]; decide)

end

/-! ## A run -/

theorem instrAt_noOperand (p : Text × ℕ) (h : ¬ (instrAt p).instruction.TakesOperand) :
    (instrAt p).operand = none := by
  unfold instrAt at *
  by_cases htake : ∃ op, toOperation (lexLine p.2 p.1).1.instruction = .ok op ∧ op.TakesOperand
  · obtain ⟨op, hop, ht⟩ := htake
    rw [parseToken_takes hop ht] at h
    exact absurd ht h
  · rw [parseToken_other fun op hop ht => htake ⟨op, hop, ht⟩]

theorem createOperands_noOperand {is : List (ParsedInstr Operand)}
    (his : ∀ i ∈ is, ¬ i.instruction.TakesOperand → i.operand = none) (h : Heap) :
    ∀ i ∈ (createOperands tracked is h).1, ¬ i.instruction.TakesOperand → i.operand = none := by
  induction is generalizing h with
  | nil => simp [createOperands]
  | cons j is ih =>
    obtain ⟨hj, his⟩ := List.forall_mem_cons.1 his
    simp only [createOperands, List.forall_mem_cons]
    refine ⟨fun hno => ?_, ih his _⟩
    rw [hj hno]
    rfl

section
variable {is : List (ParsedInstr (Ref Operand))} {s : VM (Ref Operand) Heap}

/-- **Run lemma**: wherever the run gets to, the machine and the fields still to come own what has
not been deleted. -/
theorem owned_of_executes {done rest : List (ParsedInstr (Ref Operand))}
    (hfield : ∀ i ∈ done, ¬ i.instruction.TakesOperand → i.operand = none)
    {t : VM (Ref Operand) Heap} (hex : Executes tracked s done t)
    (h : Owned s (fields (done ++ rest))) : Owned t (fields rest) := by
  induction hex with
  | nil s => exact h
  | cons hi _ _ ih =>
    obtain ⟨hf, hfs⟩ := List.forall_mem_cons.1 hfield
    rw [List.cons_append, fields_cons] at h
    exact ih hfs (owned_of_step hf h (execInstr_ok hi))

/-- Where the `try` block of `execute` ends without a foreign fault, the ledger is balanced over
the machine and the instruction list as they are then. -/
theorem balanced_of_execute (hfield : ∀ i ∈ is, ¬ i.instruction.TakesOperand → i.operand = none)
    (h : Owned s (fields is)) (hend : ∀ f, (executeLoop tracked 0 is s).ending = .threw f →
      ∃ e, f = .avm e) :
    Balanced (machine (executeLoop tracked 0 is s).vm +
      fields (executeLoop tracked 0 is s).instructions) (executeLoop tracked 0 is s).vm.mem := by
  have hmachine : ∀ {u : VM (Ref Operand) Heap} {held}, Owned u held →
      Balanced (machine u + held) u.mem := by
    intro u held hu
    have : machine u = ownAll u.stack_ := by simp [machine, hu.left, hu.right]
    rw [this]
    exact hu.balanced
  rcases executeLoop_cases (μ := tracked) 0 is s with
    ⟨done, i, rest, t, t', rfl, hex, hi, -, heq⟩ | ⟨done, i, rest, t, f, t', rfl, hex, hi, heq⟩ |
    ⟨t, hex, heq⟩
  · rw [heq]
    have ht := owned_of_executes (fun j hj => hfield j (List.mem_append_left _ hj)) hex h
    rw [fields_cons] at ht
    have hb := hmachine (owned_of_step (hfield i (by simp)) ht (execInstr_ok hi))
    simpa [release] using hb
  · obtain ⟨e, rfl⟩ := hend f (by rw [heq])
    rw [heq]
    have ht := owned_of_executes (fun j hj => hfield j (List.mem_append_left _ hj)) hex h
    rw [fields_cons] at ht
    have hb := balanced_of_fails (hfield i (by simp)) ht (execInstr_error hi)
    simpa using hb
  · rw [heq]
    have hinit : Owned s (fields (is ++ [])) := by simpa using h
    have hb := hmachine (owned_of_executes hfield hex hinit)
    simpa using hb

end

/-- The program `main` runs, its operands created. -/
def created (cin : Bool) (input : Text) : List (ParsedInstr (Ref Operand)) × Heap :=
  createOperands tracked (frontEnd cin input).1 Heap.empty

theorem owned_init (cin : Bool) (input : Text) :
    Owned (VM.init (created cin input).2) (fields (created cin input).1) := by
  refine ⟨rfl, rfl, ?_⟩
  have hb := balanced_createOperands (frontEnd cin input).1 balanced_empty
  show Balanced (0 + fields (created cin input).1) (created cin input).2
  rwa [add_comm]

theorem created_noOperand (cin : Bool) (input : Text) :
    ∀ i ∈ (created cin input).1, ¬ i.instruction.TakesOperand → i.operand = none := by
  refine createOperands_noOperand ?_ _
  rw [frontEnd_eq]
  intro i hi
  obtain ⟨p, -, rfl⟩ := List.mem_map.1 hi
  exact instrAt_noOperand p

/-- Numbering the operands changes nothing a run shows. -/
theorem tracked_run (cin : Bool) (input : Text) :
    (avm tracked Heap.empty cin input).1 = run cin input :=
  avm_erase (fun _ _ => rfl) _ cin input

/-- Between two instructions: each operand in one place. -/
theorem held_once {cin : Bool} {input : Text} {done rest : List (ParsedInstr (Ref Operand))}
    {s : VM (Ref Operand) Heap} (hsplit : (created cin input).1 = done ++ rest)
    (hex : Executes tracked (VM.init (created cin input).2) done s) {id : ℕ} (hid : id < s.mem.next) :
    (holders s (done.map release ++ rest)).count id + s.mem.deleted.count id = 1 := by
  have hfield := created_noOperand cin input
  have hinit := owned_init cin input
  rw [hsplit] at hfield hinit
  have hs := owned_of_executes (fun j hj => hfield j (List.mem_append_left _ hj)) hex hinit
  refine Balanced.count ?_ hid
  have hb := hs.balanced
  simpa [holders, machine, hs.left, hs.right] using hb

/-- When `main` returns, the fields and the executor have given back what they held. -/
theorem balanced_of_exited {cin : Bool} {input stdout stderr : Text} {status : ℕ}
    (hrun : run cin input = .exited stdout stderr status) :
    Balanced 0 (avm tracked Heap.empty cin input).2 := by
  rw [← tracked_run] at hrun
  unfold avm at hrun ⊢
  simp only at hrun ⊢
  split
  · -- the operands of a rejected program are all still in their fields
    exact balanced_cleanTokens _ (balanced_createOperands (frontEnd cin input).1 balanced_empty)
  · rename_i hclean
    rw [if_neg hclean] at hrun
    cases ho : outcome (execute tracked (created cin input).1 (created cin input).2) with
    | terminated stdout' f =>
      unfold created at ho
      rw [ho] at hrun
      cases hrun
    | exited stdout' stderr' n =>
      have hend : ∀ f, (execute tracked (created cin input).1 (created cin input).2).ending =
          .threw f → ∃ e, f = .avm e := by
        intro f hf
        unfold outcome at ho
        rw [hf] at ho
        cases f with
        | avm e => exact ⟨e, rfl⟩
        | std e => cases ho
        | nullDeref => cases ho
      have hb := balanced_of_execute (created_noOperand cin input) (owned_init cin input) hend
      unfold created at ho
      rw [ho]
      refine balanced_destroy _ ?_
      rw [add_zero]
      refine balanced_cleanTokens _ ?_
      rw [add_comm]
      exact hb

/-- **Single ownership.** Between any two instructions of a run every operand created so far is in
one place: held once by the stack, a slot or an operand field, or deleted once. And when the
process ends, by parse errors, by `exit` or by an `AVMException`, every operand created has been
deleted exactly once. -/
theorem single_ownership (cin : Bool) (input : Text) :
    (∀ done rest s, (created cin input).1 = done ++ rest →
        Executes tracked (VM.init (created cin input).2) done s →
        ∀ id < s.mem.next,
          (holders s (done.map release ++ rest)).count id + s.mem.deleted.count id = 1) ∧
      ∀ stdout stderr status, run cin input = .exited stdout stderr status →
        (avm tracked Heap.empty cin input).2.deleted.Perm
          (List.range (avm tracked Heap.empty cin input).2.next) := by
  constructor
  · intro done rest s hsplit hex id hid
    exact held_once hsplit hex hid
  · intro stdout stderr status hrun
    exact (balanced_of_exited hrun).perm_range

end AbstractVM
