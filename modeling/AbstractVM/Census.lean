import AbstractVM.Ownership
import AbstractVM.Depth
/-!
# The memory in use

How many operands does a run keep? `parse` creates those of the `push` and `assert` lines before
anything is executed; from then on a new one comes with each arithmetic instruction only, and two go
with it. So a run never needs more operands than the program has literals.

| here | what it says of the source |
| --- | --- |
| `Executes.erase` | a run forgets the numbers of its operands |
| `stack_ne_none` | no null pointer gets on the stack |
| `next_created`, `next_of_step` | what `parse` creates, and one instruction |

Main result: `memory_in_use`.
-/

namespace AbstractVM

open DecimalText (Text)
open CommandsExecutor Ledger

/-- The number of instructions with an operand. -/
def literals {P : Type} (is : List (ParsedInstr P)) : ℕ :=
  is.countP fun i => i.instruction.TakesOperand

/-- The number of arithmetic instructions. -/
def ariths {P : Type} (is : List (ParsedInstr P)) : ℕ := is.countP fun i => i.instruction.IsArith

/-! ## The pointers of a run -/

section
variable {P M : Type} {μ : Memory P M}

theorem Executes.erase (hμ : μ.Reads) {is : List (ParsedInstr P)} {s t : VM P M}
    (h : Executes μ s is t) :
    Executes plain (s.erase μ) (is.map (ParsedInstr.erase μ)) (t.erase μ) := by
  induction h with
  | nil s => exact .nil _
  | @cons s t u i is hi hexit _ ih =>
    refine .cons (t := t.erase μ) ?_ hexit ih
    rw [execInstr_erase hμ, hi]
    rfl

end

theorem tracked_reads : tracked.Reads := fun _ _ => rfl

theorem created_erase (cin : Bool) (input : Text) :
    (created cin input).1.map (ParsedInstr.erase tracked) = (frontEnd cin input).1 :=
  createOperands_erase tracked_reads _ _

section
variable {cin : Bool} {input : Text}

/-- No null pointer gets on the stack of an accepted program. -/
theorem stack_ne_none (hclean : (frontEnd cin input).2 = [])
    {done rest : List (ParsedInstr (Ref Operand))} (hsplit : (created cin input).1 = done ++ rest)
    {s : VM (Ref Operand) Heap} (hex : Executes tracked (VM.init (created cin input).2) done s) :
    ∀ p ∈ s.stack_, p ≠ none := by
  have herase := created_erase cin input
  rw [hsplit, List.map_append] at herase
  obtain ⟨cells, hcells⟩ := holds_of_reachable hclean herase.symm (hex.erase tracked_reads)
  intro p hp hnone
  refine hcells.ne_none none ?_ rfl
  rw [hnone] at hp
  exact List.mem_map.2 ⟨none, hp, rfl⟩

/-- Each `push` and each `assert` of an accepted program has its operand, the others have none. -/
theorem own_created (hclean : (frontEnd cin input).2 = []) {i : ParsedInstr (Ref Operand)}
    (hi : i ∈ (created cin input).1) :
    (own i.operand).card = if i.instruction.TakesOperand then 1 else 0 := by
  have hmem : i.erase tracked ∈ (frontEnd cin input).1 := by
    rw [← created_erase]
    exact List.mem_map_of_mem hi
  have hwf := wellFormed_of_frontEnd hclean _ hmem
  by_cases htake : i.instruction.TakesOperand
  · obtain ⟨c, hc, -⟩ := hwf.operand htake
    rw [if_pos htake]
    cases ho : i.operand with
    | none =>
      change i.operand.map tracked.deref = _ at hc
      rw [ho] at hc
      cases hc
    | some r => rfl
  · rw [if_neg htake, created_noOperand cin input i hi htake]
    rfl

theorem card_fields {is : List (ParsedInstr (Ref Operand))}
    (h : ∀ i ∈ is, (own i.operand).card = if i.instruction.TakesOperand then 1 else 0) :
    (fields is).card = literals is := by
  induction is with
  | nil => rfl
  | cons i is ih =>
    obtain ⟨hi, his⟩ := List.forall_mem_cons.1 h
    unfold literals at ih ⊢
    rw [fields_cons, Multiset.card_add, hi, ih his, List.countP_cons, add_comm]
    simp only [decide_eq_true_eq]

end

/-! ## Creating -/

/-- `parse` deletes nothing. -/
theorem deleted_createOperands (is : List (ParsedInstr Operand)) (h : Heap) :
    (createOperands tracked is h).2.deleted = h.deleted := by
  induction is generalizing h with
  | nil => rfl
  | cons i is ih =>
    simp only [createOperands]
    rw [ih]
    cases i.operand <;> rfl

theorem next_deletePtr (p : Option (Ref Operand)) (h : Heap) :
    (tracked.deletePtr p h).next = h.next := by
  cases p <;> rfl

section
variable {i : ParsedInstr (Ref Operand)} {s s' : VM (Ref Operand) Heap}

/-- **Step lemma**: only arithmetic creates an operand. -/
theorem next_of_step (h : Step tracked i s s') (hstack : ∀ p ∈ s'.stack_, p ≠ none) :
    s'.mem.next = s.mem.next + if i.instruction.IsArith then 1 else 0 := by
  have hquiet : ∀ {op : Operation}, i.instruction = op → ¬ op.IsArith →
      s.mem.next = s.mem.next + if i.instruction.IsArith then 1 else 0 := by
    rintro op rfl hno
    rw [if_neg hno, Nat.add_zero]
  cases h with
  | assert hop => exact (next_deletePtr _ _).trans (hquiet hop (by decide))
  | pop hop => exact (next_deletePtr _ _).trans (hquiet hop (by decide))
  | @arith op hop l r rest hs result hres =>
    rw [hop, if_pos op.isArith_operation]
    cases result with
    | none => exact absurd rfl (hstack none List.mem_cons_self)
    | some o =>
      show (tracked.deletePtr (some r) (tracked.deletePtr (some l)
        (tracked.newPtr (some o) s.mem).2)).next = s.mem.next + 1
      rw [next_deletePtr, next_deletePtr]
      rfl
  | _ hop => exact hquiet hop (by decide)

end

/-! ## A run -/

section
variable {cin : Bool} {input : Text} {done rest : List (ParsedInstr (Ref Operand))}
  {s : VM (Ref Operand) Heap}

theorem ariths_snoc (is : List (ParsedInstr (Ref Operand))) (i : ParsedInstr (Ref Operand)) :
    ariths (is ++ [i]) = ariths is + if i.instruction.IsArith then 1 else 0 := by
  unfold ariths
  rw [List.countP_append, List.countP_singleton]
  simp only [decide_eq_true_eq]

theorem literals_eq (is : List (ParsedInstr (Ref Operand))) :
    literals is = is.countP (fun i => i.instruction = .PUSH) +
      is.countP (fun i => i.instruction = .ASSERT) := by
  unfold literals
  induction is with
  | nil => rfl
  | cons i is ih =>
    rw [List.countP_cons, List.countP_cons, List.countP_cons, ih]
    have hone : (if decide i.instruction.TakesOperand then 1 else 0) =
        (if decide (i.instruction = .PUSH) then 1 else 0) +
          if decide (i.instruction = .ASSERT) then 1 else 0 := by
      generalize i.instruction = op
      cases op <;> rfl
    omega

/-- What `parse` creates. -/
theorem next_created (hown : ∀ i ∈ (created cin input).1,
      (own i.operand).card = if i.instruction.TakesOperand then 1 else 0) :
    (created cin input).2.next = literals (created cin input).1 := by
  have hcard := (owned_init cin input).balanced.card
  have hnone : (created cin input).2.deleted = [] := deleted_createOperands _ _
  change Multiset.card (0 + fields (created cin input).1) + (created cin input).2.deleted.length =
    (created cin input).2.next at hcard
  rw [zero_add, card_fields hown, hnone] at hcard
  exact hcard.symm

/-- **Run lemma**: and what a run has created. -/
theorem next_of_executes (hclean : (frontEnd cin input).2 = [])
    (hsplit : (created cin input).1 = done ++ rest)
    (hex : Executes tracked (VM.init (created cin input).2) done s) :
    s.mem.next = literals (created cin input).1 + ariths done := by
  induction done using List.reverseRecOn generalizing rest s with
  | nil =>
    cases hex
    exact next_created fun i hi => own_created hclean hi
  | append_singleton done i ih =>
    have hstack := stack_ne_none hclean hsplit hex
    obtain ⟨t, ht, his⟩ := executes_append.1 hex
    rw [List.append_assoc] at hsplit
    cases his with
    | cons hi _ hnil =>
      cases hnil
      rw [next_of_step (execInstr_ok hi) hstack, ih hsplit ht, ariths_snoc, Nat.add_assoc]

end

/-- **The memory in use.** Between any two instructions of an accepted program the operands that are
alive are those on the stack and those of the lines still to come, each once. As many have been
created as the program has literals and as arithmetic was executed; one was deleted by each `assert`
and each `pop`, two by each arithmetic instruction; so at most as many are alive as the program has
literals. -/
theorem memory_in_use (cin : Bool) (input : Text) (done rest : List (ParsedInstr (Ref Operand)))
    (s : VM (Ref Operand) Heap) (hclean : (frontEnd cin input).2 = [])
    (hsplit : (created cin input).1 = done ++ rest)
    (hex : Executes tracked (VM.init (created cin input).2) done s) :
    s.mem.alive = ownAll s.stack_ + fields rest ∧
      s.mem.next = s.mem.deleted.length + (s.stack_.length + literals rest) ∧
      s.mem.next = literals (done ++ rest) + ariths done ∧
      s.mem.deleted.length = done.countP (fun i => i.instruction = .ASSERT) +
        done.countP (fun i => i.instruction = .POP) + 2 * ariths done ∧
      s.mem.next ≤ s.mem.deleted.length + literals (done ++ rest) := by
  have hcreated := next_of_executes hclean hsplit hex
  rw [hsplit] at hcreated
  -- alive is what is held
  have hbalanced : Balanced (ownAll s.stack_ + fields rest) s.mem := by
    have hfield := created_noOperand cin input
    have hinit := owned_init cin input
    rw [hsplit] at hfield hinit
    exact (owned_of_executes (fun j hj => hfield j (List.mem_append_left _ hj)) hex hinit).balanced
  have hnumber : s.stack_.length + literals rest + s.mem.deleted.length = s.mem.next := by
    have hcard := hbalanced.card
    rwa [Multiset.card_add, card_ownAll (stack_ne_none hclean hsplit hex), card_fields fun i hi =>
      own_created hclean (hsplit ▸ List.mem_append_right _ hi)] at hcard
  have hheight : (s.stack_.length : ℤ) = done.countP (fun i => i.instruction = .PUSH) -
      done.countP (fun i => i.instruction = .POP) - ariths done := by
    simpa [depth, ariths, VM.init] using hex.length_eq
  have happend : literals (done ++ rest) = literals done + literals rest := List.countP_append
  have hvalues := literals_eq done
  exact ⟨hbalanced.alive_eq, by omega, hcreated, by omega, by omega⟩

/-- Two literals and their product, of which one is left. -/
theorem memory_in_use_mul :
    (⟨3, [1, 0]⟩ : Heap).alive =
      ownAll [some (⟨2, Operand.new (.int .int8_t 42)⟩ : Ref Operand)] +
        fields [⟨.EXIT, .NoType, none, 4⟩] :=
  (memory_in_use false "push int8(6)\npush int8(7)\nmul\nexit\n".toList
    [⟨.PUSH, .Int8, some ⟨0, Operand.new (.int .int8_t 6)⟩, 1⟩,
      ⟨.PUSH, .Int8, some ⟨1, Operand.new (.int .int8_t 7)⟩, 2⟩, ⟨.MUL, .NoType, none, 3⟩]
    [⟨.EXIT, .NoType, none, 4⟩]
    ⟨[some ⟨2, Operand.new (.int .int8_t 42)⟩], false, none, none, [], ⟨3, [1, 0]⟩⟩
    (by decide +kernel) (by decide +kernel)
    (.cons (t := ⟨[some ⟨0, Operand.new (.int .int8_t 6)⟩], false, none, none, [], ⟨2, []⟩⟩)
      (by decide +kernel) rfl
      (.cons (t := ⟨[some ⟨1, Operand.new (.int .int8_t 7)⟩, some ⟨0, Operand.new (.int .int8_t 6)⟩],
          false, none, none, [], ⟨2, []⟩⟩) (by decide +kernel) rfl
        (.cons (by decide +kernel) rfl (.nil _))))).1

end AbstractVM
