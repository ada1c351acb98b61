import AbstractVM.Lib.WeakOrder
import AbstractVM.Denotation
/-!
# `sort` with reals on the stack

`std::list::sort` is given `compareForStack`, which is a strict weak ordering on `Orderly` operands
only. On these it does what its name says; and where the text of every operand is read back as the
operand, and no `float` stands among other kinds, it sorts by value, as it does integers.

| here | what it says of the source |
| --- | --- |
| `sort_carrying` | `sort` permutes operands as `ListSort.listSort` does |
| `sort_by` | what `sort` does where its comparator is some strict weak ordering |
| `held_read_of_readBack` | where the comparator is the order of the values |

Main results: `sort_orderly` and `sort_values`.
-/

namespace AbstractVM

open Cpp
open ListSort (Tied InOrder)

/-- The machine with these operands on its stack, the top first. -/
def VM.carrying (s : VM Operand Unit) (cs : List Cell) : VM Operand Unit :=
  { s with stack_ := cs.map fun c => some c.operand }

instance : DecidableRel Before := fun a b => by unfold Before; infer_instance

theorem sort_carrying {s : VM Operand Unit} {cs zs : List Cell}
    (h : ListSort.listSort Cell.comesBefore cs.reverse = .ok zs.reverse) :
    CommandsExecutor.sort plain (s.carrying cs) = .ok (s.carrying zs) := by
  unfold CommandsExecutor.sort VM.carrying
  rw [← List.map_reverse, Command.listSort_cells, h]
  simp only [Except.map, List.map_reverse, List.reverse_reverse]

/-- `sort` takes the stack `cs` to `zs`, which is in the order `lt`. -/
structure SortsTo (s : VM Operand Unit) (lt : Cell → Cell → Prop) [DecidableRel lt]
    (cs zs : List Cell) : Prop where
  /-- Nothing is thrown,… -/
  sorted : CommandsExecutor.sort plain (s.carrying cs) = .ok (s.carrying zs)
  /-- …no operand is lost or duplicated,… -/
  perm : zs.Perm cs
  /-- …none stands above one it comes before,… -/
  order : zs.Pairwise fun top below => ¬ lt top below
  /-- …and ties keep their order. -/
  ties : ∀ c ∈ cs, (zs.filter fun d => Tied lt d c) = cs.filter fun d => Tied lt d c
  /-- Sorting again changes nothing. -/
  again : CommandsExecutor.sort plain (s.carrying zs) = .ok (s.carrying zs)
  /-- Sorted from another order, the stack has ties of these operands in their places. -/
  reordered : ∀ cs' : List Cell, cs'.Perm cs → ∃ zs',
    CommandsExecutor.sort plain (s.carrying cs') = .ok (s.carrying zs') ∧
      List.Forall₂ (Tied lt) zs' zs

/-- `sort` where the operands on the stack are compared by a strict weak ordering. -/
theorem sort_by {lt : Cell → Cell → Prop} [DecidableRel lt] (s : VM Operand Unit) {cs : List Cell}
    (hr : IsStrictWeakOrder { c // c ∈ cs } fun a b => lt a b)
    (hlt : ∀ a b, a ∈ cs → b ∈ cs → a.comesBefore b = .ok (decide (lt a b))) :
    ∃ zs, SortsTo s lt cs zs := by
  -- the list has its front at the bottom of the stack
  have hsort : ∀ cs' : List Cell, cs'.Perm cs →
      ∃ l, ListSort.listSort Cell.comesBefore cs'.reverse = .ok l ∧ l.Perm cs ∧ InOrder lt l ∧
        ∀ c ∈ cs, (l.filter fun d => Tied lt d c) = cs'.reverse.filter fun d => Tied lt d c := by
    intro cs' hcs'
    obtain ⟨l, hl, horder, hties⟩ := ListSort.listSort_weakOrder hr hlt (l := cs'.reverse)
      fun c hc => hcs'.mem_iff.1 (List.mem_reverse.1 hc)
    have hperm := (ListSort.listSort_perm hl).trans ((List.reverse_perm cs').trans hcs')
    exact ⟨l, hl, hperm, horder, hties⟩
  obtain ⟨l, hl, hperm, horder, hties⟩ := hsort cs (List.Perm.refl cs)
  have hmem : ∀ c ∈ l, c ∈ cs := fun c hc => hperm.mem_iff.1 hc
  refine ⟨l.reverse, ?_, (List.reverse_perm l).trans hperm, List.pairwise_reverse.2 horder,
    ?_, ?_, ?_⟩
  · refine sort_carrying ?_
    rw [List.reverse_reverse, hl]
  · intro c hc
    rw [List.filter_reverse, hties c hc, List.filter_reverse, List.reverse_reverse]
  · refine sort_carrying ?_
    rw [List.reverse_reverse]
    exact ListSort.listSort_inOrder hr hlt hmem horder
  · intro cs' hcs'
    obtain ⟨l', hl', hperm', horder', -⟩ := hsort cs' hcs'
    have hmem' : ∀ c ∈ l', c ∈ cs := fun c hc => hperm'.mem_iff.1 hc
    refine ⟨l'.reverse, sort_carrying (by rw [List.reverse_reverse, hl']), ?_⟩
    rw [List.forall₂_reverse_iff]
    exact ListSort.tied_of_perm hr hmem' (hperm'.trans hperm.symm) horder' horder

/-! ## The contract of the library -/

section
variable {S : Set Cell} (h : Orderly S)
include h

theorem Orderly.before_iff {a b : Cell} (hb : b ∈ S) : Before a b ↔ a.held b < a.read b :=
  AbstractVM.before_iff a (h.legible b hb)

theorem Orderly.comesBefore_eq (a : Cell) {b : Cell} (hb : b ∈ S) :
    a.comesBefore b = .ok (decide (Before a b)) := by
  unfold Cell.comesBefore
  rw [if_pos (legible_of_self a (h.legible b hb)), decide_eq_decide.2 (h.before_iff hb)]

/-- The comparator keeps the contract of the library. -/
theorem Orderly.isStrictWeakOrder : IsStrictWeakOrder { c // c ∈ S } fun a b => Before a b := by
  refine ListSort.isStrictWeakOrder_iff.2 ⟨?_, ?_⟩
  · rintro ⟨a, ha⟩ ⟨b, hb⟩ hab hba
    exact h.asymm ha hb ⟨(h.before_iff hb).1 hab, (h.before_iff ha).1 hba⟩
  · rintro ⟨a, ha⟩ ⟨b, hb⟩ ⟨c, hc⟩ hab hbc
    rw [h.before_iff hb, not_lt] at hab
    rw [h.before_iff hc, not_lt] at hbc
    rw [h.before_iff hc, not_lt]
    exact h.not_before ha hb hc hab hbc

end

/-- **`sort` on orderly operands.** Whatever the types on the stack and however many they are: if
the operands on it are orderly, `sort` throws nothing and leaves a permutation in which none stands
above one it comes before, ties in their old order; sorting again changes nothing; and any
permutation of the stack, sorted, has ties of these operands in their places. -/
theorem sort_orderly (s : VM Operand Unit) {cs : List Cell} (h : Orderly { c | c ∈ cs }) :
    ∃ zs, SortsTo s Before cs zs :=
  sort_by s h.isStrictWeakOrder fun a _ _ => h.comesBefore_eq a

/-- The least `double` above 1, which prints as `1`. -/
def Cell.aboveOne : Cell :=
  real .double ⟨false, 4503599627370497 / 4503599627370496, by decide +kernel⟩
    ⟨by decide +kernel, by decide +kernel⟩

/-- A half, in any real type. -/
def Cell.half (T : RealType) : Cell :=
  real T ⟨false, 1 / 2, by decide +kernel⟩
    (by cases T <;> exact ⟨by decide +kernel, by decide +kernel⟩)

/-- An integer tied with a `double` above it, and a `float`. -/
theorem sort_orderly_mixed :
    ∃ zs, SortsTo (VM.init ()) Before [.aboveOne, .int .int8_t 1 (by decide), .half .float] zs := by
  have h : Orderly { c | c ∈ [.aboveOne, .int .int8_t 1 (by decide), .half .float] } := by
    refine ⟨?_, ?_, ?_, ?_, ?_⟩ <;> simp only [Set.mem_ofPred_eq] <;> decide +kernel
  exact sort_orderly (VM.init ()) h

/-! ## The order of the values -/

/-- The operand is read back from its own text. -/
def Cell.ReadBack (c : Cell) : Prop := c.Legible c ∧ c.read c = c.stored

instance (c : Cell) : Decidable c.ReadBack := by unfold Cell.ReadBack; infer_instance

/-- No `float` among other kinds. -/
def OneReal (cs : List Cell) : Prop := (∀ c ∈ cs, c.tag ≠ .Float) ∨ ∀ c ∈ cs, c.tag = .Float

section
variable {cs : List Cell} (hreal : OneReal cs) (hback : ∀ c ∈ cs, c.ReadBack)
include hreal hback

/-- The two numbers of a comparison are the two values. -/
theorem held_read_of_readBack {a b : Cell} (ha : a ∈ cs) (hb : b ∈ cs) :
    a.held b = a.stored ∧ a.read b = b.stored := by
  have hbb := (hback b hb).2
  rcases hreal with hno | hall
  · rcases b.lt_float_or_real with hlt | hfl | hdb
    · rcases a.lt_float_or_real with hlt' | hfl' | hdb'
      · exact ⟨Cell.held_int hlt' hlt, Cell.read_int hlt' hlt⟩
      · exact absurd hfl' (hno a ha)
      · rw [Cell.read_double (Or.inl hdb'), Cell.printed_of_lt_float hlt, b.double_convert_stored]
        exact ⟨Cell.held_double (Or.inl hdb'), rfl⟩
    · exact absurd hfl (hno b hb)
    · rw [Cell.read_double (Or.inr hdb), ← Cell.read_double (x := b) (Or.inr hdb)]
      exact ⟨Cell.held_double (Or.inr hdb), hbb⟩
  · have htag : a.tag = b.tag := (hall a ha).trans (hall b hb).symm
    unfold Cell.held
    unfold Cell.read at hbb ⊢
    refine ⟨?_, by rw [htag]; exact hbb⟩
    rw [← htag, OperandType.wider_self]
    exact a.convert_stored

theorem comesBefore_of_readBack {a b : Cell} (ha : a ∈ cs) (hb : b ∈ cs) :
    a.comesBefore b = .ok (decide (a.stored < b.stored)) := by
  obtain ⟨hheld, hread⟩ := held_read_of_readBack hreal hback ha hb
  unfold Cell.comesBefore
  rw [if_pos (legible_of_self a (hback b hb).1), hheld, hread]

end

theorem isStrictWeakOrder_stored {cs : List Cell} :
    IsStrictWeakOrder { c // c ∈ cs } fun a b => a.1.stored < b.1.stored := by
  refine ListSort.isStrictWeakOrder_iff.2 ⟨fun a b => not_lt_of_gt, ?_⟩
  intro a b c hab hbc
  exact not_lt.2 ((not_lt.1 hbc).trans (not_lt.1 hab))

theorem tied_stored_iff (a b : Cell) :
    Tied (fun a b : Cell => a.stored < b.stored) a b ↔ a.stored = b.stored := by
  unfold Tied
  rw [not_lt, not_lt, le_antisymm_iff]
  exact and_comm

/-- **`sort` by value.** On a stack of integers and `double`s, or of `float`s, however many, that
are all read back from their own texts, `sort` leaves the greatest value on top, equal values in
their old order whatever their types; sorting again changes nothing; and any permutation of the
stack, sorted, has the same values in the same places. -/
theorem sort_values (s : VM Operand Unit) {cs : List Cell} (hreal : OneReal cs)
    (hback : ∀ c ∈ cs, c.ReadBack) :
    ∃ zs : List Cell,
      CommandsExecutor.sort plain (s.carrying cs) = .ok (s.carrying zs) ∧ zs.Perm cs ∧
      zs.Pairwise (fun top below => below.stored ≤ top.stored) ∧
      (∀ v, (zs.filter fun c => c.stored = v) = cs.filter fun c => c.stored = v) ∧
      CommandsExecutor.sort plain (s.carrying zs) = .ok (s.carrying zs) ∧
      ∀ cs', cs'.Perm cs → ∃ zs',
        CommandsExecutor.sort plain (s.carrying cs') = .ok (s.carrying zs') ∧
          zs'.map Cell.stored = zs.map Cell.stored := by
  obtain ⟨zs, h⟩ := sort_by s isStrictWeakOrder_stored fun _ _ =>
    comesBefore_of_readBack hreal hback
  refine ⟨zs, h.sorted, h.perm, h.order.imp not_lt.1, fun v => ?_, h.again, fun cs' hcs' => ?_⟩
  · by_cases hv : ∃ c ∈ cs, c.stored = v
    · obtain ⟨c, hc, rfl⟩ := hv
      have hc' := h.ties c hc
      simp only [tied_stored_iff] at hc'
      exact hc'
    · -- no operand has this value
      have hnone : ∀ l : List Cell, l.Perm cs → (l.filter fun c => c.stored = v) = [] := by
        intro l hl
        refine List.filter_eq_nil_iff.2 fun c hc => ?_
        rw [decide_eq_true_iff]
        exact fun hcv => hv ⟨c, hl.mem_iff.1 hc, hcv⟩
      rw [hnone zs h.perm, hnone cs (List.Perm.refl cs)]
  · obtain ⟨zs', hzs', hforall⟩ := h.reordered cs' hcs'
    refine ⟨zs', hzs', ?_⟩
    rw [← List.forall₂_eq_eq_eq, List.forall₂_map_left_iff, List.forall₂_map_right_iff]
    exact hforall.imp fun a b => (tied_stored_iff a b).1

/-- A `double` between two integers. -/
theorem sort_values_double :
    ∃ zs : List Cell, CommandsExecutor.sort plain ((VM.init ()).carrying
      [.int .int8_t 3 (by decide), .half .double, .int .int32_t (-4) (by decide)]) =
        .ok ((VM.init ()).carrying zs) ∧
      zs.Pairwise fun top below => below.stored ≤ top.stored := by
  have hreal : OneReal
      [.int .int8_t 3 (by decide), .half .double, .int .int32_t (-4) (by decide)] :=
    Or.inl (by decide +kernel)
  obtain ⟨zs, hzs, -, horder, -⟩ := sort_values (VM.init ()) hreal (by decide +kernel)
  exact ⟨zs, hzs, horder⟩

end AbstractVM
