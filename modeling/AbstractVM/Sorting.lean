import AbstractVM.Compare
import AbstractVM.CommandsExecutor
/-!
# `sort` on integers

The comparator of `sort` reads one of its operands from its text and picks its type from the pair,
yet on integers it is the order of the values (`compareForStack_ptr`). So `std::list::sort`, which is
stable, orders the stack by value, and what `dump` prints afterwards depends on the values only.

Main result: `sort_integers`.
-/

namespace AbstractVM

open DecimalText (Text)
open Cpp
open CommandsExecutor (compareForStack)

/-- An operand of an integer type. -/
structure IntOperand where
  type : IntType
  value : ℤ
  fits : type.Fits value

namespace IntOperand

/-- The pointer to it. -/
def ptr (c : IntOperand) : Option Operand := some (Cell.int c.type c.value c.fits).operand

/-- The comparator on values. -/
def lt (a b : IntOperand) : Except Fault Bool := .ok (decide (a.value < b.value))

end IntOperand

/-- The machine with these integers on its stack, the top first. -/
def VM.holding (s : VM Operand Unit) (cs : List IntOperand) : VM Operand Unit :=
  { s with stack_ := cs.map IntOperand.ptr }

/-- **The comparator is the order of the values**, whatever the widths. -/
theorem compareForStack_ptr (a b : IntOperand) :
    compareForStack plain a.ptr b.ptr = IntOperand.lt a b :=
  compareWith_int (fun a b => decide (a < b)) (fun a b => decide (a < b)) a.fits b.fits

theorem forall₂_ptr (cs : List IntOperand) :
    List.Forall₂ (fun p c => p = IntOperand.ptr c) (cs.map IntOperand.ptr) cs := by
  induction cs with
  | nil => exact .nil
  | cons c cs ih => exact .cons rfl ih

theorem eq_map_ptr {ps : List (Option Operand)} {cs : List IntOperand}
    (h : List.Forall₂ (fun p c => p = IntOperand.ptr c) ps cs) : ps = cs.map IntOperand.ptr := by
  induction h with
  | nil => rfl
  | cons hpc _ ih => rw [hpc, ih, List.map_cons]

/-- Sorting the pointers is sorting the integers. -/
theorem sort_holding {s : VM Operand Unit} {cs zs : List IntOperand}
    (h : ListSort.listSort IntOperand.lt cs.reverse = .ok zs.reverse) :
    CommandsExecutor.sort plain (s.holding cs) = .ok (s.holding zs) := by
  have hlt : ∀ p a q b, p = IntOperand.ptr a → q = IntOperand.ptr b →
      compareForStack plain p q = IntOperand.lt a b := by
    rintro p a q b rfl rfl
    exact compareForStack_ptr a b
  have hrel := ListSort.listSort_rel hlt (List.forall₂_reverse_iff.2 (forall₂_ptr cs))
  rw [h] at hrel
  unfold CommandsExecutor.sort VM.holding
  cases hps : ListSort.listSort (compareForStack plain) (cs.map IntOperand.ptr).reverse with
  | error f => rw [hps] at hrel; cases hrel
  | ok ps =>
    rw [hps] at hrel
    have hps' := eq_map_ptr (List.forall₂_reverse_iff.2 hrel)
    rw [List.reverse_reverse] at hps'
    simp only [hps']

theorem dump_holding (s : VM Operand Unit) (cs : List IntOperand) :
    CommandsExecutor.dump plain (s.holding cs) =
      .ok { s.holding cs with cout := s.cout ++ cs.flatMap fun c => endl (toStringInt c.value) } := by
  unfold CommandsExecutor.dump VM.holding
  simp only [List.flatMap_map]
  rfl

/-! ## The sorted list -/

/-- What `listSort` makes of a stack, the top first. -/
theorem listSort_integers (cs : List IntOperand) :
    ∃ zs : List IntOperand, ListSort.listSort IntOperand.lt cs.reverse = .ok zs.reverse ∧
      zs.Perm cs ∧ zs.Pairwise (fun top below => below.value ≤ top.value) ∧
      ∀ v, (zs.filter fun c => c.value = v) = cs.filter fun c => c.value = v := by
  have hlt : ∀ x y : IntOperand, True → True →
      IntOperand.lt x y = .ok (decide (x.value < y.value)) := fun _ _ _ _ => rfl
  obtain ⟨l, hl, hsorted, hkeys⟩ :=
    ListSort.listSort_key hlt (l := cs.reverse) (fun _ _ => trivial)
  refine ⟨l.reverse, by rw [List.reverse_reverse]; exact hl, ?_, ?_, ?_⟩
  · exact (List.reverse_perm l).trans ((ListSort.listSort_perm hl).trans (List.reverse_perm cs))
  · exact List.pairwise_reverse.2 hsorted
  · intro v
    have hv := hkeys v
    unfold ListSort.sameKey at hv
    rw [List.filter_reverse, hv, List.filter_reverse, List.reverse_reverse]

/-- A list that is sorted already stays as it is. -/
theorem listSort_sorted {zs : List IntOperand}
    (h : zs.Pairwise fun top below => below.value ≤ top.value) :
    ListSort.listSort IntOperand.lt zs.reverse = .ok zs.reverse := by
  obtain ⟨ws, hws, -, hsorted, hkeys⟩ := listSort_integers zs
  have hkeys' : ∀ v, ListSort.sameKey IntOperand.value v ws.reverse =
      ListSort.sameKey IntOperand.value v zs.reverse := by
    intro v
    unfold ListSort.sameKey
    rw [List.filter_reverse, List.filter_reverse, hkeys v]
  rw [hws, ListSort.eq_of_sorted_of_filter IntOperand.value (List.pairwise_reverse.2 hsorted)
    (List.pairwise_reverse.2 h) hkeys']

/-- Sorted by value, permutations of each other have the same values in the same places. -/
theorem values_eq {zs ws : List IntOperand} (hperm : zs.Perm ws)
    (hz : zs.Pairwise fun top below => below.value ≤ top.value)
    (hw : ws.Pairwise fun top below => below.value ≤ top.value) :
    zs.map IntOperand.value = ws.map IntOperand.value := by
  have hanti : ∀ a b : ℤ, a ∈ zs.map IntOperand.value → b ∈ ws.map IntOperand.value →
      b ≤ a → a ≤ b → a = b := fun a b _ _ h1 h2 => le_antisymm h2 h1
  exact (hperm.map _).eq_of_pairwise hanti (List.pairwise_map.2 hz) (List.pairwise_map.2 hw)

/-- **`sort` on integers.** Any stack of integers, of whatever widths and however many, is left as a
permutation of itself, the greatest on top, equal values in their old order; `dump` then prints the
values greatest first; sorting again changes nothing; and any permutation of the stack, sorted,
prints the same text. -/
theorem sort_integers (s : VM Operand Unit) (cs : List IntOperand) :
    ∃ zs : List IntOperand,
      CommandsExecutor.sort plain (s.holding cs) = .ok (s.holding zs) ∧ zs.Perm cs ∧
      zs.Pairwise (fun top below => below.value ≤ top.value) ∧
      (∀ v, (zs.filter fun c => c.value = v) = cs.filter fun c => c.value = v) ∧
      CommandsExecutor.dump plain (s.holding zs) = .ok { s.holding zs with
        cout := s.cout ++ zs.flatMap fun c => endl (toStringInt c.value) } ∧
      CommandsExecutor.sort plain (s.holding zs) = .ok (s.holding zs) ∧
      ∀ cs', cs'.Perm cs → ∃ zs', CommandsExecutor.sort plain (s.holding cs') = .ok (s.holding zs') ∧
        (CommandsExecutor.dump plain (s.holding zs')).map (·.cout) =
          (CommandsExecutor.dump plain (s.holding zs)).map (·.cout) := by
  obtain ⟨zs, hzs, hperm, hsorted, hkeys⟩ := listSort_integers cs
  refine ⟨zs, sort_holding hzs, hperm, hsorted, hkeys, dump_holding s zs,
    sort_holding (listSort_sorted hsorted), ?_⟩
  intro cs' hcs'
  obtain ⟨zs', hzs', hperm', hsorted', -⟩ := listSort_integers cs'
  have hvalues := values_eq (hperm'.trans (hcs'.trans hperm.symm)) hsorted' hsorted
  have htext : ∀ l : List IntOperand, (l.flatMap fun c => endl (toStringInt c.value)) =
      (l.map IntOperand.value).flatMap fun v => endl (toStringInt v) := by
    intro l
    rw [List.flatMap_map]
  refine ⟨zs', sort_holding hzs', ?_⟩
  rw [dump_holding, dump_holding, htext zs', htext zs, hvalues]
  rfl

end AbstractVM
