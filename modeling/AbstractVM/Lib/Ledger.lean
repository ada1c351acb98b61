import Mathlib.Algebra.BigOperators.Group.Multiset.Basic
import Mathlib.Algebra.BigOperators.Group.List.Lemmas
import Mathlib.Algebra.Order.Group.Multiset
import Mathlib.Data.Multiset.Range
import Mathlib.Tactic.Abel
/-!
# A ledger of allocations

Every allocation takes the next number; a heap remembers which numbers were handed out and, in
order, which were given back. `Balanced held h` is the conservation law: what is held, together
with what was given back, is everything handed out, once each. So nothing is held twice, nothing
given back is still held, and nothing was given back twice.
-/

namespace Ledger

/-- An object under the number it was allocated with. -/
structure Ref (α : Type) where
  id : ℕ
  obj : α
deriving DecidableEq

structure Heap where
  next : ℕ
  deleted : List ℕ
deriving DecidableEq, Repr

variable {α : Type}

def Heap.empty : Heap := ⟨0, []⟩

def Heap.alloc (a : α) (h : Heap) : Ref α × Heap := (⟨h.next, a⟩, { h with next := h.next + 1 })

def Heap.free (r : Ref α) (h : Heap) : Heap := { h with deleted := r.id :: h.deleted }

/-- The numbers handed out and not given back. -/
def Heap.alive (h : Heap) : Multiset ℕ := (Multiset.range h.next).filter fun id => id ∉ h.deleted

/-- What a place that may hold a reference owns. -/
def own : Option (Ref α) → Multiset ℕ
  | none => 0
  | some r => {r.id}

/-- What a list of such places owns. -/
def ownAll (l : List (Option (Ref α))) : Multiset ℕ := (l.map own).sum

@[simp] theorem own_none : own (none : Option (Ref α)) = 0 := rfl
@[simp] theorem own_some (r : Ref α) : own (some r) = {r.id} := rfl
@[simp] theorem ownAll_nil : ownAll ([] : List (Option (Ref α))) = 0 := rfl

@[simp] theorem ownAll_cons (p : Option (Ref α)) (l : List (Option (Ref α))) :
    ownAll (p :: l) = own p + ownAll l := List.sum_cons

@[simp] theorem ownAll_append (l l' : List (Option (Ref α))) :
    ownAll (l ++ l') = ownAll l + ownAll l' := by
  simp [ownAll]

theorem ownAll_perm {l l' : List (Option (Ref α))} (h : l.Perm l') : ownAll l = ownAll l' :=
  (h.map own).sum_eq

@[simp] theorem ownAll_reverse (l : List (Option (Ref α))) : ownAll l.reverse = ownAll l :=
  ownAll_perm l.reverse_perm

/-- Places that all hold a reference own as many numbers. -/
theorem card_ownAll {l : List (Option (Ref α))} (h : ∀ p ∈ l, p ≠ none) :
    (ownAll l).card = l.length := by
  induction l with
  | nil => rfl
  | cons p l ih =>
    obtain ⟨hp, hl⟩ := List.forall_mem_cons.1 h
    obtain ⟨r, rfl⟩ := Option.ne_none_iff_exists'.1 hp
    rw [ownAll_cons, own_some, Multiset.card_add, Multiset.card_singleton, ih hl, List.length_cons,
      add_comm]

/-- What is held and what was given back is what was handed out. -/
def Balanced (held : Multiset ℕ) (h : Heap) : Prop :=
  held + (h.deleted : Multiset ℕ) = Multiset.range h.next

variable {held : Multiset ℕ} {h : Heap}

theorem balanced_empty : Balanced 0 Heap.empty := rfl

theorem Balanced.alloc (hb : Balanced held h) (a : α) :
    Balanced ({(h.alloc a).1.id} + held) (h.alloc a).2 := by
  unfold Balanced Heap.alloc at *
  show {h.next} + held + (h.deleted : Multiset ℕ) = Multiset.range (h.next + 1)
  rw [add_assoc, hb, Multiset.range_succ, Multiset.singleton_add]

theorem Balanced.free {r : Ref α} (hb : Balanced ({r.id} + held) h) : Balanced held (h.free r) := by
  unfold Balanced Heap.free at *
  rw [← hb, ← Multiset.cons_coe, ← Multiset.singleton_add]
  abel

/-- Each number handed out is in exactly one place: held once, or given back once. -/
theorem Balanced.count (hb : Balanced held h) {id : ℕ} (hid : id < h.next) :
    held.count id + h.deleted.count id = 1 := by
  have hcount := congrArg (Multiset.count id) hb
  rw [Multiset.count_add, Multiset.coe_count] at hcount
  rw [hcount]
  exact Multiset.count_eq_one_of_mem (Multiset.nodup_range _) (Multiset.mem_range.2 hid)

/-- What is held is what was handed out and not given back. -/
theorem Balanced.alive_eq (hb : Balanced held h) : h.alive = held := by
  ext id
  unfold Heap.alive
  rw [Multiset.count_filter]
  by_cases hid : id < h.next
  · have hcount := hb.count hid
    have hone : (Multiset.range h.next).count id = 1 :=
      Multiset.count_eq_one_of_mem (Multiset.nodup_range _) (Multiset.mem_range.2 hid)
    by_cases hdel : id ∈ h.deleted
    · have hpos := List.count_pos_iff.2 hdel
      rw [if_neg (not_not_intro hdel)]
      omega
    · rw [List.count_eq_zero_of_not_mem hdel] at hcount
      rw [if_pos hdel]
      omega
  · -- beyond `next` nothing is held
    have hnone : (Multiset.range h.next).count id = 0 :=
      Multiset.count_eq_zero_of_notMem fun hmem => hid (Multiset.mem_range.1 hmem)
    have hsum := congrArg (Multiset.count id) hb
    rw [Multiset.count_add, hnone] at hsum
    split_ifs <;> omega

/-- As many are held and given back as were handed out. -/
theorem Balanced.card (hb : Balanced held h) : held.card + h.deleted.length = h.next := by
  have hcard := congrArg Multiset.card hb
  rwa [Multiset.card_add, Multiset.coe_card, Multiset.card_range] at hcard

/-- When nothing is held any more, everything was given back exactly once. -/
theorem Balanced.perm_range (hb : Balanced 0 h) : h.deleted.Perm (List.range h.next) := by
  unfold Balanced at hb
  rw [zero_add] at hb
  exact Multiset.coe_eq_coe.1 hb

end Ledger
