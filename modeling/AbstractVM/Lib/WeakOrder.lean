import AbstractVM.Lib.ListSort
import Mathlib.Order.Antisymmetrization
/-!
# Sorting by a strict weak ordering

What `std::list::sort` does when its comparator keeps the contract: the elements fall into classes
of ties, the classes are in a linear order, and the sort is one by the class. The contract is asked
of the elements of the list only; all others are put behind them, in one class.

Main results: `listSort_weakOrder` (what is sorted), `listSort_inOrder` (what is left alone) and
`tied_of_perm` (what does not depend on the order before).
-/

namespace ListSort

universe u v

variable {α : Type u} {ε : Type v} (r : α → α → Prop)

/-- Neither comes before the other. -/
def Tied (a b : α) : Prop := ¬ r a b ∧ ¬ r b a

instance [DecidableRel r] (a b : α) : Decidable (Tied r a b) := by unfold Tied; infer_instance

/-- Nothing comes before what stands in front of it. -/
def InOrder (l : List α) : Prop := l.Pairwise fun a b => ¬ r b a

/-! ## The classes of ties -/

section
variable {r} (hr : IsStrictWeakOrder α r)
include hr

/-- Not coming after is a preorder. -/
abbrev preorderOf : Preorder α where
  le a b := ¬ r b a
  lt a b := r a b
  le_refl a := hr.irrefl a
  le_trans a b c hab hbc := (isStrictWeakOrder_iff.1 hr).2 c b a hbc hab
  lt_iff_le_not_ge a b := by
    rw [not_not]
    exact ⟨fun h => ⟨(isStrictWeakOrder_iff.1 hr).1 a b h, h⟩, And.right⟩

/-- The classes of ties are in a linear order. -/
theorem exists_key : ∃ (κ : Type u) (_ : LinearOrder κ) (key : α → κ),
    (∀ a b, key a < key b ↔ r a b) ∧ ∀ a b, key a = key b ↔ Tied r a b := by
  classical
  let _ := preorderOf hr
  have _ : @Std.Total α (· ≤ ·) := ⟨fun a b => by
    by_contra hno
    rw [not_or] at hno
    exact (isStrictWeakOrder_iff.1 hr).1 b a (not_not.1 hno.1) (not_not.1 hno.2)⟩
  refine ⟨Antisymmetrization α (· ≤ ·), inferInstance, toAntisymmetrization (· ≤ ·), ?_, ?_⟩
  · exact fun a b => toAntisymmetrization_lt_toAntisymmetrization_iff
  · intro a b
    rw [le_antisymm_iff, toAntisymmetrization_le_toAntisymmetrization_iff,
      toAntisymmetrization_le_toAntisymmetrization_iff]
    exact and_comm

end

/-! ## The elements of a list -/

/-- The relation on `S`, with all of `S` before the rest. -/
def Extended (S : α → Prop) (a b : α) : Prop := S a ∧ (S b → r a b)

section
variable {r} {S : α → Prop}

theorem extended_iff {a b : α} (ha : S a) (hb : S b) : Extended r S a b ↔ r a b :=
  ⟨fun h => h.2 hb, fun h => ⟨ha, fun _ => h⟩⟩

theorem isStrictWeakOrder_extended (hr : IsStrictWeakOrder { a // S a } fun a b => r a b) :
    IsStrictWeakOrder α (Extended r S) := by
  obtain ⟨hasymm, htrans⟩ := isStrictWeakOrder_iff.1 hr
  refine isStrictWeakOrder_iff.2 ⟨?_, ?_⟩
  · rintro a b ⟨ha, hab⟩ ⟨hb, hba⟩
    exact hasymm ⟨a, ha⟩ ⟨b, hb⟩ (hab hb) (hba ha)
  · rintro a b c hab hbc ⟨ha, hac⟩
    -- `a` is one of them, so `b` is, so `c` is
    have hb : S b := by
      by_contra hb
      exact hab ⟨ha, fun h => absurd h hb⟩
    have hc : S c := by
      by_contra hc
      exact hbc ⟨hb, fun h => absurd h hc⟩
    rw [extended_iff ha hb] at hab
    rw [extended_iff hb hc] at hbc
    exact htrans ⟨a, ha⟩ ⟨b, hb⟩ ⟨c, hc⟩ hab hbc (hac hc)

/-- A strict weak ordering of the elements of a list is the order of a key. -/
theorem exists_key_on (hr : IsStrictWeakOrder { a // S a } fun a b => r a b) :
    ∃ (κ : Type u) (_ : LinearOrder κ) (key : α → κ),
      (∀ a b, S a → S b → (key a < key b ↔ r a b)) ∧
        ∀ a b, S a → S b → (key a = key b ↔ Tied r a b) := by
  obtain ⟨κ, hκ, key, hlt, heq⟩ := exists_key (isStrictWeakOrder_extended hr)
  refine ⟨κ, hκ, key, ?_, ?_⟩
  · intro a b ha hb
    rw [hlt, extended_iff ha hb]
  · intro a b ha hb
    rw [heq]
    unfold Tied
    rw [extended_iff ha hb, extended_iff hb ha]

end

/-! ## The sorted list -/

section
variable {r} {S : α → Prop} {κ : Type u} [LinearOrder κ] {key : α → κ}
  (hkey : ∀ a b, S a → S b → (key a < key b ↔ r a b))
include hkey

/-- In order is sorted by the key. -/
theorem sortedBy_iff {l : List α} (hl : ∀ a ∈ l, S a) : SortedBy key l ↔ InOrder r l := by
  refine List.Pairwise.iff_of_mem fun {a b} ha hb => ?_
  rw [← hkey b a (hl b hb) (hl a ha), not_lt]

theorem lt_key [DecidableRel r] {lt : α → α → Except ε Bool}
    (hlt : ∀ a b, S a → S b → lt a b = .ok (decide (r a b))) :
    ∀ a b, S a → S b → lt a b = .ok (decide (key a < key b)) := by
  intro a b ha hb
  rw [hlt a b ha hb, decide_eq_decide.2 (hkey a b ha hb)]

end

section
variable {r} {S : α → Prop} (hr : IsStrictWeakOrder { a // S a } fun a b => r a b)
include hr

/-- Lists in order that are permutations of each other have ties in the same places. -/
theorem tied_of_perm {l l' : List α} (hl : ∀ a ∈ l, S a) (hperm : l.Perm l') (ho : InOrder r l)
    (ho' : InOrder r l') : List.Forall₂ (Tied r) l l' := by
  obtain ⟨κ, _, key, hkey, htied⟩ := exists_key_on hr
  have hl' : ∀ a ∈ l', S a := fun a ha => hl a (hperm.mem_iff.2 ha)
  have hs := List.pairwise_map.2 ((sortedBy_iff hkey hl).2 ho)
  have hs' := List.pairwise_map.2 ((sortedBy_iff hkey hl').2 ho')
  have hanti : ∀ a b : κ, a ∈ l.map key → b ∈ l'.map key → a ≤ b → b ≤ a → a = b :=
    fun a b _ _ => le_antisymm
  -- the keys are the same list
  have heq : List.Forall₂ (· = ·) (l.map key) (l'.map key) := by
    rw [List.forall₂_eq_eq_eq]
    exact (hperm.map key).eq_of_pairwise hanti hs hs'
  rw [List.forall₂_map_left_iff, List.forall₂_map_right_iff, List.forall₂_iff_zip] at heq
  refine List.forall₂_iff_zip.2 ⟨heq.1, fun {a b} hab => ?_⟩
  obtain ⟨ha, hb⟩ := List.of_mem_zip hab
  exact (htied a b (hl a ha) (hl' b hb)).1 (heq.2 hab)

variable [DecidableRel r] {lt : α → α → Except ε Bool}
  (hlt : ∀ a b, S a → S b → lt a b = .ok (decide (r a b)))
include hlt

/-- **The contract kept.** The list comes out in order, ties in their old order. -/
theorem listSort_weakOrder {l : List α} (hl : ∀ a ∈ l, S a) :
    ∃ l', listSort lt l = .ok l' ∧ InOrder r l' ∧
      ∀ c, S c → (l'.filter fun a => Tied r a c) = l.filter fun a => Tied r a c := by
  obtain ⟨κ, _, key, hkey, htied⟩ := exists_key_on hr
  obtain ⟨l', hl', hsorted, hsame⟩ := listSort_key (lt_key hkey hlt) hl
  have hS : ∀ a ∈ l', S a := fun a ha => hl a ((listSort_perm hl').mem_iff.1 ha)
  refine ⟨l', hl', (sortedBy_iff hkey hS).1 hsorted, fun c hc => ?_⟩
  have hfilter : ∀ m : List α, (∀ a ∈ m, S a) →
      (m.filter fun a => Tied r a c) = sameKey key (key c) m := by
    intro m hm
    refine List.filter_congr fun a ha => ?_
    rw [decide_eq_decide, htied a c (hm a ha) hc]
  rw [hfilter l' hS, hfilter l hl, hsame]

/-- A list in order stays as it is. -/
theorem listSort_inOrder {l : List α} (hl : ∀ a ∈ l, S a) (ho : InOrder r l) :
    listSort lt l = .ok l := by
  obtain ⟨κ, _, key, hkey, -⟩ := exists_key_on hr
  obtain ⟨l', hl', hsorted, hsame⟩ := listSort_key (lt_key hkey hlt) hl
  rw [hl', eq_of_sorted_of_filter key hsorted ((sortedBy_iff hkey hl).2 ho) hsame]

end

end ListSort
