import Mathlib.Data.List.Forall2
import Mathlib.Order.Defs.LinearOrder
import Mathlib.Order.RelClasses
import Mathlib.Tactic.Linarith
/-!
# `std::list::sort` with a comparator that may throw

The bottom-up merge sort of the C++ library's list: one bin per power of two, every element is
carried into the bins, and the bins are merged at the end. A merge takes from the second list only
while it compares strictly below the head of the first, which is what makes the sort stable.

Main results: `listSort_perm` (no element lost or duplicated), `listSort_ok_iff` and
`listSort_error` (it throws exactly what one of its comparisons throws), `listSort_rel` (two lists related element by element, under
comparators that agree, are permuted alike) and `listSort_key`: under a comparator given by a key
in a linear order the result is sorted by the key and keeps the order inside each key, which
determines it (`eq_of_sorted_of_filter`); so it merges two passes into one (`listSort_two_passes`).
`isStrictWeakOrder_iff` puts what the library asks of a comparator into two conditions.
-/

namespace ListSort

/-! ## What a comparator has to be -/

/-- A strict weak ordering is an asymmetric relation whose negation is transitive. -/
theorem isStrictWeakOrder_iff {α : Type*} {r : α → α → Prop} :
    IsStrictWeakOrder α r ↔
      (∀ a b, r a b → ¬ r b a) ∧ ∀ a b c, ¬ r a b → ¬ r b c → ¬ r a c := by
  constructor
  · intro h
    have hasymm : ∀ a b, r a b → ¬ r b a :=
      fun a b hab hba => h.irrefl a (h.trans a b a hab hba)
    refine ⟨hasymm, ?_⟩
    intro a b c hab hbc hac
    -- neither can be reversed, so `b` is incomparable with both
    have hba : ¬ r b a := fun hba => hbc (h.trans b a c hba hac)
    have hcb : ¬ r c b := fun hcb => hab (h.trans a c b hac hcb)
    exact (h.incomp_trans a b c ⟨hab, hba⟩ ⟨hbc, hcb⟩).1 hac
  · rintro ⟨hasymm, htrans⟩
    have hr : Std.Asymm r := ⟨hasymm⟩
    have hconn : IsOrderConnected α r := by
      refine ⟨fun a b c hac => ?_⟩
      by_contra hno
      rw [not_or] at hno
      exact htrans a b c hno.1 hno.2 hac
    exact isStrictWeakOrder_of_isOrderConnected

variable {α β ε : Type*}

theorem map_eq_ok {e : Except ε α} {f : α → β} {b : β} :
    e.map f = .ok b ↔ ∃ a, e = .ok a ∧ f a = b := by
  cases e <;> simp [Except.map]

theorem bind_eq_ok {e : Except ε α} {f : α → Except ε β} {b : β} :
    e.bind f = .ok b ↔ ∃ a, e = .ok a ∧ f a = .ok b := by
  cases e <;> simp [Except.bind]

/-- Place `x`, after the elements of the second list that compare below it. -/
def mergeHead (lt : α → α → Except ε Bool) (x : α) (k : List α → Except ε (List α)) :
    List α → Except ε (List α)
  | [] => (k []).map (x :: ·)
  | y :: ys =>
    match lt y x with
    | .error e => .error e
    | .ok true => (mergeHead lt x k ys).map (y :: ·)
    | .ok false => (k (y :: ys)).map (x :: ·)

/-- `first.merge(second, lt)`. -/
def merge (lt : α → α → Except ε Bool) : List α → List α → Except ε (List α)
  | [] => fun ys => .ok ys
  | x :: xs => mergeHead lt x (merge lt xs)

/-- Carry a sorted run into the bins. -/
def insertBin (lt : α → α → Except ε Bool) : List α → List (List α) → Except ε (List (List α))
  | carry, [] => .ok [carry]
  | carry, [] :: bins => .ok (carry :: bins)
  | carry, (b :: bs) :: bins =>
    (merge lt (b :: bs) carry).bind fun carry' => (insertBin lt carry' bins).map ([] :: ·)

def insertAll (lt : α → α → Except ε Bool) : List (List α) → List α → Except ε (List (List α))
  | bins, [] => .ok bins
  | bins, x :: xs => (insertBin lt [x] bins).bind fun bins' => insertAll lt bins' xs

/-- Merge the bins, the fuller (earlier filled) ones first. -/
def mergeBins (lt : α → α → Except ε Bool) : List α → List (List α) → Except ε (List α)
  | acc, [] => .ok acc
  | acc, b :: bins => (merge lt b acc).bind fun acc' => mergeBins lt acc' bins

def listSort (lt : α → α → Except ε Bool) (l : List α) : Except ε (List α) :=
  (insertAll lt [] l).bind (mergeBins lt [])

variable {lt : α → α → Except ε Bool}

@[simp] theorem merge_nil_left (ys : List α) : merge lt [] ys = .ok ys := rfl

theorem merge_cons_nil (x : α) (xs : List α) :
    merge lt (x :: xs) [] = (merge lt xs []).map (x :: ·) := rfl

theorem merge_cons_cons (x : α) (xs : List α) (y : α) (ys : List α) :
    merge lt (x :: xs) (y :: ys) =
      match lt y x with
      | .error e => .error e
      | .ok true => (merge lt (x :: xs) ys).map (y :: ·)
      | .ok false => (merge lt xs (y :: ys)).map (x :: ·) := rfl

/-! ## Nothing is lost or duplicated -/

theorem merge_perm : ∀ {xs ys zs : List α}, merge lt xs ys = .ok zs → zs.Perm (xs ++ ys)
  | [], ys, zs, h => by cases h; exact List.Perm.refl _
  | x :: xs, [], zs, h => by
    rw [merge_cons_nil, map_eq_ok] at h
    obtain ⟨ws, hw, rfl⟩ := h
    exact (merge_perm hw).cons x
  | x :: xs, y :: ys, zs, h => by
    rw [merge_cons_cons] at h
    split at h
    · cases h
    · rw [map_eq_ok] at h
      obtain ⟨ws, hw, rfl⟩ := h
      exact ((merge_perm hw).cons y).trans List.perm_middle.symm
    · rw [map_eq_ok] at h
      obtain ⟨ws, hw, rfl⟩ := h
      exact (merge_perm hw).cons x

theorem insertBin_perm : ∀ {carry : List α} {bins bins' : List (List α)},
    insertBin lt carry bins = .ok bins' → bins'.flatten.Perm (bins.flatten ++ carry)
  | carry, [], bins', h => by cases h; simp
  | carry, [] :: bins, bins', h => by cases h; simpa using List.perm_append_comm
  | carry, (b :: bs) :: bins, bins', h => by
    simp only [insertBin, bind_eq_ok, map_eq_ok] at h
    obtain ⟨carry', hm, ws, hw, rfl⟩ := h
    have h1 := insertBin_perm hw
    have h2 := merge_perm hm
    rw [List.flatten_cons, List.nil_append, List.flatten_cons]
    refine h1.trans ((h2.append_left _).trans ?_)
    rw [← List.append_assoc]
    exact List.Perm.append_right _ List.perm_append_comm

theorem insertAll_perm : ∀ {l : List α} {bins bins' : List (List α)},
    insertAll lt bins l = .ok bins' → bins'.flatten.Perm (bins.flatten ++ l)
  | [], bins, bins', h => by cases h; simp
  | x :: l, bins, bins', h => by
    simp only [insertAll, bind_eq_ok] at h
    obtain ⟨b1, h1, h2⟩ := h
    refine (insertAll_perm h2).trans (((insertBin_perm h1).append_right l).trans ?_)
    simp

theorem mergeBins_perm : ∀ {bins : List (List α)} {acc zs : List α},
    mergeBins lt acc bins = .ok zs → zs.Perm (acc ++ bins.flatten)
  | [], acc, zs, h => by cases h; simp
  | b :: bins, acc, zs, h => by
    simp only [mergeBins, bind_eq_ok] at h
    obtain ⟨acc', h1, h2⟩ := h
    refine (mergeBins_perm h2).trans (((merge_perm h1).append_right _).trans ?_)
    rw [List.flatten_cons, ← List.append_assoc]
    exact List.Perm.append_right _ List.perm_append_comm

theorem listSort_perm {l l' : List α} (h : listSort lt l = .ok l') : l'.Perm l := by
  simp only [listSort, bind_eq_ok] at h
  obtain ⟨bins, h1, h2⟩ := h
  exact (mergeBins_perm h2).trans (by simpa using insertAll_perm h1)

/-! ## The comparisons a sort makes -/

/-- A result with the pairs compared on the way to it, in order. -/
structure Traced (β α : Type*) where
  result : β
  compared : List (α × α)

/-- The pairs already compared come first. -/
def Traced.after (cs : List (α × α)) (t : Traced β α) : Traced β α :=
  ⟨t.result, cs ++ t.compared⟩

def Traced.map {γ : Type*} (f : β → γ) (t : Traced β α) : Traced γ α := ⟨f t.result, t.compared⟩

section
variable (p : α → α → Bool)

/-! `mergeHead` … `listSort` again, for a comparator that answers `p`, with their comparisons. -/

def traceHead (x : α) (k : List α → Traced (List α) α) : List α → Traced (List α) α
  | [] => (k []).map (x :: ·)
  | y :: ys =>
    (if p y x then (traceHead x k ys).map (y :: ·) else (k (y :: ys)).map (x :: ·)).after [(y, x)]

def traceMerge : List α → List α → Traced (List α) α
  | [] => fun ys => ⟨ys, []⟩
  | x :: xs => traceHead p x (traceMerge xs)

def traceInsertBin : List α → List (List α) → Traced (List (List α)) α
  | carry, [] => ⟨[carry], []⟩
  | carry, [] :: bins => ⟨carry :: bins, []⟩
  | carry, (b :: bs) :: bins =>
    let t := traceMerge p (b :: bs) carry
    ((traceInsertBin t.result bins).map ([] :: ·)).after t.compared

def traceInsertAll : List (List α) → List α → Traced (List (List α)) α
  | bins, [] => ⟨bins, []⟩
  | bins, x :: xs =>
    let t := traceInsertBin p [x] bins
    (traceInsertAll t.result xs).after t.compared

def traceMergeBins : List α → List (List α) → Traced (List α) α
  | acc, [] => ⟨acc, []⟩
  | acc, b :: bins =>
    let t := traceMerge p b acc
    (traceMergeBins t.result bins).after t.compared

def traceSort (l : List α) : Traced (List α) α :=
  let t := traceInsertAll p [] l
  (traceMergeBins p [] t.result).after t.compared

end

/-- The answer of a comparator that may throw, `false` when it does. -/
def answer (lt : α → α → Except ε Bool) (a b : α) : Bool :=
  match lt a b with
  | .ok r => r
  | .error _ => false

/-- Make the comparisons one after the other, until one throws. -/
def tryAll (lt : α → α → Except ε Bool) : List (α × α) → Except ε Unit
  | [] => .ok ()
  | c :: cs =>
    match lt c.1 c.2 with
    | .error e => .error e
    | .ok _ => tryAll lt cs

theorem tryAll_append (cs ds : List (α × α)) :
    tryAll lt (cs ++ ds) = (tryAll lt cs).bind fun _ => tryAll lt ds := by
  induction cs with
  | nil => rfl
  | cons c cs ih =>
    simp only [List.cons_append, tryAll]
    cases lt c.1 c.2 with
    | error e => rfl
    | ok r => exact ih

theorem tryAll_ok_iff {cs : List (α × α)} :
    tryAll lt cs = .ok () ↔ ∀ c ∈ cs, ∃ r, lt c.1 c.2 = .ok r := by
  induction cs with
  | nil => simp [tryAll]
  | cons c cs ih =>
    simp only [tryAll, List.forall_mem_cons]
    cases h : lt c.1 c.2 with
    | error e => simp
    | ok r => simp [ih]

theorem tryAll_error {cs : List (α × α)} {e : ε} (h : tryAll lt cs = .error e) :
    ∃ c ∈ cs, lt c.1 c.2 = .error e := by
  induction cs with
  | nil => cases h
  | cons c cs ih =>
    simp only [tryAll] at h
    cases hc : lt c.1 c.2 with
    | error e' =>
      rw [hc] at h
      cases h
      exact ⟨c, by simp, hc⟩
    | ok r =>
      rw [hc] at h
      obtain ⟨d, hd, he⟩ := ih h
      exact ⟨d, List.mem_cons_of_mem _ hd, he⟩

/-- `f` throws what its comparisons throw, in their order, and otherwise returns the traced
result. -/
def Follows (lt : α → α → Except ε Bool) (f : Except ε β) (t : Traced β α) : Prop :=
  f = (tryAll lt t.compared).map fun _ => t.result

theorem Follows.map {γ : Type*} {f : Except ε β} {t : Traced β α} (g : β → γ)
    (h : Follows lt f t) : Follows lt (f.map g) (t.map g) := by
  unfold Follows at *
  rw [h]
  simp only [Traced.map]
  cases tryAll lt t.compared <;> rfl

theorem Follows.bind {γ : Type*} {f : Except ε β} {t : Traced β α} {g : β → Except ε γ}
    {u : Traced γ α} (h : Follows lt f t) (hg : Follows lt (g t.result) u) :
    Follows lt (f.bind g) (u.after t.compared) := by
  unfold Follows at *
  simp only [Traced.after, tryAll_append]
  rw [h]
  cases tryAll lt t.compared with
  | error e => rfl
  | ok v => exact hg

theorem follows_merge : ∀ xs ys : List α,
    Follows lt (merge lt xs ys) (traceMerge (answer lt) xs ys)
  | [], _ => rfl
  | x :: xs, [] => (follows_merge xs []).map (x :: ·)
  | x :: xs, y :: ys => by
    have hyes := (follows_merge (x :: xs) ys).map (y :: ·)
    have hno := (follows_merge xs (y :: ys)).map (x :: ·)
    rw [merge_cons_cons]
    simp only [traceMerge, traceHead]
    unfold Follows at *
    simp only [Traced.after, tryAll, List.singleton_append]
    cases h : lt y x with
    | error e => rfl
    | ok r =>
      cases r with
      | true => rw [show answer lt y x = true by simp [answer, h]]; exact hyes
      | false => rw [show answer lt y x = false by simp [answer, h]]; exact hno

theorem follows_insertBin : ∀ (carry : List α) (bins : List (List α)),
    Follows lt (insertBin lt carry bins) (traceInsertBin (answer lt) carry bins)
  | _, [] => rfl
  | _, [] :: _ => rfl
  | carry, (b :: bs) :: bins =>
    (follows_merge (b :: bs) carry).bind ((follows_insertBin _ bins).map ([] :: ·))

theorem follows_insertAll : ∀ (l : List α) (bins : List (List α)),
    Follows lt (insertAll lt bins l) (traceInsertAll (answer lt) bins l)
  | [], _ => rfl
  | x :: l, bins => (follows_insertBin [x] bins).bind (follows_insertAll l _)

theorem follows_mergeBins : ∀ (bins : List (List α)) (acc : List α),
    Follows lt (mergeBins lt acc bins) (traceMergeBins (answer lt) acc bins)
  | [], _ => rfl
  | b :: bins, acc => (follows_merge b acc).bind (follows_mergeBins bins _)

/-- The pairs `listSort` compares. -/
def comparisons (lt : α → α → Except ε Bool) (l : List α) : List (α × α) :=
  (traceSort (answer lt) l).compared

theorem follows_listSort (l : List α) : Follows lt (listSort lt l) (traceSort (answer lt) l) :=
  (follows_insertAll l []).bind (follows_mergeBins _ [])

/-- Sorting succeeds exactly when each of its comparisons does. -/
theorem listSort_ok_iff {l : List α} :
    (∃ l', listSort lt l = .ok l') ↔ ∀ c ∈ comparisons lt l, ∃ r, lt c.1 c.2 = .ok r := by
  have h : Follows lt (listSort lt l) _ := follows_listSort l
  unfold Follows at h
  rw [← tryAll_ok_iff, h, comparisons]
  cases tryAll lt (traceSort (answer lt) l).compared with
  | error e => simp [Except.map]
  | ok v => simp [Except.map]

/-- Sorting throws only what one of its comparisons throws. -/
theorem listSort_error {l : List α} {e : ε} (h : listSort lt l = .error e) :
    ∃ c ∈ comparisons lt l, lt c.1 c.2 = .error e := by
  have hf : Follows lt (listSort lt l) _ := follows_listSort l
  unfold Follows at hf
  rw [h] at hf
  refine tryAll_error ?_
  rw [comparisons]
  cases ht : tryAll lt (traceSort (answer lt) l).compared with
  | error e' => rw [ht] at hf; cases hf; rfl
  | ok v => rw [ht] at hf; cases hf

/-! ### Only elements of the list are compared -/

/-- Only elements with `S` went into `t`, its result being made of such as well. -/
def Traced.Within (S : α → Prop) (t : Traced β α) (good : β → Prop) : Prop :=
  good t.result ∧ ∀ c ∈ t.compared, S c.1 ∧ S c.2

section
variable {S : α → Prop}

theorem Traced.Within.map {γ : Type*} {t : Traced β α} {g : β → Prop} {g' : γ → Prop} {f : β → γ}
    (h : t.Within S g) (hf : ∀ b, g b → g' (f b)) : (t.map f).Within S g' :=
  ⟨hf _ h.1, h.2⟩

theorem Traced.Within.after {t : Traced β α} {g : β → Prop} {cs : List (α × α)}
    (h : t.Within S g) (hcs : ∀ c ∈ cs, S c.1 ∧ S c.2) : (t.after cs).Within S g :=
  ⟨h.1, fun c hc => (List.mem_append.1 hc).elim (hcs c) (h.2 c)⟩

/-- A list of elements with `S`. -/
abbrev AllOf (S : α → Prop) (l : List α) : Prop := ∀ x ∈ l, S x

theorem allOf_nil : AllOf S [] := fun _ h => absurd h List.not_mem_nil

theorem within_merge (p : α → α → Bool) : ∀ {xs ys : List α}, AllOf S xs → AllOf S ys →
    (traceMerge p xs ys).Within S (AllOf S)
  | [], ys, _, hy => ⟨hy, by simp [traceMerge]⟩
  | x :: xs, [], hx, hy =>
    (within_merge p (fun a ha => hx a (by simp [ha])) hy).map
      fun _ h => List.forall_mem_cons.2 ⟨hx x (by simp), h⟩
  | x :: xs, y :: ys, hx, hy => by
    have hcs : ∀ c ∈ [(y, x)], S c.1 ∧ S c.2 := by simp [hx x, hy y]
    have hyes : ((traceMerge p (x :: xs) ys).map (y :: ·)).Within S (AllOf S) :=
      (within_merge p hx fun a ha => hy a (by simp [ha])).map
        fun _ h => List.forall_mem_cons.2 ⟨hy y (by simp), h⟩
    have hno : ((traceMerge p xs (y :: ys)).map (x :: ·)).Within S (AllOf S) :=
      (within_merge p (fun a ha => hx a (by simp [ha])) hy).map
        fun _ h => List.forall_mem_cons.2 ⟨hx x (by simp), h⟩
    simp only [traceMerge, traceHead]
    refine Traced.Within.after ?_ hcs
    split
    · exact hyes
    · exact hno

theorem within_insertBin (p : α → α → Bool) : ∀ {carry : List α} {bins : List (List α)},
    AllOf S carry → (∀ b ∈ bins, AllOf S b) →
    (traceInsertBin p carry bins).Within S fun bins' => ∀ b ∈ bins', AllOf S b
  | carry, [], hc, _ => ⟨by simpa [traceInsertBin] using hc, by simp [traceInsertBin]⟩
  | carry, [] :: bins, hc, hb =>
    ⟨List.forall_mem_cons.2 ⟨hc, (List.forall_mem_cons.1 hb).2⟩, by simp [traceInsertBin]⟩
  | carry, (b :: bs) :: bins, hc, hb => by
    obtain ⟨hb0, hb1⟩ := List.forall_mem_cons.1 hb
    obtain ⟨hres, hcmp⟩ := within_merge p hb0 hc
    refine ((within_insertBin p hres hb1).map fun _ h => ?_).after hcmp
    exact List.forall_mem_cons.2 ⟨allOf_nil, h⟩

theorem within_insertAll (p : α → α → Bool) : ∀ {l : List α} {bins : List (List α)},
    AllOf S l → (∀ b ∈ bins, AllOf S b) →
    (traceInsertAll p bins l).Within S fun bins' => ∀ b ∈ bins', AllOf S b
  | [], bins, _, hb => ⟨hb, by simp [traceInsertAll]⟩
  | x :: l, bins, hl, hb => by
    obtain ⟨hx, hl⟩ := List.forall_mem_cons.1 hl
    have hx1 : AllOf S [x] := List.forall_mem_cons.2 ⟨hx, allOf_nil⟩
    obtain ⟨hres, hcmp⟩ := within_insertBin p hx1 hb
    exact (within_insertAll p hl hres).after hcmp

theorem within_mergeBins (p : α → α → Bool) : ∀ {bins : List (List α)} {acc : List α},
    AllOf S acc → (∀ b ∈ bins, AllOf S b) → (traceMergeBins p acc bins).Within S (AllOf S)
  | [], acc, ha, _ => ⟨ha, by simp [traceMergeBins]⟩
  | b :: bins, acc, ha, hb => by
    obtain ⟨hb0, hb1⟩ := List.forall_mem_cons.1 hb
    obtain ⟨hres, hcmp⟩ := within_merge p hb0 ha
    exact (within_mergeBins p hres hb1).after hcmp

theorem mem_of_comparisons {l : List α} {c : α × α} (h : c ∈ comparisons lt l) :
    c.1 ∈ l ∧ c.2 ∈ l := by
  have hl : AllOf (· ∈ l) l := fun _ hx => hx
  have hnil : ∀ b ∈ ([] : List (List α)), AllOf (· ∈ l) b :=
    fun _ h => absurd h List.not_mem_nil
  obtain ⟨hres, hcmp⟩ := within_insertAll (answer lt) hl hnil
  exact ((within_mergeBins (answer lt) allOf_nil hres).after hcmp).2 c h

end

/-! ## Related lists are permuted alike -/

/-- Two results that both throw the same, or are both values related by `R`. -/
def ExceptRel (R : α → β → Prop) : Except ε α → Except ε β → Prop
  | .ok a, .ok b => R a b
  | .error e, .error e' => e = e'
  | _, _ => False

theorem ExceptRel.map {γ δ : Type*} {R : α → β → Prop} {S : γ → δ → Prop} {f : α → γ} {g : β → δ}
    {a : Except ε α} {b : Except ε β} (h : ExceptRel R a b) (hfg : ∀ x y, R x y → S (f x) (g y)) :
    ExceptRel S (a.map f) (b.map g) := by
  cases a <;> cases b <;> simp_all [ExceptRel, Except.map]

theorem ExceptRel.bind {γ δ : Type*} {R : α → β → Prop} {S : γ → δ → Prop}
    {f : α → Except ε γ} {g : β → Except ε δ} {a : Except ε α} {b : Except ε β}
    (h : ExceptRel R a b) (hfg : ∀ x y, R x y → ExceptRel S (f x) (g y)) :
    ExceptRel S (a.bind f) (b.bind g) := by
  cases a <;> cases b <;> simp_all [ExceptRel, Except.bind]

section
variable {R : α → β → Prop} {lt' : β → β → Except ε Bool}
  (hlt : ∀ a a' b b', R a a' → R b b' → lt a b = lt' a' b')
include hlt

theorem merge_rel : ∀ {xs ys : List α} {xs' ys' : List β}, List.Forall₂ R xs xs' →
    List.Forall₂ R ys ys' → ExceptRel (List.Forall₂ R) (merge lt xs ys) (merge lt' xs' ys')
  | [], _, _, _, .nil, hy => hy
  | _ :: _, [], _, _, .cons hx hxs, .nil =>
    (merge_rel hxs .nil).map fun _ _ h => .cons hx h
  | x :: xs, y :: ys, x' :: xs', y' :: ys', .cons hx hxs, .cons hy hys => by
    rw [merge_cons_cons, merge_cons_cons, hlt _ _ _ _ hy hx]
    cases lt' y' x' with
    | error e => rfl
    | ok b =>
      cases b with
      | true => exact (merge_rel (.cons hx hxs) hys).map fun _ _ h => .cons hy h
      | false => exact (merge_rel hxs (.cons hy hys)).map fun _ _ h => .cons hx h

theorem insertBin_rel : ∀ {bins : List (List α)} {bins' : List (List β)} {c : List α} {c' : List β},
    List.Forall₂ R c c' → List.Forall₂ (List.Forall₂ R) bins bins' →
    ExceptRel (List.Forall₂ (List.Forall₂ R)) (insertBin lt c bins) (insertBin lt' c' bins')
  | _, _, _, _, hc, .nil => .cons hc .nil
  | [] :: _, _, _, _, hc, .cons .nil hbs => .cons hc hbs
  | (_ :: _) :: _, _, _, _, hc, .cons (.cons hb hbs) hbins =>
    (merge_rel hlt (.cons hb hbs) hc).bind fun _ _ h =>
      (insertBin_rel h hbins).map fun _ _ h' => .cons .nil h'

theorem insertAll_rel : ∀ {l : List α} {l' : List β} {bins : List (List α)} {bins' : List (List β)},
    List.Forall₂ (List.Forall₂ R) bins bins' → List.Forall₂ R l l' →
    ExceptRel (List.Forall₂ (List.Forall₂ R)) (insertAll lt bins l) (insertAll lt' bins' l')
  | _, _, _, _, hb, .nil => hb
  | _, _, _, _, hb, .cons hx hl =>
    (insertBin_rel hlt (.cons hx .nil) hb).bind fun _ _ h => insertAll_rel h hl

theorem mergeBins_rel : ∀ {bins : List (List α)} {bins' : List (List β)} {acc : List α}
    {acc' : List β}, List.Forall₂ R acc acc' → List.Forall₂ (List.Forall₂ R) bins bins' →
    ExceptRel (List.Forall₂ R) (mergeBins lt acc bins) (mergeBins lt' acc' bins')
  | _, _, _, _, ha, .nil => ha
  | _, _, _, _, ha, .cons hb hbins =>
    (merge_rel hlt hb ha).bind fun _ _ h => mergeBins_rel h hbins

theorem listSort_rel {l : List α} {l' : List β} (h : List.Forall₂ R l l') :
    ExceptRel (List.Forall₂ R) (listSort lt l) (listSort lt' l') :=
  (insertAll_rel hlt .nil h).bind fun _ _ hb => mergeBins_rel hlt .nil hb

end

/-! ## Stability under a key -/

section
variable {κ : Type*} [LinearOrder κ] (key : α → κ)

/-- Sorted by the key. -/
def SortedBy (l : List α) : Prop := l.Pairwise fun a b => key a ≤ key b

/-- The elements of one key, in order. -/
def sameKey (k : κ) (l : List α) : List α := l.filter fun a => key a = k

theorem sameKey_append (k : κ) (as bs : List α) :
    sameKey key k (as ++ bs) = sameKey key k as ++ sameKey key k bs := List.filter_append ..

theorem sameKey_cons (k : κ) (a : α) (l : List α) :
    sameKey key k (a :: l) = if key a = k then a :: sameKey key k l else sameKey key k l := by
  simp [sameKey, List.filter_cons]

theorem sameKey_eq_nil {k : κ} {l : List α} (h : ∀ a ∈ l, key a ≠ k) : sameKey key k l = [] := by
  simpa [sameKey, List.filter_eq_nil_iff] using h

/-- A list sorted by the key is determined by its parts of equal key. -/
theorem eq_of_sorted_of_filter : ∀ {l l' : List α}, SortedBy key l → SortedBy key l' →
    (∀ k, sameKey key k l = sameKey key k l') → l = l'
  | [], [], _, _, _ => rfl
  | [], b :: l', _, _, h => by have := h (key b); simp [sameKey] at this
  | a :: l, [], _, _, h => by have := h (key a); simp [sameKey] at this
  | a :: l, b :: l', hl, hl', h => by
    obtain ⟨ha, hl⟩ := List.pairwise_cons.1 hl
    obtain ⟨hb, hl2⟩ := List.pairwise_cons.1 hl'
    -- the heads carry the least key, so they are the first of the same part
    have hle : ∀ {x y : α} {m n : List α}, (∀ z ∈ n, key y ≤ key z) →
        sameKey key (key x) (x :: m) = sameKey key (key x) (y :: n) → key y ≤ key x := by
      intro x y m n hn he
      have hx : x ∈ sameKey key (key x) (y :: n) := by rw [← he]; simp [sameKey]
      have hx' : x ∈ y :: n := List.mem_of_mem_filter hx
      rcases List.mem_cons.1 hx' with rfl | hx'
      · exact le_rfl
      · exact hn x hx'
    have hk : key a = key b :=
      le_antisymm (hle ha (h (key b)).symm) (hle hb (h (key a)))
    have hab := h (key a)
    rw [sameKey_cons, sameKey_cons, if_pos rfl, if_pos hk.symm] at hab
    obtain ⟨rfl, -⟩ := List.cons.inj hab
    refine congrArg (a :: ·) (eq_of_sorted_of_filter hl hl2 fun k => ?_)
    have hk' := h k
    rw [sameKey_cons, sameKey_cons] at hk'
    split_ifs at hk' with hak
    · exact (List.cons.inj hk').2
    · exact hk'

variable {key}

/-- The parts of one key of a list made block by block, each block being of one key. -/
theorem sameKey_flatMap_eq_nil {ι : Type*} {idx : ι → κ} {f : ι → List α} {ps : List ι} {k : κ}
    (hf : ∀ p ∈ ps, ∀ a ∈ f p, key a = idx p) (hne : ∀ p ∈ ps, idx p ≠ k) :
    sameKey key k (ps.flatMap f) = [] := by
  refine sameKey_eq_nil key fun a ha => ?_
  obtain ⟨p, hp, hap⟩ := List.mem_flatMap.1 ha
  rw [hf p hp a hap]
  exact hne p hp

/-- Two passes over blocks of increasing keys, one after the other or block by block: the same
elements of each key, in the same order. -/
theorem sameKey_two_passes {ι : Type*} {idx : ι → κ} {f g : ι → List α} {ps : List ι}
    (hps : ps.Pairwise fun p q => idx p < idx q) (hf : ∀ p ∈ ps, ∀ a ∈ f p, key a = idx p)
    (hg : ∀ p ∈ ps, ∀ a ∈ g p, key a = idx p) (k : κ) :
    sameKey key k (ps.flatMap f ++ ps.flatMap g) =
      sameKey key k (ps.flatMap fun p => f p ++ g p) := by
  induction ps with
  | nil => rfl
  | cons p ps ih =>
    obtain ⟨hp, hps⟩ := List.pairwise_cons.1 hps
    obtain ⟨hfp, hf⟩ := List.forall_mem_cons.1 hf
    obtain ⟨hgp, hg⟩ := List.forall_mem_cons.1 hg
    have ih := ih hps hf hg
    simp only [List.flatMap_cons, sameKey_append] at ih ⊢
    by_cases hk : idx p = k
    · -- the key of this block is in no later one
      have hne : ∀ q ∈ ps, idx q ≠ k := fun q hq => by rw [← hk]; exact (hp q hq).ne'
      rw [← ih, sameKey_flatMap_eq_nil hf hne, sameKey_flatMap_eq_nil hg hne]
      simp
    · have hfn : sameKey key k (f p) = [] :=
        sameKey_eq_nil key fun a ha => by rw [hfp a ha]; exact hk
      have hgn : sameKey key k (g p) = [] :=
        sameKey_eq_nil key fun a ha => by rw [hgp a ha]; exact hk
      rw [← ih, hfn, hgn]
      rfl

theorem sortedBy_flatMap {ι : Type*} {idx : ι → κ} {f : ι → List α} {ps : List ι}
    (hps : ps.Pairwise fun p q => idx p < idx q) (hf : ∀ p ∈ ps, ∀ a ∈ f p, key a = idx p) :
    SortedBy key (ps.flatMap f) := by
  induction ps with
  | nil => exact List.Pairwise.nil
  | cons p ps ih =>
    obtain ⟨hp, hps⟩ := List.pairwise_cons.1 hps
    obtain ⟨hfp, hf⟩ := List.forall_mem_cons.1 hf
    rw [List.flatMap_cons]
    refine List.pairwise_append.2 ⟨?_, ih hps hf, ?_⟩
    · exact List.pairwise_of_forall_mem_list fun a ha b hb => by rw [hfp a ha, hfp b hb]
    · intro a ha b hb
      obtain ⟨q, hq, hbq⟩ := List.mem_flatMap.1 hb
      rw [hfp a ha, hf q hq b hbq]
      exact (hp q hq).le

variable {S : α → Prop}
  (hlt : ∀ a b, S a → S b → lt a b = .ok (decide (key a < key b)))
include hlt

theorem merge_key : ∀ {xs ys : List α}, (∀ x ∈ xs, S x) → (∀ y ∈ ys, S y) →
    SortedBy key xs → SortedBy key ys → ∃ zs, merge lt xs ys = .ok zs ∧ SortedBy key zs ∧
      ∀ k, sameKey key k zs = sameKey key k xs ++ sameKey key k ys
  | [], ys, _, _, _, hys => ⟨ys, rfl, hys, fun k => by simp [sameKey]⟩
  | x :: xs, [], hx, hy, hxs, hys => by
    obtain ⟨hx0, hxs'⟩ := List.pairwise_cons.1 hxs
    obtain ⟨zs, hz, hs, hk⟩ := merge_key (fun a ha => hx a (List.mem_cons_of_mem _ ha)) hy hxs' hys
    refine ⟨x :: zs, by rw [merge_cons_nil, hz]; rfl, ?_, fun k => ?_⟩
    · exact List.pairwise_cons.2 ⟨fun a ha => hx0 a (by simpa using (merge_perm hz).mem_iff.1 ha), hs⟩
    · rw [sameKey_cons, hk, sameKey_cons]; split <;> rfl
  | x :: xs, y :: ys, hx, hy, hxs, hys => by
    obtain ⟨hx0, hxs'⟩ := List.pairwise_cons.1 hxs
    obtain ⟨hy0, hys'⟩ := List.pairwise_cons.1 hys
    rw [merge_cons_cons, hlt y x (hy y (by simp)) (hx x (by simp))]
    by_cases hyx : key y < key x
    · obtain ⟨zs, hz, hs, hk⟩ := merge_key hx (fun a ha => hy a (List.mem_cons_of_mem _ ha)) hxs hys'
      refine ⟨y :: zs, by simp [hyx, hz, Except.map], ?_, fun k => ?_⟩
      · refine List.pairwise_cons.2 ⟨fun a ha => ?_, hs⟩
        have ha' := (merge_perm hz).mem_iff.1 ha
        simp only [List.mem_append, List.mem_cons] at ha'
        rcases ha' with (rfl | ha') | ha'
        · exact hyx.le
        · exact hyx.le.trans (hx0 a ha')
        · exact hy0 a ha'
      · rw [sameKey_cons, hk, sameKey_cons key k y]
        split
        · -- `y` is below everything left in the first list
          rename_i hyk
          have : sameKey key k (x :: xs) = [] := by
            refine sameKey_eq_nil key fun a ha hak => ?_
            rcases List.mem_cons.1 ha with rfl | ha
            · exact absurd (hyk.trans hak.symm) hyx.ne
            · exact absurd ((hx0 a ha).trans (hak.trans hyk.symm).le) (not_le.2 hyx)
          simp [this]
        · rfl
    · obtain ⟨zs, hz, hs, hk⟩ := merge_key (fun a ha => hx a (List.mem_cons_of_mem _ ha)) hy hxs' hys
      refine ⟨x :: zs, by simp [hyx, hz, Except.map], ?_, fun k => ?_⟩
      · refine List.pairwise_cons.2 ⟨fun a ha => ?_, hs⟩
        have ha' := (merge_perm hz).mem_iff.1 ha
        simp only [List.mem_append, List.mem_cons] at ha'
        rcases ha' with ha' | rfl | ha'
        · exact hx0 a ha'
        · exact not_lt.1 hyx
        · exact (not_lt.1 hyx).trans (hy0 a ha')
      · rw [sameKey_cons, hk, sameKey_cons key k x]; split <;> rfl

/-- Bins from the last one back hold the input in order, bin by bin: what a stable sort needs. -/
theorem insertBin_key : ∀ {bins : List (List α)} {carry : List α},
    (∀ b ∈ bins, SortedBy key b ∧ ∀ x ∈ b, S x) → SortedBy key carry → (∀ x ∈ carry, S x) →
    ∃ bins', insertBin lt carry bins = .ok bins' ∧ (∀ b ∈ bins', SortedBy key b ∧ ∀ x ∈ b, S x) ∧
      ∀ k, sameKey key k bins'.reverse.flatten =
        sameKey key k bins.reverse.flatten ++ sameKey key k carry
  | [], carry, _, hc, hS => ⟨[carry], rfl, by simpa using ⟨hc, hS⟩, fun k => by simp [sameKey]⟩
  | [] :: bins, carry, hb, hc, hS => by
    refine ⟨carry :: bins, rfl, ?_, fun k => by simp [sameKey]⟩
    intro b hb'
    rcases List.mem_cons.1 hb' with rfl | hb'
    · exact ⟨hc, hS⟩
    · exact hb b (List.mem_cons_of_mem _ hb')
  | (b :: bs) :: bins, carry, hb, hc, hS => by
    obtain ⟨hb0, hbS⟩ := hb (b :: bs) (by simp)
    obtain ⟨carry', hm, hs, hk⟩ := merge_key hlt hbS hS hb0 hc
    have hS' : ∀ x ∈ carry', S x := fun x hx => by
      have := (merge_perm hm).mem_iff.1 hx
      exact (List.mem_append.1 this).elim (hbS x) (hS x)
    obtain ⟨ws, hw, hws, hwk⟩ := insertBin_key
      (fun b' h => hb b' (List.mem_cons_of_mem _ h)) hs hS'
    refine ⟨[] :: ws, by simp [insertBin, hm, hw, Except.bind, Except.map], ?_, fun k => ?_⟩
    · intro b' h
      rcases List.mem_cons.1 h with rfl | h
      · simp [SortedBy]
      · exact hws b' h
    · simp only [List.reverse_cons, List.flatten_append, List.flatten_cons, List.flatten_nil,
        List.append_nil, sameKey_append] at hwk ⊢
      rw [hwk, hk]
      simp [sameKey]

theorem insertAll_key : ∀ {l : List α} {bins : List (List α)},
    (∀ b ∈ bins, SortedBy key b ∧ ∀ x ∈ b, S x) → (∀ x ∈ l, S x) →
    ∃ bins', insertAll lt bins l = .ok bins' ∧ (∀ b ∈ bins', SortedBy key b ∧ ∀ x ∈ b, S x) ∧
      ∀ k, sameKey key k bins'.reverse.flatten =
        sameKey key k bins.reverse.flatten ++ sameKey key k l
  | [], bins, hb, _ => ⟨bins, rfl, hb, fun k => by simp [sameKey]⟩
  | x :: l, bins, hb, hl => by
    have hx : SortedBy key [x] := by simp [SortedBy]
    obtain ⟨b1, h1, hb1, hk1⟩ := insertBin_key hlt hb hx (by simpa using hl x (by simp))
    obtain ⟨b2, h2, hb2, hk2⟩ := insertAll_key hb1 fun y hy => hl y (List.mem_cons_of_mem _ hy)
    refine ⟨b2, by simp [insertAll, h1, h2, Except.bind], hb2, fun k => ?_⟩
    rw [hk2, hk1, List.append_assoc, ← sameKey_append]; rfl

theorem mergeBins_key : ∀ {bins : List (List α)} {acc : List α},
    (∀ b ∈ bins, SortedBy key b ∧ ∀ x ∈ b, S x) → SortedBy key acc → (∀ x ∈ acc, S x) →
    ∃ zs, mergeBins lt acc bins = .ok zs ∧ SortedBy key zs ∧
      ∀ k, sameKey key k zs = sameKey key k bins.reverse.flatten ++ sameKey key k acc
  | [], acc, _, ha, _ => ⟨acc, rfl, ha, fun k => by simp [sameKey]⟩
  | b :: bins, acc, hb, ha, hS => by
    obtain ⟨hb0, hbS⟩ := hb b (by simp)
    obtain ⟨acc', hm, hs, hk⟩ := merge_key hlt hbS hS hb0 ha
    have hS' : ∀ x ∈ acc', S x := fun x hx => by
      have := (merge_perm hm).mem_iff.1 hx
      exact (List.mem_append.1 this).elim (hbS x) (hS x)
    obtain ⟨zs, hz, hzs, hzk⟩ := mergeBins_key
      (fun b' h => hb b' (List.mem_cons_of_mem _ h)) hs hS'
    refine ⟨zs, by simp [mergeBins, hm, hz, Except.bind], hzs, fun k => ?_⟩
    rw [hzk, hk]
    simp [sameKey_append]

/-- **Stable sort.** Where the comparator is the strict order of a key, the list comes out sorted
by the key, the elements of each key in their old order. -/
theorem listSort_key {l : List α} (hl : ∀ x ∈ l, S x) :
    ∃ l', listSort lt l = .ok l' ∧ SortedBy key l' ∧ ∀ k, sameKey key k l' = sameKey key k l := by
  have hnil : ∀ b ∈ ([] : List (List α)), SortedBy key b ∧ ∀ x ∈ b, S x := by simp
  obtain ⟨bins, h1, hb, hk⟩ := insertAll_key hlt hnil hl
  have hs0 : SortedBy key ([] : List α) := by simp [SortedBy]
  obtain ⟨zs, h2, hs, hz⟩ := mergeBins_key hlt hb hs0 (by simp)
  refine ⟨zs, by simp [listSort, h1, h2, Except.bind], hs, fun k => ?_⟩
  rw [hz, hk]
  simp [sameKey]

/-- **A stable sort by key merges two passes into one**: what two passes over blocks of increasing
keys produced, sorted, is what a single pass produces. -/
theorem listSort_two_passes {ι : Type*} {idx : ι → κ} {f g : ι → List α} {ps : List ι}
    (hS : ∀ a, S a) (hps : ps.Pairwise fun p q => idx p < idx q)
    (hf : ∀ p ∈ ps, ∀ a ∈ f p, key a = idx p) (hg : ∀ p ∈ ps, ∀ a ∈ g p, key a = idx p) :
    listSort lt (ps.flatMap f ++ ps.flatMap g) = .ok (ps.flatMap fun p => f p ++ g p) := by
  obtain ⟨l, hl, hsorted, hkeys⟩ := listSort_key hlt (fun a _ => hS a)
  have hone : ∀ p ∈ ps, ∀ a ∈ f p ++ g p, key a = idx p := fun p hp a ha =>
    (List.mem_append.1 ha).elim (hf p hp a) (hg p hp a)
  rw [hl, eq_of_sorted_of_filter key hsorted (sortedBy_flatMap hps hone) fun k =>
    (hkeys k).trans (sameKey_two_passes hps hf hg k)]

end

end ListSort
