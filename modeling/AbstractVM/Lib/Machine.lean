import Mathlib.Data.List.Forall2
/-!
# Machines that run a list of instructions

An instruction goes on, stops the run, or fails; `run` executes a list of them. The rules here are
the ones every such language shares: running a concatenation, postconditions for the three ways a
run can end, an invariant carried along a run, and one machine following another.

| here | what it is |
| --- | --- |
| `Effect`, `Final` | how one instruction ends, and how a list of them does |
| `Post`, `Triple` | a postcondition for each of the three ends; a precondition with one |
| `Triple.keeps` | the invariant rule |
| `Coupling.run`, `Coupling.run_until` | a simulation; one up to the first instruction that may differ |
| `Coupling.run_filter` | a machine that leaves instructions out |
| `Same.replace` | instructions of equal effect may replace each other in any list |
-/

namespace Machine

/-- How one instruction ends. -/
inductive Effect (F S : Type)
  | next (s : S)
  | stop (s : S)
  | fail (f : F)

/-- How a list of instructions ends: with its last one, with one that stops, or with a failure. -/
inductive Final (I F S : Type)
  | fell (s : S)
  | stopped (i : I) (s : S)
  | failed (i : I) (f : F)

section
variable {I F S : Type} (step : I → S → Effect F S)

def run : List I → S → Final I F S
  | [], s => .fell s
  | i :: is, s =>
    match step i s with
    | .next t => run is t
    | .stop t => .stopped i t
    | .fail f => .failed i f

/-- The rest of a run, if there is one. -/
def Final.andThen (r : Final I F S) (rest : S → Final I F S) : Final I F S :=
  match r with
  | .fell s => rest s
  | .stopped i s => .stopped i s
  | .failed i f => .failed i f

theorem run_append (is js : List I) (s : S) :
    run step (is ++ js) s = (run step is s).andThen (run step js) := by
  induction is generalizing s with
  | nil => rfl
  | cons i is ih =>
    simp only [List.cons_append, run]
    cases step i s with
    | next t => exact ih t
    | stop t => rfl
    | fail f => rfl

variable {step}

/-- What is left once the first instructions are done. -/
theorem run_append_of_fell {is js : List I} {s t : S} (h : run step is s = .fell t) :
    run step (is ++ js) s = run step js t := by
  rw [run_append, h]
  rfl

/-- The same end, of instructions that carry another name. -/
def Final.map {J : Type} (g : I → J) : Final I F S → Final J F S
  | .fell s => .fell s
  | .stopped i s => .stopped (g i) s
  | .failed i f => .failed (g i) f

theorem run_map {J : Type} {step' : J → S → Effect F S} {g : I → J}
    (hg : ∀ i, step' (g i) = step i) (is : List I) (s : S) :
    run step' (is.map g) s = (run step is s).map g := by
  induction is generalizing s with
  | nil => rfl
  | cons i is ih =>
    simp only [List.map_cons, run, hg]
    cases step i s with
    | next t => exact ih t
    | stop t => rfl
    | fail f => rfl

/-- Where a run failed: the instructions before it were executed. -/
theorem exists_of_failed {is : List I} {s : S} {i : I} {f : F}
    (h : run step is s = .failed i f) :
    ∃ done rest t, is = done ++ i :: rest ∧ run step done s = .fell t ∧ step i t = .fail f := by
  induction is generalizing s with
  | nil => cases h
  | cons j is ih =>
    simp only [run] at h
    cases hj : step j s with
    | next t =>
      rw [hj] at h
      obtain ⟨done, rest, u, rfl, hdone, hfail⟩ := ih h
      refine ⟨j :: done, rest, u, rfl, ?_, hfail⟩
      simp only [run, hj]
      exact hdone
    | stop t =>
      rw [hj] at h
      cases h
    | fail g =>
      rw [hj] at h
      cases h
      exact ⟨[], is, s, rfl, rfl, hj⟩

/-- Where a run stopped. -/
theorem exists_of_stopped {is : List I} {s t : S} {i : I} (h : run step is s = .stopped i t) :
    ∃ done rest u, is = done ++ i :: rest ∧ run step done s = .fell u ∧ step i u = .stop t := by
  induction is generalizing s with
  | nil => cases h
  | cons j is ih =>
    simp only [run] at h
    cases hj : step j s with
    | next u =>
      rw [hj] at h
      obtain ⟨done, rest, v, rfl, hdone, hstop⟩ := ih h
      refine ⟨j :: done, rest, v, rfl, ?_, hstop⟩
      simp only [run, hj]
      exact hdone
    | stop u =>
      rw [hj] at h
      cases h
      exact ⟨[], is, s, rfl, rfl, hj⟩
    | fail g =>
      rw [hj] at h
      cases h

/-- Every instruction of a run that came to its end went on. -/
theorem next_of_fell {is : List I} {s t : S} (h : run step is s = .fell t) :
    ∀ i ∈ is, ∃ u v, step i u = .next v := by
  induction is generalizing s with
  | nil => simp
  | cons j is ih =>
    simp only [run] at h
    cases hj : step j s with
    | next u =>
      rw [hj] at h
      exact List.forall_mem_cons.2 ⟨⟨s, u, hj⟩, ih h⟩
    | stop u =>
      rw [hj] at h
      cases h
    | fail g =>
      rw [hj] at h
      cases h

/-! ## Pre- and postconditions -/

/-- What is to hold at each of the three ends. -/
structure Post (I F S : Type) where
  fell : S → Prop
  stopped : I → S → Prop
  failed : I → F → Prop

/-- The postcondition holds at the end that was reached. -/
def Post.Holds (Q : Post I F S) : Final I F S → Prop
  | .fell s => Q.fell s
  | .stopped i s => Q.stopped i s
  | .failed i f => Q.failed i f

variable (step) in
/-- From a state with `P`, the run of `is` ends with `Q`. -/
def Triple (P : S → Prop) (is : List I) (Q : Post I F S) : Prop :=
  ∀ s, P s → Q.Holds (run step is s)

variable {P : S → Prop} {Q : Post I F S} {is : List I}

/-- One instruction. -/
def Post.After (Q : Post I F S) (i : I) (R : S → Prop) : Effect F S → Prop
  | .next t => R t
  | .stop t => Q.stopped i t
  | .fail f => Q.failed i f

theorem Triple.nil (h : ∀ s, P s → Q.fell s) : Triple step P [] Q := h

theorem Triple.cons {i : I} {R : S → Prop} (hi : ∀ s, P s → Q.After i R (step i s))
    (his : Triple step R is Q) : Triple step P (i :: is) Q := by
  intro s hs
  have h := hi s hs
  simp only [run]
  cases hstep : step i s with
  | next t =>
    rw [hstep] at h
    exact his t h
  | stop t =>
    rw [hstep] at h
    exact h
  | fail f =>
    rw [hstep] at h
    exact h

/-- **The invariant rule.** What holds at the start and survives each instruction that goes on,
holds wherever the run gets to; `Inv` may speak of the instructions already executed. -/
theorem Triple.keeps (Inv : List I → S → Prop)
    (hstep : ∀ done i rest s, is = done ++ i :: rest → Inv done s →
      Q.After i (Inv (done ++ [i])) (step i s))
    (hend : ∀ s, Inv is s → Q.fell s) : Triple step (Inv []) is Q := by
  suffices hgen : ∀ done rest, is = done ++ rest → Triple step (Inv done) rest Q from
    hgen [] is rfl
  intro done rest
  induction rest generalizing done with
  | nil =>
    intro hsplit
    rw [List.append_nil] at hsplit
    exact Triple.nil (hsplit ▸ hend)
  | cons i rest ih =>
    intro hsplit
    refine Triple.cons (fun s hs => hstep done i rest s hsplit hs) (ih (done ++ [i]) ?_)
    rw [hsplit, List.append_assoc, List.singleton_append]

end

/-! ## One machine following another -/

section
variable {I J F G S T : Type}

/-- Nothing `Off` is met along a run. -/
def Never (step : I → S → Effect F S) (Off : I → S → Prop) (is : List I) (s : S) : Prop :=
  ∀ done i rest t, is = done ++ i :: rest → run step done s = .fell t → ¬ Off i t

theorem Never.nil {step : I → S → Effect F S} {Off : I → S → Prop} {s : S} :
    Never step Off [] s := by
  intro done i rest t hsplit
  exact absurd hsplit.symm (by simp)

/-- One instruction further. -/
theorem Never.cons {step : I → S → Effect F S} {Off : I → S → Prop} {i : I} {is : List I} {s : S}
    (hi : ¬ Off i s) (his : ∀ t, step i s = .next t → Never step Off is t) :
    Never step Off (i :: is) s := by
  intro done j rest u hsplit hrun
  cases done with
  | nil =>
    cases hsplit
    cases hrun
    exact hi
  | cons k done =>
    cases hsplit
    simp only [run] at hrun
    cases hk : step i s with
    | next t =>
      rw [hk] at hrun
      exact his t hk done j rest u rfl hrun
    | stop t =>
      rw [hk] at hrun
      cases hrun
    | fail f =>
      rw [hk] at hrun
      cases hrun

/-- Which states, ends and faults of two machines go together. -/
structure Coupling (F S G T : Type) where
  state : S → T → Prop
  final : S → T → Prop
  fault : F → G → Prop

namespace Coupling
variable (C : Coupling F S G T)

inductive Effects : Effect F S → Effect G T → Prop
  | next {s : S} {t : T} (h : C.state s t) : Effects (.next s) (.next t)
  | stop {s : S} {t : T} (h : C.final s t) : Effects (.stop s) (.stop t)
  | fail {f : F} {g : G} (h : C.fault f g) : Effects (.fail f) (.fail g)

inductive Finals (R : I → J → Prop) : Final I F S → Final J G T → Prop
  | fell {s : S} {t : T} (h : C.state s t) : Finals R (.fell s) (.fell t)
  | stopped {i : I} {j : J} {s : S} {t : T} (hij : R i j) (h : C.final s t) :
      Finals R (.stopped i s) (.stopped j t)
  | failed {i : I} {j : J} {f : F} {g : G} (hij : R i j) (h : C.fault f g) :
      Finals R (.failed i f) (.failed j g)

/-- The lists are cut where the second machine first meets something `Off`, in states that go
together. -/
structure Parts (R : I → J → Prop) (step : I → S → Effect F S) (step' : J → T → Effect G T)
    (Off : J → T → Prop) (is : List I) (s : S) (js : List J) (t : T) where
  before : List I × List J
  here : I × J
  after : List I × List J
  now : S × T
  left : is = before.1 ++ here.1 :: after.1
  right : js = before.2 ++ here.2 :: after.2
  fell : run step before.1 s = .fell now.1
  fell' : run step' before.2 t = .fell now.2
  never : Never step' Off before.2 t
  off : Off here.2 now.2
  related : R here.1 here.2
  coupled : C.state now.1 now.2

variable {C} {step : I → S → Effect F S} {step' : J → T → Effect G T} {R : I → J → Prop}
  {Off : J → T → Prop}

/-- **Simulation up to a point**: machines that agree on each pair of instructions but where the
second meets something `Off` agree on the whole run, or as far as there. -/
theorem run_until
    (hstep : ∀ i j s t, R i j → C.state s t → Off j t ∨ C.Effects (step i s) (step' j t))
    {is : List I} {js : List J} (h : List.Forall₂ R is js) {s : S} {t : T} (hs : C.state s t) :
    (Never step' Off js t ∧ C.Finals R (Machine.run step is s) (Machine.run step' js t)) ∨
      Nonempty (C.Parts R step step' Off is s js t) := by
  induction h generalizing s t with
  | nil => exact Or.inl ⟨Never.nil, .fell hs⟩
  | @cons i j is js hij _ ih =>
    by_cases hoff : Off j t
    · exact Or.inr
        ⟨⟨([], []), (i, j), (is, js), (s, t), rfl, rfl, rfl, rfl, Never.nil, hoff, hij, hs⟩⟩
    have hsim := (hstep i j s t hij hs).resolve_left hoff
    simp only [Machine.run]
    generalize hi : step i s = e at hsim ⊢
    generalize hj : step' j t = e' at hsim ⊢
    cases hsim with
    | @next s' t' h =>
      have hcons : ∀ {ks}, Never step' Off ks t' → Never step' Off (j :: ks) t := fun hn =>
        Never.cons hoff fun u hu => by
          cases hj.symm.trans hu
          exact hn
      rcases ih h with ⟨hn, hfinals⟩ | ⟨⟨before, here, after, now, hl, hr, hf, hf', hn, ho, hr', hc⟩⟩
      · exact Or.inl ⟨hcons hn, hfinals⟩
      · refine Or.inr ⟨⟨(i :: before.1, j :: before.2), here, after, now, by rw [hl]; rfl,
          by rw [hr]; rfl, ?_, ?_, hcons hn, ho, hr', hc⟩⟩
        · simp only [Machine.run, hi]
          exact hf
        · simp only [Machine.run, hj]
          exact hf'
    | stop h =>
      refine Or.inl ⟨Never.cons hoff fun u hu => ?_, .stopped hij h⟩
      cases hj.symm.trans hu
    | fail h =>
      refine Or.inl ⟨Never.cons hoff fun u hu => ?_, .failed hij h⟩
      cases hj.symm.trans hu

/-- **Simulation**: machines that agree on each pair of instructions agree on the whole run. -/
theorem run (hstep : ∀ i j s t, R i j → C.state s t → C.Effects (step i s) (step' j t))
    {is : List I} {js : List J} (h : List.Forall₂ R is js) {s : S} {t : T} (hs : C.state s t) :
    C.Finals R (run step is s) (Machine.run step' js t) := by
  have hstep' : ∀ i j s t, R i j → C.state s t →
      (fun (_ : J) (_ : T) => False) j t ∨ C.Effects (step i s) (step' j t) :=
    fun i j s t hij h => Or.inr (hstep i j s t hij h)
  rcases run_until hstep' h hs with ⟨-, hfinals⟩ | ⟨⟨parts⟩⟩
  · exact hfinals
  · exact absurd parts.off id

end Coupling
end

/-! ## Instructions left out -/

section
variable {I F G S T : Type} {C : Coupling F S G T} {step : I → S → Effect F S}
  {step' : I → T → Effect G T}

/-- **Stuttering**: a machine that leaves some instructions out follows one that executes them, if
each of these keeps the states together; or one of them fails. -/
theorem Coupling.run_filter (drop : I → Bool) {is : List I}
    (hkeep : ∀ i ∈ is, drop i = false → ∀ s t, C.state s t → C.Effects (step i s) (step' i t))
    (hdrop : ∀ i ∈ is, drop i = true → ∀ s t, C.state s t →
      (∃ u, step i s = .next u ∧ C.state u t) ∨ ∃ f, step i s = .fail f)
    {s : S} {t : T} (hs : C.state s t) :
    (∃ i ∈ is, drop i = true ∧ ∃ f, Machine.run step is s = .failed i f) ∨
      C.Finals Eq (Machine.run step is s) (Machine.run step' (is.filter fun i => !drop i) t) := by
  induction is generalizing s t with
  | nil => exact Or.inr (.fell hs)
  | cons i is ih =>
    obtain ⟨hkeepi, hkeep⟩ := List.forall_mem_cons.1 hkeep
    obtain ⟨hdropi, hdrop⟩ := List.forall_mem_cons.1 hdrop
    -- a failure further on is a failure of this run
    have hlater : ∀ u, step i s = .next u →
        (∃ j ∈ is, drop j = true ∧ ∃ f, Machine.run step is u = .failed j f) →
        ∃ j ∈ i :: is, drop j = true ∧ ∃ f, Machine.run step (i :: is) s = .failed j f := by
      rintro u hu ⟨j, hj, hdropj, f, hf⟩
      refine ⟨j, List.mem_cons_of_mem i hj, hdropj, f, ?_⟩
      simp only [Machine.run, hu]
      exact hf
    cases hd : drop i with
    | true =>
      rw [List.filter_cons_of_neg (by simp [hd])]
      rcases hdropi hd s t hs with ⟨u, hu, hut⟩ | ⟨f, hf⟩
      · rcases ih hkeep hdrop hut with hfailed | hfinals
        · exact Or.inl (hlater u hu hfailed)
        · right
          simp only [Machine.run, hu]
          exact hfinals
      · refine Or.inl ⟨i, List.mem_cons_self, hd, f, ?_⟩
        simp only [Machine.run, hf]
    | false =>
      rw [List.filter_cons_of_pos (by simp [hd])]
      have hsim := hkeepi hd s t hs
      simp only [Machine.run]
      generalize hi : step i s = e at hsim ⊢
      generalize step' i t = e' at hsim ⊢
      cases hsim with
      | @next u v h =>
        rcases ih hkeep hdrop h with hfailed | hfinals
        · obtain ⟨j, hj, hdropj, f, hf⟩ := hlater u hi hfailed
          simp only [Machine.run, hi] at hf
          exact Or.inl ⟨j, hj, hdropj, f, hf⟩
        · exact Or.inr hfinals
      | stop h => exact Or.inr (.stopped rfl h)
      | fail h => exact Or.inr (.failed rfl h)

end

/-! ## Instructions of equal effect -/

section
variable {I J F S : Type} (step : I → S → Effect F S) (g : I → J)

/-- The lists end alike from every state of a set, as far as `g` tells the instructions apart. -/
def Same (P : S → Prop) (is js : List I) : Prop :=
  ∀ s, P s → (run step is s).map g = (run step js s).map g

variable {step g} {P : S → Prop} {is js : List I}

/-- **Replacement**: in any list, a block may be exchanged for one of equal effect on the states in
which the instructions before it can leave the machine. -/
theorem Same.replace {before after : List I} {s : S} (h : Same step g P is js)
    (hbefore : ∀ t, run step before s = .fell t → P t) :
    (run step (before ++ is ++ after) s).map g = (run step (before ++ js ++ after) s).map g := by
  rw [List.append_assoc, List.append_assoc, run_append, run_append]
  cases hr : run step before s with
  | stopped i t => rfl
  | failed i f => rfl
  | fell t =>
    have ht := h t (hbefore t hr)
    simp only [Final.andThen]
    rw [run_append, run_append]
    generalize run step is t = x at ht ⊢
    generalize run step js t = y at ht ⊢
    cases x with
    | fell u =>
      cases y with
      | fell v =>
        cases ht
        rfl
      | stopped j v => cases ht
      | failed j f => cases ht
    | stopped i u =>
      cases y with
      | fell v => cases ht
      | stopped j v => exact ht
      | failed j f => cases ht
    | failed i f =>
      cases y with
      | fell v => cases ht
      | stopped j v => cases ht
      | failed j f => exact ht

end

end Machine
