import AbstractVM.Execution
/-!
# Postfix evaluation of integer expressions

The instructions of an expression tree, left subtree first, leave its value on the stack, or stop
at the first subtree, in that order, that has no value its type can hold. The value is the
mathematical one and the type the widest among the leaves; a subtree's own type is what its value
must fit, not the type of the whole tree.

Main result: `code_evaluates`, by induction on the tree with the stack generalised.
-/

namespace AbstractVM

open CommandsExecutor
open Cpp (toStringInt)

inductive Expr
  | const (T : IntType) (v : ℤ) (h : T.Fits v)
  | node (op : ArithOp) (left right : Expr)

namespace Expr

/-- The operation and operand of each instruction, in order. -/
def code : Expr → List (Operation × Option Operand)
  | const T v _ => [(.PUSH, some (Operand.new (.int T v)))]
  | node op left right => left.code ++ right.code ++ [(op.operation, none)]

/-- The subtrees, in the order of their last instructions. -/
def nodes : Expr → List Expr
  | const T v h => [const T v h]
  | node op left right => left.nodes ++ right.nodes ++ [node op left right]

def leafTypes : Expr → List IntType
  | const T _ _ => [T]
  | node _ left right => left.leafTypes ++ right.leafTypes

def value : Expr → ℤ
  | const _ v _ => v
  | node op left right => op.eval left.value right.value

def type : Expr → IntType
  | const T _ _ => T
  | node _ left right => left.type.widest right.type

/-- Why a subtree has no value of its type, its own subtrees having one. -/
def fault : Expr → Option AVMException
  | const _ _ _ => none
  | node op left right =>
    let T := left.type.widest right.type
    let v := op.eval left.value right.value
    if op.Divides ∧ right.value = 0 then some DivModByZeroException
    else if T.max < v then some (OverflowException (toStringInt v ++ T.notType))
    else if v < T.min then some (UnderflowException (toStringInt v ++ T.notType))
    else none

/-- One instruction for each subtree. -/
theorem length_nodes (e : Expr) : e.nodes.length = e.code.length := by
  induction e with
  | const T v h => rfl
  | node op left right ihl ihr => simp [nodes, code, ihl, ihr]

end Expr

theorem IntType.tag_le_widest (T U : IntType) :
    T.tag ≤ (T.widest U).tag ∧ U.tag ≤ (T.widest U).tag := by
  cases T <;> cases U <;> decide

theorem OperandType.le_trans {a b c : OperandType} (h : a ≤ b) (h' : b ≤ c) : a ≤ c :=
  Nat.le_trans h h'

/-- The type of a tree is the widest among its leaves. -/
theorem Expr.type_widest (e : Expr) :
    e.type ∈ e.leafTypes ∧ ∀ T ∈ e.leafTypes, T.tag ≤ e.type.tag := by
  induction e with
  | const T v h =>
    refine ⟨List.mem_singleton_self T, fun U hU => ?_⟩
    rw [List.mem_singleton.1 hU]
    exact Nat.le_refl _
  | node op left right ihl ihr =>
    obtain ⟨hl, hl'⟩ := ihl
    obtain ⟨hr, hr'⟩ := ihr
    obtain ⟨hwl, hwr⟩ := left.type.tag_le_widest right.type
    simp only [type, leafTypes]
    constructor
    · unfold IntType.widest
      split
      · exact List.mem_append_left _ hl
      · exact List.mem_append_right _ hr
    · intro T hT
      rcases List.mem_append.1 hT with h | h
      · exact OperandType.le_trans (hl' T h) hwl
      · exact OperandType.le_trans (hr' T h) hwr

/-! ## The first fault -/

/-- The place of the first subtree with a fault, and the fault. -/
def firstFault : List Expr → Option (ℕ × AVMException)
  | [] => none
  | e :: es =>
    match e.fault with
    | some err => some (0, err)
    | none => (firstFault es).map fun p => (p.1 + 1, p.2)

theorem firstFault_append (es es' : List Expr) :
    firstFault (es ++ es') =
      match firstFault es with
      | some p => some p
      | none => (firstFault es').map fun p => (p.1 + es.length, p.2) := by
  induction es with
  | nil =>
    simp only [List.nil_append, firstFault, List.length_nil, Nat.add_zero]
    cases firstFault es' <;> rfl
  | cons e es ih =>
    simp only [List.cons_append, firstFault]
    cases e.fault with
    | some err => rfl
    | none =>
      simp only [ih]
      cases firstFault es with
      | some p => rfl
      | none =>
        cases firstFault es' with
        | none => rfl
        | some p => simp [Nat.add_assoc]

/-- A tree without faults has a value its type can hold. -/
theorem Expr.fits_of_noFault {e : Expr} (h : firstFault e.nodes = none) : e.type.Fits e.value := by
  cases e with
  | const T v hfits => exact hfits
  | node op left right =>
    unfold nodes at h
    rw [firstFault_append] at h
    have hlast : (node op left right).fault = none := by
      cases hf : firstFault (left.nodes ++ right.nodes) with
      | some p => rw [hf] at h; cases h
      | none =>
        rw [hf] at h
        cases hlast : (node op left right).fault with
        | none => rfl
        | some err => simp [firstFault, hlast] at h
    simp only [fault] at hlast
    split_ifs at hlast with h1 h2 h3
    exact ⟨not_lt.1 h3, not_lt.1 h2⟩

/-! ## Execution -/

/-- How the instructions of `e` end, from the machine `s`: all of them executed, with the value of
`e` on top and nothing else changed, or stopped at the `k`-th. -/
def Evaluates (e : Expr) (is : List (ParsedInstr Operand)) (s : VM Operand Unit) :
    Option (ℕ × AVMException) → Prop
  | none => ∃ s', Executes plain s is s' ∧
      s'.stack_ = some (Operand.new (.int e.type e.value)) :: s.stack_ ∧ s'.cout = s.cout
  | some (k, err) => ∃ done i rest t t', is = done ++ i :: rest ∧ done.length = k ∧
      Executes plain s done t ∧ execInstr plain i t = .error (.avm err, t')

/-- The last instruction of a node, on the values of its two subtrees. -/
theorem execInstr_node {op : ArithOp} {left right : Expr} (hl : left.type.Fits left.value)
    (hr : right.type.Fits right.value) {i : ParsedInstr Operand} (hi : i.instruction = op.operation)
    {s : VM Operand Unit} {rest : List (Option Operand)}
    (hs : s.stack_ = some (Operand.new (.int right.type right.value)) ::
      some (Operand.new (.int left.type left.value)) :: rest) :
    match (Expr.node op left right).fault with
    | some err => ∃ s', execInstr plain i s = .error (.avm err, s')
    | none => ∃ s', execInstr plain i s = .ok s' ∧
        s'.stack_ = some (Operand.new (.int (Expr.node op left right).type
          (Expr.node op left right).value)) :: rest ∧
        s'.cout = s.cout ∧ s'.exit_ = s.exit_ := by
  have hop := op.operator_int hl hr
  have hx := execInstr_arith_cons (μ := plain) hi hs
  change op.operator (Operand.new (.int left.type left.value))
    (Operand.new (.int right.type right.value)) = _ at hop
  simp only [plain, id, hop] at hx
  unfold ArithOp.onInts at hx
  unfold Expr.fault
  simp only
  by_cases hz : op.Divides ∧ right.value = 0
  · rw [if_pos hz] at hx ⊢
    exact ⟨_, hx⟩
  · rw [if_neg hz] at hx ⊢
    by_cases hmax : (left.type.widest right.type).max < op.eval left.value right.value
    · rw [if_pos hmax]
      simp only [fitInt, hmax, dif_pos] at hx
      exact ⟨_, hx⟩
    · rw [if_neg hmax]
      by_cases hmin : op.eval left.value right.value < (left.type.widest right.type).min
      · rw [if_pos hmin]
        simp only [fitInt, hmax, hmin, dif_pos, dif_neg, not_false_eq_true] at hx
        exact ⟨_, hx⟩
      · rw [if_neg hmin]
        have hfits : (left.type.widest right.type).Fits (op.eval left.value right.value) :=
          ⟨not_lt.1 hmin, not_lt.1 hmax⟩
        rw [fitInt_of_fits hfits] at hx
        exact ⟨_, hx, rfl, rfl, rfl⟩

/-- The instruction list of a node is that of its subtrees and one more. -/
theorem map_eq_append_singleton {α β : Type} {f : α → β} {is : List α} {as bs : List β} {b : β}
    (h : is.map f = as ++ bs ++ [b]) :
    ∃ is₁ is₂ i, is = is₁ ++ is₂ ++ [i] ∧ is₁.map f = as ∧ is₂.map f = bs ∧ f i = b := by
  obtain ⟨is', tail, rfl, h', htail⟩ := List.map_eq_append_iff.1 h
  obtain ⟨is₁, is₂, rfl, h₁, h₂⟩ := List.map_eq_append_iff.1 h'
  obtain ⟨i, tail', rfl, hi, hnil⟩ := List.map_eq_cons_iff.1 htail
  rw [List.map_eq_nil_iff] at hnil
  exact ⟨is₁, is₂, i, by rw [hnil], h₁, h₂, hi⟩

/-- The induction: both subtrees run on the stack as they find it. -/
theorem evaluates_of_code (e : Expr) (is : List (ParsedInstr Operand))
    (hcode : is.map (fun i => (i.instruction, i.operand)) = e.code)
    (s : VM Operand Unit) (hs : s.exit_ = false) : Evaluates e is s (firstFault e.nodes) := by
  induction e generalizing is s with
  | const T v h =>
    obtain ⟨i, tail, rfl, hi, hnil⟩ := List.map_eq_cons_iff.1 hcode
    rw [List.map_eq_nil_iff] at hnil
    subst hnil
    obtain ⟨hop, hoper⟩ := Prod.mk.inj hi
    have hx : execInstr plain i s = .ok { s with stack_ := i.operand :: s.stack_ } := by
      simp [execInstr, hop, argOps, CommandsExecutor.push]
    refine ⟨_, .cons hx hs (.nil _), ?_, rfl⟩
    rw [hoper]
    rfl
  | node op left right ihl ihr =>
    obtain ⟨is₁, is₂, i, rfl, h₁, h₂, hi⟩ := map_eq_append_singleton hcode
    have hop : i.instruction = op.operation := (Prod.mk.inj hi).1
    have hlen₁ : left.nodes.length = is₁.length := by
      rw [left.length_nodes, ← h₁, List.length_map]
    have hlen₂ : right.nodes.length = is₂.length := by
      rw [right.length_nodes, ← h₂, List.length_map]
    have hl := ihl is₁ h₁ s hs
    have hnodes : (Expr.node op left right).nodes =
        left.nodes ++ (right.nodes ++ [Expr.node op left right]) := List.append_assoc _ _ _
    rw [hnodes, firstFault_append]
    cases hfl : firstFault left.nodes with
    | some p =>
      -- a fault in the left subtree
      obtain ⟨k, err⟩ := p
      rw [hfl] at hl
      obtain ⟨done, j, rest, t, t', rfl, hk, hex, hj⟩ := hl
      exact ⟨done, j, rest ++ is₂ ++ [i], t, t', by simp, hk, hex, hj⟩
    | none =>
      rw [hfl] at hl
      obtain ⟨t, hext, hst, hct⟩ := hl
      have ht : t.exit_ = false := hext.exit_eq hs
      have hr := ihr is₂ h₂ t ht
      simp only
      rw [firstFault_append]
      cases hfr : firstFault right.nodes with
      | some p =>
        -- a fault in the right subtree
        obtain ⟨k, err⟩ := p
        rw [hfr] at hr
        obtain ⟨done, j, rest, u, u', rfl, hk, hex, hj⟩ := hr
        refine ⟨is₁ ++ done, j, rest ++ [i], u, u', by simp, ?_, hext.append hex, hj⟩
        rw [List.length_append, hk, hlen₁]
        exact Nat.add_comm _ _
      | none =>
        rw [hfr] at hr
        obtain ⟨u, hexu, hsu, hcu⟩ := hr
        have hu : u.exit_ = false := hexu.exit_eq ht
        rw [hst] at hsu
        have hnode := execInstr_node (left.fits_of_noFault hfl) (right.fits_of_noFault hfr) hop hsu
        simp only [firstFault]
        cases hf : (Expr.node op left right).fault with
        | some err =>
          rw [hf] at hnode
          obtain ⟨u', hx⟩ := hnode
          refine ⟨is₁ ++ is₂, i, [], u, u', rfl, ?_, hext.append hexu, hx⟩
          simp [hlen₁, hlen₂, Nat.add_comm]
        | none =>
          rw [hf] at hnode
          obtain ⟨u', hx, hstack, hcout, hexit⟩ := hnode
          refine ⟨u', (hext.append hexu).append (.cons hx (hexit.trans hu) (.nil _)), hstack, ?_⟩
          rw [hcout, hcu, hct]

/-- **Postfix evaluation.** From any machine, the instructions of a tree put its value on the
stack, of the widest type of its leaves, or stop at the first subtree with a fault, throwing it. -/
theorem code_evaluates (e : Expr) (is : List (ParsedInstr Operand))
    (hcode : is.map (fun i => (i.instruction, i.operand)) = e.code)
    (s : VM Operand Unit) (hs : s.exit_ = false) :
    (e.type ∈ e.leafTypes ∧ ∀ T ∈ e.leafTypes, T.tag ≤ e.type.tag) ∧
      Evaluates e is s (firstFault e.nodes) :=
  ⟨e.type_widest, evaluates_of_code e is hcode s hs⟩

/-- `(100 + 100) * 2` in `int8` stops at the sum, although `int16` could hold it all. -/
theorem code_evaluates_sum :
    Evaluates (.node .mul (.node .add (.const .int8_t 100 (by decide)) (.const .int8_t 100 (by decide)))
        (.const .int16_t 2 (by decide)))
      [⟨.PUSH, .Int8, some (Operand.new (.int .int8_t 100)), 1⟩,
        ⟨.PUSH, .Int8, some (Operand.new (.int .int8_t 100)), 2⟩, ⟨.ADD, .NoType, none, 3⟩,
        ⟨.PUSH, .Int16, some (Operand.new (.int .int16_t 2)), 4⟩, ⟨.MUL, .NoType, none, 5⟩]
      (VM.init ()) (some (2, OverflowException (toStringInt 200 ++ " is not int8 type".toList))) :=
  (code_evaluates _ _ rfl _ rfl).2

end AbstractVM
