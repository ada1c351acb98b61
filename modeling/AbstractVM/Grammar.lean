import AbstractVM.Comments
import AbstractVM.Literals
/-!
# The language the front end accepts

The grammar of a line (`InGrammar`) against what the lexer and the parser let through. The lexer
hands on three pieces of a line, the word before the first blank, the text before the first `(`
and the text before the `)` that follows; whatever comes behind is never looked at (`Trailing`).

Main results: `line_accepted_iff`, `accepts_grammar_iff`.
-/

namespace AbstractVM

open DecimalText (Text)

/-! ## The grammar -/

/-- The eleven instructions without operand. -/
def mnemonics : List Text :=
  ["pop".toList, "swap".toList, "dump".toList, "add".toList, "sub".toList, "mul".toList,
    "div".toList, "mod".toList, "print".toList, "sort".toList, "exit".toList]

/-- The two instructions with an operand. -/
def operandMnemonics : List Text := ["push".toList, "assert".toList]

/-- A type name, and a literal the factory makes an operand of that type of. -/
def IsValue (typeName literal : Text) : Prop :=
  ∃ type o, (typeName, type) ∈ typeMap ∧ createOperand type literal = .ok o

/-- An instruction, written as the grammar has it. -/
inductive Sentence : Text → Prop
  | plain {w : Text} (hw : w ∈ mnemonics) : Sentence w
  | value {w t l : Text} (hw : w ∈ operandMnemonics) (hv : IsValue t l) :
      Sentence (w ++ ' ' :: (t ++ '(' :: (l ++ [')'])))

/-- Nothing, or an instruction up to trailing spaces. -/
def InGrammar (line : Text) : Prop :=
  line = [] ∨ ∃ s k, line = s ++ List.replicate k ' ' ∧ Sentence s

/-- The line of an instruction with more text, not only spaces, where the lexer does not look:
behind the blank after a mnemonic (unless that text begins an operand), or behind the `)`. -/
inductive Trailing : Text → Prop
  | plain {w r : Text} (hw : w ∈ mnemonics) (hr : '(' ∉ r ∨ ∃ x, r = '(' :: ')' :: x)
      (more : ∃ c ∈ r, c ≠ ' ') : Trailing (w ++ ' ' :: r)
  | value {w t l x : Text} (hw : w ∈ operandMnemonics) (hv : IsValue t l)
      (more : ∃ c ∈ x, c ≠ ' ') : Trailing (w ++ ' ' :: (t ++ '(' :: (l ++ ')' :: x)))

/-! ## The tables -/

theorem mem_mnemonics {w : Text} :
    w ∈ mnemonics ↔ ∃ op, toOperation w = .ok op ∧ ¬ op.TakesOperand := by
  constructor
  · have hall : ∀ w ∈ mnemonics, ∃ p ∈ opMap, p.1 = w ∧ ¬ p.2.TakesOperand := by decide
    intro h
    obtain ⟨p, hp, rfl, hno⟩ := hall w h
    exact ⟨p.2, toOperation_eq_ok.2 hp, hno⟩
  · have hall : ∀ p ∈ opMap, ¬ p.2.TakesOperand → p.1 ∈ mnemonics := by decide
    rintro ⟨op, hop, hno⟩
    exact hall _ (toOperation_eq_ok.1 hop) hno

theorem mem_operandMnemonics {w : Text} :
    w ∈ operandMnemonics ↔ ∃ op, toOperation w = .ok op ∧ op.TakesOperand := by
  constructor
  · have hall : ∀ w ∈ operandMnemonics, ∃ p ∈ opMap, p.1 = w ∧ p.2.TakesOperand := by decide
    intro h
    obtain ⟨p, hp, rfl, htake⟩ := hall w h
    exact ⟨p.2, toOperation_eq_ok.2 hp, htake⟩
  · have hall : ∀ p ∈ opMap, p.2.TakesOperand → p.1 ∈ operandMnemonics := by decide
    rintro ⟨op, hop, htake⟩
    exact hall _ (toOperation_eq_ok.1 hop) htake

/-! ## The pieces hold none of the delimiters behind them -/

theorem mnemonics_noBlank {w : Text} (h : w ∈ mnemonics) : ' ' ∉ w := by
  have hall : ∀ w ∈ mnemonics, ' ' ∉ w := by decide
  exact hall w h

theorem operandMnemonics_noBlank {w : Text} (h : w ∈ operandMnemonics) : ' ' ∉ w := by
  have hall : ∀ w ∈ operandMnemonics, ' ' ∉ w := by decide
  exact hall w h

theorem operandMnemonics_disjoint {w : Text} (h : w ∈ operandMnemonics) : w ∉ mnemonics := by
  have hall : ∀ w ∈ operandMnemonics, w ∉ mnemonics := by decide
  exact hall w h

theorem isValidValue_noParen {type : OperandType} {l : Text} (h : isValidValue type l = true) :
    ')' ∉ l :=
  isValidValue_not_mem (by decide) h

theorem IsValue.noParen {t l : Text} (h : IsValue t l) : '(' ∉ t ∧ ')' ∉ l := by
  obtain ⟨type, o, hty, hcr⟩ := h
  constructor
  · have hall : ∀ p ∈ typeMap, '(' ∉ p.1 := by decide
    exact hall _ hty
  · unfold createOperand at hcr
    split_ifs at hcr with h1 h2
    exact isValidValue_noParen (by simpa using h2)

/-! ## One line -/

/-- No error is pushed for the line. -/
def LineAccepted (line : Text) (n : ℕ) : Prop :=
  Skipped line ∨ lexErrors (line, n) = [] ∧ parseErrors (line, n) = []

section
variable {n : ℕ} {line w t l r x : Text}

theorem accepted_plain (hw : w ∈ mnemonics) (hlex : lexLine n line = (⟨w, [], [], n⟩, [])) :
    LineAccepted line n := by
  obtain ⟨op, hop, hno⟩ := mem_mnemonics.1 hw
  refine Or.inr ⟨?_, ?_⟩
  · unfold lexErrors
    rw [hlex]
  · unfold parseErrors
    rw [hlex]
    refine parseToken_eq_nil.2 (Or.inr ⟨op, hop, hno, rfl, rfl, ?_⟩)
    have hothers : ∀ op', toOperation w = .ok op' → ¬ op'.TakesOperand := by
      intro op' hop'
      rw [hop] at hop'
      cases hop'
      exact hno
    rw [parseToken_other hothers]
    simp only [hop]
    rfl

theorem accepted_value (hw : w ∈ operandMnemonics) (hv : IsValue t l)
    (hlex : lexLine n line = (⟨w, t, l, n⟩, [])) : LineAccepted line n := by
  obtain ⟨op, hop, htake⟩ := mem_operandMnemonics.1 hw
  obtain ⟨type, o, hty, hcr⟩ := hv
  refine Or.inr ⟨?_, ?_⟩
  · unfold lexErrors
    rw [hlex]
  · unfold parseErrors
    rw [hlex, parseToken_takes hop htake]
    simp only [toType_eq_ok.2 hty, tryPush, hcr, List.append_nil]

/-- A token without error is an instruction of the grammar, cut into its pieces. -/
theorem token_clean (h : (parseToken ⟨w, t, l, n⟩).2 = []) :
    w ∈ operandMnemonics ∧ IsValue t l ∨ w ∈ mnemonics ∧ t = [] ∧ l = [] := by
  rcases parseToken_eq_nil.1 h with ⟨op, type, o, hop, htake, hty, hcr, -⟩ |
    ⟨op, hop, hno, ht, hl, -⟩
  · exact Or.inl ⟨mem_operandMnemonics.2 ⟨op, hop, htake⟩, type, _, toType_eq_ok.1 hty, hcr⟩
  · exact Or.inr ⟨mem_mnemonics.2 ⟨op, hop, hno⟩, ht, hl⟩

theorem not_isValue_nil : ¬ IsValue [] l := by
  rintro ⟨type, o, hty, -⟩
  have hall : ∀ p ∈ typeMap, p.1 ≠ [] := by decide
  exact hall _ hty rfl

/-- Spaces only, or not. -/
theorem spaces_or (r : Text) : r = List.replicate r.length ' ' ∨ ∃ c ∈ r, c ≠ ' ' := by
  by_cases h : ∃ c ∈ r, c ≠ ' '
  · exact Or.inr h
  · left
    rw [List.eq_replicate_iff]
    refine ⟨rfl, ?_⟩
    intro c hc
    by_contra hne
    exact h ⟨c, hc, hne⟩

theorem inGrammar_or_trailing (hsemi : ';' ∉ line) (h : LineAccepted line n) :
    InGrammar line ∨ Trailing line := by
  rcases h with (rfl | hhead) | ⟨hlex, hparse⟩
  · exact Or.inl (Or.inl rfl)
  · exact absurd (List.mem_of_mem_head? hhead) hsemi
  · unfold lexErrors at hlex
    unfold parseErrors at hparse
    rcases line_shapes line with h | ⟨w, r, rfl, h, hr⟩ | ⟨w, t, l, x, rfl, h, ht, hl⟩ |
      ⟨w, t, l, rfl, h, ht, hl⟩
    · rw [lexLine_word h] at hparse
      rcases token_clean hparse with ⟨-, hv⟩ | ⟨hw, -, -⟩
      · exact absurd hv not_isValue_nil
      · exact Or.inl (Or.inr ⟨line, 0, by simp, .plain hw⟩)
    · rw [lexLine_noParen h hr] at hparse
      rcases token_clean hparse with ⟨-, hv⟩ | ⟨hw, -, -⟩
      · exact absurd hv not_isValue_nil
      · rcases spaces_or r with hsp | hmore
        · refine Or.inl (Or.inr ⟨w, r.length + 1, ?_, .plain hw⟩)
          rw [List.replicate_succ, ← hsp]
        · exact Or.inr (.plain hw (Or.inl hr) hmore)
    · rw [lexLine_closed h ht hl] at hparse
      rcases token_clean hparse with ⟨hw, hv⟩ | ⟨hw, rfl, rfl⟩
      · rcases spaces_or x with hsp | hmore
        · refine Or.inl (Or.inr ⟨_, x.length, ?_, .value hw hv⟩)
          simp [← hsp]
        · exact Or.inr (.value hw hv hmore)
      · exact Or.inr (.plain hw (Or.inr ⟨x, rfl⟩) ⟨'(', by simp, by decide⟩)
    · rw [lexLine_open h ht hl] at hlex
      cases hlex

theorem accepted_of_inGrammar (h : InGrammar line) : LineAccepted line n := by
  rcases h with rfl | ⟨s, k, rfl, hs⟩
  · exact Or.inl (Or.inl rfl)
  · cases hs with
    | plain hw =>
      refine accepted_plain hw ?_
      cases k with
      | zero =>
        rw [List.replicate_zero, List.append_nil]
        exact lexLine_word (mnemonics_noBlank hw)
      | succ k =>
        rw [List.replicate_succ]
        exact lexLine_noParen (mnemonics_noBlank hw) (by simp)
    | @value w t l hw hv =>
      refine accepted_value hw hv ?_
      have hassoc : w ++ ' ' :: (t ++ '(' :: (l ++ [')'])) ++ List.replicate k ' ' =
          w ++ ' ' :: (t ++ '(' :: (l ++ ')' :: List.replicate k ' ')) := by simp
      rw [hassoc]
      exact lexLine_closed (operandMnemonics_noBlank hw) hv.noParen.1 hv.noParen.2

theorem accepted_of_trailing (h : Trailing line) : LineAccepted line n := by
  cases h with
  | plain hw hr _ =>
    refine accepted_plain hw ?_
    rcases hr with hr | ⟨x, rfl⟩
    · exact lexLine_noParen (mnemonics_noBlank hw) hr
    · exact lexLine_closed (t := []) (l := []) (mnemonics_noBlank hw) (by simp) (by simp)
  | value hw hv _ =>
    exact accepted_value hw hv
      (lexLine_closed (operandMnemonics_noBlank hw) hv.noParen.1 hv.noParen.2)

/-- **What is accepted**: the grammar, and the lines with text where the lexer does not look. -/
theorem line_accepted_iff (hsemi : ';' ∉ line) :
    LineAccepted line n ↔ InGrammar line ∨ Trailing line := by
  constructor
  · exact inGrammar_or_trailing hsemi
  · rintro (h | h)
    · exact accepted_of_inGrammar h
    · exact accepted_of_trailing h

theorem not_more_replicate {k : ℕ} (h : ∃ c ∈ List.replicate k ' ', c ≠ ' ') : False := by
  obtain ⟨c, hc, hne⟩ := h
  exact hne (List.eq_of_mem_replicate hc)

theorem Trailing.not_inGrammar (h : Trailing line) : ¬ InGrammar line := by
  rintro (rfl | ⟨s, k, he, hs⟩)
  · generalize hnil : ([] : Text) = line at h
    cases h <;> simp at hnil
  · cases hs with
    | plain hw =>
      cases k with
      | zero =>
        have hblank := mnemonics_noBlank hw
        rw [List.replicate_zero, List.append_nil] at he
        cases h with
        | plain => exact hblank (by rw [← he]; simp)
        | value => exact hblank (by rw [← he]; simp)
      | succ k =>
        rw [List.replicate_succ] at he
        cases h with
        | plain hw' _ more =>
          obtain ⟨-, rfl⟩ := cut_unique (mnemonics_noBlank hw') (mnemonics_noBlank hw) he
          exact not_more_replicate more
        | value hw' _ _ =>
          obtain ⟨-, hrest⟩ := cut_unique (operandMnemonics_noBlank hw') (mnemonics_noBlank hw) he
          refine not_more_replicate (k := k) ⟨'(', ?_, by decide⟩
          rw [← hrest]
          simp
    | @value w t l hw hv =>
      have hassoc : w ++ ' ' :: (t ++ '(' :: (l ++ [')'])) ++ List.replicate k ' ' =
          w ++ ' ' :: (t ++ '(' :: (l ++ ')' :: List.replicate k ' ')) := by simp
      rw [hassoc] at he
      cases h with
      | plain hw' _ _ =>
        obtain ⟨rfl, -⟩ := cut_unique (mnemonics_noBlank hw') (operandMnemonics_noBlank hw) he
        exact operandMnemonics_disjoint hw hw'
      | value hw' hv' more =>
        obtain ⟨-, he⟩ :=
          cut_unique (operandMnemonics_noBlank hw') (operandMnemonics_noBlank hw) he
        obtain ⟨-, he⟩ := cut_unique hv'.noParen.1 hv.noParen.1 he
        obtain ⟨-, rfl⟩ := cut_unique hv'.noParen.2 hv.noParen.2 he
        exact not_more_replicate more

end

/-! ## A whole text -/

theorem mem_lines {input line : Text} (h : line ∈ Cpp.lines input) {c : Char} (hc : c ∈ line) :
    c ∈ input := by
  induction input generalizing line with
  | nil => simp [Cpp.lines] at h
  | cons d input ih =>
    unfold Cpp.lines at h
    split_ifs at h with hd
    · rcases List.mem_cons.1 h with rfl | h
      · cases hc
      · exact List.mem_cons_of_mem _ (ih h hc)
    · cases hl : Cpp.lines input with
      | nil =>
        rw [hl] at h
        rw [List.mem_singleton.1 h] at hc
        rw [List.mem_singleton.1 hc]
        exact List.mem_cons_self
      | cons first rest =>
        rw [hl] at h ih
        rcases List.mem_cons.1 h with rfl | h
        · rcases List.mem_cons.1 hc with rfl | hc
          · exact List.mem_cons_self
          · exact List.mem_cons_of_mem _ (ih List.mem_cons_self hc)
        · exact List.mem_cons_of_mem _ (ih (List.mem_cons_of_mem _ h) hc)

theorem numbered_forall {n : ℕ} {ls : List Text} {P : Text → Prop} :
    (∀ p ∈ numbered n ls, P p.1) ↔ ∀ line ∈ ls, Skipped line ∨ P line := by
  induction ls generalizing n with
  | nil => simp
  | cons line ls ih =>
    rw [numbered_cons, List.forall_mem_cons, ← ih (n := n + 1)]
    by_cases hs : Skipped line
    · simp [hs]
    · simp [hs]

/-- The number of a line does not decide whether it has errors. -/
theorem clean_number (p : Text × ℕ) :
    lexErrors p = [] ∧ parseErrors p = [] ↔ lexErrors (p.1, 0) = [] ∧ parseErrors (p.1, 0) = [] := by
  rw [lexErrors_eq, lexErrors_eq, parseErrors_eq, parseErrors_eq]
  simp only [List.map_eq_nil_iff]

theorem clean_iff_accepted {cin : Bool} {input : Text} (hsemi : ';' ∉ input) :
    (frontEnd cin input).2 = [] ↔ ∀ line ∈ Cpp.lines input, LineAccepted line 0 := by
  have hread : readLines cin (Cpp.lines input) = Cpp.lines input := by
    cases cin with
    | false => rfl
    | true =>
      apply List.takeWhile_eq_self_iff.2
      intro line hline
      have hne : line ≠ [';', ';'] := by
        rintro rfl
        exact hsemi (mem_lines hline List.mem_cons_self)
      simpa using hne
  rw [clean_iff]
  unfold programLines
  rw [hread]
  simp only [clean_number]
  exact numbered_forall (P := fun line => lexErrors (line, 0) = [] ∧ parseErrors (line, 0) = [])

/-- **The front end accepts its grammar, on the texts of which no line has trailing text, and on
those with a line that is rejected anyway.** -/
theorem accepts_grammar_iff {cin : Bool} {input : Text} (hsemi : ';' ∉ input) :
    ((frontEnd cin input).2 = [] ↔ ∀ line ∈ Cpp.lines input, InGrammar line) ↔
      (∀ line ∈ Cpp.lines input, ¬ Trailing line) ∨
        ∃ line ∈ Cpp.lines input, ¬ InGrammar line ∧ ¬ Trailing line := by
  have haccept : ∀ line ∈ Cpp.lines input,
      (LineAccepted line 0 ↔ InGrammar line ∨ Trailing line) :=
    fun line hline => line_accepted_iff fun hc => hsemi (mem_lines hline hc)
  rw [clean_iff_accepted hsemi, forall₂_congr haccept]
  constructor
  · intro h
    by_cases hreject : ∃ line ∈ Cpp.lines input, ¬ InGrammar line ∧ ¬ Trailing line
    · exact Or.inr hreject
    · left
      intro line hline htrail
      apply htrail.not_inGrammar
      apply h.1 _ line hline
      intro line hline
      by_contra hno
      exact hreject ⟨line, hline, not_or.1 hno⟩
  · rintro (hnone | ⟨line, hline, hgram, htrail⟩)
    · constructor
      · intro h line hline
        exact (h line hline).resolve_right (hnone line hline)
      · intro h line hline
        exact Or.inl (h line hline)
    · constructor
      · intro h
        exact absurd (h line hline) (not_or.2 ⟨hgram, htrail⟩)
      · intro h
        exact absurd (h line hline) hgram

theorem trailing_garbage : Trailing "pop garbage".toList :=
  .plain (w := "pop".toList) (r := "garbage".toList) (by decide) (Or.inl (by decide))
    ⟨'g', by decide, by decide⟩

/-- `pop garbage` is accepted … -/
theorem accepts_garbage :
    ¬ ((frontEnd false "pop garbage".toList).2 = [] ↔
      ∀ line ∈ Cpp.lines "pop garbage".toList, InGrammar line) := by
  intro h
  have hclean : (frontEnd false "pop garbage".toList).2 = [] := by decide
  exact trailing_garbage.not_inGrammar (h.1 hclean _ (by decide))

/-- … and so is the trailing space of the grammar. -/
theorem accepts_trailing_space :
    (frontEnd false "pop ".toList).2 = [] ↔ ∀ line ∈ Cpp.lines "pop ".toList, InGrammar line := by
  apply (accepts_grammar_iff (by decide)).2
  left
  intro line hline htrail
  have hpop : line = "pop ".toList := by simpa [Cpp.lines] using hline
  refine htrail.not_inGrammar (Or.inr ⟨"pop".toList, 1, ?_, .plain (by decide)⟩)
  rw [hpop]
  rfl

end AbstractVM
