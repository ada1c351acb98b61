import AbstractVM.Report
import AbstractVM.Arithmetic
/-!
# Comments after an instruction

The README calls everything after a `;` on a line a comment. The lexer knows only lines that
*begin* with `;`; what a comment behind an instruction does then depends on which part of the line
the text falls into.

| the line before the `;` | the comment |
| --- | --- |
| empty, or a comment itself | is ignored |
| one word | joins the instruction: it is unknown |
| no `(` after the first blank | is ignored, unless it has a `(`: then it is an operand |
| a `)` after the first `(` | is ignored |
| a `(` that is not closed | joins the literal, or closes it |

Main result: `frontEnd_comment_iff`.
-/

namespace AbstractVM

open DecimalText (Text)

theorem cut_unique {c : Char} {a a' b b' : Text} (ha : c ∉ a) (ha' : c ∉ a')
    (h : a ++ c :: b = a' ++ c :: b') : a = a' ∧ b = b' := by
  have hcut : cut c (a ++ c :: b) = cut c (a' ++ c :: b') := congrArg (cut c) h
  rw [cut_append ha, cut_append ha'] at hcut
  cases hcut
  exact ⟨rfl, rfl⟩

/-- The comment falls into a part of the line that the lexer throws away. -/
def CommentLost (line comment : Text) : Prop :=
  Skipped line ∨
    ∃ w rest, line = w ++ ' ' :: rest ∧ ' ' ∉ w ∧
      ((∃ t u, rest = t ++ '(' :: u ∧ '(' ∉ t ∧ ')' ∈ u) ∨ ('(' ∉ rest ∧ '(' ∉ comment))

/-! ## What the parser says of a token -/

/-- No name of an instruction or of a type has a `;` in it. -/
theorem toOperation_semicolon {w : Text} (h : ';' ∈ w) :
    toOperation w = .error (UnknownInstructionException w) := by
  have hall : ∀ p ∈ opMap, ';' ∉ p.1 := by decide
  cases hop : toOperation w with
  | error e => rw [toOperation_error hop]
  | ok op => exact absurd h (hall _ (toOperation_eq_ok.1 hop))

theorem toType_semicolon {t : Text} (h : ';' ∈ t) :
    toType t = .error (InvalidTypeException t) := by
  have hall : ∀ p ∈ typeMap, ';' ∉ p.1 := by decide
  cases hty : toType t with
  | error e => rw [toType_error hty]
  | ok type => exact absurd h (hall _ (toType_eq_ok.1 hty))

theorem mem_thrown {α : Type} {r : Except AVMException α} {e : AVMException} :
    e ∈ thrown r ↔ r = .error e := by
  cases r <;> simp [thrown, eq_comm]

/-- The faults of a token name the field at fault, and none is a missing parenthesis. -/
theorem tokenFaults_cases {w t l : Text} {e : AVMException} (h : e ∈ tokenFaults w t l) :
    e = UnknownInstructionException w ∨ e = InvalidTypeException t ∨ e.type.OfValue ∨
      (e = NoValueExpectedException ∧ (t ≠ [] ∨ l ≠ [])) := by
  unfold tokenFaults at h
  rcases List.mem_append.1 h with h | h
  · exact Or.inl (toOperation_error (mem_thrown.1 h))
  · split_ifs at h with htake hval
    · rcases List.mem_append.1 h with h | h
      · exact Or.inr (Or.inl (toType_error (mem_thrown.1 h)))
      · exact Or.inr (Or.inr (Or.inl ((createOperand_error (mem_thrown.1 h)).ofValue)))
    · exact Or.inr (Or.inr (Or.inr ⟨List.mem_singleton.1 h, hval⟩))
    · cases h

theorem ErrorType.not_ofValue {type : ErrorType}
    (h : type = .MissingParException ∨ type = .UnknownInstructionException ∨
      type = .InvalidTypeException ∨ type = .NoValueExpectedException) : ¬ type.OfValue := by
  rcases h with rfl | rfl | rfl | rfl <;> rintro (h | h | h | h) <;> cases h

theorem parseErrors_type {p : Text × ℕ} {e : Error} (he : e ∈ parseErrors p) :
    e.type ≠ .MissingParException := by
  rw [parseErrors_eq] at he
  obtain ⟨x, hx, rfl⟩ := List.mem_map.1 he
  intro htype
  change x.type = _ at htype
  rcases tokenFaults_cases hx with rfl | rfl | hval | ⟨rfl, -⟩
  · cases htype
  · cases htype
  · exact ErrorType.not_ofValue (Or.inl htype) hval
  · cases htype

/-! ## One line -/

/-- The line means the same with and without the comment. -/
def SameLine (p p' : Text × ℕ) : Prop :=
  instrAt p = instrAt p' ∧ lexErrors p = lexErrors p' ∧ parseErrors p = parseErrors p'

theorem sameLine_of_lexLine {line line' : Text} {n : ℕ} (h : lexLine n line = lexLine n line') :
    SameLine (line, n) (line', n) := by
  unfold SameLine instrAt lexErrors parseErrors
  rw [h]
  exact ⟨rfl, rfl, rfl⟩

/-- Equal errors are equal faults: the number of the line is the same. -/
theorem tokenFaults_of_sameLine {line line' : Text} {n : ℕ} {t t' : LexToken}
    (h : SameLine (line, n) (line', n)) (ht : (lexLine n line).1 = t) (ht' : (lexLine n line').1 = t') :
    tokenFaults t.instruction t.operandType t.literal =
      tokenFaults t'.instruction t'.operandType t'.literal := by
  have hinj : Function.Injective fun e : AVMException => e.pushError n := by
    intro e e' he
    cases e
    cases e'
    simp only [AVMException.pushError, Error.mk.injEq] at he
    rw [he.2.1, he.2.2]
  obtain ⟨-, -, hp⟩ := h
  have hn : t.line = n := by rw [← ht, lexLine_line]
  have hn' : t'.line = n := by rw [← ht', lexLine_line]
  unfold parseErrors at hp
  rw [ht, ht', parseToken_errors, parseToken_errors, hn, hn'] at hp
  exact List.map_injective_iff.2 hinj hp

section
variable {n : ℕ} {w t l r x comment : Text}

/-- The type is the text between the blank and the `(`. -/
theorem lexLine_type (h : ' ' ∉ w) (ht : '(' ∉ t) (r : Text) :
    ∃ l, (lexLine n (w ++ ' ' :: (t ++ '(' :: r))).1 = ⟨w, t, l, n⟩ := by
  cases hp : cut ')' r with
  | none => exact ⟨r, by rw [lexLine_open h ht (cut_eq_none.1 hp)]⟩
  | some p =>
    obtain ⟨rfl, hl⟩ := cut_eq_some.1 hp
    exact ⟨p.1, by rw [lexLine_closed h ht hl]⟩

/-- The instruction is the text before the first blank. -/
theorem lexLine_instruction (h : ' ' ∉ w) (r : Text) :
    ∃ t l, (lexLine n (w ++ ' ' :: r)).1 = ⟨w, t, l, n⟩ := by
  cases hp : cut '(' r with
  | none => exact ⟨[], [], by rw [lexLine_noParen h (cut_eq_none.1 hp)]⟩
  | some p =>
    obtain ⟨rfl, ht⟩ := cut_eq_some.1 hp
    obtain ⟨l, hl⟩ := lexLine_type (n := n) h ht p.2
    exact ⟨p.1, l, hl⟩

/-- A comment behind a single word makes the instruction another word. -/
theorem not_sameLine_word (h : ' ' ∉ w) :
    ¬ SameLine (w ++ ';' :: comment, n) (w, n) := by
  obtain ⟨v, t, l, hlex⟩ : ∃ v t l,
      (lexLine n (w ++ ';' :: comment)).1 = ⟨w ++ ';' :: v, t, l, n⟩ := by
    cases hc : cut ' ' comment with
    | none =>
      have hno : ' ' ∉ w ++ ';' :: comment := by simp [h, cut_eq_none.1 hc]
      exact ⟨comment, [], [], by rw [lexLine_word hno]⟩
    | some p =>
      obtain ⟨v, rest⟩ := p
      obtain ⟨rfl, hv⟩ := cut_eq_some.1 hc
      have hno : ' ' ∉ w ++ ';' :: v := by simp [h, hv]
      have hassoc : w ++ ';' :: (v ++ ' ' :: rest) = (w ++ ';' :: v) ++ ' ' :: rest := by simp
      rw [hassoc]
      exact ⟨v, lexLine_instruction hno rest⟩
  intro hsame
  have hfaults := tokenFaults_of_sameLine hsame hlex (congrArg Prod.fst (lexLine_word h))
  have hmem : UnknownInstructionException (w ++ ';' :: v) ∈ tokenFaults w [] [] := by
    rw [← hfaults]
    unfold tokenFaults
    rw [toOperation_semicolon (by simp)]
    simp [thrown]
  rcases tokenFaults_cases hmem with he | he | he | ⟨he, -⟩
  · have hlen := congrArg (fun e => e.error_part.length) he
    simp [UnknownInstructionException] at hlen
  · cases congrArg AVMException.type he
  · exact ErrorType.not_ofValue (Or.inr (Or.inl rfl)) he
  · cases congrArg AVMException.type he

/-- A comment with a `(` is the operand of a line that has none. -/
theorem not_sameLine_noParen (h : ' ' ∉ w) (hr : '(' ∉ r) (hc : '(' ∈ comment) :
    ¬ SameLine (w ++ ' ' :: r ++ ';' :: comment, n) (w ++ ' ' :: r, n) := by
  obtain ⟨v, u, rfl, hv⟩ : ∃ v u, comment = v ++ '(' :: u ∧ '(' ∉ v := by
    cases hcut : cut '(' comment with
    | none => exact absurd hc (cut_eq_none.1 hcut)
    | some p => exact ⟨p.1, p.2, (cut_eq_some.1 hcut).1, (cut_eq_some.1 hcut).2⟩
  have hassoc : w ++ ' ' :: r ++ ';' :: (v ++ '(' :: u) =
      w ++ ' ' :: ((r ++ ';' :: v) ++ '(' :: u) := by simp
  have ht : '(' ∉ r ++ ';' :: v := by simp [hr, hv]
  obtain ⟨l, hlex⟩ := lexLine_type (n := n) h ht u
  rw [hassoc]
  intro hsame
  have hfaults := tokenFaults_of_sameLine hsame hlex (congrArg Prod.fst (lexLine_noParen h hr))
  by_cases htake : ∃ op ∈ (toOperation w).toOption, op.TakesOperand
  · -- the text up to the parenthesis is read as a type
    have hmem : InvalidTypeException (r ++ ';' :: v) ∈ tokenFaults w [] [] := by
      rw [← hfaults]
      unfold tokenFaults
      rw [if_pos htake, toType_semicolon (by simp)]
      simp [thrown]
    rcases tokenFaults_cases hmem with he | he | he | ⟨he, -⟩
    · cases congrArg AVMException.type he
    · have hnil := congrArg AVMException.error_part he
      simp [InvalidTypeException] at hnil
    · exact ErrorType.not_ofValue (Or.inr (Or.inr (Or.inl rfl))) he
    · cases congrArg AVMException.type he
  · have hmem : NoValueExpectedException ∈ tokenFaults w [] [] := by
      rw [← hfaults]
      unfold tokenFaults
      rw [if_neg htake, if_pos (Or.inl (by simp))]
      simp
    rcases tokenFaults_cases hmem with he | he | he | ⟨-, hval⟩
    · cases congrArg AVMException.type he
    · cases congrArg AVMException.type he
    · exact ErrorType.not_ofValue (Or.inr (Or.inr (Or.inr rfl))) he
    · rcases hval with hval | hval <;> exact hval rfl

/-- A comment behind an open parenthesis joins the text that is reported, or closes it. -/
theorem not_sameLine_open (h : ' ' ∉ w) (ht : '(' ∉ t) (hl : ')' ∉ l) :
    ¬ SameLine (w ++ ' ' :: (t ++ '(' :: l) ++ ';' :: comment, n) (w ++ ' ' :: (t ++ '(' :: l), n) := by
  rintro ⟨-, herr, -⟩
  unfold lexErrors at herr
  have hassoc : w ++ ' ' :: (t ++ '(' :: l) ++ ';' :: comment =
      w ++ ' ' :: (t ++ '(' :: (l ++ ';' :: comment)) := by simp
  rw [hassoc, lexLine_open h ht hl] at herr
  cases hcut : cut ')' (l ++ ';' :: comment) with
  | none =>
    rw [lexLine_open h ht (cut_eq_none.1 hcut)] at herr
    simp [AVMException.pushError, MissingParException] at herr
  | some p =>
    obtain ⟨l', x⟩ := p
    obtain ⟨he, hl'⟩ := cut_eq_some.1 hcut
    rw [he, lexLine_closed h ht hl'] at herr
    cases herr

/-- **A line keeps its meaning exactly when the lexer throws the comment away.** -/
theorem sameLine_comment_iff {line : Text} (hs : ¬ Skipped line) :
    SameLine (line ++ ';' :: comment, n) (line, n) ↔ CommentLost line comment := by
  rcases line_shapes line with h | ⟨w, r, rfl, h, hr⟩ | ⟨w, t, l, x, rfl, h, ht, hl⟩ |
    ⟨w, t, l, rfl, h, ht, hl⟩
  · constructor
    · intro hsame
      exact absurd hsame (not_sameLine_word h)
    · rintro (hskip | ⟨w, rest, rfl, -⟩)
      · exact absurd hskip hs
      · exact absurd (by simp) h
  · by_cases hc : '(' ∈ comment
    · constructor
      · intro hsame
        exact absurd hsame (not_sameLine_noParen h hr hc)
      · rintro (hskip | ⟨w', rest, he, hw, hlost⟩)
        · exact absurd hskip hs
        · obtain ⟨rfl, rfl⟩ := cut_unique h hw he
          rcases hlost with ⟨t, u, rfl, -⟩ | ⟨-, hno⟩
          · exact absurd (by simp) hr
          · exact absurd hc hno
    · have hassoc : w ++ ' ' :: r ++ ';' :: comment = w ++ ' ' :: (r ++ ';' :: comment) := by simp
      have hr' : '(' ∉ r ++ ';' :: comment := by simp [hr, hc]
      apply iff_of_true
      · apply sameLine_of_lexLine
        rw [hassoc, lexLine_noParen h hr', lexLine_noParen h hr]
      · exact Or.inr ⟨w, r, rfl, h, Or.inr ⟨hr, hc⟩⟩
  · have hassoc : w ++ ' ' :: (t ++ '(' :: (l ++ ')' :: x)) ++ ';' :: comment =
        w ++ ' ' :: (t ++ '(' :: (l ++ ')' :: (x ++ ';' :: comment))) := by simp
    apply iff_of_true
    · apply sameLine_of_lexLine
      rw [hassoc, lexLine_closed h ht hl, lexLine_closed h ht hl]
    · exact Or.inr ⟨w, _, rfl, h, Or.inl ⟨t, _, rfl, ht, by simp⟩⟩
  · constructor
    · intro hsame
      exact absurd hsame (not_sameLine_open h ht hl)
    · rintro (hskip | ⟨w', rest, he, hw, hlost⟩)
      · exact absurd hskip hs
      · obtain ⟨rfl, rfl⟩ := cut_unique h hw he
        rcases hlost with ⟨t', u, he', ht', hu⟩ | ⟨hno, -⟩
        · obtain ⟨rfl, rfl⟩ := cut_unique ht ht' he'
          exact absurd hu hl
        · exact absurd (by simp) hno

end

/-! ## One line of a file -/

/-- The lines after a line: nothing, or a newline and more text. -/
def LineEnds (b : Text) : Prop := b = [] ∨ ∃ b', b = '\n' :: b'

theorem lines_line {a line b : Text} (ha : WholeLines a) (hl : '\n' ∉ line) (hb : LineEnds b)
    (hne : line ≠ []) : Cpp.lines (a ++ line ++ b) = Cpp.lines a ++ line :: Cpp.lines b.tail := by
  rw [List.append_assoc, lines_wholeLines ha]
  rcases hb with rfl | ⟨b', rfl⟩
  · rw [List.append_nil, Cpp.lines_last hl hne]
    rfl
  · rw [Cpp.lines_cons hl]
    rfl

/-- What a line contributes: itself, unless it is stepped over. -/
def programLine (line : Text) (n : ℕ) : List (Text × ℕ) := if Skipped line then [] else [(line, n)]

theorem programLines_line {a line b : Text} (ha : WholeLines a) (hl : '\n' ∉ line)
    (hb : LineEnds b) :
    programLines false (a ++ line ++ b) =
      numbered 0 (Cpp.lines a) ++ (programLine line ((Cpp.lines a).length + 1) ++
        numbered ((Cpp.lines a).length + 1) (Cpp.lines b.tail)) := by
  have hread : ∀ ls : List Text, readLines false ls = ls := fun _ => rfl
  unfold programLines programLine
  rw [hread]
  by_cases hne : line = []
  · subst hne
    have hs : Skipped [] := Or.inl rfl
    rw [if_pos hs, List.append_nil, lines_wholeLines ha, numbered_append, Nat.zero_add]
    rcases hb with rfl | ⟨b', rfl⟩
    · rfl
    · rw [Cpp.lines_newline, numbered_cons, if_pos hs]
      rfl
  · rw [lines_line ha hl hb hne, numbered_append, Nat.zero_add, numbered_cons]
    split <;> rfl

/-- The errors of the lexer can be told from those of the parser. -/
theorem filter_lexErrors (ps : List (Text × ℕ)) :
    (ps.flatMap lexErrors ++ ps.flatMap parseErrors).filter (·.type = .MissingParException) =
      ps.flatMap lexErrors := by
  rw [List.filter_append, List.filter_eq_self.2, List.filter_eq_nil_iff.2, List.append_nil]
  · intro e he
    obtain ⟨p, -, hp⟩ := List.mem_flatMap.1 he
    simpa using parseErrors_type hp
  · intro e he
    obtain ⟨p, -, hp⟩ := List.mem_flatMap.1 he
    simpa using (lexErrors_line hp).2

theorem frontEnd_eq_iff {cin : Bool} {input input' : Text} :
    frontEnd cin input = frontEnd cin input' ↔
      (programLines cin input).map instrAt = (programLines cin input').map instrAt ∧
        (programLines cin input).flatMap lexErrors = (programLines cin input').flatMap lexErrors ∧
        (programLines cin input).flatMap parseErrors =
          (programLines cin input').flatMap parseErrors := by
  rw [frontEnd_eq, frontEnd_eq, Prod.mk.injEq]
  apply and_congr_right
  intro _
  constructor
  · intro h
    have hlex := congrArg (List.filter (·.type = .MissingParException)) h
    rw [filter_lexErrors, filter_lexErrors] at hlex
    rw [hlex] at h
    exact ⟨hlex, List.append_cancel_left h⟩
  · rintro ⟨h1, h2⟩
    rw [h1, h2]

/-- **A comment after a line is ignored exactly when the lexer throws it away.** -/
theorem frontEnd_comment_iff {a line b comment : Text} (ha : WholeLines a) (hl : '\n' ∉ line)
    (hb : LineEnds b) (hc : '\n' ∉ comment) :
    frontEnd false (a ++ (line ++ ';' :: comment) ++ b) = frontEnd false (a ++ line ++ b) ↔
      CommentLost line comment := by
  have hl' : '\n' ∉ line ++ ';' :: comment := by simp [hl, hc]
  have hskip : Skipped (line ++ ';' :: comment) ↔ Skipped line := by
    cases line <;> simp [Skipped]
  rw [frontEnd_eq_iff, programLines_line ha hl' hb, programLines_line ha hl hb]
  unfold programLine
  by_cases hs : Skipped line
  · rw [if_pos (hskip.2 hs), if_pos hs]
    exact ⟨fun _ => Or.inl hs, fun _ => ⟨rfl, rfl, rfl⟩⟩
  · rw [if_neg (mt hskip.1 hs), if_neg hs, ← sameLine_comment_iff hs]
    simp only [List.map_append, List.flatMap_append, List.append_right_inj, List.append_left_inj,
      List.map_cons, List.map_nil, List.flatMap_cons, List.flatMap_nil, List.append_nil,
      List.cons.injEq, and_true]
    rfl

/-- Behind an operand a comment is ignored … -/
theorem frontEnd_comment_push :
    frontEnd false ([] ++ ("push int8(1)".toList ++ ';' :: " (one)".toList) ++ "\nexit".toList) =
      frontEnd false ([] ++ "push int8(1)".toList ++ "\nexit".toList) :=
  (frontEnd_comment_iff (Or.inl rfl) (by decide) (Or.inr ⟨_, rfl⟩) (by decide)).2
    (Or.inr ⟨"push".toList, "int8(1)".toList, rfl, by decide,
      Or.inl ⟨"int8".toList, "1)".toList, rfl, by decide, by decide⟩⟩)

/-- … and behind `pop` it makes the instruction unknown. -/
theorem frontEnd_comment_pop :
    frontEnd false ([] ++ ("pop".toList ++ ';' :: "x".toList) ++ []) ≠
      frontEnd false ([] ++ "pop".toList ++ []) := by
  decide

end AbstractVM
