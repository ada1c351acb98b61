import AbstractVM.Exceptions
/-!
# The lexer (`Lexer.hpp`, `Lexer.cpp`)

| here | there |
| --- | --- |
| `cut` | a `find(c)` with the two `substr`s around the position found |
| `LexToken` | `t_LexToken` |
| `findOperandAndType` | `Lexer::findOperandAndType` (`:53-69`): the token it fills in and what it throws |
| `lexLine` | the body of the `getline` loop (`:27-48`) for a line that is not skipped |
| `lexLoop`, `lexicalAnalisys` | `Lexer::lexicalAnalisys` (`:15-51`); `cin` is `input == &std::cin` |
-/

namespace AbstractVM

open DecimalText (Text)

/-- Split at the first `c`, which is in neither part; `none` is `npos`. -/
def cut (c : Char) : Text → Option (Text × Text)
  | [] => none
  | x :: xs => if x = c then some ([], xs) else (cut c xs).map fun p => (x :: p.1, p.2)

theorem cut_eq_none {c : Char} {t : Text} : cut c t = none ↔ c ∉ t := by
  induction t with
  | nil => simp [cut]
  | cons x xs ih =>
    simp only [cut, List.mem_cons, not_or]
    by_cases hx : x = c
    · simp [hx]
    · simp [hx, ih, Ne.symm hx]

theorem cut_eq_some {c : Char} {t a b : Text} : cut c t = some (a, b) ↔ t = a ++ c :: b ∧ c ∉ a := by
  induction t generalizing a with
  | nil => simp [cut]
  | cons x xs ih =>
    simp only [cut]
    by_cases hx : x = c
    · subst hx
      cases a with
      | nil => simp [eq_comm]
      | cons y a => simp; intro h; simp [h]
    · simp only [hx, if_false, Option.map_eq_some_iff, Prod.exists]
      constructor
      · rintro ⟨u, v, huv, he⟩
        obtain ⟨rfl, rfl⟩ := Prod.mk.inj he
        obtain ⟨rfl, hu⟩ := ih.1 huv
        exact ⟨rfl, by simp [hu, Ne.symm hx]⟩
      · rintro ⟨h, hc⟩
        cases a with
        | nil => exact absurd (List.cons.inj h).1 hx
        | cons y a =>
          obtain ⟨rfl, rfl⟩ := List.cons.inj h
          simp only [List.mem_cons, not_or] at hc
          exact ⟨a, b, ih.2 ⟨rfl, hc.2⟩, rfl⟩

theorem cut_append {c : Char} {a : Text} (h : c ∉ a) (b : Text) : cut c (a ++ c :: b) = some (a, b) :=
  cut_eq_some.2 ⟨rfl, h⟩

structure LexToken where
  instruction : Text
  operandType : Text
  literal : Text
  line : ℕ
deriving DecidableEq, Repr

def findOperandAndType (token : LexToken) (rest : Text) : LexToken × Option AVMException :=
  match cut '(' rest with
  | none => (token, none)
  | some (operandType, afterParen) =>
    match cut ')' afterParen with
    | some (literal, _) => ({ token with operandType := operandType, literal := literal }, none)
    | none =>
      ({ token with operandType := operandType, literal := afterParen }, some (MissingParException rest))

/-- The token of a line, and the errors pushed on the way. -/
def lexLine (line_number : ℕ) (line : Text) : LexToken × List Error :=
  match cut ' ' line with
  | none => (⟨line, [], [], line_number⟩, [])
  | some (instruction, rest) =>
    match findOperandAndType ⟨instruction, [], [], line_number⟩ rest with
    | (token, none) => (token, [])
    | (token, some e) => (token, [e.pushError line_number])

/-- Lines the loop steps over. -/
def Skipped (line : Text) : Prop := line = [] ∨ line.head? = some ';'

instance : DecidablePred Skipped := fun line => by unfold Skipped; infer_instance

def lexLoop (cin : Bool) : ℕ → List Text → List LexToken × List Error
  | _, [] => ([], [])
  | n, line :: rest =>
    if cin = true ∧ line = [';', ';'] then ([], [])
    else if Skipped line then lexLoop cin (n + 1) rest
    else
      let head := lexLine (n + 1) line
      let tail := lexLoop cin (n + 1) rest
      (head.1 :: tail.1, head.2 ++ tail.2)

def lexicalAnalisys (cin : Bool) (input : Text) : List LexToken × List Error :=
  lexLoop cin 0 (Cpp.lines input)

end AbstractVM
