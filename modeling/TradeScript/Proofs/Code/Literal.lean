import Mathlib.Data.List.Basic
import TradeScript.Code.Literal

/-!
# Reading string literals

A string literal of C is read from behind its opening quote: a backslash takes the next character as
it is, and a double quote that none takes ends the literal (`Literal.read`). An escaped text is read
back as itself (`Literal.read_escape`), and a literal goes on behind it as if it were not there
(`Literal.read_escape_append`). So between two quotes it is a literal that ends at the second one
(`Literal.Stands.of_escape`).
-/

namespace TradeScript

namespace Literal

/-- How the reading of a literal ends. -/
inductive Ending
  /-- At a double quote, in front of the given text. -/
  | closed (behind : List Char)
  /-- At the end of the text. -/
  | unclosed
  /-- At the end of the text, behind a backslash that takes no character. -/
  | dangling
  deriving DecidableEq

/-- The value of a literal and how its reading ends, from behind the opening quote. -/
def read : List Char → List Char × Ending
  | [] => ([], .unclosed)
  | '"' :: behind => ([], .closed behind)
  | '\\' :: cs =>
    match cs with
    | [] => ([], .dangling)
    | c :: cs => (c :: (read cs).1, (read cs).2)
  | c :: cs => (c :: (read cs).1, (read cs).2)

theorem read_quote (behind : List Char) : read ('"' :: behind) = ([], .closed behind) :=
  rfl

theorem read_backslash (c : Char) (cs : List Char) :
    read ('\\' :: c :: cs) = (c :: (read cs).1, (read cs).2) :=
  rfl

theorem read_cons {c : Char} (quote : c ≠ '"') (backslash : c ≠ '\\') (cs : List Char) :
    read (c :: cs) = (c :: (read cs).1, (read cs).2) := by
  rw [read]
  · exact quote
  · exact backslash

/-- Behind a text that leaves a literal open, the reading goes on as from its start. -/
theorem read_append_of_unclosed {cs : List Char} (h : (read cs).2 = .unclosed) (rest : List Char) :
    read (cs ++ rest) = ((read cs).1 ++ (read rest).1, (read rest).2) := by
  fun_induction read cs with
  | case1 => rfl
  | case2 behind => cases h
  | case3 => cases h
  | case4 c cs ih =>
    rw [List.cons_append, List.cons_append, read_backslash, ih h, List.cons_append]
  | case5 c cs quote backslash ih =>
    rw [List.cons_append, read_cons quote backslash, ih h, List.cons_append]

/-- What stands behind the quote that ends a literal is not read. -/
theorem read_append_of_closed {cs behind : List Char} (h : (read cs).2 = .closed behind)
    (rest : List Char) : read (cs ++ rest) = ((read cs).1, .closed (behind ++ rest)) := by
  fun_induction read cs with
  | case1 => cases h
  | case2 behind =>
    cases h
    rfl
  | case3 => cases h
  | case4 c cs ih => rw [List.cons_append, List.cons_append, read_backslash, ih h]
  | case5 c cs quote backslash ih => rw [List.cons_append, read_cons quote backslash, ih h]

/-! ## Escaped texts -/

/-- A character as an escaped text has it. -/
def escapedChar (c : Char) : List Char :=
  if c = '"' ∨ c = '\\' then ['\\', c] else [c]

/-- The second replacement does not touch what the first one puts in. -/
theorem escape_eq_flatMap (cs : List Char) : escape cs = cs.flatMap escapedChar := by
  rw [escape, Text.replaceChar, Text.replaceChar, List.flatMap_assoc]
  refine List.flatMap_congr fun c _ => ?_
  -- what the first replacement puts in are backslashes only, and the second one looks for quotes
  by_cases backslash : c = '\\'
  · subst backslash
    rfl
  · by_cases quote : c = '"'
    · subst quote
      rfl
    · simp [escapedChar, backslash, quote]

theorem read_escapedChar_append (c : Char) (cs : List Char) :
    read (escapedChar c ++ cs) = (c :: (read cs).1, (read cs).2) := by
  unfold escapedChar
  split
  · exact read_backslash c cs
  · next plain =>
    rw [not_or] at plain
    exact read_cons plain.1 plain.2 cs

/-- An escaped text is read back as itself; no quote in it ends a literal, and no backslash is left
without a character. -/
theorem read_escape (cs : List Char) : read (escape cs) = (cs, .unclosed) := by
  rw [escape_eq_flatMap]
  induction cs with
  | nil => rfl
  | cons c cs ih => rw [List.flatMap_cons, read_escapedChar_append, ih]

theorem read_escape_append (cs rest : List Char) :
    read (escape cs ++ rest) = (cs ++ (read rest).1, (read rest).2) := by
  have stays_open : (read (escape cs)).2 = .unclosed := by rw [read_escape]
  rw [read_append_of_unclosed stays_open, read_escape]

/-- As it is, a backslash at the end of a text takes the quote behind it. -/
example : read "A\\\");".toList = ("A\");".toList, .unclosed) ∧
    read (escape "A\\".toList ++ "\");".toList) = ("A\\".toList, .closed ");".toList) := by
  decide

theorem escape_injective : Function.Injective escape := by
  intro cs ds same
  have read_back := congrArg read same
  rw [read_escape, read_escape] at read_back
  exact (Prod.mk.inj read_back).1

/-! ## Literals in a text -/

/-- A literal with a value stands in a text: read from its opening quote, which stands right behind
`before`, it has this value and ends at the quote right in front of `behind`. -/
def Stands (value before behind text : List Char) : Prop :=
  ∃ inside, text = before ++ '"' :: inside ∧ read inside = (value, .closed behind)

/-- An escaped text, in a literal with other text around it, does not change where the literal
ends. -/
theorem Stands.of_escape {opening closing : List Char} (h : (read opening).2 = .unclosed)
    (h' : (read closing).2 = .unclosed) (label before behind : List Char) :
    Stands ((read opening).1 ++ label ++ (read closing).1) before behind
      (before ++ '"' :: (opening ++ (escape label ++ (closing ++ '"' :: behind)))) := by
  refine ⟨_, rfl, ?_⟩
  rw [read_append_of_unclosed h, read_escape_append, read_append_of_unclosed h', read_quote]
  simp

/-- A literal of a text is one of every longer text. -/
theorem Stands.append {value before behind text : List Char} (h : Stands value before behind text)
    (front rest : List Char) :
    Stands value (front ++ before) (behind ++ rest) (front ++ (text ++ rest)) := by
  obtain ⟨inside, rfl, closed⟩ := h
  have ends : (read inside).2 = .closed behind := by rw [closed]
  refine ⟨inside ++ rest, by simp, ?_⟩
  rw [read_append_of_closed ends, closed]

end Literal

end TradeScript
