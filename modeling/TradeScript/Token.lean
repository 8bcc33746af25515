import TradeScript.Token.Terminal

/-!
# Tokens

A token is a piece of a script together with its kind and the place of its first character in the
file that its author wrote.
-/

namespace TradeScript

/-- A place in a file; lines and columns count from one. -/
structure Position where
  file : String
  line : Nat
  column : Nat
  deriving DecidableEq, Inhabited

/-- One lexical unit of a script. -/
structure Token where
  kind : Terminal
  value : String
  start : Position
  deriving DecidableEq

namespace Position

/-- The place that stands for no place. -/
def none : Position :=
  ⟨"", 0, 0⟩

/-- The first place of a file. -/
def first (file : String) : Position :=
  ⟨file, 1, 1⟩

/-- The place some characters further on the same line. -/
def advance (p : Position) (count : Nat) : Position :=
  { p with column := p.column + count }

theorem advance_advance (p : Position) (m n : Nat) :
    (p.advance m).advance n = p.advance (m + n) := by
  simp [advance, Nat.add_assoc]

/-- The start of the next line. -/
def nextLine (p : Position) : Position :=
  { p with line := p.line + 1, column := 1 }

end Position

namespace Token

/-- The number of characters of a token. -/
def width (t : Token) : Nat :=
  t.value.length

/-- The place directly after a token. -/
def stop (t : Token) : Position :=
  t.start.advance t.width

/-- An identifier among `names` becomes an indicator name; other tokens stay. -/
def markIndicator (names : List String) (t : Token) : Token :=
  if t.kind = .identifier ∧ t.value ∈ names then { t with kind := .indicatorName } else t

end Token

end TradeScript
