/-!
# Lines

A line ends before a newline, or before a carriage return that stands directly before one; the text
after the last newline is a line unless it is empty (`lines`). Lines are numbered from one
(`line?`). `unlines` ends each line with a newline, and `join` puts a separator between neighbours.
-/

namespace TradeScript

namespace Text

/-- The lines of a text, without their ends. -/
def lines : List Char → List (List Char)
  | [] => []
  | c :: cs =>
    if c = '\n' then [] :: lines cs
    else if c = '\r' ∧ cs.head? = some '\n' then lines cs
    else match lines cs with
      | [] => [[c]]
      | first :: others => (c :: first) :: others

/-- The line with a given number, if the text has that many lines. -/
def line? (cs : List Char) : Nat → Option (List Char)
  | 0 => none
  | n + 1 => (lines cs)[n]?

/-- The text in which every one of the given lines is ended by a newline. -/
def unlines : List (List Char) → List Char
  | [] => []
  | line :: others => line ++ '\n' :: unlines others

/-- The given pieces with a separator between neighbours. -/
def join (separator : List Char) : List (List Char) → List Char
  | [] => []
  | [piece] => piece
  | piece :: next :: others => piece ++ separator ++ join separator (next :: others)

/-- The pieces between the occurrences of a separating character. -/
def split (separator : Char) : List Char → List (List Char)
  | [] => [[]]
  | c :: cs =>
    if c = separator then [] :: split separator cs
    else match split separator cs with
      | [] => [[c]]
      | first :: others => (c :: first) :: others

theorem lines_newline (cs : List Char) : lines ('\n' :: cs) = [] :: lines cs := by
  simp [lines]

end Text

end TradeScript
