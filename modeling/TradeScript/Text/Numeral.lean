import TradeScript.Text.Blank

/-!
# Line numbers in text

A line number is read from decimal digits, which one plus sign may precede, and has to fit a machine
word (`lineNumber?`). Numbers are written in decimal; `padLeft` sets them flush right.
-/

namespace TradeScript

namespace Text

/-- The first number too large for a line number. -/
def lineLimit : Nat :=
  18446744073709551616

/-- The value of a decimal digit. -/
def digitValue (c : Char) : Nat :=
  c.toNat - '0'.toNat

/-- The number that a sequence of digits denotes. -/
def decimalValue (digits : List Char) : Nat :=
  digits.foldl (fun value c => 10 * value + digitValue c) 0

/-- The line number that a text denotes, if it is one. -/
def lineNumber? (cs : List Char) : Option Nat :=
  let digits := if cs.head? = some '+' then cs.tail else cs
  if digits ≠ [] ∧ digits.all isDigit ∧ decimalValue digits < lineLimit then
    some (decimalValue digits)
  else none

/-- A number in decimal. -/
def decimal (n : Nat) : List Char :=
  (toString n).toList

/-- A text with blanks before it up to the given width. -/
def padLeft (width : Nat) (cs : List Char) : List Char :=
  List.replicate (width - cs.length) ' ' ++ cs

end Text

end TradeScript
