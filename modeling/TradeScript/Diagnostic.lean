import TradeScript.Text.Lines
import TradeScript.Text.Numeral
import TradeScript.Token

/-!
# Diagnostics

A message about a place in a script, on one line (`Diagnostic.message`) or with the line of the
script and a caret under the place (`Diagnostic.inContext`).
-/

namespace TradeScript

/-- A message about some characters of a script. -/
structure Diagnostic where
  start : Position
  text : String
  width : Nat
  deriving DecidableEq

namespace Diagnostic

/-- The place and the text on one line. -/
def message (d : Diagnostic) : String :=
  d.start.file ++ ":" ++ toString d.start.line ++ ":" ++ toString d.start.column ++ ": " ++ d.text

/-- The line of the script with its number. -/
def sourceRow (d : Diagnostic) (source : List Char) : List Char :=
  Text.padLeft 5 (Text.decimal d.start.line) ++ " | ".toList ++ source

/-- The caret under the place, and tildes under the rest of what is meant. -/
def caretRow (d : Diagnostic) : List Char :=
  "      | ".toList ++ List.replicate (d.start.column - 1) ' ' ++ '^' ::
    List.replicate (d.width - 1) '~'

/-- The message, the line of the script that it is about, and a caret under the place. -/
def inContext (d : Diagnostic) (source : String) : String :=
  "dtbuild: " ++ d.start.file ++ ":" ++ toString d.start.line ++ ":" ++ toString d.start.column ++
    ": error: " ++ d.text ++ "\n" ++ String.ofList (d.sourceRow source.toList) ++ "\n" ++
    String.ofList d.caretRow

end Diagnostic

end TradeScript
