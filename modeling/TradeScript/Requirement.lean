import TradeScript.Path.Normal
import TradeScript.Source.Directive
import TradeScript.Source.FileSet
import TradeScript.Text.Search

/-!
# Requirements

The scripts that a script requires, as found in its raw text before anything else is done with it
(`requirements`).
-/

namespace TradeScript

/-- A script that is required, as it is named, and the line that does so. -/
structure Requirement where
  target : String
  line : Nat
  deriving DecidableEq

namespace Requirement

/-- The argument of a line that requires a script, none for other lines. -/
def argument? (line : List Char) : Option (List Char) :=
  match Text.trimStart line with
  | '#' :: body =>
    match Text.dropPrefix? "require".toList (Text.trimStart body) with
    | some argument =>
      if argument.head?.any Text.isWordChar then none else some (Text.trim argument)
    | none => none
  | _ => none

/-- The requirements on some lines of a file, of which the first has the given number. -/
def ofLines (file : Path) (number : Nat) : List (List Char) → Except Failure (List Requirement)
  | [] => .ok []
  | line :: others =>
    match argument? line with
    | none => ofLines file (number + 1) others
    | some argument =>
      match unquote? argument with
      | none => .error
          ((DirectiveFault.notQuoted DirectiveKind.requirement.word.toList argument).failure file
            number)
      | some target =>
        (ofLines file (number + 1) others).map (⟨String.ofList target, number⟩ :: ·)

/-- The requirements in the text of a file. -/
def ofText (file : Path) (text : String) : Except Failure (List Requirement) :=
  ofLines file 1 (Text.lines text.toList)

end Requirement

end TradeScript
