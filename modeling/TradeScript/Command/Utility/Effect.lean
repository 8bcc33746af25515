import TradeScript.Command.Place

/-!
# Effects of utilities

What a small program does when it is called: it changes files, writes to its output and its error
output and ends with a status.
-/

namespace TradeScript

/-- The effect of a finished program. -/
structure Effect where
  files : FileSet
  output : List Char
  errors : List Char
  status : Nat

namespace Effect

/-- Success with some output. -/
def success (files : FileSet) (output : List Char) : Effect :=
  ⟨files, output, [], 0⟩

/-- An end with a status and no output. -/
def ofStatus (files : FileSet) (status : Nat) : Effect :=
  ⟨files, [], [], status⟩

/-- A failure with a complaint. -/
def complaint (files : FileSet) (status : Nat) (text : String) : Effect :=
  ⟨files, [], text.toList ++ ['\n'], status⟩

/-- One effect after another; the status is the larger one. -/
def andThen (e : Effect) (next : FileSet → Effect) : Effect :=
  let f := next e.files
  ⟨f.files, e.output ++ f.output, e.errors ++ f.errors, max e.status f.status⟩

/-- The effects on some names, one after another. -/
def onEach (files : FileSet) (names : List String) (effect : FileSet → String → Effect) : Effect :=
  names.foldl (fun e name => e.andThen fun files => effect files name) (.success files [])

end Effect

namespace Utility

/-- Whether an argument is an option. -/
def isOption (arg : String) : Bool :=
  arg.toList.head? = some '-' && arg ≠ "-"

/-- The arguments that are not options; all are, after two dashes. -/
def operands : List String → List String
  | [] => []
  | arg :: others =>
    if arg = "--" then others
    else if isOption arg then operands others
    else arg :: operands others

/-- Whether one of the options has a letter. -/
def asks (letter : Char) (args : List String) : Bool :=
  (args.takeWhile (· ≠ "--")).any fun a => isOption a && letter ∈ a.toList

end Utility

end TradeScript
