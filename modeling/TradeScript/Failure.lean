import TradeScript.Diagnostic
import TradeScript.Grammar.Flaw
import TradeScript.Path

/-!
# Failures

The ways in which building a plugin can fail, the message for each (`Failure.message`) and the exit
code of the command line (`Failure.exitCode`).
-/

namespace TradeScript

/-- Why no plugin was built. -/
inductive Failure
  /-- A file could not be read. -/
  | unreadable (path : Path) (reason : String)
  /-- The settings are not written in their format. -/
  | settingsMalformed (file reason : String)
  /-- A setting without default is missing. -/
  | settingMissing (group key : String)
  /-- A setting has a value that it cannot have. -/
  | settingInvalid (group key reason : String)
  /-- A line of a script is not acceptable. -/
  | line (file : String) (number : Nat) (reason : String)
  /-- Scripts require one another in a circle. -/
  | cycle (chain : List Path)
  /-- A script is not written in the language of scripts. -/
  | malformed (diagnostic : Diagnostic)
  /-- A script lacks a directive, or has one that it must not have. -/
  | directive (file reason : String)
  /-- Two indicators share a label. -/
  | sharedLabel (label first second : String)
  /-- Two indicators share a class. -/
  | sharedClass (className first second : String)
  /-- An indicator instance is declared twice. -/
  | redeclared (file : String) (number : Nat) (name : String)
  /-- The compiler could not be run or did not succeed. -/
  | compiler (command reason : String)
  /-- The temporary source could not be removed. -/
  | leftover (path : Path) (reason : String)
  /-- The grammar of scripts is flawed. -/
  | grammar (flaw : GrammarFlaw)
  /-- The system refused a request. -/
  | system (reason : String)

namespace Failure

/-- The text of a failure. -/
def message : Failure → String
  | unreadable path reason => "failed to read '" ++ path.text ++ "': " ++ reason
  | settingsMalformed file reason => "config parse error in " ++ file ++ ": " ++ reason
  | settingMissing group key => "missing config key [" ++ group ++ "] " ++ key
  | settingInvalid group key reason =>
    "invalid config value [" ++ group ++ "] " ++ key ++ ": " ++ reason
  | line file number reason => file ++ ":" ++ toString number ++ ": " ++ reason
  | cycle chain => "circular dependency: " ++ " -> ".intercalate (chain.map Path.text)
  | malformed diagnostic => diagnostic.message
  | directive file reason => file ++ ": " ++ reason
  | sharedLabel label first second =>
    "indicator label \"" ++ label ++ "\" is defined by both '" ++ first ++ "' and '" ++ second ++
      "'"
  | sharedClass className first second =>
    "indicator identifier '" ++ className ++ "' is defined by both '" ++ first ++ "' and '" ++
      second ++ "'"
  | redeclared file number name =>
    file ++ ":" ++ toString number ++ ": indicator '" ++ name ++ "' is declared more than once"
  | compiler command reason => "compiler command `" ++ command ++ "` failed: " ++ reason
  | leftover path reason =>
    "failed to remove temporary file '" ++ path.text ++ "': " ++ reason
  | grammar flaw => "grammar self-check failed: " ++ flaw.message
  | system reason => reason

/-- The exit code of the command line after a failure. -/
def exitCode : Failure → Nat
  | unreadable .. => 1
  | system .. => 1
  | settingsMalformed .. => 2
  | settingMissing .. => 2
  | settingInvalid .. => 2
  | cycle .. => 3
  | malformed .. => 4
  | line .. => 5
  | directive .. => 5
  | sharedLabel .. => 5
  | sharedClass .. => 5
  | redeclared .. => 5
  | compiler .. => 6
  | leftover .. => 7
  | grammar .. => 8

end Failure

end TradeScript
