import TradeScript.Command.Shell
import TradeScript.Text.Search

/-!
# Programs that compile

The programs that the settings may name as compiler, as functions on files: the trivial ones, the
utilities and the shell with a script. Every other program counts as not installed.
-/

namespace TradeScript

/-- How a call of a program ends, if it can be started at all. -/
inductive Conclusion
  | exited (status : Nat)
  | killed
  | notStarted (refusal : Refusal)
  deriving DecidableEq

/-- What a call of a program changes and writes, and how it ends. -/
structure Run where
  files : FileSet
  output : String
  errors : String
  conclusion : Conclusion

/-- Why a call was no success; none after status zero. -/
def Conclusion.reason? : Conclusion → Option String
  | exited 0 => none
  | exited status => some ("exited with status " ++ toString status)
  | killed => some "terminated by signal"
  | notStarted refusal => some refusal.message

namespace Program

/-- The run of a finished shell script. -/
def ofShell : Shell.State × Shell.Ending → Run
  | (state, ending) =>
    ⟨state.files, String.ofList state.output, String.ofList state.errors,
      match ending with
      | .exited status => .exited status
      | .killed => .killed⟩

/-- The letters of the options of the shell. -/
def shellOptions : List Char :=
  "abCcEefIimnsuVvx".toList

/-- A call of the shell that fails before any script is executed. -/
def shellFault (files : FileSet) (complaint : String) : Run :=
  ⟨files, "", "sh: 0: " ++ complaint ++ "\n", .exited 2⟩

/-- Run the shell after its options: with a command, or with a file that holds a script. -/
def runScript (files : FileSet) (options : List Char) (args : List String) : Run :=
  let stops := 'e' ∈ options
  if 'c' ∈ options then
    match args with
    | [] => shellFault files "-c requires an argument"
    | script :: parameters =>
      ofShell (Shell.run (.start files (parameters.headD "sh") parameters.tail stops) script)
  else
    match args with
    | [] => ⟨files, "", "", .exited 0⟩
    | name :: parameters =>
      if 's' ∈ options then ⟨files, "", "", .exited 0⟩
      else
        match files.textAt name with
        | .ok script => ofShell (Shell.run (.start files name parameters stops) script)
        | .error _ => shellFault files ("cannot open " ++ name ++ ": No such file")

/-- Run the shell with its arguments, given the options read so far. -/
def runShell (files : FileSet) (options : List Char) : List String → Run
  | [] => runScript files options []
  | arg :: others =>
    match arg.toList with
    | ['-', '-'] => runScript files options others
    | '-' :: letter :: letters =>
      match (letter :: letters).find? (· ∉ shellOptions) with
      | some unknown => shellFault files ("Illegal option -" ++ String.singleton unknown)
      | none => runShell files (options ++ letter :: letters) others
    | _ => runScript files options (arg :: others)

/-- The most bytes in an argument of a program. -/
def maxArgumentSize : Nat :=
  131071

/-- Why a program that is not installed cannot be started. A name with a slash is a path; others are
looked for in the folders of programs, where a dot or two name folders. -/
def absence (files : FileSet) (name : String) : Refusal :=
  if '/' ∈ name.toList then
    match files.place ⟨name⟩ with
    | .missing => .noSuchFile
    | .blocked => .notFolder
    | .overlong => .nameTooLong
    | .file _ => .permissionDenied
    | .folder => .permissionDenied
  else if name.utf8ByteSize > maxNameSize then .nameTooLong
  else if name = "." ∨ name = ".." then .permissionDenied
  else .noSuchFile

/-- What an installed program does. -/
def installed? (files : FileSet) (name : String) (args : List String) : Option Run :=
  let base := Shell.programName name
  if base = "sh" then some (runShell files [] args)
  else
    (Utility.run? files [] base args).map fun effect =>
      ⟨effect.files, String.ofList effect.output, String.ofList effect.errors,
        .exited effect.status⟩

/-- A call that was refused. -/
def refused (files : FileSet) (refusal : Refusal) : Run :=
  ⟨files, "", "", .notStarted refusal⟩

/-- Run a program by its name. -/
def run (files : FileSet) (name : String) (args : List String) : Run :=
  if (name :: args).any (nul ∈ ·.toList) then refused files .nulInArgument
  else
    match installed? files name args with
    | none => refused files (absence files name)
    | some run =>
      if args.any (·.utf8ByteSize > maxArgumentSize) then refused files .argumentTooLong else run

end Program

end TradeScript
