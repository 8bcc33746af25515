import TradeScript.Command.Arguments
import TradeScript.Plugin.Build

/-!
# Executing the command line

`CommandLine.execute` does what the arguments ask for: print the expanded script, or read the
settings, compose the script, print the generated code if asked to, and compile it. It works on the
files below the working folder.
-/

namespace TradeScript

/-- What a call of the command line writes, its exit code, and the files after it. -/
structure Report where
  output : String
  errors : String
  exitCode : Nat
  files : FileSet

/-- A text with a number before each of its lines. -/
def numberLines (text : String) : String :=
  let rows := (Text.lines text.toList).zipIdx 1
  String.ofList (Text.unlines (rows.map fun (line, number) =>
    Text.padLeft 5 (Text.decimal number) ++ " | ".toList ++ line))

namespace Failure

/-- The line of a script that a diagnostic is about, if it can be read. -/
def sourceLine? (read : Path → Except Failure String) (d : Diagnostic) : Option String :=
  match read ⟨d.start.file⟩ with
  | .ok text => (Text.line? text.toList d.start.line).map String.ofList
  | .error _ => none

/-- The report about a failure: with the line of the script if it is about one. -/
def report (read : Path → Except Failure String) (failure : Failure) : String :=
  let plain := "error: " ++ failure.message ++ "\n"
  match failure with
  | .malformed d =>
    match sourceLine? read d with
    | some row => d.inContext row ++ "\n"
    | none => plain
  | _ => plain

end Failure

namespace Report

/-- The report of a failed call. -/
def ofFailure (files : FileSet) (output errors : String) (failure : Failure) : Report :=
  ⟨output, errors ++ failure.report files.read, failure.exitCode, files⟩

end Report

namespace CommandLine

/-- Print the script with all required scripts spliced in. -/
def executeExpand (line : CommandLine) (files : FileSet) : Report :=
  match (Reading.start (TradeScript.expand files .splice line.input)).1 with
  | .error failure => .ofFailure files "" "" failure
  | .ok e => ⟨e.text, "", 0, files⟩

/-- The settings at a path. -/
def readSettings (files : FileSet) (p : Path) : Except Failure Settings := do
  let text ← files.read p
  Settings.ofText p.text text ((p.parent?).getD ⟨""⟩)

/-- The files with the folder for the output. -/
def makeFolder (line : CommandLine) (files : FileSet) : Except Failure FileSet :=
  match line.outputFolder with
  | none => .ok files
  | some folder =>
    match files.folderRefusal? folder with
    | some refusal => .error (.system refusal.message)
    | none => .ok (files.makeFolder folder)

/-- What is needed to compile: the settings and the composed plugin. -/
def prepare (line : CommandLine) (g : Grammar) (files : FileSet) (fallback : Path) :
    Except Failure (Settings × Plugin) := do
  let settings ← readSettings files (line.settings.getD fallback)
  let (templates, _) ←
    Templates.load files.read settings.algorithmTemplate settings.indicatorTemplate
  let plugin ← (Reading.start (Plugin.compose g templates files line.input)).1
  return (settings, plugin)

/-- Compile a composed plugin. -/
def executeBuild (line : CommandLine) (files : FileSet) (scratch : Path) (settings : Settings)
    (plugin : Plugin) : Report :=
  let printed := if line.print then numberLines plugin.source else ""
  match line.makeFolder files with
  | .error failure => .ofFailure files printed "" failure
  | .ok files =>
    let output := Plugin.outputPath line.input line.outputFolder
    let built := plugin.build settings.compile output scratch files
    let (written, complained) := match built.compilation with
      | some (_, compiled) => (compiled.output, compiled.errors)
      | none => ("", "")
    match built.result with
    | .error failure => .ofFailure built.files (printed ++ written) complained failure
    | .ok () =>
      ⟨printed ++ written, complained ++ line.input.text ++ " -> " ++ output.text ++ "\n", 0,
        built.files⟩

/-- Do what the command line asks for. Settings are read at `fallback` if no path is given, and the
temporary source goes to `scratch`. -/
def execute (line : CommandLine) (files : FileSet) (fallback scratch : Path) : Report :=
  match Script.grammar? with
  | .error flaw => .ofFailure files "" "" (.grammar flaw)
  | .ok g =>
    if line.expand then line.executeExpand files
    else
      match line.prepare g files fallback with
      | .error failure => .ofFailure files "" "" failure
      | .ok (settings, plugin) => line.executeBuild files scratch settings plugin

end CommandLine

/-- Execute the command line with some arguments. -/
def executeArguments (args : List String) (files : FileSet) (fallback scratch : Path) : Report :=
  match CommandLine.ofArguments? args with
  | none => ⟨"", "usage", 2, files⟩
  | some line => line.execute files fallback scratch

end TradeScript
