import TradeScript.Command.Execution

/-!
# The program

The command line on the files of the working folder. Files are read when the execution asks for
them: it is repeated with the files that it missed until it misses none that exists.
-/

namespace TradeScript

namespace Main

/-- The file at a path, if it can be read. -/
def readFile? (p : Path) : IO (Option String) := do
  try
    let text ← IO.FS.readFile p.text
    return some text
  catch _ => return none

/-- The paths that settings name: the templates and the arguments of the compiler. -/
def namedBy (settings : Settings) : List Path :=
  settings.algorithmTemplate.toList ++ settings.indicatorTemplate.toList ++
    (settings.flags ++ settings.linkFlags).map Path.mk

/-- The paths that an execution may use with the files at hand: the settings and what they name, the
output, and what composing and expanding the script ask for. -/
def wanted (line : CommandLine) (files : FileSet) (fallback : Path) : List Path :=
  let settingsPath := line.settings.getD fallback
  let named := match CommandLine.readSettings files settingsPath with
    | .error _ => []
    | .ok settings => namedBy settings
  [settingsPath, Plugin.outputPath line.input line.outputFolder] ++ named ++
    (Reading.start (Requirement.dependencies files line.input)).2.reads ++
    (Reading.start (expand files .splice line.input)).2.reads

/-- The files that an execution needs, found in the given number of rounds at most. -/
def gather (line : CommandLine) (fallback : Path) : (rounds : Nat) → FileSet → IO FileSet
  | 0, files => return files
  | rounds + 1, files => do
    let mut found := files
    for p in (wanted line files fallback).map Path.normalize do
      if !found.contains p then
        if let some text ← readFile? p then
          found := found.put p text
    if found.files.length = files.files.length then return files
    else gather line fallback rounds found

/-- Bring the files of the working folder to the state of a report. -/
def store (before after : FileSet) : IO Unit := do
  for (p, text) in after.files do
    if before.text? p ≠ some text then
      IO.FS.createDirAll p.folder.text
      IO.FS.writeFile p.text text
  for (p, _) in before.files do
    if !after.contains p then
      IO.FS.removeFile p.text

end Main

end TradeScript

open TradeScript in
/-- Execute the command line. -/
def main (args : List String) : IO UInt32 := do
  let program : Path := ⟨(← IO.appPath).toString⟩
  let fallback := ((program.parent?).getD ⟨"."⟩).join ⟨"config/dtbuild.ini"⟩
  let scratch : Path := ⟨"/tmp/" ++ Plugin.scratchName (toString (← IO.monoNanosNow))⟩
  let start := FileSet.belowFolder []
  let files ← match CommandLine.ofArguments? args with
    | none => pure start
    | some line => Main.gather line fallback 1000 start
  let report := executeArguments args files fallback scratch
  (← IO.getStdout).putStr report.output
  (← IO.getStderr).putStr report.errors
  Main.store files report.files
  return report.exitCode.toUInt32
