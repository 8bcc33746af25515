import TradeScript.Command.Job
import TradeScript.Command.Program
import TradeScript.Plugin

/-!
# Building a plugin

The source of a composed plugin is written to a temporary file and given to a compiler
(`Plugin.build`). Whatever the compiler does, the temporary file is gone afterwards; after a failed
compilation nothing is left at the output either.
-/

namespace TradeScript

/-- What a compiler leaves behind: the files, what it wrote, and the failure, if it failed. -/
structure Compiled where
  files : FileSet
  output : String
  errors : String
  failure : Option Failure

/-- A compiler: what it makes of a job when it finds the given files. -/
abbrev Compiler := Job → FileSet → Compiled

/-- How a build ends: its result, the job and the run of the compiler, if it was called, and the
files. -/
structure Build where
  result : Except Failure Unit
  compilation : Option (Job × Compiled)
  files : FileSet

/-- The compiler that some settings name. -/
def Settings.compile (s : Settings) : Compiler := fun job files =>
  let run := Program.run files s.compiler (s.arguments job)
  ⟨run.files, run.output, run.errors,
    run.conclusion.reason?.map fun reason => .compiler (s.command job) reason⟩

namespace Plugin

/-- The name of a temporary source, made unique by a tag. -/
def scratchName (tag : String) : String :=
  "dtbuild-" ++ tag ++ ".cpp"

/-- The failure that the temporary source is no longer there to be removed. -/
def leftover (scratch : Path) : Failure :=
  .leftover scratch (Refusal.noSuchFile.message ++ " at path \"" ++ scratch.text ++ "\"")

/-- Compile a plugin to a file at `output`, with its source in a temporary file at `scratch`. The
files stand under their normal paths. After a failure, the file that `output` leads to is removed; a
path through a folder that is missing leads to none. -/
def build (plugin : Plugin) (compiler : Compiler) (output scratch : Path) (files : FileSet) :
    Build :=
  let job : Job := ⟨scratch, output, plugin.includeFolders⟩
  let compiled := compiler job (files.put scratch plugin.source)
  let cleaned := compiled.files.erase scratch
  match compiled.failure with
  | some failure => ⟨.error failure, some (job, compiled), cleaned.withoutFileAt output⟩
  | none =>
    ⟨if compiled.files.contains scratch then .ok () else .error (leftover scratch),
      some (job, compiled), cleaned⟩

/-- Compose an algorithm from `scripts` and compile it; the compiler works on `files`. -/
def run (g : Grammar) (templates : Templates) (scripts : FileSet) (compiler : Compiler)
    (algorithm output scratch : Path) (files : FileSet) : Build :=
  match (Reading.start (compose g templates scripts algorithm)).1 with
  | .error failure => ⟨.error failure, none, files⟩
  | .ok plugin => plugin.build compiler output scratch files

/-- The file that a script is compiled to: in `folder`, or beside the script. -/
def outputPath (script : Path) (folder : Option Path) : Path :=
  let folder := folder.getD ((script.parent?).getD ⟨""⟩)
  folder.join (Path.ofChars ((script.stem?.getD "algorithm".toList) ++ ".so".toList))

end Plugin

end TradeScript
