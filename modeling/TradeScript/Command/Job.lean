import TradeScript.Settings

/-!
# Compiler jobs

What the compiler is asked to do (`Job`), the arguments that the settings make of it
(`Settings.arguments`) and the line that reports show (`Settings.command`).
-/

namespace TradeScript

/-- One call of the compiler. -/
structure Job where
  source : Path
  output : Path
  /-- Folders that are searched for headers before those of the runtime. -/
  includeFolders : List Path

namespace Settings

/-- The arguments that a job gives to the compiler. -/
def arguments (s : Settings) (job : Job) : List String :=
  let folders := (job.includeFolders ++ [s.includeFolder]).filter (!·.text.isEmpty)
  s.flags ++ [job.source.text, "-o", job.output.text] ++ folders.map ("-I" ++ ·.text) ++
    s.linkFlags

/-- The compiler with its arguments, as reports show it. -/
def command (s : Settings) (job : Job) : String :=
  " ".intercalate (s.compiler :: s.arguments job)

end Settings

end TradeScript
