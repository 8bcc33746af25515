import TradeScript.Plugin

/-!
# Sessions

A session works on files that change between its steps (`Session.step`), with templates that are
fixed from the start.
-/

namespace TradeScript

namespace Session

/-- A step of a session. -/
inductive Step
  | put (path : Path) (text : String)
  | drop (path : Path)
  | compose (path : Path)
  | indicator (path : Path)
  | dependencies (path : Path)
  | expand (mode : RequireMode) (path : Path)

/-- What a step yields. -/
inductive Answer
  | replaced (before : Bool)
  | dropped (before : Bool)
  | plugin (p : Plugin)
  | indicator (i : Indicator)
  | dependencies (ds : List Dependency)
  | expansion (e : Expansion)
  | failure (f : Failure)

/-- The answer of a computation and its journal. -/
def answer {α : Type} (computation : Reading α) (wrap : α → Answer) : Answer × Journal :=
  match Reading.start computation with
  | (.ok a, journal) => (wrap a, journal)
  | (.error failure, journal) => (.failure failure, journal)

/-- The files after a step, its answer and its journal. -/
def step (g : Grammar) (templates : Templates) (files : FileSet) :
    Step → FileSet × Answer × Journal
  | .put p text => (files.put p text, .replaced (files.contains p), .empty)
  | .drop p => (files.erase p, .dropped (files.contains p), .empty)
  | .compose p => (files, answer (Plugin.compose g templates files p) .plugin)
  | .indicator p => (files, answer (Plugin.composeIndicator g templates files p) .indicator)
  | .dependencies p => (files, answer (Requirement.dependencies files p) .dependencies)
  | .expand mode p => (files, answer (TradeScript.expand files mode p) .expansion)

/-- The answers and journals of some steps, each on the files that the one before left. -/
def run (g : Grammar) (templates : Templates) (files : FileSet) :
    List Step → List (Answer × Journal)
  | [] => []
  | s :: others =>
    let (after, result) := step g templates files s
    result :: run g templates after others

end Session

end TradeScript
