import TradeScript.Requirement
import TradeScript.Source.Expansion

/-!
# The graph of requirements

All scripts that a script requires, directly or through others (`Requirement.dependencies`). A
survey visits each script once and finds the order of discovery; then the depths are relaxed along
the requirements that the survey has kept. The depth of a script is the length of the longest chain
of requirements that leads to it; scripts are composed by decreasing depth, so that each comes before
those that require it.
-/

namespace TradeScript

/-- A required script and its depth. -/
structure Dependency where
  path : Path
  depth : Nat

namespace Requirement

/-- What a survey has found: the scripts in the order of their discovery, and for each finished one
the scripts that it requires. -/
structure Survey where
  order : List Path
  edges : List (Path × List Path)

namespace Survey

/-- The survey before anything is found. -/
def empty : Survey :=
  ⟨[], []⟩

/-- The scripts that a finished script requires. -/
def targets (s : Survey) (p : Path) : List Path :=
  ((s.edges.find? (·.1 == p)).map Prod.snd).getD []

/-- Whether a script is finished. -/
def isFinished (s : Survey) (p : Path) : Bool :=
  s.edges.any (·.1 == p)

/-- The survey with one more script discovered. -/
def discover (s : Survey) (p : Path) : Survey :=
  { s with order := s.order ++ [p] }

/-- The survey with one more script finished. -/
def finish (s : Survey) (p : Path) (targets : List Path) : Survey :=
  { s with edges := (p, targets) :: s.edges }

end Survey

/-- The scripts that the script at a path requires directly, in the order of its lines. -/
def requiredBy (files : FileSet) (p : Path) : Except Failure (List Path) := do
  let text ← files.load p
  let found ← ofText p text
  return found.map fun r => p.resolve r.target

theorem text?_of_requiredBy {files : FileSet} {p : Path} {targets : List Path}
    (h : requiredBy files p = .ok targets) : ∃ text, files.text? p = some text := by
  cases found : files.text? p with
  | some text => exact ⟨text, rfl⟩
  | none =>
    simp only [requiredBy, FileSet.load, found] at h
    cases h

mutual

/-- Survey a script and all that it requires, while the scripts on the way to it are active. -/
def visit (files : FileSet) (active : List Path) (p : Path) (s : Survey) : Reading Survey :=
  if _ : active.contains p then Reading.fail (.cycle (requireCycle active p))
  else if s.isFinished p then return s
  else do
    Reading.ask p
    match _ : requiredBy files p with
    | .error failure => Reading.fail failure
    | .ok targets =>
      let found ← visitAll files (p :: active) targets (s.discover p)
      return found.finish p targets
  termination_by (files.countOutside active, 0)
  decreasing_by
    rename_i seen _ readable
    obtain ⟨_, found⟩ := text?_of_requiredBy readable
    exact Prod.Lex.left _ _ (FileSet.countOutside_cons_lt found (by simpa using seen))

/-- Survey some scripts in order. -/
def visitAll (files : FileSet) (active : List Path) (targets : List Path) (s : Survey) :
    Reading Survey :=
  match targets with
  | [] => return s
  | p :: others => do
    let found ← visit files active p s
    visitAll files active others found
  termination_by (files.countOutside active, targets.length + 1)

end

/-! ## Depths -/

/-- The depths that scripts have been given so far, the last one first. -/
abbrev Depths := List (Path × Nat)

namespace Depths

/-- The depth of a script, if it has been given one. -/
def of? (depths : Depths) (p : Path) : Option Nat :=
  (depths.find? (·.1 == p)).map Prod.snd

/-- The depths after a script has been given one. -/
def set (depths : Depths) (p : Path) (depth : Nat) : Depths :=
  (p, depth) :: depths

end Depths

/-- Give a script a depth and those that it requires the next one, and so on, unless it is as deep
already. A chain of requirements without a circle has room for no more scripts than the survey has
found. -/
def deepen (s : Survey) : (room depth : Nat) → Depths → Path → Depths
  | 0, _, depths, _ => depths
  | room + 1, depth, depths, p =>
    if (depths.of? p).any (depth ≤ ·) then depths
    else (s.targets p).foldl (deepen s room (depth + 1)) (depths.set p depth)

/-- All scripts that the one at `root` requires, directly or through others, in the order of their
discovery. -/
def dependencies (files : FileSet) (root : Path) : Reading (List Dependency) := do
  let root := root.normalize
  let s ← visit files [] root .empty
  let depths := deepen s s.order.length 0 [] root
  return (s.order.filter (!· == root)).map fun p => ⟨p, (depths.of? p).getD 0⟩

/-- Dependencies by decreasing depth; those of equal depth keep their order. -/
def compositionOrder (dependencies : List Dependency) : List Dependency :=
  dependencies.mergeSort fun a b => b.depth ≤ a.depth

/-- The depth of a script among some dependencies. -/
def depthOf? (dependencies : List Dependency) (p : Path) : Option Nat :=
  (dependencies.find? (·.path == p)).map Dependency.depth

end Requirement

end TradeScript
