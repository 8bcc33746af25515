import TradeScript.Path.Normal
import TradeScript.Source.Comment
import TradeScript.Source.Directive
import TradeScript.Source.FileSet

/-!
# Expanded scripts

A script is expanded before it is read as code: comments and directives are blanked, directives are
collected, and a marker line says which file and line the lines after it come from. Required scripts
are either spliced in, or their directives are blanked like all others (`RequireMode`).

An expansion keeps its lines with their origins (`Expansion.lines`), from which its text is written.
Splicing ends because a script that is being expanded is not expanded again.
-/

namespace TradeScript

/-- What happens at a directive that requires a script. -/
inductive RequireMode
  | splice
  | elide
  deriving DecidableEq

/-- A line of an expanded script. -/
inductive ExpandedLine
  /-- A marker: the next line is the given line of a file. -/
  | marker (line : Nat) (file : Path)
  /-- Text that stands for a line of a file. -/
  | source (text : List Char) (file : Path) (line : Nat)

/-- A script after its expansion. -/
structure Expansion where
  lines : List ExpandedLine
  directives : List Directive

namespace ExpandedLine

/-- The characters of a line. -/
def chars : ExpandedLine → List Char
  | marker line file => Marker.write line file.text
  | source text _ _ => text

/-- The file and line that a line stands for, none for a marker. -/
def origin? : ExpandedLine → Option (Path × Nat)
  | marker _ _ => none
  | source _ file line => some (file, line)

end ExpandedLine

namespace Expansion

/-- The expansion of nothing. -/
def empty : Expansion :=
  ⟨[], []⟩

/-- The text of an expansion. -/
def text (e : Expansion) : String :=
  String.ofList (Text.unlines (e.lines.map ExpandedLine.chars))

/-- The file and line that a line of the text, counted from one, stands for. -/
def origin? (e : Expansion) : Nat → Option (Path × Nat)
  | 0 => none
  | n + 1 => e.lines[n]?.bind ExpandedLine.origin?

/-- The directives of one kind. -/
def directivesOf (e : Expansion) (kind : DirectiveKind) : List Directive :=
  e.directives.filter fun d => d.kind = kind

/-- An expansion with one more line in front. -/
def consLine (line : ExpandedLine) (e : Expansion) : Expansion :=
  { e with lines := line :: e.lines }

/-- An expansion with one more directive in front. -/
def consDirective (d : Directive) (e : Expansion) : Expansion :=
  { e with directives := d :: e.directives }

/-- One expansion after another. -/
def append (e f : Expansion) : Expansion :=
  ⟨e.lines ++ f.lines, e.directives ++ f.directives⟩

end Expansion

/-- The path that scripts lead back to, from its place among the active ones to itself. The active
paths are given from the innermost outwards. -/
def requireCycle (active : List Path) (p : Path) : List Path :=
  p :: ((active.takeWhile fun q => !q == p).reverse ++ [p])

/-- The directive on a line of a file, none for plain code. -/
def readDirective (file : Path) (line : Nat) (text : List Char) :
    Except Failure (Option Directive) :=
  match Directive.read text with
  | .error fault => .error (fault.failure file line)
  | .ok none => .ok none
  | .ok (some (kind, argument)) => .ok (some ⟨kind, String.ofList argument, file, line⟩)

mutual

/-- The expansion of the script at a path, while the scripts on the way to it are active. -/
def expandFile (files : FileSet) (mode : RequireMode) (active : List Path) (p : Path) :
    Reading Expansion :=
  if _ : active.contains p then Reading.fail (.cycle (requireCycle active p))
  else do
    Reading.ask p
    match _ : files.text? p with
    | none => Reading.fail (.unreadable p (files.absence p))
    | some text =>
      let body ← expandLines files mode (p :: active) p 1
        (Text.lines (stripComments text.toList))
      return body.consLine (.marker 1 p)
  termination_by (files.countOutside active, 0)
  decreasing_by
    rename_i seen found
    exact Prod.Lex.left _ _ (FileSet.countOutside_cons_lt found (by simpa using seen))

/-- The expansion of the remaining lines of the script at a path; the first has number `line`. -/
def expandLines (files : FileSet) (mode : RequireMode) (active : List Path) (p : Path)
    (line : Nat) (remaining : List (List Char)) : Reading Expansion :=
  match remaining with
  | [] => return .empty
  | text :: others => do
    match ← Reading.ofExcept (readDirective p line text) with
    | none =>
      let rest ← expandLines files mode active p (line + 1) others
      return rest.consLine (.source text p line)
    | some d =>
      if d.kind = .requirement ∧ mode = .splice then
        let inner ← expandFile files mode active (p.resolve d.argument)
        let rest ← expandLines files mode active p (line + 1) others
        return (inner.append (rest.consLine (.marker (line + 1) p))).consDirective d
      else
        let rest ← expandLines files mode active p (line + 1) others
        return (rest.consLine (.source [] p line)).consDirective d
  termination_by (files.countOutside active, remaining.length + 1)

end

/-- The expansion of the script at a path. -/
def expand (files : FileSet) (mode : RequireMode) (p : Path) : Reading Expansion :=
  expandFile files mode [] p.normalize

end TradeScript
