import TradeScript.Counting
import TradeScript.Failure
import TradeScript.Token.Lexing

/-!
# Files and what is read of them

A finite set of files with their texts (`FileSet`), and computations that read files and give
warnings before they succeed or fail (`Reading`). The journal of a computation keeps the paths asked
for and the warnings, whatever its end.
-/

namespace TradeScript

/-- Some files with their texts, and the reason that is given for a path without file. -/
structure FileSet where
  files : List (Path × String)
  /-- Folders that exist even if there is no file below them. -/
  folders : List Path
  absence : Path → String

namespace FileSet

/-- The set without files. -/
def empty : FileSet :=
  ⟨[], [], fun _ => "no such file"⟩

/-- The text of the file at a path. -/
def text? (s : FileSet) (p : Path) : Option String :=
  (s.files.find? (·.1 == p)).map Prod.snd

/-- Whether there is a file at a path. -/
def contains (s : FileSet) (p : Path) : Bool :=
  (s.text? p).isSome

/-- The set with a file at a path removed. -/
def erase (s : FileSet) (p : Path) : FileSet :=
  { s with files := s.files.filter (!·.1 == p) }

/-- The set with the given text at a path. -/
def put (s : FileSet) (p : Path) (text : String) : FileSet :=
  { s with files := (p, text) :: (s.erase p).files }

/-- The number of files that are not at one of the given paths. -/
def countOutside (s : FileSet) (paths : List Path) : Nat :=
  s.files.countP fun f => !paths.contains f.1

/-- The text at a path, or the failure to read it. -/
def load (s : FileSet) (p : Path) : Except Failure String :=
  match s.text? p with
  | some text => .ok text
  | none => .error (.unreadable p (s.absence p))

end FileSet

/-! ## Computations that read -/

/-- What was read and what was warned of, in order. -/
structure Journal where
  reads : List Path
  warnings : List Warning

/-- A computation that reads files, warns, and succeeds or fails. -/
abbrev Reading := ExceptT Failure (StateM Journal)

namespace Journal

/-- The journal before anything happened. -/
def empty : Journal :=
  ⟨[], []⟩

end Journal

namespace Reading

/-- Note that a path is asked for. -/
def ask (p : Path) : Reading Unit :=
  modify fun journal => { journal with reads := journal.reads ++ [p] }

/-- Give some warnings. -/
def warn (warnings : List Warning) : Reading Unit :=
  modify fun journal => { journal with warnings := journal.warnings ++ warnings }

/-- Fail. -/
def fail {α : Type} (failure : Failure) : Reading α :=
  throw failure

/-- Go on with a result, or fail with its failure. -/
def ofExcept {α : Type} : Except Failure α → Reading α
  | .ok a => pure a
  | .error failure => fail failure

/-- The end of a computation and its journal. -/
def start {α : Type} (computation : Reading α) : Except Failure α × Journal :=
  computation.run.run Journal.empty

end Reading

/-! ## Files not yet opened -/

theorem FileSet.countOutside_cons_lt {s : FileSet} {paths : List Path} {p : Path} {text : String}
    (found : s.text? p = some text) (new : paths.contains p = false) :
    s.countOutside (p :: paths) < s.countOutside paths := by
  obtain ⟨f, hf, -⟩ := Option.map_eq_some_iff.1 found
  have at_p : (f.1 == p) = true := by simpa using List.find?_some hf
  refine countP_lt_of_imp (a := f) (fun g => ?_) ?_ ?_ (List.mem_of_find?_eq_some hf)
  · simp only [List.contains_cons, Bool.not_or, Bool.and_eq_true]
    exact And.right
  · rw [Bool.not_eq_true']
    rw [← Bool.not_eq_true] at new ⊢
    intro h
    refine new ?_
    rw [List.contains_iff_exists_mem_beq] at h ⊢
    obtain ⟨q, hq, hb⟩ := h
    exact ⟨q, hq, BEq.trans (BEq.symm at_p) hb⟩
  · simp [List.contains_cons, at_p]

end TradeScript
