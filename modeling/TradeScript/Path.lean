import TradeScript.Text.Lines

/-!
# Paths

A path is kept as it was written. It stands for its components (`Path.components`): repeated and
trailing slashes say nothing, and neither does a dot, except at the front of a relative path. Two
paths are equal (`==`) when their components agree.
-/

namespace TradeScript

/-- A path of a file or folder, as it was written. -/
structure Path where
  text : String
  deriving Inhabited

namespace Path

/-- One step of a path. -/
inductive Component
  | root
  | here
  | up
  | name (text : List Char)
  deriving DecidableEq

/-- The path with the given characters. -/
def ofChars (cs : List Char) : Path :=
  ⟨String.ofList cs⟩

/-- The characters of a path. -/
def chars (p : Path) : List Char :=
  p.text.toList

/-- Whether a path starts at the root. -/
def isAbsolute (p : Path) : Bool :=
  p.chars.head? == some '/'

/-! ## Components -/

namespace Component

/-- What a segment between slashes says, if it says anything. -/
def ofSegment? (segment : List Char) : Option Component :=
  if segment = [] ∨ segment = ['.'] then none
  else if segment = ['.', '.'] then some up
  else some (name segment)

/-- A component as it is written. -/
def chars : Component → List Char
  | root => []
  | here => ['.']
  | up => ['.', '.']
  | name text => text

end Component

/-- The components of a text with slashes. -/
def componentsOf (cs : List Char) : List Component :=
  match Text.split '/' cs with
  | [] => []
  | first :: others =>
    let body := others.filterMap Component.ofSegment?
    if cs.head? = some '/' then .root :: body
    else if first = ['.'] then .here :: body
    else (Component.ofSegment? first).toList ++ body

/-- The components of a path, from the front. -/
def components (p : Path) : List Component :=
  componentsOf p.chars

instance : BEq Path where
  beq p q := p.components = q.components

theorem beq_iff {p q : Path} : (p == q) = true ↔ p.components = q.components := by
  simp [BEq.beq]

instance : EquivBEq Path where
  rfl := beq_iff.2 rfl
  symm h := beq_iff.2 (beq_iff.1 h).symm
  trans h k := beq_iff.2 ((beq_iff.1 h).trans (beq_iff.1 k))

/-! ## Parts and joins -/

/-- A path continued by another, which wins if it is absolute. -/
def join (base target : Path) : Path :=
  if target.isAbsolute ∨ base.chars = [] then target
  else if base.chars.getLast? = some '/' then ofChars (base.chars ++ target.chars)
  else ofChars (base.chars ++ '/' :: target.chars)

/-- The path without its last component; the root and the empty path have none. -/
def parent? (p : Path) : Option Path :=
  match Text.split '/' p.chars with
  | [] => none
  | first :: others =>
    let silent (segment : List Char) : Bool := (Component.ofSegment? segment).isNone
    match others.reverse.dropWhile silent with
    | _ :: front =>
      let kept := first :: (front.dropWhile silent).reverse
      some (if kept = [[]] then ⟨"/"⟩ else ofChars (Text.join ['/'] kept))
    | [] => if first = [] then none else some ⟨""⟩

/-- The last component, if it is a name. -/
def fileName? (p : Path) : Option (List Char) :=
  match p.components.getLast? with
  | some (.name text) => some text
  | _ => none

/-- The file name up to its last dot; a dot at its front does not count. -/
def stem? (p : Path) : Option (List Char) :=
  p.fileName?.map fun name =>
    match name.reverse.dropWhile (· ≠ '.') with
    | _ :: front => if front = [] then name else front.reverse
    | [] => name

/-- The folder of a file, with a dot for the current one. -/
def folder (p : Path) : Path :=
  match p.parent? with
  | some dir => if dir.chars = [] then ⟨"."⟩ else dir
  | none => ⟨"."⟩

/-- Paths without repetitions, each at its first place. -/
def distinct : List Path → List Path
  | [] => []
  | p :: others => p :: (distinct others).filter (!· == p)

end Path

end TradeScript
