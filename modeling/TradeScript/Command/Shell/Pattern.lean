import TradeScript.Command.Place

/-!
# Patterns

Patterns of the shell: a star stands for any text, a question mark for any character, brackets for
one of some characters, and everything quoted for itself. `FileSet.named` finds the files and
folders whose names have a pattern.
-/

namespace TradeScript

namespace Shell

/-- A character and whether it is quoted. -/
abbrev Quoted :=
  Bool × Char

/-- An element of a pattern. -/
inductive Glyph
  | exactly (c : Char)
  | anyCharacter
  | anyText
  /-- A character in one of some ranges, or in none of them. -/
  | oneOf (isNegated : Bool) (ranges : List (Char × Char))

/-- The ranges that are written between brackets. -/
def rangesOf : List Char → List (Char × Char)
  | first :: '-' :: last :: others => (first, last) :: rangesOf others
  | c :: others => (c, c) :: rangesOf others
  | [] => []

/-- The element for the text between brackets. -/
def Glyph.ofBrackets : List Char → Glyph
  | '!' :: cs => .oneOf true (rangesOf cs)
  | cs => .oneOf false (rangesOf cs)

/-- The pattern that some characters write. -/
def glyphs : List Quoted → List Glyph
  | [] => []
  | (true, c) :: others => .exactly c :: glyphs others
  | (false, c) :: others =>
    if c = '*' then .anyText :: glyphs others
    else if c = '?' then .anyCharacter :: glyphs others
    else if c = '[' then
      let size := (others.drop 1).idxOf (false, ']') + 1
      if size < others.length then
        .ofBrackets ((others.take size).map Prod.snd) :: glyphs (others.drop (size + 1))
      else .exactly c :: glyphs others
    else .exactly c :: glyphs others
  termination_by cs => cs.length
  decreasing_by all_goals simp only [List.length_cons, List.length_drop]; omega

/-- Whether an element stands for a character. -/
def Glyph.admits (c : Char) : Glyph → Bool
  | exactly d => c = d
  | anyCharacter => true
  | anyText => true
  | oneOf isNegated ranges =>
    (ranges.any fun (first, last) => first ≤ c && c ≤ last) != isNegated

/-- Whether a text has a pattern. -/
def hasPattern : List Glyph → List Char → Bool
  | [], cs => cs.isEmpty
  | .anyText :: others, [] => hasPattern others []
  | .anyText :: others, c :: cs => hasPattern others (c :: cs) || hasPattern (.anyText :: others) cs
  | _ :: _, [] => false
  | glyph :: others, c :: cs => glyph.admits c && hasPattern others cs
  termination_by glyphs cs => glyphs.length + cs.length

/-- Whether a pattern is more than a text. -/
def isPattern (cs : List Quoted) : Bool :=
  cs.any fun (isQuoted, c) => !isQuoted && c ∈ ['*', '?', '[']

/-- Whether the name of a file has a pattern; a dot at its front has to be written. -/
def nameHasPattern (pattern : List Glyph) (name : List Char) : Bool :=
  let isShown := match name, pattern with
    | '.' :: _, .exactly '.' :: _ => true
    | '.' :: _, _ => false
    | _, _ => true
  isShown && hasPattern pattern name

end Shell

namespace FileSet

/-- The names on the way to a file below the working folder. -/
def namesTo? (p : Path) : Option (List (List Char)) :=
  p.components.mapM fun
    | .name text => some text
    | _ => none

/-- The files and folders below the working folder with a number of names on the way to each. -/
def entries (s : FileSet) (count : Nat) : List (List (List Char)) :=
  let all := (s.files.map Prod.fst ++ s.folders).filterMap namesTo?
  ((all.filter (count ≤ ·.length)).map (·.take count)).eraseDups

/-- The files and folders whose names have some patterns, in alphabetical order. -/
def named (s : FileSet) (patterns : List (List Shell.Glyph)) : List String :=
  let found := (s.entries patterns.length).filter fun names =>
    (patterns.zip names).all fun (pattern, name) => Shell.nameHasPattern pattern name
  (found.map fun names => String.ofList (Text.join ['/'] names)).mergeSort fun a b => !(b < a)

end FileSet

end TradeScript
