/-!
# Comments

`stripComments` puts one blank in the place of each comment and keeps all newlines, so that every
line keeps its number. What looks like a comment within quotes stays.
-/

namespace TradeScript

/-- What the characters at a place of a script belong to. -/
inductive Region
  | code
  | quoted (quote : Char)
  | lineComment
  /-- A block comment, and whether the character just read in it is a star. -/
  | blockComment (afterStar : Bool)
  deriving DecidableEq

/-- The rest of a script without comments, given what its first character belongs to. -/
def stripFrom : Region → List Char → List Char
  | _, [] => []
  | .code, '/' :: '/' :: cs => ' ' :: stripFrom .lineComment cs
  | .code, '/' :: '*' :: cs => ' ' :: stripFrom (.blockComment false) cs
  | .code, c :: cs =>
    c :: stripFrom (if c = '"' ∨ c = '\'' then .quoted c else .code) cs
  | .quoted quote, '\\' :: c :: cs =>
    if c = '\n' then '\\' :: '\n' :: stripFrom .code cs
    else '\\' :: c :: stripFrom (.quoted quote) cs
  | .quoted quote, c :: cs =>
    c :: stripFrom (if c = '\n' ∨ c = quote then .code else .quoted quote) cs
  | .lineComment, c :: cs =>
    if c = '\n' then '\n' :: stripFrom .code cs else stripFrom .lineComment cs
  | .blockComment afterStar, c :: cs =>
    if c = '\n' then '\n' :: stripFrom (.blockComment false) cs
    else if afterStar = true ∧ c = '/' then stripFrom .code cs
    else stripFrom (.blockComment (c = '*')) cs

/-- A script with one blank in the place of each comment, and with all its newlines. -/
def stripComments (cs : List Char) : List Char :=
  stripFrom .code cs

theorem length_stripFrom_le (region : Region) (cs : List Char) :
    (stripFrom region cs).length ≤ cs.length := by
  fun_induction stripFrom region cs
  all_goals simp
  all_goals omega

end TradeScript
