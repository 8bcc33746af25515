import TradeScript.Token.Fragment

/-!
# Tokens of a text

Adjacent fragments are joined: digits, a period and digits to one number, a period and digits
likewise, and two marks to an operator. Every other fragment is a token of its own, except for a
literal that its line does not close: it is dropped with a warning.

Main statement: `Token.joined_append` (joining loses nothing).
-/

namespace TradeScript

/-- What a user is told although nothing fails. -/
inductive Warning
  /-- A literal at the given file and line is not closed and was dropped. -/
  | unclosedLiteral (file : String) (line : Nat) (quote : Quote)
  /-- The algorithm template at a path does not mention a symbol that every plugin exports. -/
  | symbolNotMentioned (template : String) (symbol : String)
  deriving DecidableEq

namespace Warning

/-- The text of a warning. -/
def message : Warning → String
  | unclosedLiteral file line quote =>
    let kind := match quote with
      | .double => "string"
      | .single => "character"
    file ++ ":" ++ toString line ++ ": unterminated " ++ kind ++ " literal dropped"
  | symbolNotMentioned template symbol =>
    "algorithm template " ++ template ++ " does not mention '" ++ symbol ++ "'"

end Warning

namespace Token

/-- The kind of a word on its own. -/
def wordKind (text : List Char) : Terminal :=
  if text.all Text.isDigit then .number
  else if text.head?.any Text.isDigit then .unknown
  else (Terminal.ofReserved? (String.ofList text)).getD .identifier

/-- The kind of the token that starts with fragment `f` (none for a dropped literal), the fragments
that join it, and the fragments after it. -/
def joined (f : Fragment) (fs : List Fragment) :
    Option Terminal × List Fragment × List Fragment :=
  match f.kind with
  | .word =>
    match fs with
    | point :: digits :: rest =>
      if f.isDigits ∧ point.glued ∧ point.kind = .mark .period ∧ digits.glued ∧ digits.isDigits then
        (some .number, [point, digits], rest)
      else (some (wordKind f.text), [], fs)
    | _ => (some (wordKind f.text), [], fs)
  | .mark m =>
    match fs with
    | g :: rest =>
      if g.glued ∧ m = .period ∧ g.isDigits then (some .number, [g], rest)
      else
        match if g.glued then g.kind else .stray with
        | .mark n =>
          match Operator.ofMarks? m n with
          | some o => (some (.operator o), [g], rest)
          | none => (some (.mark m), [], fs)
        | _ => (some (.mark m), [], fs)
    | [] => (some (.mark m), [], fs)
  | .literal q => (some q.terminal, [], fs)
  | .stray => (some .unknown, [], fs)
  | .unclosed _ => (none, [], fs)

theorem joined_append (f : Fragment) (fs : List Fragment) :
    (joined f fs).2.1 ++ (joined f fs).2.2 = fs := by
  unfold joined
  repeat' split
  all_goals rfl

theorem joined_rest_length_le (f : Fragment) (fs : List Fragment) :
    (joined f fs).2.2.length ≤ fs.length := by
  have := congrArg List.length (joined_append f fs)
  simp only [List.length_append] at this
  omega

/-- The tokens that a sequence of fragments forms. -/
def ofFragments : List Fragment → List Token
  | [] => []
  | f :: fs =>
    let parts := joined f fs
    let others := ofFragments parts.2.2
    match parts.1 with
    | some kind =>
      ⟨kind, String.ofList (f.text ++ parts.2.1.flatMap Fragment.text), f.start⟩ :: others
    | none => others
  termination_by fs => fs.length
  decreasing_by
    have := joined_rest_length_le f fs
    simp
    omega

/-- The tokens of a text that belongs to `file` until a marker says otherwise. -/
def ofText (file : String) (text : String) : List Token :=
  ofFragments (Fragment.ofText file text)

end Token

namespace Warning

/-- The warning that a fragment gives rise to. -/
def ofFragment? (f : Fragment) : Option Warning :=
  match f.kind with
  | .unclosed quote => some (unclosedLiteral f.start.file f.start.line quote)
  | _ => none

/-- The warnings that lexing a text gives rise to, in order. -/
def ofText (file : String) (text : String) : List Warning :=
  (Fragment.ofText file text).filterMap ofFragment?

end Warning

end TradeScript
