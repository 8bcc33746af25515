import TradeScript.Failure
import TradeScript.Text.Blank
import TradeScript.Token.Fragment

/-!
# Directives

A line whose first character is `$` or `#` is a directive: it gives a script its label or its class,
requires another script or includes a header. `Directive.read` reads one line; `DirectiveFault`
lists what can be wrong with it.
-/

namespace TradeScript

/-- What a directive does. -/
inductive DirectiveKind
  | label
  | className
  | requirement
  | header
  deriving DecidableEq

/-- A directive with its argument; the quotes of labels and requirements are removed. -/
structure Directive where
  kind : DirectiveKind
  argument : String
  file : Path
  line : Nat

namespace DirectiveKind

/-- The directives in their fixed order. -/
def all : List DirectiveKind :=
  [label, className, requirement, header]

/-- The spelling of a directive in scripts. -/
def word : DirectiveKind → String
  | label => "$label"
  | className => "$identifier"
  | requirement => "#require"
  | header => "#include"

/-- Whether the argument has to stand in quotes. -/
def isQuoted : DirectiveKind → Bool
  | label => true
  | className => false
  | requirement => true
  | header => false

/-- The directive with a given spelling. -/
def ofWord? (word : List Char) : Option DirectiveKind :=
  all.find? fun k => k.word.toList = word

end DirectiveKind

/-- What can be wrong with a line that is not plain code. -/
inductive DirectiveFault
  /-- The line starts with the sign of markers. -/
  | strayMarker
  /-- No word follows the sign of the directive. -/
  | straySign (sign : Char)
  | unknown (word : List Char)
  | noArgument (word : List Char)
  | notQuoted (word argument : List Char)
  | notIdentifier (argument : List Char)

namespace DirectiveFault

/-- The text of a fault. -/
def message : DirectiveFault → String
  | strayMarker => "stray '@' at start of line"
  | straySign sign => "stray '" ++ String.singleton sign ++ "' in program"
  | unknown word => "unknown directive '" ++ String.ofList word ++ "'"
  | noArgument word => "no argument given to directive '" ++ String.ofList word ++ "'"
  | notQuoted word argument =>
    "directive '" ++ String.ofList word ++ "' expects a quoted argument, found '" ++
      String.ofList argument ++ "'"
  | notIdentifier argument =>
    "'" ++ String.ofList argument ++ "' is not a valid indicator identifier"

/-- The failure for a fault on a line of a file. -/
def failure (fault : DirectiveFault) (file : Path) (line : Nat) : Failure :=
  .line file.text line fault.message

end DirectiveFault

/-! ## Arguments -/

/-- What stands between the quotes of a text that is one quoted literal. -/
def unquote? (cs : List Char) : Option (List Char) :=
  match cs with
  | '"' :: body =>
    if body.getLast? = some '"' ∧ '"' ∉ body.dropLast then some body.dropLast else none
  | _ => none

/-- Whether a text is an identifier. -/
def isIdentifier (cs : List Char) : Bool :=
  match cs with
  | [] => false
  | c :: others => (Text.isLetter c || c == '_') && others.all Text.isWordChar

namespace Directive

/-- The argument of a directive as it is kept. -/
def readArgument (kind : DirectiveKind) (word argument : List Char) :
    Except DirectiveFault (List Char) :=
  if argument = [] then .error (.noArgument word)
  else if kind.isQuoted then
    match unquote? argument with
    | some body => .ok body
    | none => .error (.notQuoted word argument)
  else if kind = .className ∧ isIdentifier argument = false then .error (.notIdentifier argument)
  else .ok argument

/-- The directive and the argument on a line, none if the line is plain code. -/
def read (line : List Char) : Except DirectiveFault (Option (DirectiveKind × List Char)) :=
  match Text.trimStart line with
  | [] => .ok none
  | sign :: body =>
    if sign = Marker.sign then .error .strayMarker
    else if sign = '$' ∨ sign = '#' then
      let body := Text.trimStart body
      let name := body.takeWhile Text.isWordChar
      if name = [] then .error (.straySign sign)
      else
        match DirectiveKind.ofWord? (sign :: name) with
        | none => .error (.unknown (sign :: name))
        | some kind =>
          (readArgument kind (sign :: name) (Text.trim (body.dropWhile Text.isWordChar))).map
            fun argument => some (kind, argument)
    else .ok none

end Directive

end TradeScript
