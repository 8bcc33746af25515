import TradeScript.Command.Shell.Pattern
import TradeScript.Command.Shell.Script
import TradeScript.Command.Utility

/-!
# The state of a running script

What a script knows and has written so far (`State`), where its output goes (`Sink`), and what its
words stand for (`State.fields`): the values of parameters are put in, split at blanks unless they
are quoted, and patterns become the names of files.
-/

namespace TradeScript

namespace Shell

/-- A place that text is written to. -/
inductive Sink
  | toOutput
  | toErrors
  /-- The text is collected for the input of another program or for a word. -/
  | collected
  | nowhere
  | file (name : String)

/-- The state of a running script. -/
structure State where
  files : FileSet
  input : List Char
  output : List Char
  errors : List Char
  collected : List Char
  outputSink : Sink
  errorSink : Sink
  /-- The name of the script. -/
  name : String
  parameters : List String
  /-- The variables with their texts, the last one set first. -/
  bindings : List (List Char × Option (List Char))
  definitions : List (String × Command)
  status : Nat
  /-- The status of the last script whose output was put into a word. -/
  outputStatus : Nat
  /-- Whether a failed command ends the script. -/
  stopsOnFailure : Bool

namespace State

/-- The state before a script with a name and parameters is executed. -/
def start (files : FileSet) (name : String) (parameters : List String) (stopsOnFailure : Bool) :
    State :=
  { files, name, parameters, stopsOnFailure, input := [], output := [], errors := [],
    collected := [], outputSink := .toOutput, errorSink := .toErrors, bindings := [],
    definitions := [], status := 0, outputStatus := 0 }

/-! ## Writing -/

/-- The state after a text is written to a sink. -/
def write (s : State) (text : List Char) : Sink → State
  | .toOutput => { s with output := s.output ++ text }
  | .toErrors => { s with errors := s.errors ++ text }
  | .collected => { s with collected := s.collected ++ text }
  | .nowhere => s
  | .file name =>
    let before := ((s.files.textAt name).toOption).getD ""
    { s with files := s.files.write name (before ++ String.ofList text) }

/-- The state after a program has had its effect. -/
def after (s : State) (effect : Effect) : State :=
  let changed := { s with files := effect.files, status := effect.status }
  (changed.write effect.output changed.outputSink).write effect.errors changed.errorSink

/-- The state with a complaint about a line of the script. -/
def complain (s : State) (line : Nat) (text : String) (status : Nat) : State :=
  s.after (.complaint s.files status (s.name ++ ": " ++ toString line ++ ": " ++ text))

/-! ## Parameters -/

/-- The process number that a script sees. -/
def processNumber : List Char :=
  "1000".toList

/-- The value of a parameter, if it has one. -/
def value? (s : State) (name : List Char) : Option (List Char) :=
  match name with
  | ['@'] => some (Text.join [' '] (s.parameters.map String.toList))
  | ['*'] => some (Text.join [' '] (s.parameters.map String.toList))
  | ['#'] => some (Text.decimal s.parameters.length)
  | ['?'] => some (Text.decimal s.status)
  | ['$'] => some processNumber
  | ['-'] => some (if s.stopsOnFailure then ['e'] else [])
  | ['0'] => some s.name.toList
  | _ =>
    if name.all Text.isDigit then
      (s.parameters[Text.decimalValue name - 1]?).map String.toList
    else (s.bindings.lookup name).join

/-- The shortest or longest part at the front of a text that has a pattern is taken off. -/
def withoutFront (longest : Bool) (pattern : List Glyph) (cs : List Char) : List Char :=
  let sizes := (List.range (cs.length + 1)).filter fun n => hasPattern pattern (cs.take n)
  match if longest then sizes.getLast? else sizes.head? with
  | some size => cs.drop size
  | none => cs

/-- The shortest or longest part at the end of a text that has a pattern is taken off. -/
def withoutEnd (longest : Bool) (pattern : List Glyph) (cs : List Char) : List Char :=
  let sizes := (List.range (cs.length + 1)).filter fun n => hasPattern pattern (cs.drop n)
  match if longest then sizes.head? else sizes.getLast? with
  | some size => cs.take size
  | none => cs

end State

/-- The changed value of a parameter. -/
def Change.apply (value? : Option (List Char)) : Change → List Char
  | keep => value?.getD []
  | size => Text.decimal (Utility.byteCount (value?.getD []))
  | otherwise alsoIfEmpty chars =>
    match value? with
    | none => chars
    | some value => if alsoIfEmpty && value.isEmpty then chars else value
  | instead alsoIfEmpty chars =>
    match value? with
    | none => []
    | some value => if !alsoIfEmpty && value.isEmpty then [] else chars
  | without atEnd longest chars =>
    let pattern := glyphs (chars.map fun c => (false, c))
    (if atEnd then State.withoutEnd else State.withoutFront) longest pattern (value?.getD [])

namespace State

/-! ## Words -/

/-- What a piece contributes to the fields of a word. -/
inductive Shred
  | char (c : Quoted)
  /-- The field before ends. -/
  | gap
  /-- There is a field, even if nothing else is in it. -/
  | quote

/-- What a value contributes: unquoted blanks are gaps. -/
def shredsOf (isQuoted : Bool) (chars : List Char) : List Shred :=
  if isQuoted then .quote :: chars.map fun c => .char (true, c)
  else chars.map fun c => if c ∈ [' ', '\t', '\n'] then .gap else .char (false, c)

/-- What several values contribute that are fields of their own. -/
def separateShreds (isQuoted : Bool) : List String → List Shred
  | [] => []
  | [text] => shredsOf isQuoted text.toList
  | text :: others => shredsOf isQuoted text.toList ++ .gap :: separateShreds isQuoted others

/-- What a piece contributes. -/
def shreds (s : State) (piece : Piece) : List Shred :=
  match piece.part with
  | .text chars =>
    if piece.isQuoted then shredsOf true chars else chars.map fun c => .char (false, c)
  | .value chars => shredsOf piece.isQuoted chars
  | .output _ => []
  | .parameter ['@'] .keep => separateShreds piece.isQuoted s.parameters
  | .parameter ['*'] .keep =>
    if piece.isQuoted then shredsOf true ((s.value? ['*']).getD [])
    else separateShreds false s.parameters
  | .parameter name change => shredsOf piece.isQuoted (change.apply (s.value? name))

/-- Whether a piece stands for all parameters as fields of their own. -/
def isAllParameters (piece : Piece) : Bool :=
  piece.isQuoted && piece.part matches .parameter ['@'] .keep

/-- The pieces of a word that count: without parameters, quotes around them make no field. -/
def counting (s : State) (word : Word) : Word :=
  if s.parameters.isEmpty && word.any isAllParameters then
    word.filter fun piece => !(piece.part matches .text [])
  else word

/-- The fields of some shreds, given the field begun. -/
def gather (begun : Option (List Quoted)) : List Shred → List (List Quoted)
  | [] => begun.toList
  | .gap :: others => begun.toList ++ gather none others
  | .quote :: others => gather (some (begun.getD [])) others
  | .char c :: others => gather (some (begun.getD [] ++ [c])) others

/-- The parts of a field between its slashes. -/
def segments (cs : List Quoted) : List (List Quoted) :=
  match cs with
  | [] => [[]]
  | c :: others =>
    if c.2 = '/' then [] :: segments others
    else match segments others with
      | [] => [[c]]
      | first :: more => (c :: first) :: more

/-- The texts that a field stands for: the names of files with its pattern, if there are any. -/
def textsOf (s : State) (field : List Quoted) : List String :=
  let plain := String.ofList (field.map Prod.snd)
  if !isPattern field then [plain]
  else match s.files.named ((segments field).map glyphs) with
    | [] => [plain]
    | names => names

/-- The fields that a word stands for. -/
def fields (s : State) (word : Word) : List String :=
  (gather none ((s.counting word).flatMap s.shreds)).flatMap s.textsOf

/-- The characters of a word that is one field whatever is in it. -/
def wholeField (s : State) (word : Word) : List Quoted :=
  word.flatMap fun piece =>
    let chars := match piece.part with
      | .text chars => chars
      | .value chars => chars
      | .output _ => []
      | .parameter name change => change.apply (s.value? name)
    chars.map fun c => (piece.isQuoted, c)

/-- The text of a word that is one field whatever is in it. -/
def wholeText (s : State) (word : Word) : List Char :=
  (s.wholeField word).map Prod.snd

/-! ## Variables -/

/-- The name and the word of an assignment. -/
def assignment? (word : Word) : Option (List Char × Word) :=
  let front := word.takeWhile fun piece => (piece.plain?).any (·.all Text.isWordChar)
  let name := front.flatMap fun piece => piece.plain?.getD []
  match word.drop front.length with
  | [] => none
  | piece :: text =>
    if piece.plain? = some ['='] ∧ name ≠ [] ∧ !name.head?.any Text.isDigit then some (name, text)
    else none

/-- The state with a variable set. -/
def bind (s : State) (name : List Char) (value? : Option (List Char)) : State :=
  { s with bindings := (name, value?) :: s.bindings }

/-- The assignments at the front of a command, and the other words. -/
def assignments : List Word → List (List Char × Word) × List Word
  | [] => ([], [])
  | word :: others =>
    match assignment? word with
    | some found => (found :: (assignments others).1, (assignments others).2)
    | none => ([], word :: others)

/-- The state with the variable set that an argument of the form `name=text` names. -/
def declare (s : State) (arg : String) : State :=
  let name := arg.toList.takeWhile (· ≠ '=')
  match arg.toList.drop name.length with
  | [] => s
  | _ :: text => s.bind name (some text)

end State

end Shell

end TradeScript
