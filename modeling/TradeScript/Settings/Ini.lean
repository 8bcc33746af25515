import TradeScript.Text.Blank
import TradeScript.Text.Lines
import TradeScript.Text.LowerCase

/-!
# Settings files

A settings file has a setting on each line, in sections with a heading in brackets. Sections and
keys are compared in lower case; a later setting hides earlier ones with its section and key.
-/

namespace TradeScript

/-- A setting: its section and key in lower case, and its value if it has one. -/
structure Setting where
  group : List Char
  key : List Char
  value : Option (List Char)

/-- The settings of a file, the last one first. -/
abbrev Ini := List Setting

namespace Ini

/-- What can be wrong with a settings file, with the number of the line. -/
inductive Fault
  | unclosedHeading (line : Nat)
  /-- Nothing stands before the delimiter, which has the given byte offset. -/
  | emptyKey (line offset : Nat)

/-- The text of a fault. -/
def Fault.message : Fault → String
  | unclosedHeading line =>
    "line " ++ toString line ++
      ": Found opening bracket for section name but no closing bracket"
  | emptyKey line offset =>
    "line " ++ toString line ++ ":" ++ toString offset ++ ": Key cannot be empty"

/-- The section of settings before the first heading. -/
def firstGroup : List Char :=
  "default".toList

/-- Whether a comment starts with a character. -/
def startsComment (c : Char) : Bool :=
  c == ';' || c == '#'

/-- Whether a character separates a key from its value. -/
def isDelimiter (c : Char) : Bool :=
  c == '=' || c == ':'

/-- What a line says, without blanks at its ends and without a comment. -/
def content (line : List Char) : List Char :=
  Text.trim ((Text.trim line).takeWhile (!startsComment ·))

/-- The heading of a section, from what follows its opening bracket. -/
def heading? (cs : List Char) : Option (List Char) :=
  match cs.reverse.dropWhile (· ≠ ']') with
  | [] => none
  | _ :: front => some (Text.lowerCase (Text.trim front.reverse))

/-- The setting on a line. -/
def setting (number : Nat) (group line : List Char) : Except Fault Setting :=
  let front := line.takeWhile (!isDelimiter ·)
  match line.dropWhile (!isDelimiter ·) with
  | [] => .ok ⟨group, Text.lowerCase line, none⟩
  | _ :: value =>
    let key := Text.trim front
    if key = [] then .error (.emptyKey number (String.ofList front).utf8ByteSize)
    else .ok ⟨group, Text.lowerCase key, some (Text.trim value)⟩

/-- The settings on some lines after those read before; the first line has the given number. -/
def ofLines (number : Nat) (group : List Char) (before : Ini) :
    List (List Char) → Except Fault Ini
  | [] => .ok before
  | line :: others =>
    match content line with
    | [] => ofLines (number + 1) group before others
    | '[' :: rest =>
      match heading? rest with
      | none => .error (.unclosedHeading number)
      | some group => ofLines (number + 1) group before others
    | c :: rest =>
      match setting number group (c :: rest) with
      | .error fault => .error fault
      | .ok new => ofLines (number + 1) group (new :: before) others

/-- The settings in a text. -/
def ofText (text : String) : Except Fault Ini :=
  ofLines 1 firstGroup [] (Text.lines text.toList)

/-- The value of a key in a section. -/
def get? (ini : Ini) (group key : String) : Option String :=
  let found := List.find? (fun s => s.group = Text.lowerCase group.toList ∧
    s.key = Text.lowerCase key.toList) ini
  found.bind fun s => s.value.map String.ofList

end Ini

end TradeScript
