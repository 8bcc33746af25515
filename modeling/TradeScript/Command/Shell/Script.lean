import TradeScript.Command.Shell.Word

/-!
# Commands of shell scripts

The commands that a script is made of (`Command`), and how they are read from its items
(`Script.ofText`). A script is read one line after another, where a line goes on as long as a
command in it is open; the lines before a fault are executed.
-/

namespace TradeScript

namespace Shell

/-- A redirection: a stream, what becomes of it and the word that names its other end. -/
structure Redirection where
  stream : Stream
  turn : Turn
  word : Word

/-- A command of a script. -/
inductive Command
  /-- Assignments, a program and its arguments; the line is kept for complaints. -/
  | simple (line : Nat) (words : List Word)
  | nothing
  | sequence (first second : Command)
  /-- The second command if the first one succeeds. -/
  | both (first second : Command)
  /-- The second command if the first one fails. -/
  | either (first second : Command)
  | negation (command : Command)
  /-- The output of the first command is the input of the second one. -/
  | pipe (first second : Command)
  /-- A command that works on a copy of the variables. -/
  | apart (command : Command)
  | choice (condition consequence alternative : Command)
  | loop (isUntil : Bool) (condition body : Command)
  /-- A command for each of some words, or of the parameters. -/
  | each (name : List Char) (words : Option (List Word)) (body : Command)
  /-- The first of some commands with a pattern that a word has. -/
  | selection (word : Word) (branches : List (List Word × Command))
  | definition (name : String) (body : Command)
  | redirected (line : Nat) (command : Command) (redirections : List Redirection)

/-- Why a script cannot be read any further. -/
structure Fault where
  line : Nat
  reason : String

/-- A script: the commands of its lines, and the fault in the line after them. -/
structure Script where
  lines : List Command
  fault : Option Fault

namespace Script

/-- Items with the numbers of their lines. -/
abbrev Items := List (Nat × Item)

/-- The number of newlines in a piece. -/
def newlinesIn (piece : Piece) : Nat :=
  match piece.part with
  | .text chars => chars.count '\n'
  | .output chars => chars.count '\n'
  | _ => 0

/-- Items with the numbers of their lines, from a given one on. -/
def numbered (line : Nat) : List Item → Items
  | [] => [(line, .ending)]
  | .mark .newline :: others => (line, .mark .newline) :: numbered (line + 1) others
  | .word word :: others =>
    (line, .word word) :: numbered (line + (word.map newlinesIn).sum) others
  | item :: others => (line, item) :: numbered line others

/-- A step of reading, which takes items off the front or meets a fault. -/
abbrev Step :=
  StateT Items (Except Fault)

/-! ## Items at the front -/

/-- The words with a meaning of their own in the place of a command. -/
def reserved : List String :=
  ["!", "case", "do", "done", "elif", "else", "esac", "fi", "for", "if", "in", "then", "until",
    "while", "\x7b", "\x7d"]

/-- The words that end a list of commands. -/
def closers : List String :=
  ["do", "done", "elif", "else", "esac", "fi", "then", "\x7d"]

/-- The word with a meaning of its own that an item is. -/
def reserved? : Item → Option String
  | .word word => (plainText? word).filter (reserved.contains ·)
  | _ => none

/-- An item as complaints call it; in the place of a command, some words count for themselves. -/
def describe (startsCommand : Bool) : Item → String
  | .mark mark => mark.describe
  | .turn .. => "redirection"
  | .unclosed => "end of file"
  | .ending => "end of file"
  | .word word =>
    match reserved? (.word word) with
    | some text => if startsCommand then "\"" ++ text ++ "\"" else "word"
    | none => "word"

/-- The next item and its line. -/
def peek : Step (Nat × Item) := do
  return (← get).headD (0, .ending)

/-- Take the next item off. -/
def advance : Step Unit :=
  modify List.tail

/-- The fault that the next item is not acceptable, and what was expected. -/
def refuse {α : Type} (startsCommand : Bool) (expected : Option String) : Step α := do
  let (line, item) ← peek
  let ending := match expected with
    | some text => " (expecting " ++ text ++ ")"
    | none => ""
  match item with
  | .unclosed => throw ⟨line, "Unterminated quoted string"⟩
  | _ => throw ⟨line, describe startsCommand item ++ " unexpected" ++ ending⟩

/-- Take newlines off. -/
def skipNewlines : Step Unit :=
  modify fun items => items.dropWhile fun (_, item) => item matches .mark .newline

/-- Take a mark off if one of the given ones comes next. -/
def takeOneOf? (wanted : List Mark) : Step (Option Mark) := do
  match ← peek with
  | (_, .mark mark) =>
    if mark ∈ wanted then
      advance
      return some mark
    else return none
  | _ => return none

/-- Take a mark off if it comes next. -/
def take? (wanted : Mark) : Step Bool := do
  return (← takeOneOf? [wanted]).isSome

/-- Take a word with a meaning of its own off if it comes next. -/
def takeWord? (text : String) : Step Bool := do
  if reserved? (← peek).2 = some text then
    advance
    return true
  else return false

/-- Take a word with a meaning of its own off, which has to come next. -/
def expect (text : String) : Step Unit := do
  skipNewlines
  if !(← takeWord? text) then refuse true (some ("\"" ++ text ++ "\""))

/-- Take a word off, which has to come next. -/
def takeWord (expected : Option String) : Step Word := do
  match ← peek with
  | (_, .word word) =>
    advance
    return word
  | _ => refuse false expected

/-- Repeat a step that ends with `none`, as often as there are items at most. -/
def repeated {α : Type} (step : Step (Option α)) : (rounds : Nat) → Step (List α)
  | 0 => return []
  | rounds + 1 => do
    match ← step with
    | none => return []
    | some a => return a :: (← repeated step rounds)

/-- Repeat a step that ends with `none`. -/
def many {α : Type} (step : Step (Option α)) : Step (List α) := do
  repeated step ((← get).length + 1)

/-! ## Simple commands -/

/-- Take a word or a redirection off. -/
def element? (takesWords : Bool) : Step (Option (Word ⊕ Redirection)) := do
  match ← peek with
  | (_, .word word) =>
    if takesWords then
      advance
      return some (.inl word)
    else return none
  | (_, .turn stream turn) =>
    advance
    return some (.inr ⟨stream, turn, ← takeWord none⟩)
  | _ => return none

/-- The words among some elements. -/
def wordsOf (elements : List (Word ⊕ Redirection)) : List Word :=
  elements.filterMap (·.getLeft?)

/-- A command with the redirections among some elements. -/
def redirect (line : Nat) (command : Command) (elements : List (Word ⊕ Redirection)) : Command :=
  match elements.filterMap (·.getRight?) with
  | [] => command
  | redirections => .redirected line command redirections

/-- Read a simple command. -/
def simple (line : Nat) : Step Command := do
  let elements ← many (element? true)
  return redirect line (.simple line (wordsOf elements)) elements

/-! ## Lists of commands -/

/-- Read commands that are joined by pipes. -/
def pipes (command : Step Command) : (rounds : Nat) → Step Command
  | 0 => command
  | rounds + 1 => do
    let first ← command
    if ← take? .pipe then
      skipNewlines
      return .pipe first (← pipes command rounds)
    else return first

/-- Read a pipeline, which may be negated. -/
def pipeline (command : Step Command) : Step Command := do
  let isNegated ← takeWord? "!"
  let read ← pipes command (← get).length
  return if isNegated then .negation read else read

/-- Read a command that is joined to the ones before it by their success. -/
def joined? (command : Step Command) : Step (Option (Bool × Command)) := do
  match ← takeOneOf? [.both, .either] with
  | none => return none
  | some mark =>
    skipNewlines
    return some (mark = .both, ← pipeline command)

/-- Read commands that are joined by their success. -/
def chain (command : Step Command) : Step Command := do
  let first ← pipeline command
  let others ← many (joined? command)
  return others.foldl (fun read (both, next) =>
    if both then .both read next else .either read next) first

/-- Whether a list of commands ends before an item. -/
def isCloser (item : Item) : Bool :=
  match item with
  | .mark mark => mark ∈ [.closing, .doubleSemicolon]
  | .ending => true
  | _ => (reserved? item).any (closers.contains ·)

/-- Take the end of a command off; a list that is not nested stops before the end of the line. -/
def separated (isNested : Bool) : Step Bool := do
  let ends := [Mark.semicolon, .background] ++ if isNested then [.newline] else []
  return (← takeOneOf? ends).isSome

/-- Read the commands of a list, as many as the rounds allow. -/
def listed (command : Step Command) (isNested mayBeEmpty : Bool) : (rounds : Nat) → Step Command
  | 0 => return .nothing
  | rounds + 1 => do
    if isNested then skipNewlines
    let (_, item) ← peek
    if mayBeEmpty && (isCloser item || item matches .mark .newline) then return .nothing
    if isNested && item matches .ending then return .nothing
    let first ← chain command
    if ← separated isNested then
      return .sequence first (← listed command isNested true rounds)
    else return first

/-- Read a list of commands. -/
def list (command : Step Command) (isNested mayBeEmpty : Bool) : Step Command := do
  listed command isNested mayBeEmpty ((← get).length + 1)

/-! ## Compound commands -/

/-- Read a list of commands between `do` and `done`. -/
def block (command : Step Command) : Step Command := do
  expect "do"
  let body ← list command true false
  expect "done"
  return body

/-- Read a conditional after its `if`, with as many alternatives as the rounds allow. Without an
alternative, the empty command stands for it, which succeeds. -/
def conditional (command : Step Command) : (rounds : Nat) → Step Command
  | 0 => refuse true (some "\"fi\"")
  | rounds + 1 => do
    let condition ← list command true false
    expect "then"
    let consequence ← list command true false
    if ← takeWord? "elif" then
      return .choice condition consequence (← conditional command rounds)
    let alternative ← if ← takeWord? "else" then list command true false
      else pure (.simple 0 [])
    expect "fi"
    return .choice condition consequence alternative

/-- Read a loop over words after its `for`. -/
def each (command : Step Command) : Step Command := do
  let (line, item) ← peek
  if !(item matches .word ..) then throw ⟨line, "Bad for loop variable"⟩
  let name := ((plainText? (← takeWord none)).getD "").toList
  if ← take? .semicolon then return .each name none (← block command)
  skipNewlines
  if ← takeWord? "in" then
    let words := wordsOf (← many (element? true))
    if !(← separated true) then refuse false none
    return .each name (some words) (← block command)
  else return .each name none (← block command)

/-- Read one more pattern of a branch. -/
def pattern? : Step (Option Word) := do
  if ← take? .pipe then return some (← takeWord none) else return none

/-- Read a branch of a selection; there is none before `esac`. -/
def branch? (command : Step Command) : Step (Option (List Word × Command)) := do
  skipNewlines
  if reserved? (← peek).2 = some "esac" then return none
  let _ ← take? .opening
  let first ← takeWord (some Mark.closing.describe)
  let others ← many pattern?
  if !(← take? .closing) then refuse false (some Mark.closing.describe)
  let body ← list command true true
  if !(← take? .doubleSemicolon) then
    if reserved? (← peek).2 ≠ some "esac" then
      refuse true (some Mark.doubleSemicolon.describe)
  return some (first :: others, body)

/-- Read a selection after its `case`. -/
def selection (command : Step Command) : Step Command := do
  let word ← takeWord none
  expect "in"
  let branches ← many (branch? command)
  expect "esac"
  return .selection word branches

/-- Read a command that starts with a word without a meaning of its own: a definition if the word
is followed by parentheses. -/
def plain (command : Step Command) (line : Nat) : Step Command := do
  match ← get with
  | (_, .word word) :: (_, .mark .opening) :: others =>
    set others
    if !(← take? .closing) then refuse false (some Mark.closing.describe)
    skipNewlines
    return .definition ((plainText? word).getD "") (← command)
  | _ => simple line

/-- Read a loop after its `while` or `until`. -/
def loop (command : Step Command) (isUntil : Bool) : Step Command := do
  let condition ← list command true false
  return .loop isUntil condition (← block command)

/-- Read a list of commands up to a brace. -/
def braces (command : Step Command) : Step Command := do
  let body ← list command true false
  expect "\x7d"
  return body

/-- Read a list of commands up to a parenthesis. -/
def parentheses (command : Step Command) : Step Command := do
  let body ← list command true false
  if !(← take? .closing) then refuse true (some Mark.closing.describe)
  return .apart body

/-- How a command goes on that starts with an item, if it is a compound one. -/
def compound? (command : Step Command) (item : Item) : Option (Step Command) :=
  if item matches .mark .opening then some (parentheses command)
  else match reserved? item with
    | some "\x7b" => some (braces command)
    | some "if" => some do conditional command (← get).length
    | some "while" => some (loop command false)
    | some "until" => some (loop command true)
    | some "for" => some (each command)
    | some "case" => some (selection command)
    | _ => none

/-- Read a command; those inside it have less fuel. -/
def command : (fuel : Nat) → Step Command
  | 0 => refuse true none
  | fuel + 1 => do
    let inner := command fuel
    let (line, item) ← peek
    match compound? inner item with
    | some others =>
      advance
      let read ← others
      return redirect line read (← many (element? false))
    | none =>
      if item matches .turn .. then simple line
      else if item matches .word .. && (reserved? item).isNone then plain inner line
      else refuse true none

/-! ## Scripts -/

/-- Read the commands of a line, up to its end; there is none after the last line. -/
def line? : Step (Option Command) := do
  skipNewlines
  if (← peek).2 matches .ending then return none
  let read ← list (command (← get).length) false false
  let (_, item) ← peek
  if !(item matches .ending || item matches .mark .newline) then refuse true none
  return some read

/-- The lines of a script with the given items, as many as the rounds allow. -/
def linesOf : (rounds : Nat) → Items → Script
  | 0, _ => ⟨[], none⟩
  | rounds + 1, items =>
    match line?.run items with
    | .error fault => ⟨[], some fault⟩
    | .ok (none, _) => ⟨[], none⟩
    | .ok (some command, rest) =>
      let others := linesOf rounds rest
      ⟨command :: others.lines, others.fault⟩

/-- The commands of a script. -/
def ofText (script : List Char) : Script :=
  let items := numbered 1 (items script)
  linesOf items.length items

end Script

end Shell

end TradeScript
