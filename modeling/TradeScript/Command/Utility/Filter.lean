import TradeScript.Command.Utility.Effect
import TradeScript.Text.Numeral
import TradeScript.Text.Search

/-!
# Filters

Utilities that read files, or their input if none is named, and write what they find there.
-/

namespace TradeScript

namespace Utility

/-- The text that a name of a file stands for; a dash stands for the input. -/
def textOf (files : FileSet) (input : List Char) (name : String) : Except Refusal (List Char) :=
  if name = "-" then .ok input
  else (files.textAt name).map String.toList

/-- The names of the files to read. -/
def sources (args : List String) : List String :=
  if args.isEmpty then ["-"] else args

/-- The effect of reading some files: what is written of each, or a complaint. -/
def readEach (files : FileSet) (input : List Char) (names : List String)
    (complaint : String → Refusal → String) (written : List Char → List Char) : Effect :=
  .onEach files (sources names) fun files name =>
    match textOf files input name with
    | .ok text => .success files (written text)
    | .error refusal => .complaint files 1 (complaint name refusal)

/-- Write files to the output. -/
def concatenate (files : FileSet) (input : List Char) (args : List String) : Effect :=
  readEach files input (operands args)
    (fun name refusal => "cat: " ++ name ++ ": " ++ refusal.reason) id

/-- The first lines of a text with their ends. -/
def firstLines : Nat → List Char → List Char
  | _, [] => []
  | 0, _ => []
  | count + 1, c :: cs => c :: firstLines (if c = '\n' then count else count + 1) cs

/-- The number of lines that the arguments ask for, ten if none, and the other arguments. -/
def lineCount : List String → Nat × List String
  | "-n" :: count :: others => (Text.decimalValue count.toList, others)
  | arg :: others =>
    match arg.toList with
    | '-' :: 'n' :: c :: digits => (Text.decimalValue (c :: digits), others)
    | '-' :: c :: digits =>
      if Text.isDigit c then (Text.decimalValue (c :: digits), others) else (10, others)
    | _ => (10, arg :: others)
  | [] => (10, [])

/-- Write the first lines of files. -/
def head (files : FileSet) (input : List Char) (args : List String) : Effect :=
  let (count, names) := lineCount args
  readEach files input (operands names)
    (fun name refusal => "head: cannot open '" ++ name ++ "' for reading: " ++ refusal.reason)
    (firstLines count)

/-- Write the last lines of files. -/
def tail (files : FileSet) (input : List Char) (args : List String) : Effect :=
  let (count, names) := lineCount args
  readEach files input (operands names)
    (fun name refusal => "tail: cannot open '" ++ name ++ "' for reading: " ++ refusal.reason)
    fun text =>
      let kept := ((Text.lines text).reverse.take count).reverse
      let isEnded := text.getLast? = some '\n'
      if isEnded then Text.unlines kept else Text.join ['\n'] kept

/-- The number of bytes in a text. -/
def byteCount (text : List Char) : Nat :=
  (String.ofList text).utf8ByteSize

/-- What the options ask to be counted: lines, words, bytes. -/
def counts (args : List String) (text : List Char) : List Nat :=
  let all := !(asks 'l' args || asks 'w' args || asks 'c' args)
  (if all || asks 'l' args then [text.count '\n'] else []) ++
    (if all || asks 'w' args then [(Text.words text).length] else []) ++
    (if all || asks 'c' args then [byteCount text] else [])

/-- The width of a column of counts; a single one is not padded. -/
def countWidth (isFile : Bool) (columns : Nat) (text : List Char) : Nat :=
  if columns = 1 then 1
  else if isFile then (Text.decimal (byteCount text)).length
  else 7

/-- Count lines, words and bytes. -/
def wordCount (files : FileSet) (input : List Char) (args : List String) : Effect :=
  .onEach files (sources (operands args)) fun files name =>
    match textOf files input name with
    | .ok text =>
      let found := counts args text
      let isFile := !(operands args).isEmpty
      let width := countWidth isFile found.length text
      let columns := found.map fun n => Text.padLeft width (Text.decimal n)
      let label := if isFile then ' ' :: name.toList else []
      .success files (Text.join [' '] columns ++ label ++ ['\n'])
    | .error refusal => .complaint files 1 ("wc: " ++ name ++ ": " ++ refusal.reason)

/-- Write the lines of files in order. -/
def sort (files : FileSet) (input : List Char) (args : List String) : Effect :=
  .onEach files (sources (operands args)) fun files name =>
    match textOf files input name with
    | .ok text =>
      let sorted := ((Text.lines text).map String.ofList).mergeSort fun a b => !(b < a)
      let ordered := if asks 'r' args then sorted.reverse else sorted
      let chosen := if asks 'u' args then ordered.eraseDups else ordered
      .success files (Text.unlines (chosen.map String.toList))
    | .error refusal =>
      .complaint files 2 ("sort: cannot read: " ++ name ++ ": " ++ refusal.reason)

/-- The lines of a text that hold another one, or those that do not, with their numbers if they are
asked for. -/
def matching (args : List String) (wanted text : List Char) : List (List Char) :=
  let found := ((Text.lines text).zipIdx 1).filter fun (line, _) =>
    Text.occurs wanted line != asks 'v' args
  found.map fun (line, number) =>
    if asks 'n' args then Text.decimal number ++ ':' :: line else line

/-- Find the lines that hold a text: write them, their number or nothing. -/
def grep (files : FileSet) (input : List Char) (args : List String) : Effect :=
  match operands args with
  | wanted :: names =>
    let read := (sources names).map fun name => (name, textOf files input name)
    let found := read.filterMap fun (name, text) =>
      text.toOption.map fun text => (name, matching args wanted.toList text)
    let complaints := read.filterMap fun (name, text) =>
      match text with
      | .error refusal => some ("grep: " ++ name ++ ": " ++ refusal.reason ++ "\n")
      | .ok _ => none
    let label (name : String) : List Char :=
      if names.length > 1 then name.toList ++ [':'] else []
    let shown := found.flatMap fun (name, lines) =>
      if asks 'q' args then []
      else if asks 'c' args then label name ++ Text.decimal lines.length ++ ['\n']
      else lines.flatMap fun line => label name ++ line ++ ['\n']
    let status := if !complaints.isEmpty then 2 else if found.any (!·.2.isEmpty) then 0 else 1
    ⟨files, shown, (String.join complaints).toList, status⟩
  | [] =>
    .complaint files 2 ("Usage: grep [OPTION]... PATTERNS [FILE]...\n" ++
      "Try 'grep --help' for more information.")

/-- Write the input to files and to the output. -/
def tee (files : FileSet) (input : List Char) (args : List String) : Effect :=
  (Effect.success files input).andThen fun files =>
    .onEach files (operands args) fun files name =>
      match files.writeRefusal? name with
      | some refusal => .complaint files 1 ("tee: " ++ name ++ ": " ++ refusal.reason)
      | none =>
        let before := if asks 'a' args then ((files.textAt name).toOption).getD "" else ""
        .success (files.write name (before ++ String.ofList input)) []

end Utility

end TradeScript
