import TradeScript.Command.Utility.Filter

/-!
# Utilities

The small programs that a compiler script may call, as functions on files, an input and arguments
(`Utility.run?`).
-/

namespace TradeScript

namespace Utility

/-! ## Files -/

/-- The complaint that a program misses an operand. -/
def missing (files : FileSet) (program what : String) : Effect :=
  .complaint files 1
    (program ++ ": missing " ++ what ++ "\nTry '" ++ program ++ " --help' for more information.")

/-- The complaint that a program cannot do something with a file. -/
def cannot (files : FileSet) (program action name : String) (reason : String) : Effect :=
  .complaint files 1 (program ++ ": cannot " ++ action ++ " '" ++ name ++ "': " ++ reason)

/-- The files without a folder and everything below it. -/
def withoutFolder (files : FileSet) (name : String) : FileSet :=
  let components := (Path.normalize ⟨name⟩).components
  let kept (p : Path) : Bool := !components.isPrefixOf p.components
  { files with
    files := files.files.filter fun f => kept f.1
    folders := (Path.folder (Path.normalize ⟨name⟩)) :: files.folders.filter kept }

/-- Remove files, and folders if asked to. -/
def remove (files : FileSet) (args : List String) : Effect :=
  if (operands args).isEmpty && !asks 'f' args then missing files "rm" "operand"
  else
    .onEach files (operands args) fun files name =>
      match files.textAt name with
      | .ok _ => .success (files.remove name) []
      | .error refusal =>
        if refusal = .isFolder then
          if asks 'r' args || asks 'R' args then .success (withoutFolder files name) []
          else cannot files "rm" "remove" name refusal.reason
        else if asks 'f' args then .success files []
        else cannot files "rm" "remove" name refusal.reason

/-- Remove empty folders. -/
def removeFolder (files : FileSet) (args : List String) : Effect :=
  .onEach files (operands args) fun files name =>
    let failed (reason : String) : Effect :=
      .complaint files 1 ("rmdir: failed to remove '" ++ name ++ "': " ++ reason)
    match files.textAt name with
    | .ok _ => failed Refusal.notFolder.reason
    | .error .isFolder =>
      let emptied := withoutFolder files name
      if emptied.files.length = files.files.length then .success emptied []
      else failed "Directory not empty"
    | .error refusal => failed refusal.reason

/-- Make folders. -/
def makeFolders (files : FileSet) (args : List String) : Effect :=
  .onEach files (operands args) fun files name =>
    let made := files.makeFolder ⟨name⟩
    match (if asks 'p' args then files.folderRefusal? ⟨name⟩
        else match files.place ⟨name⟩ with
          | .missing => files.writeRefusal? name
          | .file _ => some .fileExists
          | .folder => some .fileExists
          | _ => some (files.refusal ⟨name⟩)) with
    | some refusal => cannot files "mkdir" "create directory" name refusal.reason
    | none => .success made []

/-- The name of the file that a copy at a target gets. -/
def copyName (files : FileSet) (source target : String) : String :=
  if files.isFolder target then
    (Path.join ⟨target⟩ (Path.ofChars ((Path.fileName? ⟨source⟩).getD []))).text
  else target

/-- Copy files, and remove them if they are to be moved. -/
def copyEach (program : String) (isMoving : Bool) (files : FileSet) (sources : List String)
    (target : String) : Effect :=
  .onEach files sources fun files source =>
    match files.textAt source with
    | .ok text =>
      let name := copyName files source target
      match files.writeRefusal? name with
      | some refusal =>
        if isMoving then
          .complaint files 1 (program ++ ": cannot move '" ++ source ++ "' to '" ++ name ++
            "': " ++ refusal.reason)
        else
          let action := if refusal = .noSuchFile then "create regular file" else "stat"
          cannot files program action name refusal.reason
      | none =>
        if Path.normalize ⟨source⟩ == Path.normalize ⟨name⟩ then
          .complaint files 1
            (program ++ ": '" ++ source ++ "' and '" ++ name ++ "' are the same file")
        else
          let kept := if isMoving then files.remove source else files
          .success (kept.write name text) []
    | .error refusal =>
      if refusal = .isFolder then
        .complaint files 1 (program ++ ": -r not specified; omitting directory '" ++ source ++ "'")
      else cannot files program "stat" source refusal.reason

/-- Copy or move files to a file or into a folder. -/
def copy (program : String) (isMoving : Bool) (files : FileSet) (args : List String) : Effect :=
  match (operands args).reverse with
  | [] => missing files program "file operand"
  | [source] => missing files program ("destination file operand after '" ++ source ++ "'")
  | target :: sources =>
    if sources.length > 1 && !files.isFolder target then
      .complaint files 1 (program ++ ": target '" ++ target ++ "': " ++
        (if (files.textAt target).isOk then Refusal.notFolder else .noSuchFile).reason)
    else copyEach program isMoving files sources.reverse target

/-- Make sure that files exist. -/
def touch (files : FileSet) (args : List String) : Effect :=
  if (operands args).isEmpty then missing files "touch" "file operand"
  else
    .onEach files (operands args) fun files name =>
      if (files.textAt name).isOk || files.isFolder name then .success files []
      else match files.writeRefusal? name with
        | some refusal => cannot files "touch" "touch" name refusal.reason
        | none => .success (files.write name "") []

/-- Change the permissions of files, of which nothing is kept. -/
def changeMode (files : FileSet) (args : List String) : Effect :=
  .onEach files (operands args).tail fun files name =>
    if (files.textAt name).isOk || files.isFolder name then .success files []
    else cannot files "chmod" "access" name (files.refusal ⟨name⟩).reason

/-- The names in a folder that are shown, in alphabetical order. -/
def contents (files : FileSet) (showsAll : Bool) (name : String) : List String :=
  let components := (Path.normalize ⟨name⟩).components
  let below := (files.files.map Prod.fst ++ files.folders).filterMap fun p =>
    if components.isPrefixOf p.components then (p.components.drop components.length).head?
    else none
  let names := (below.filterMap fun
    | .name text => some text
    | _ => none).eraseDups
  let shown := names.filter fun text => showsAll || text.head? ≠ some '.'
  (shown.map String.ofList).mergeSort fun a b => !(b < a)

/-- List files and folders. -/
def listFiles (files : FileSet) (args : List String) : Effect :=
  let names := if (operands args).isEmpty then ["."] else operands args
  let lines (names : List String) := Text.unlines (names.map String.toList)
  let missing := names.filter fun name => !((files.textAt name).isOk || files.isFolder name)
  let plain := names.filter fun name => (files.textAt name).isOk
  let folders := names.filter files.isFolder
  let listing (name : String) : List Char :=
    (if names.length > 1 then name.toList ++ [':', '\n'] else []) ++
      lines (contents files (asks 'a' args || asks 'A' args) name)
  let complaints := missing.map fun name =>
    "ls: cannot access '" ++ name ++ "': " ++ (files.refusal ⟨name⟩).reason ++ "\n"
  ⟨files, Text.join ['\n'] ((if plain.isEmpty then [] else [lines plain]) ++ folders.map listing),
    (String.join complaints).toList, if missing.isEmpty then 0 else 2⟩

/-! ## Names -/

/-- Write the last part of a path, without an ending if one is given. -/
def baseName (files : FileSet) (args : List String) : Effect :=
  match operands args with
  | [] => missing files "basename" "operand"
  | name :: endings =>
    let trimmed := (name.toList.reverse.dropWhile (· = '/'))
    let last := trimmed.takeWhile (· ≠ '/')
    let shown := if last = [] then (name.toList.head?.toList) else last
    let kept := match endings.head?.bind fun e => Text.dropPrefix? e.toList.reverse shown with
      | some rest => if rest = [] then shown else rest
      | none => shown
    .success files (kept.reverse ++ ['\n'])

/-- Write a path without its last part. -/
def folderName (files : FileSet) (args : List String) : Effect :=
  .onEach files (operands args) fun files name =>
    .success files ((Path.folder ⟨name⟩).chars ++ ['\n'])

/-! ## Texts -/

/-- The character that an escape with a single letter stands for. -/
def escaped? (c : Char) : Option Char :=
  match c with
  | 'a' => some (Char.ofNat 7)
  | 'b' => some (Char.ofNat 8)
  | 'f' => some (Char.ofNat 12)
  | 'n' => some '\n'
  | 'r' => some '\r'
  | 't' => some '\t'
  | 'v' => some (Char.ofNat 11)
  | '\\' => some '\\'
  | _ => none

/-- A text with its escapes resolved. -/
def unescape : List Char → List Char
  | [] => []
  | '\\' :: c :: cs =>
    match escaped? c with
    | some d => d :: unescape cs
    | none => '\\' :: c :: unescape cs
  | c :: cs => c :: unescape cs

/-- Write the arguments with blanks between them. -/
def echo (files : FileSet) (args : List String) (resolves : Bool) : Effect :=
  let line (args : List String) : List Char :=
    let text := Text.join [' '] (args.map String.toList)
    if resolves then unescape text else text
  match args with
  | "-n" :: others => .success files (line others)
  | _ => .success files (line args ++ ['\n'])

/-- A format with arguments in the places of `%s`, `%d` and `%b`, and the arguments left. -/
def fillFormat : List Char → List String → List Char × List String
  | [], args => ([], args)
  | '%' :: '%' :: cs, args =>
    let (text, rest) := fillFormat cs args
    ('%' :: text, rest)
  | '%' :: c :: cs, args =>
    let arg := (args.headD "").toList
    let shown := match c with
      | 's' => some arg
      | 'd' => some (if arg = [] then ['0'] else arg)
      | 'b' => some (unescape arg)
      | _ => none
    let (text, rest) := fillFormat cs (if shown.isSome then args.tail else args)
    (shown.getD ['%', c] ++ text, rest)
  | c :: cs, args =>
    let (text, rest) := fillFormat cs args
    (c :: text, rest)

/-- A format filled again and again until no argument is left, but not more often than `rounds`. -/
def fillAll (format : List Char) : (rounds : Nat) → List String → List Char
  | 0, _ => []
  | rounds + 1, args =>
    let (text, rest) := fillFormat format args
    if rest.isEmpty || rest.length = args.length then text
    else text ++ fillAll format rounds rest

/-- Write arguments in a format. -/
def printf (files : FileSet) : List String → Effect
  | [] => .complaint files 2 "printf: usage: printf format [arg ...]"
  | "--" :: format :: args =>
    .success files (fillAll (unescape format.toList) (args.length + 1) args)
  | format :: args =>
    .success files (fillAll (unescape format.toList) (args.length + 1) args)

/-! ## Conditions -/

/-- The integer that a text denotes, if it is one. -/
def integer? (text : String) : Option Int :=
  match text.toList with
  | '-' :: digits =>
    if digits ≠ [] ∧ digits.all Text.isDigit then some (-(Text.decimalValue digits : Int)) else none
  | digits =>
    if digits ≠ [] ∧ digits.all Text.isDigit then some (Text.decimalValue digits : Int) else none

/-- A comparison of integers by its option. -/
def comparison? : String → Option (Int → Int → Bool)
  | "-eq" => some fun a b => a = b
  | "-ne" => some fun a b => a ≠ b
  | "-lt" => some fun a b => a < b
  | "-le" => some fun a b => a ≤ b
  | "-gt" => some fun a b => b < a
  | "-ge" => some fun a b => b ≤ a
  | _ => none

/-- Whether a condition on texts and files holds. -/
def holds (files : FileSet) : List String → Bool
  | [] => false
  | [a] => !a.isEmpty
  | ["-z", a] => a.isEmpty
  | ["-n", a] => !a.isEmpty
  | ["-f", a] => (files.textAt a).isOk
  | ["-e", a] => (files.textAt a).isOk || files.isFolder a
  | ["-r", a] => (files.textAt a).isOk || files.isFolder a
  | ["-w", a] => (files.textAt a).isOk || files.isFolder a
  | ["-x", a] => files.isFolder a
  | ["-d", a] => files.isFolder a
  | ["-s", a] => files.isFolder a || ((files.textAt a).toOption).any (!·.isEmpty)
  | ["!", a] => a.isEmpty
  | [a, "=", b] => a == b
  | [a, "!=", b] => a != b
  | "!" :: others => !holds files others
  | [a, operator, b] =>
    match comparison? operator, integer? a, integer? b with
    | some compare, some a, some b => compare a b
    | _, _, _ => false
  | _ => false

/-- The effect of a condition: its truth as a status. -/
def test (files : FileSet) (args : List String) : Effect :=
  .ofStatus files (if holds files args then 0 else 1)

/-- The effect of the utility with a given name, if there is one. -/
def run? (files : FileSet) (input : List Char) (name : String) (args : List String) :
    Option Effect :=
  match name with
  | "true" => some (.success files [])
  | "false" => some (.ofStatus files 1)
  | "sleep" => some (.success files [])
  | "echo" => some (echo files args false)
  | "printf" => some (printf files args)
  | "test" => some (test files args)
  | "[" => some (test files args.dropLast)
  | "cat" => some (concatenate files input args)
  | "head" => some (head files input args)
  | "tail" => some (tail files input args)
  | "wc" => some (wordCount files input args)
  | "sort" => some (sort files input args)
  | "grep" => some (grep files input args)
  | "tee" => some (tee files input args)
  | "rm" => some (remove files args)
  | "rmdir" => some (removeFolder files args)
  | "mkdir" => some (makeFolders files args)
  | "cp" => some (copy name false files args)
  | "ln" => some (copy name false files args)
  | "mv" => some (copy name true files args)
  | "touch" => some (touch files args)
  | "chmod" => some (changeMode files args)
  | "ls" => some (listFiles files args)
  | "basename" => some (baseName files args)
  | "dirname" => some (folderName files args)
  | _ => none

end Utility

end TradeScript
