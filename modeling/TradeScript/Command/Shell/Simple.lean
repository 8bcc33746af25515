import TradeScript.Command.Shell.Control

/-!
# Simple commands

What a command does that consists of words: its words become fields, of which the first one names a
definition of the script, an operation of the shell or a program.
-/

namespace TradeScript

namespace Shell

/-! ## Operations of the shell -/

/-- The number that an argument denotes, if it does. -/
def number? (arg : String) : Option Nat :=
  if arg ≠ "" ∧ arg.toList.all Text.isDigit then some (Text.decimalValue arg.toList) else none

/-- The number in the first argument, or the given one without arguments. -/
def numberOr (line : Nat) (name : String) (usual : Nat) (args : List String) : Exec Nat := do
  match args with
  | [] => return usual
  | arg :: _ =>
    match number? arg with
    | some number => return number
    | none =>
      modify fun s => s.complain line (name ++ ": Illegal number: " ++ arg) 2
      throw (.exited 2)

/-- Drop parameters; to drop more than there are ends the script. -/
def shift (line : Nat) (args : List String) : Exec Unit := do
  let count ← numberOr line "shift" 1 args
  let s ← get
  if count ≤ s.parameters.length then
    set { s with parameters := s.parameters.drop count, status := 0 }
  else
    set (s.complain line "shift: can't shift that many" 2)
    throw (.exited 2)

/-- Send a signal to a process: the script ends if it is its own. -/
def kill (line : Nat) (args : List String) : Exec Unit := do
  if String.ofList State.processNumber ∉ args then
    modify fun s => s.complain line "kill: No such process\n" 1
  else if args.head? = some "-0" then modify fun s => { s with status := 0 }
  else throw .killed

/-- Change options and parameters. -/
def setOptions : List String → Exec Unit
  | [] => modify fun s => { s with status := 0 }
  | arg :: others => do
    modify fun s => { s with status := 0 }
    match arg.toList with
    | ['-', '-'] => modify fun s => { s with parameters := others }
    | '-' :: letters =>
      if 'e' ∈ letters then modify fun s => { s with stopsOnFailure := true }
      setOptions others
    | '+' :: letters =>
      if 'e' ∈ letters then modify fun s => { s with stopsOnFailure := false }
      setOptions others
    | _ => modify fun s => { s with parameters := arg :: others }

/-- Read a line of the input into variables; the last one takes the rest of the line. -/
def readLine (names : List String) : Exec Unit := do
  let s ← get
  let line := s.input.takeWhile (· ≠ '\n')
  let rest := s.input.drop line.length
  let (front, last) := (names.dropLast, names.getLast?)
  let words := Text.words line
  let firsts := (front.zip (words.take front.length ++ List.replicate front.length [])).map
    fun (name, value) => (name.toList, value)
  let remaining := Text.join [' '] (words.drop front.length)
  let all := firsts ++ (last.map fun name => (name.toList, remaining)).toList
  set { all.foldl (fun (s : State) (name, value) => s.bind name (some value)) s with
    input := rest.drop 1, status := if rest.isEmpty then 1 else 0 }

/-- The arguments of a utility that the shell has itself. -/
def ownEffect? (s : State) (name : String) (args : List String) : Option Effect :=
  if name = "echo" then some (Utility.echo s.files args true)
  else if '/' ∈ name.toList then none
  else Utility.run? s.files s.input name args

/-- The folders of programs that a name may start with. -/
def programFolders : List String :=
  ["/usr/bin/", "/bin/"]

/-- The name of a program without the folder of programs. -/
def programName (name : String) : String :=
  match programFolders.findSome? fun folder => Text.dropPrefix? folder.toList name.toList with
  | some rest => String.ofList rest
  | none => name

/-- Execute a program. A complaint about its name starts with the given text. -/
def execProgram (line : Nat) (caller name : String) (args : List String) : Exec Unit := do
  let s ← get
  let effect? := (ownEffect? s name args).orElse fun _ =>
    if programName name = name then none
    else Utility.run? s.files s.input (programName name) args
  match effect? with
  | some effect => set (s.after effect)
  | none =>
    let refused (reason : String) (status : Nat) : State :=
      s.complain line (caller ++ name ++ ": " ++ reason) status
    set <| if '/' ∈ name.toList then
        match s.files.place ⟨name⟩ with
        | .missing => refused "not found" 127
        | .blocked => refused "not found" 127
        | .overlong => refused Refusal.nameTooLong.reason 126
        | .file _ => refused Refusal.permissionDenied.reason 126
        | .folder => refused Refusal.permissionDenied.reason 126
      else refused "not found" 127

/-- Call a defined command. -/
def call (body : Exec Unit) (args : List String) : Exec Unit := do
  let ended ← ExceptT.lift <| ExceptT.run <| keeping (fun before after =>
    { after with parameters := before.parameters }) do
      modify fun s => { s with parameters := args }
      body
  match ended with
  | .error .returned => pure ()
  | .error stop => throw stop
  | .ok () => pure ()

/-- Execute the text of a script, and complain about its fault. -/
def executeText (execute : Command → Exec Unit) (text : List Char) : Exec Unit := do
  let script := Script.ofText text
  if script.lines.isEmpty then modify fun s => { s with status := 0 }
  script.lines.forM execute
  match script.fault with
  | none => pure ()
  | some fault =>
    modify fun s => s.complain fault.line ("Syntax error: " ++ fault.reason) 2
    throw (.exited 2)

/-- Execute a command that is given by its fields. -/
def executeFields (execute : Command → Exec Unit) (line : Nat) (name : String)
    (args : List String) : Exec Unit := do
  let s ← get
  match s.definitions.lookup name with
  | some body => call (execute body) args
  | none =>
    match name with
    | ":" => modify fun s => { s with status := 0 }
    | "exit" => throw (.exited ((← numberOr line name s.status args) % 256))
    | "return" =>
      let status ← numberOr line name s.status args
      modify fun s => { s with status := status % 256 }
      throw .returned
    | "break" => throw (.leave (← numberOr line name 1 args))
    | "continue" => throw (.again (← numberOr line name 1 args))
    | "shift" => shift line args
    | "set" => setOptions args
    | "kill" => kill line args
    | "read" => readLine (args.filter (!Utility.isOption ·))
    | "unset" =>
      modify fun s =>
        { args.foldl (fun (s : State) name => s.bind name.toList none) s with status := 0 }
    | "export" | "readonly" | "local" =>
      modify fun s => { args.foldl State.declare s with status := 0 }
    | "trap" | "umask" | "wait" | "ulimit" => modify fun s => { s with status := 0 }
    | "eval" => executeText execute (Text.join [' '] (args.map String.toList))
    | "." =>
      match args with
      | [] => modify fun s => { s with status := 0 }
      | file :: _ =>
        match s.files.textAt file with
        | .ok text => call (executeText execute text.toList) s.parameters
        | .error _ =>
          modify fun s => s.complain line (".: cannot open " ++ file ++ ": No such file") 2
          throw (.exited 2)
    | "exec" =>
      match args with
      | [] => pure ()
      | name :: args =>
        execProgram line "exec: " name args
        throw (.exited (← get).status)
    | "command" =>
      match args with
      | [] => pure ()
      | name :: args => execProgram line "" name args
    | _ => execProgram line "" name args

/-- Put the outputs of scripts into a word. -/
def substitute (execute : Command → Exec Unit) (word : Word) : Exec Word :=
  word.mapM fun piece => do
    match piece.part with
    | .output script =>
      let before := (← get).status
      let text ← collecting (executeText execute script)
      modify fun s => { s with outputStatus := s.status, status := before }
      return ⟨piece.isQuoted, .value (text.reverse.dropWhile (· = '\n')).reverse⟩
    | _ => return piece

/-- Set variables. -/
def assignAll (execute : Command → Exec Unit) : List (List Char × Word) → Exec Unit
  | [] => pure ()
  | (name, word) :: others => do
    let word ← substitute execute word
    modify fun s => s.bind name (some (s.wholeText word))
    assignAll execute others

/-- Execute a simple command. Without a program, its status is that of the last script in it. -/
def executeSimple (execute : Command → Exec Unit) (line : Nat) (words : List Word) :
    Exec Unit := do
  modify fun s => { s with outputStatus := 0 }
  let (assigned, others) := State.assignments words
  let others ← others.mapM (substitute execute)
  match others.flatMap (← get).fields with
  | name :: args => executeFields execute line name args
  | [] =>
    assignAll execute assigned
    modify fun s => { s with status := s.outputStatus }

end Shell

end TradeScript
