import TradeScript.Command.Shell.State

/-!
# Control of shell scripts

Computations on the state of a script that something may stop (`Exec`): copies of the state, loops,
and redirected streams.
-/

namespace TradeScript

namespace Shell

/-- Why the commands after one are not executed. -/
inductive Stop
  | exited (status : Nat)
  | killed
  /-- The given number of loops is left. -/
  | leave (loops : Nat)
  /-- All but one of the given number of loops are left, and this one goes on. -/
  | again (loops : Nat)
  | returned
  deriving DecidableEq

/-- A computation that changes the state of a script and may stop it. -/
abbrev Exec :=
  ExceptT Stop (StateM State)

/-! ## Parts of scripts -/

/-- A computation after which some parts of the state are as they were before, however it ends. -/
def keeping {α : Type} (restored : (before after : State) → State) (run : Exec α) : Exec α :=
  ExceptT.mk do
    let before ← get
    let result ← run.run
    modify (restored before)
    return result

/-- A computation on copies of the parameters, variables and sinks; only killing stops what comes
after it. -/
def apart (run : Exec Unit) : Exec Unit := do
  let ended ← ExceptT.lift <| ExceptT.run <| keeping (fun before after =>
    { before with
      files := after.files, output := after.output, errors := after.errors,
      collected := after.collected, status := after.status }) run
  match ended with
  | .error (.exited status) => modify fun s => { s with status }
  | .error .killed => throw .killed
  | _ => pure ()

/-- The output of a computation on copies. -/
def collecting (run : Exec Unit) : Exec (List Char) := do
  let before ← get
  modify fun s => { s with collected := [], outputSink := .collected }
  apart run
  let text := (← get).collected
  modify fun s => { s with collected := before.collected, outputSink := before.outputSink }
  return text

/-- End the script if it stops on failures and the last command failed. -/
def checkFailure (isTested : Bool) : Exec Unit := do
  let s ← get
  if s.stopsOnFailure && !isTested && s.status ≠ 0 then throw (.exited s.status)

/-- One round of a loop, and whether the loop goes on. -/
def round (body : Exec Unit) : Exec Bool := do
  match ← ExceptT.lift body.run with
  | .ok () => return true
  | .error (.leave loops) => if loops ≤ 1 then return false else throw (.leave (loops - 1))
  | .error (.again loops) => if loops ≤ 1 then return true else throw (.again (loops - 1))
  | .error stop => throw stop

/-- Execute a body as long as a condition holds; the status is that of the last body. -/
def loop (isUntil : Bool) (condition body : Exec Unit) : (rounds status : Nat) → Exec Unit
  | 0, _ => throw (.exited 2)
  | rounds + 1, status => do
    if !(← round condition) then return
    if ((← get).status ≠ 0) = isUntil then
      if ← round body then loop isUntil condition body rounds (← get).status
    else modify fun s => { s with status }

/-- Execute a body for each value of a variable. -/
def forEach (name : List Char) (body : Exec Unit) : List String → Exec Unit
  | [] => pure ()
  | text :: others => do
    modify fun s => s.bind name (some text.toList)
    if ← round body then forEach name body others

/-! ## Redirections -/

/-- The sink that a stream with a number has. -/
def sinkOf (s : State) (number : List Char) : Sink :=
  match number with
  | ['1'] => s.outputSink
  | ['2'] => s.errorSink
  | _ => .nowhere

/-- The state with another sink for a stream. -/
def setSink (s : State) (stream : Stream) (sink : Sink) : State :=
  match stream with
  | .output => { s with outputSink := sink }
  | .errors => { s with errorSink := sink }
  | .input => s

/-- The sink for a file that is opened to be written, or why it cannot be opened. -/
def openFile (s : State) (name : String) (append : Bool) : Except String (State × Sink) :=
  if name = FileSet.nullFile.text then .ok (s, .nowhere)
  else
    match s.files.writeRefusal? name with
    | some refusal =>
      .error (if refusal = .noSuchFile then "Directory nonexistent" else refusal.reason)
    | none =>
      let before := if append then ((s.files.textAt name).toOption).getD "" else ""
      .ok ({ s with files := s.files.write name before }, .file name)

/-- Redirect a stream, and whether that was possible. -/
def redirect (line : Nat) (r : Redirection) : Exec Bool := do
  let s ← get
  let name := String.ofList (s.wholeText r.word)
  match r.turn with
  | .same =>
    set (setSink s r.stream (sinkOf s name.toList))
    return true
  | .source =>
    match s.files.textAt name with
    | .ok text =>
      set { s with input := text.toList }
      return true
    | .error refusal =>
      let reason := if refusal = .noSuchFile then "No such file" else refusal.reason
      set (s.complain line ("cannot open " ++ name ++ ": " ++ reason) 2)
      return false
  | .target append =>
    match openFile s name append with
    | .ok (s, sink) =>
      set (setSink s r.stream sink)
      return true
    | .error reason =>
      set (s.complain line ("cannot create " ++ name ++ ": " ++ reason) 2)
      return false

/-- Redirect streams one after another, as long as that is possible. -/
def redirectAll (line : Nat) : List Redirection → Exec Bool
  | [] => return true
  | r :: others => do
    if ← redirect line r then redirectAll line others else return false

/-- A computation with redirected streams. -/
def redirected (line : Nat) (redirections : List Redirection) (run : Exec Unit) : Exec Unit :=
  keeping (fun before after =>
      { after with
        input := before.input, outputSink := before.outputSink, errorSink := before.errorSink })
    do if ← redirectAll line redirections then run

end Shell

end TradeScript
