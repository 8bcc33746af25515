import TradeScript.Command.Shell.Simple

/-!
# Compiler scripts

A compiler can be a shell script. `Shell.run` executes the language of the shell without arithmetic,
here-documents and jobs. A script that takes more steps than `maxSteps` inside one another counts as
ended.
-/

namespace TradeScript

namespace Shell

/-- Whether a word is one of the patterns of a branch. -/
def hasAnyPattern (s : State) (text : List Char) (patterns : List Word) : Bool :=
  patterns.any fun pattern => hasPattern (glyphs (s.wholeField pattern)) text

/-- Execute a command; those inside it have less fuel. The command is tested if something depends
on its status. -/
def execute : (fuel : Nat) → (isTested : Bool) → Command → Exec Unit
  | 0, _, _ => throw (.exited 2)
  | fuel + 1, isTested, command => do
    let inner := execute fuel isTested
    match command with
    | .nothing => pure ()
    | .simple line words =>
      executeSimple inner line words
      checkFailure isTested
    | .sequence first second =>
      inner first
      inner second
    | .both first second =>
      execute fuel true first
      if (← get).status = 0 then inner second
    | .either first second =>
      execute fuel true first
      if (← get).status ≠ 0 then inner second
    | .negation command =>
      execute fuel true command
      modify fun s => { s with status := if s.status = 0 then 1 else 0 }
    | .pipe first second =>
      let text ← collecting (inner first)
      apart do
        modify fun s => { s with input := text }
        inner second
      checkFailure isTested
    | .apart command =>
      apart (inner command)
      checkFailure isTested
    | .choice condition consequence alternative =>
      execute fuel true condition
      if (← get).status = 0 then inner consequence else inner alternative
    | .loop isUntil condition body =>
      loop isUntil (execute fuel true condition) (inner body) fuel 0
    | .each name words body =>
      let texts ← match words with
        | none => pure (← get).parameters
        | some words => do
          let words ← words.mapM (substitute inner)
          pure (words.flatMap (← get).fields)
      modify fun s => { s with status := 0 }
      forEach name (inner body) texts
    | .selection word branches =>
      let word ← substitute inner word
      let s ← get
      set { s with status := 0 }
      match branches.find? fun (patterns, _) =>
          hasAnyPattern s (s.wholeText word) patterns with
      | some (_, body) => inner body
      | none => pure ()
    | .definition name body =>
      modify fun s => { s with definitions := (name, body) :: s.definitions, status := 0 }
    | .redirected line command redirections =>
      redirected line redirections (inner command)
      checkFailure isTested

/-- The most steps that are executed inside one another. -/
def maxSteps : Nat :=
  10000

/-- How a program ends. -/
inductive Ending
  | exited (status : Nat)
  | killed
  deriving DecidableEq

/-- Execute a script: what it changes and writes, and how it ends. -/
def run (start : State) (script : String) : State × Ending :=
  let (result, s) := ((executeText (execute maxSteps false) script.toList).run.run start)
  match result with
  | .error (.exited status) => (s, .exited status)
  | .error .killed => (s, .killed)
  | _ => (s, .exited s.status)

end Shell

end TradeScript
