import TradeScript.Path

/-!
# Arguments of the command line

`CommandLine.ofArguments?` reads the arguments: one script, the flags `-p` (`--print`) and `-E`
(`--expand`), and the options `-o` (`--output`) and `-c` (`--config`), each of which takes a path
and may be given once.
-/

namespace TradeScript

/-- What the command line asks for. -/
structure CommandLine where
  input : Path
  outputFolder : Option Path
  print : Bool
  expand : Bool
  settings : Option Path

namespace CommandLine

/-- The options that take a path. -/
inductive Opt
  | outputFolder
  | settings
  deriving DecidableEq

/-- The flags. -/
inductive Flag
  | print
  | expand
  deriving DecidableEq

/-- What was read of the arguments so far. -/
structure Partial where
  input : Option Path
  outputFolder : Option Path
  settings : Option Path
  print : Bool
  expand : Bool

namespace Partial

/-- Nothing read yet. -/
def empty : Partial :=
  ⟨none, none, none, false, false⟩

/-- One more script; there is room for one. -/
def addInput (p : Partial) (value : String) : Option Partial :=
  if p.input.isSome ∨ value.isEmpty then none else some { p with input := some ⟨value⟩ }

/-- One more option with its path. -/
def addOption (p : Partial) (value : String) : Opt → Option Partial
  | .outputFolder =>
    if p.outputFolder.isSome ∨ value.isEmpty then none
    else some { p with outputFolder := some ⟨value⟩ }
  | .settings =>
    if p.settings.isSome ∨ value.isEmpty then none else some { p with settings := some ⟨value⟩ }

/-- One more flag. -/
def addFlag (p : Partial) : Flag → Option Partial
  | .print => if p.print then none else some { p with print := true }
  | .expand => if p.expand then none else some { p with expand := true }

/-- The command line, if a script was given. -/
def complete (p : Partial) : Option CommandLine :=
  p.input.map fun input => ⟨input, p.outputFolder, p.print, p.expand, p.settings⟩

end Partial

/-- What a letter after one dash means. -/
def ofLetter? : Char → Option (Flag ⊕ Opt)
  | 'p' => some (.inl .print)
  | 'E' => some (.inl .expand)
  | 'o' => some (.inr .outputFolder)
  | 'c' => some (.inr .settings)
  | _ => none

/-- What a word after two dashes means. -/
def ofWord? : String → Option (Flag ⊕ Opt)
  | "print" => some (.inl .print)
  | "expand" => some (.inl .expand)
  | "output" => some (.inr .outputFolder)
  | "config" => some (.inr .settings)
  | _ => none

/-- Read letters after one dash. What follows the letter of an option is its path, after an equals
sign if there is one; an option without path is returned. -/
def readLetters (p : Partial) : List Char → Option (Partial × Option Opt)
  | [] => some (p, none)
  | c :: cs =>
    match ofLetter? c with
    | none => none
    | some (.inl flag) => (p.addFlag flag).bind (readLetters · cs)
    | some (.inr option) =>
      match cs with
      | [] => some (p, some option)
      | '=' :: value => (p.addOption (String.ofList value) option).map (·, none)
      | _ => (p.addOption (String.ofList cs) option).map (·, none)

/-- Read a word after two dashes; an option without path is returned. -/
def readWord (p : Partial) (cs : List Char) : Option (Partial × Option Opt) :=
  let value := cs.dropWhile (· ≠ '=')
  match ofWord? (String.ofList (cs.takeWhile (· ≠ '='))), value with
  | some (.inl flag), [] => (p.addFlag flag).map (·, none)
  | some (.inr option), [] => some (p, some option)
  | some (.inr option), _ :: value => (p.addOption (String.ofList value) option).map (·, none)
  | _, _ => none

/-- Read the remaining arguments; `pending` is an option that still needs its path. -/
def readAll (p : Partial) (pending : Option Opt) : List String → Option Partial
  | [] => if pending.isSome then none else some p
  | a :: others =>
    match a.toList, pending with
    | '-' :: '-' :: [], none => others.foldlM Partial.addInput p
    | '-' :: '-' :: [], some _ => none
    | '-' :: '-' :: word, none =>
      (readWord p word).bind fun (p, pending) => readAll p pending others
    | '-' :: c :: letters, none =>
      (readLetters p (c :: letters)).bind fun (p, pending) => readAll p pending others
    | '-' :: _ :: _, some _ => none
    | _, some option => (p.addOption a option).bind (readAll · none others)
    | _, none => (p.addInput a).bind (readAll · none others)

/-- The command line that some arguments make, none if they do not make one. -/
def ofArguments? (args : List String) : Option CommandLine :=
  (readAll .empty none args).bind Partial.complete

end CommandLine

end TradeScript
