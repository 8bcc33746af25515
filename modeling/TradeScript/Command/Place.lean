import TradeScript.Path.Normal
import TradeScript.Source.FileSet

/-!
# Places below a working folder

What a path leads to when a set of files lies below the working folder (`FileSet.place`); a part of
a path before its last one has to be a folder, and names and paths have a greatest length. The
reasons of the system for a refused request are collected in `Refusal`.
-/

namespace TradeScript

/-- Why the system refuses a request. -/
inductive Refusal
  | noSuchFile
  | argumentTooLong
  | permissionDenied
  | fileExists
  | notFolder
  | isFolder
  | nameTooLong
  /-- A path holds the character that ends texts of the system. -/
  | nulInPath
  /-- So does the name or an argument of a program. -/
  | nulInArgument
  deriving DecidableEq

/-- What a refusal says. -/
def Refusal.reason : Refusal → String
  | noSuchFile => "No such file or directory"
  | argumentTooLong => "Argument list too long"
  | permissionDenied => "Permission denied"
  | fileExists => "File exists"
  | notFolder => "Not a directory"
  | isFolder => "Is a directory"
  | nameTooLong => "File name too long"
  | nulInPath => "file name contained an unexpected NUL byte"
  | nulInArgument => "nul byte found in provided data"

/-- The number that the system gives to a refusal of its own. -/
def Refusal.number? : Refusal → Option Nat
  | noSuchFile => some 2
  | argumentTooLong => some 7
  | permissionDenied => some 13
  | fileExists => some 17
  | notFolder => some 20
  | isFolder => some 21
  | nameTooLong => some 36
  | nulInPath => none
  | nulInArgument => none

/-- The text of a refusal. -/
def Refusal.message (refusal : Refusal) : String :=
  match refusal.number? with
  | some number => refusal.reason ++ " (os error " ++ toString number ++ ")"
  | none => refusal.reason

/-- The character that ends texts of the system. -/
def nul : Char :=
  Char.ofNat 0

/-- The most bytes in the name of a file. -/
def maxNameSize : Nat :=
  255

/-- The most bytes in a path. -/
def maxPathSize : Nat :=
  4095

/-- Whether a component is longer than names can be. -/
def Path.Component.isOverlong (c : Path.Component) : Bool :=
  (String.ofList c.chars).utf8ByteSize > maxNameSize

/-- What stands at a path. -/
inductive Place
  | file (text : String)
  | folder
  | missing
  /-- A part of the path that has to be a folder is a file. -/
  | blocked
  /-- The path, or a name that is looked for, is too long. -/
  | overlong

namespace FileSet

/-- Whether some components lead to a folder, which is so if a file or folder lies below them. -/
def hasFolder (s : FileSet) (reached : List Path.Component) : Bool :=
  reached.isEmpty || (s.files.any fun (p, _) =>
    reached.isPrefixOf p.components && reached != p.components) ||
    s.folders.any fun p => reached.isPrefixOf p.components

/-- The text of the file with the given components. -/
def textAt? (s : FileSet) (reached : List Path.Component) : Option String :=
  (s.files.find? fun f => f.1.components = reached).map Prod.snd

/-- The folder above the one that some components lead to. -/
def folderAbove (reached : List Path.Component) : List Path.Component :=
  match reached.getLast? with
  | none => [.up]
  | some .up => reached ++ [.up]
  | some .root => reached
  | some _ => reached.dropLast

/-- How a path is followed: whether a file at its end does not count, and whether folders that are
missing are made on the way or at the end. -/
structure Walk where
  mustBeFolder : Bool
  makesOnTheWay : Bool
  makesLast : Bool

/-- The walk that makes nothing. -/
def Walk.plain (mustBeFolder : Bool) : Walk :=
  ⟨mustBeFolder, false, false⟩

/-- The path of the folder that some components lead to. -/
def pathTo (reached : List Path.Component) : Path :=
  Path.ofChars (Path.Component.render reached)

/-- What stands at the end of some components that are followed from a folder. -/
def placeFrom (s : FileSet) (walk : Walk) (reached : List Path.Component) :
    List Path.Component → Place
  | [] => .folder
  | .here :: others => placeFrom s walk reached others
  | .up :: others => placeFrom s walk (folderAbove reached) others
  | c :: others =>
    let next := reached ++ [c]
    if c.isOverlong then .overlong
    else if s.hasFolder next || c = .root then placeFrom s walk next others
    else
      match s.textAt? next with
      | some text => if others.isEmpty && !walk.mustBeFolder then .file text else .blocked
      | none =>
        if if others.isEmpty then walk.makesLast else walk.makesOnTheWay then
          placeFrom { s with folders := pathTo next :: s.folders } walk next others
        else .missing

/-- Whether the last thing that a path says is a dot. -/
def endsInDot (p : Path) : Bool :=
  let said := p.chars.reverse.dropWhile (· = '/')
  said.takeWhile (· ≠ '/') = ['.']

/-- What stands at a path. -/
def place (s : FileSet) (p : Path) : Place :=
  if p.chars = [] then .missing
  else if p.text.utf8ByteSize > maxPathSize then .overlong
  else placeFrom s (.plain (endsInDot p || p.chars.getLast? = some '/')) [] p.components

/-- Why no file can be read at a path. -/
def refusal (s : FileSet) (p : Path) : Refusal :=
  if nul ∈ p.chars then .nulInPath
  else
    match s.place p with
    | .folder => .isFolder
    | .blocked => .notFolder
    | .overlong => .nameTooLong
    | .file _ => .noSuchFile
    | .missing => .noSuchFile

/-- The text of the file that a path leads to. -/
def read (s : FileSet) (p : Path) : Except Failure String :=
  match s.place p with
  | .file text => .ok text
  | _ => .error (.unreadable p (s.refusal p).message)

/-- The folders that are there on every system. -/
def systemFolders : List Path :=
  ["/bin", "/dev", "/etc", "/home", "/lib", "/opt", "/proc", "/root", "/tmp", "/usr/bin",
    "/usr/include", "/usr/lib", "/usr/local/bin", "/var/tmp"].map Path.mk

/-- The file that is empty whatever is written to it. -/
def nullFile : Path :=
  ⟨"/dev/null"⟩

/-- The files below a working folder, under their normal paths, and those of the system. -/
def belowFolder (files : List (Path × String)) : FileSet :=
  let placed := files.foldl (fun (s : FileSet) f => s.put f.1.normalize f.2)
    { FileSet.empty with files := [(nullFile, "")], folders := systemFolders }
  { placed with absence := fun p => (placed.refusal p).message }

/-- Why a folder cannot be made at a path together with the folders above it. A dot at the end of
the path is for a folder that exists by then. -/
def folderRefusal? (s : FileSet) (p : Path) : Option Refusal :=
  if nul ∈ p.chars then some .nulInPath
  else if p.text.utf8ByteSize > maxPathSize then some .nameTooLong
  else
    match placeFrom s (.plain (endsInDot p)) [] p.components with
    | .folder => none
    | .file _ => some .fileExists
    | .blocked => some .notFolder
    | .overlong => some .nameTooLong
    | .missing =>
      match placeFrom s ⟨endsInDot p, true, !endsInDot p⟩ [] p.components with
      | .folder => none
      | .file _ => some .fileExists
      | .blocked => some .fileExists
      | .overlong => some .nameTooLong
      | .missing => some .noSuchFile

/-- The folders that are passed when some components are followed from a folder. -/
def foldersOn (reached : List Path.Component) : List Path.Component → List (List Path.Component)
  | [] => [reached]
  | .here :: others => foldersOn reached others
  | .up :: others => reached :: foldersOn (folderAbove reached) others
  | c :: others => reached :: foldersOn (reached ++ [c]) others

/-- The files after folders are made at a path and wherever it passes. -/
def makeFolder (s : FileSet) (p : Path) : FileSet :=
  { s with folders := (foldersOn [] p.components).map pathTo ++ s.folders }

/-- The files without the one that a path leads to, if it leads to one. -/
def withoutFileAt (s : FileSet) (p : Path) : FileSet :=
  match s.place p with
  | .file _ => s.erase p.normalize
  | _ => s

/-- The text of the file that a name of a path leads to. -/
def textAt (s : FileSet) (name : String) : Except Refusal String :=
  match s.place ⟨name⟩ with
  | .file text => .ok text
  | _ => .error (s.refusal ⟨name⟩)

/-- Whether a name of a path leads to a folder. -/
def isFolder (s : FileSet) (name : String) : Bool :=
  s.place ⟨name⟩ matches .folder

/-- Why no file can be written at a name of a path. -/
def writeRefusal? (s : FileSet) (name : String) : Option Refusal :=
  match s.place ⟨name⟩ with
  | .file _ => none
  | .missing =>
    match s.place (Path.folder ⟨name⟩) with
    | .folder => if name.isEmpty then some .noSuchFile else none
    | .file _ => some .notFolder
    | _ => some .noSuchFile
  | _ => some (s.refusal ⟨name⟩)

/-- The files with the given text at a name of a path. -/
def write (s : FileSet) (name text : String) : FileSet :=
  s.put (Path.normalize ⟨name⟩) text

/-- The files without the one at a name of a path, whose folder stays. -/
def remove (s : FileSet) (name : String) : FileSet :=
  let p := Path.normalize ⟨name⟩
  (s.erase p).makeFolder p.folder

end FileSet

end TradeScript
