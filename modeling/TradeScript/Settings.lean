import TradeScript.Failure
import TradeScript.Settings.Ini

/-!
# Settings of the compiler

The settings say how the compiler is called and where the templates are. They are checked as a whole
before any script is read; relative paths start at the folder of the settings file.
-/

namespace TradeScript

/-- How to compile plugins. -/
structure Settings where
  compiler : String
  flags : List String
  linkFlags : List String
  /-- The folder of the headers of the runtime. -/
  includeFolder : Path
  algorithmTemplate : Option Path
  indicatorTemplate : Option Path

namespace Settings

/-- A source of settings: the value of a key in a section. -/
abbrev Lookup := (group key : String) → Option String

/-- The value of a key, or a default if there is none. -/
def Lookup.getD (lookup : Lookup) (group key default : String) : String :=
  (lookup group key).getD default

/-- The flags of the compiler if none are given. -/
def defaultFlags : String :=
  "-shared -fPIC -O2 -std=c++17"

/-- The folder of the runtime headers if none is given. -/
def defaultIncludeFolder : String :=
  "../include"

/-- A text without blanks at its ends. -/
def trimmed (text : String) : String :=
  String.ofList (Text.trim text.toList)

/-- Whether a text consists of blanks. -/
def isBlankText (text : String) : Bool :=
  text.toList.all Text.isBlank

/-- The failure that the compiler is not given. -/
def compilerFault? (lookup : Lookup) : Option Failure :=
  match lookup "compiler" "cxx" with
  | none => some (.settingMissing "compiler" "cxx")
  | some value =>
    if isBlankText value then
      some (.settingInvalid "compiler" "cxx" "compiler path must not be empty")
    else none

/-- The failure that a key is given with a blank value. -/
def blankFault? (lookup : Lookup) (group key : String) : Option Failure :=
  match lookup group key with
  | some value =>
    if isBlankText value then
      some (.settingInvalid group key (key ++ " must not be empty when given"))
    else none
  | none => none

/-- The first failure of a check of all settings. -/
def fault? (lookup : Lookup) : Option Failure :=
  compilerFault? lookup <|> blankFault? lookup "compiler" "include_dir" <|>
    blankFault? lookup "templates" "algorithm" <|> blankFault? lookup "templates" "indicator"

/-- The words of a setting. -/
def wordsOf (text : String) : List String :=
  (Text.words text.toList).map String.ofList

/-- The settings that a lookup gives, with relative paths in the given folder. -/
def load (lookup : Lookup) (folder : Path) : Except Failure Settings :=
  match fault? lookup with
  | some failure => .error failure
  | none =>
    let path (text : String) : Path := folder.join ⟨trimmed text⟩
    .ok
      { compiler := trimmed (lookup.getD "compiler" "cxx" "")
        flags := wordsOf (lookup.getD "compiler" "cxxflags" defaultFlags)
        linkFlags := wordsOf (lookup.getD "compiler" "lflags" "")
        includeFolder := path (lookup.getD "compiler" "include_dir" defaultIncludeFolder)
        algorithmTemplate := (lookup "templates" "algorithm").map path
        indicatorTemplate := (lookup "templates" "indicator").map path }

/-- The settings in the text of a file, which failures call `file`. -/
def ofText (file text : String) (folder : Path) : Except Failure Settings :=
  match Ini.ofText text with
  | .error fault => .error (.settingsMalformed file fault.message)
  | .ok ini => load ini.get? folder

end Settings

end TradeScript
