import TradeScript.Code.Layout
import TradeScript.Code.Literal
import TradeScript.Grammar.Script
import TradeScript.Requirement.Graph
import TradeScript.Template
import TradeScript.Tree.Parsing

/-!
# Plugins

A plugin is composed from an algorithm script and the indicator scripts that it requires: each
indicator becomes a class, and the algorithm a translation unit that holds these classes, the
indicator instances that the script declares, and its code.
-/

namespace TradeScript

/-- A composed indicator: the class made from an indicator script. -/
structure Indicator where
  path : Path
  className : String
  label : String
  definition : String

/-- An indicator that an algorithm script declares, such as `EMA<12, 2> fast;`. -/
structure Instance where
  className : String
  name : String
  arguments : String
  line : Nat

/-- A composed algorithm with everything that its compilation needs. -/
structure Plugin where
  path : Path
  label : String
  indicators : List Indicator
  instances : List Instance
  source : String
  includeFolders : List Path

/-! ## Directives of a script -/

namespace Expansion

/-- The argument of the one directive of a kind that a script must have. -/
def theDirective (e : Expansion) (kind : DirectiveKind) (p : Path) : Except Failure String :=
  match e.directivesOf kind with
  | [] => .error (.directive p.text ("missing '" ++ kind.word ++ "' directive"))
  | [d] => .ok d.argument
  | first :: again :: _ =>
    .error (.directive p.text ("line " ++ toString again.line ++ ": '" ++ kind.word ++
      "' redefined (first given on line " ++ toString first.line ++ ")"))

/-- Texts without repetitions, each at its first place. -/
def distinctTexts : List String → List String
  | [] => []
  | text :: others => text :: (distinctTexts others).filter (· ≠ text)

/-- Some texts as lines, without a newline at the end. -/
def linesOf (texts : List String) : String :=
  String.ofList (Text.join ['\n'] (texts.map String.toList))

/-- The lines that include the headers of a script, each header once. -/
def includeLines (e : Expansion) : String :=
  linesOf ((distinctTexts ((e.directivesOf .header).map Directive.argument)).map
    ("#include " ++ ·))

end Expansion

/-! ## Checks on statements -/

namespace Tree

/-- A failure at the start of a statement. -/
def complaint (statement : Tree) (width : Nat) (text : String) : Failure :=
  .malformed ⟨statement.start, text, width⟩

/-- Whether a return statement returns a value. -/
def returnsValue (statement : Tree) : Bool :=
  (statement.child? .expression).isSome

/-- What an indicator script must not do: request an action or return a value. -/
def indicatorFault? (script : Tree) : Option Failure :=
  match script.phrases .actionStatement with
  | statement :: _ =>
    let word := (statement.action?.map Action.word).getD ""
    some (statement.complaint word.length ("'" ++ word ++
      "' is not allowed in an indicator script"))
  | [] => ((script.phrases .returnStatement).find? returnsValue).map fun statement =>
    statement.complaint "return".length "an indicator script cannot return a value"

/-- What an algorithm script must not do: return nothing. -/
def algorithmFault? (script : Tree) : Option Failure :=
  ((script.phrases .returnStatement).find? (!returnsValue ·)).map fun statement =>
    statement.complaint "return".length "'return' in an algorithm script needs an action code"

/-- The text of the first direct token of a kind, empty if there is none. -/
def tokenText (t : Tree) (k : Terminal) : String :=
  ((t.tokenChild? k).map Token.value).getD ""

end Tree

/-! ## Instances -/

namespace Instance

/-- What follows the name of an instance in the name of its indicator. -/
def suffix : String :=
  "_INDICATOR"

/-- The instance that a declaration declares. -/
def ofDeclaration (t : Tree) : Instance :=
  ⟨t.tokenText .indicatorName, t.tokenText .identifier,
    ((t.child? .initializerList).map Tree.code).getD "", t.start.line⟩

/-- The instances of some declarations after those given, unless a name is declared again. -/
def collect (found : List Instance) : List Tree → Except Failure (List Instance)
  | [] => .ok found
  | t :: others =>
    let new := ofDeclaration t
    if found.any (·.name = new.name) then
      .error (.redeclared t.start.file t.start.line new.name)
    else collect (found ++ [new]) others

/-- The name of the indicator of an instance in generated code. -/
def indicatorName (i : Instance) : String :=
  i.name ++ suffix

/-- The line that declares the indicator of an instance. -/
def declarationLine (i : Instance) : String :=
  "\tconst " ++ i.className ++ " " ++ i.indicatorName ++ "\x7b " ++ i.arguments ++ " \x7d;"

/-- The line that binds the data of an instance to its name. -/
def dataLine (i : Instance) : String :=
  "\tconst Indicator& " ++ i.name ++ " = add_indicator(out, " ++ i.indicatorName ++ ", \"" ++
    i.name ++ "\");"

end Instance

/-! ## Composition -/

namespace Plugin

/-- The depth of script code within the functions of the templates. -/
def scriptDepth : Nat := 2

/-- A text escaped for a string literal. -/
def escaped (text : String) : String :=
  String.ofList (Literal.escape text.toList)

/-- The code of a script at its place in a template. -/
def scriptCode (script : Tree) : String :=
  String.ofList (indent scriptDepth script.code.toList)

/-- The tokens of an expanded script, after its warnings are given. -/
def tokensOf (e : Expansion) (p : Path) : Reading (List Token) := do
  Reading.warn (Warning.ofText p.text e.text)
  return Token.ofText p.text e.text

/-- Read the tokens of a script. -/
def parse (g : Grammar) (tokens : List Token) : Reading Tree :=
  Reading.ofExcept ((Tree.parse g g.root tokens).mapError .malformed)

/-- Fail if a fault was found. -/
def check (fault : Option Failure) : Reading Unit :=
  match fault with
  | some failure => Reading.fail failure
  | none => return

/-- The values for the template of an indicator. -/
def indicatorValues (e : Expansion) (className label : String) (script : Tree) :
    List (Hook × String) :=
  [(.includes, e.includeLines), (.indicatorClass, className), (.indicatorLabel, escaped label),
    (.calculateScript, scriptCode script)]

/-- Compose the indicator script at a path. -/
def composeIndicator (g : Grammar) (templates : Templates) (files : FileSet) (p : Path) :
    Reading Indicator := do
  let e ← expand files .elide p
  let label ← Reading.ofExcept (e.theDirective .label p)
  let className ← Reading.ofExcept (e.theDirective .className p)
  let tokens ← tokensOf e p
  let script ← parse g tokens
  check script.indicatorFault?
  return ⟨p, className, label,
    templates.indicator.substitute (indicatorValues e className label script)⟩

/-- The failure that a new indicator shares its label or its class with one composed before. -/
def clash? (composed : List Indicator) (new : Indicator) : Option Failure :=
  match composed.find? (·.label = new.label) with
  | some first => some (.sharedLabel new.label first.path.text new.path.text)
  | none =>
    (composed.find? (·.className = new.className)).map fun first =>
      .sharedClass new.className first.path.text new.path.text

/-- Compose the indicators at some paths after those given. -/
def composeIndicators (g : Grammar) (templates : Templates) (files : FileSet)
    (composed : List Indicator) : List Path → Reading (List Indicator)
  | [] => return composed
  | p :: others => do
    let new ← composeIndicator g templates files p
    check (clash? composed new)
    composeIndicators g templates files (composed ++ [new]) others

/-- The failure that a script other than an indicator names a class. -/
def classFault? (e : Expansion) (p : Path) : Option Failure :=
  (e.directivesOf .className).head?.map fun d =>
    .directive p.text ("line " ++ toString d.line ++
      ": '$identifier' is only valid in indicator scripts")

/-- The values for the template of an algorithm. -/
def algorithmValues (e : Expansion) (label : String) (indicators : List Indicator)
    (instances : List Instance) (script : Tree) : List (Hook × String) :=
  [(.includes, e.includeLines), (.algorithmName, escaped label),
    (.indicatorDefinitions, Expansion.linesOf (indicators.map Indicator.definition)),
    (.indicatorDeclarations, Expansion.linesOf (instances.map Instance.declarationLine)),
    (.indicatorData, Expansion.linesOf (instances.map Instance.dataLine)),
    (.indicatorCount, toString instances.length),
    (.algorithmScript, scriptCode script)]

/-- Compose the algorithm script at a path from its indicators. -/
def composeAlgorithm (g : Grammar) (templates : Templates) (files : FileSet) (p : Path)
    (indicators : List Indicator) : Reading Plugin := do
  let e ← expand files .elide p
  let label ← Reading.ofExcept (e.theDirective .label p)
  check (classFault? e p)
  let tokens ← tokensOf e p
  let script ← parse g (tokens.map (Token.markIndicator (indicators.map Indicator.className)))
  check script.algorithmFault?
  let instances ← Reading.ofExcept (Instance.collect [] (script.phrases .indicatorDeclaration))
  return ⟨p, label, indicators, instances,
    templates.algorithm.substitute (algorithmValues e label indicators instances script),
    Path.distinct ((p :: indicators.map Indicator.path).map Path.folder)⟩

/-- Compose the algorithm script at a path with all indicators that it requires. -/
def compose (g : Grammar) (templates : Templates) (files : FileSet) (p : Path) :
    Reading Plugin := do
  let dependencies ← Requirement.dependencies files p
  let ordered := (Requirement.compositionOrder dependencies).map Dependency.path
  let indicators ← composeIndicators g templates files [] ordered
  composeAlgorithm g templates files p indicators

end Plugin

end TradeScript
