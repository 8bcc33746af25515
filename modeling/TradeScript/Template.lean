import TradeScript.Source.FileSet
import TradeScript.Text.Lines
import TradeScript.Text.Search

/-!
# Templates

A template is a text with placeholders (`Hook`). Placeholders are found from left to right in one
pass; the values put in their places are not looked at again (`Template.substitute`).
-/

namespace TradeScript

/-- What a placeholder stands for. -/
inductive Hook
  | includes
  | algorithmName
  | indicatorDefinitions
  | indicatorDeclarations
  | indicatorData
  | indicatorCount
  | algorithmScript
  | indicatorClass
  | indicatorLabel
  | calculateScript
  deriving DecidableEq

namespace Hook

/-- The hooks in their fixed order. -/
def all : List Hook :=
  [includes, algorithmName, indicatorDefinitions, indicatorDeclarations, indicatorData,
    indicatorCount, algorithmScript, indicatorClass, indicatorLabel, calculateScript]

/-- The placeholder of a hook. -/
def placeholder : Hook → String
  | includes => "%INCLUDES%"
  | algorithmName => "%ALGORITHM_NAME%"
  | indicatorDefinitions => "%INDICATOR_DEFINE%"
  | indicatorDeclarations => "%INDICATOR_DECLARE%"
  | indicatorData => "%INDICATOR_DATA%"
  | indicatorCount => "%INDICATOR_COUNT%"
  | algorithmScript => "%ALGORITHM_SCRIPT%"
  | indicatorClass => "%INDICATOR_CLASS%"
  | indicatorLabel => "%INDICATOR_LABEL%"
  | calculateScript => "%CALCULATE_SCRIPT%"

/-- The hook whose placeholder stands at the front of a text, and what follows it. -/
def atFront? (cs : List Char) : Option (Hook × List Char) :=
  all.findSome? fun h => (Text.dropPrefix? h.placeholder.toList cs).map (h, ·)

theorem placeholder_length_pos (h : Hook) : 0 < h.placeholder.toList.length := by
  cases h <;> decide

theorem atFront?_append {cs rest : List Char} {h : Hook} (found : atFront? cs = some (h, rest)) :
    cs = h.placeholder.toList ++ rest := by
  obtain ⟨h', -, hf⟩ := List.exists_of_findSome?_eq_some found
  obtain ⟨r, hr, heq⟩ := Option.map_eq_some_iff.1 hf
  obtain ⟨rfl, rfl⟩ := Prod.mk.inj heq
  exact Text.dropPrefix?_eq_some_iff.1 hr

theorem atFront?_rest_length_lt {cs rest : List Char} {h : Hook}
    (found : atFront? cs = some (h, rest)) : rest.length < cs.length := by
  rw [atFront?_append found, List.length_append]
  have := placeholder_length_pos h
  omega

end Hook

/-- A text with placeholders. -/
structure Template where
  text : String

namespace Template

/-- The first value given for a hook; a hook without value becomes empty. -/
def valueOf (values : List (Hook × String)) (h : Hook) : String :=
  (values.lookup h).getD ""

/-- A text with the values of its placeholders in their places. -/
def fill (values : List (Hook × String)) : List Char → List Char
  | [] => []
  | c :: cs =>
    match _ : Hook.atFront? (c :: cs) with
    | some (h, rest) => (valueOf values h).toList ++ fill values rest
    | none => c :: fill values cs
  termination_by cs => cs.length
  decreasing_by
    · exact Hook.atFront?_rest_length_lt ‹_›
    · simp

/-- The text of a template with the values of its placeholders in their places. -/
def substitute (t : Template) (values : List (Hook × String)) : String :=
  String.ofList (fill values t.text.toList)

/-- Whether the placeholder of a hook stands in a template. -/
def contains (t : Template) (h : Hook) : Bool :=
  Text.occurs h.placeholder.toList t.text.toList

end Template

/-! ## The two templates -/

namespace Plugin

/-- The symbols that every plugin exports. -/
def exports : List String :=
  ["ranges_size", "algorithm"]

end Plugin

/-- The templates of an algorithm and of an indicator. -/
structure Templates where
  algorithm : Template
  indicator : Template

namespace Templates

/-- The template with the given lines. -/
def ofLines (lines : List String) : Template :=
  ⟨String.ofList (Text.unlines (lines.map String.toList))⟩

/-- The template of an algorithm if no file is given. -/
def defaultAlgorithm : Template :=
  ofLines
    ["// %ALGORITHM_NAME%: generated by dtbuild",
      "#include <dtbuild/algorithm.h>",
      "%INCLUDES%",
      "",
      "#define INDICATORS %INDICATOR_COUNT%",
      "",
      "using namespace dtbuild;",
      "",
      "extern \"C\" int ranges_size() \x7b return INDICATORS + 1; \x7d",
      "",
      "%INDICATOR_DEFINE%",
      "",
      "extern \"C\" void algorithm(AlgorithmData& out)",
      "\x7b",
      "\tinit_algorithm(out, \"%ALGORITHM_NAME%\", INDICATORS + 1);",
      "%INDICATOR_DECLARE%",
      "%INDICATOR_DATA%",
      "\tconst int action = [&]() -> int",
      "\t\x7b",
      "%ALGORITHM_SCRIPT%",
      "\t\treturn ACTION_NOTHING;",
      "\t\x7d();",
      "\tout.set_action(action);",
      "\x7d"]

/-- The template of an indicator if no file is given. -/
def defaultIndicator : Template :=
  ofLines
    ["%INCLUDES%",
      "class %INDICATOR_CLASS% : public IndicatorKind",
      "\x7b",
      "public:",
      "\t%INDICATOR_CLASS%(std::initializer_list<double> init) : " ++
        "IndicatorKind(\"%INDICATOR_CLASS%\", \"%INDICATOR_LABEL%\", init) \x7b\x7d",
      "",
      "\tvoid calculate(Indicator& data, const CandleSet& candles, int range) const override",
      "\t\x7b",
      "\t\tconst std::vector<double>& args = this->args();",
      "%CALCULATE_SCRIPT%",
      "\t\x7d",
      "\x7d;"]

/-- The templates if no files are given. -/
def default : Templates :=
  ⟨defaultAlgorithm, defaultIndicator⟩

/-- The warnings about symbols that an algorithm template does not mention. -/
def warnings (path : Path) (t : Template) : List Warning :=
  (Plugin.exports.filter fun symbol => !Text.occurs symbol.toList t.text.toList).map
    (.symbolNotMentioned path.text)

/-- The templates at the given paths, or the default ones, and the warnings about them. -/
def load (read : Path → Except Failure String) (algorithm indicator : Option Path) :
    Except Failure (Templates × List Warning) := do
  let (algorithmTemplate, warned) ← match algorithm with
    | none => pure (defaultAlgorithm, [])
    | some path => do
      let text ← read path
      pure (Template.mk text, warnings path ⟨text⟩)
  let indicatorTemplate ← match indicator with
    | none => pure defaultIndicator
    | some path => do pure (Template.mk (← read path))
  return (⟨algorithmTemplate, indicatorTemplate⟩, warned)

end Templates

end TradeScript
