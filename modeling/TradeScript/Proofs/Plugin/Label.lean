import TradeScript.Proofs.Plugin.Wiring
import TradeScript.Proofs.Template.Literal

/-!
# Labels in generated code

The labels of a plugin and of its indicators are escaped before they are put into the templates. So
they are read back from the literals of the source, and each of these ends at the closing quote that
its template has (`Plugin.labels_of_compose`).
-/

namespace TradeScript

open Text

namespace Plugin

theorem toList_escaped (text : String) : (escaped text).toList = Literal.escape text.toList :=
  String.toList_ofList

theorem escaped_injective : Function.Injective escaped := by
  intro text text' same
  have same' := congrArg String.toList same
  rw [toList_escaped, toList_escaped] at same'
  exact String.toList_injective (Literal.escape_injective same')

/-- The labels of a plugin and of its indicators keep to their literals, whatever the templates are.
With the default templates each of them has a literal in the source. -/
structure KeepsLabels (templates : Templates) (plugin : Plugin) : Prop where
  algorithm : ∃ e script,
    plugin.source = templates.algorithm.substitute
      (algorithmValues e plugin.label plugin.indicators plugin.instances script) ∧
    templates.algorithm.KeepsLabel
      (algorithmValues e plugin.label plugin.indicators plugin.instances script) .algorithmName
      plugin.label
  indicator : ∀ i ∈ plugin.indicators, ∃ e script,
    i.definition = templates.indicator.substitute (indicatorValues e i.className i.label script) ∧
    templates.indicator.KeepsLabel (indicatorValues e i.className i.label script) .indicatorLabel
      i.label
  algorithmLiteral : templates.algorithm = Templates.defaultAlgorithm → ∃ front rest,
    Literal.Stands plugin.label.toList (front ++ "\tinit_algorithm(out, ".toList)
      (", INDICATORS + 1);".toList ++ '\n' :: rest) plugin.source.toList
  indicatorLiteral : templates = .default → ∀ i ∈ plugin.indicators, ∃ front rest,
    Literal.Stands i.label.toList
      (front ++ ("\t" ++ i.className ++ "(std::initializer_list<double> init) : IndicatorKind(\"" ++
        i.className ++ "\", ").toList)
      (", init) \x7b\x7d".toList ++ '\n' :: rest) plugin.source.toList

section Compose

variable {g : Grammar} {templates : Templates} {files : FileSet} {p : Path} {plugin : Plugin}
  {journal journal' : Journal}

theorem keepsLabel_of_isOwn {i : Indicator} (own : IsOwn g templates files i) : ∃ e script,
    i.definition = templates.indicator.substitute (indicatorValues e i.className i.label script) ∧
      templates.indicator.KeepsLabel (indicatorValues e i.className i.label script) .indicatorLabel
        i.label := by
  obtain ⟨e, label, className, script, _, -, -, -, -, -, -, same⟩ :=
    ends_composeIndicator_iff.1 (Reading.start_eq_ok_iff.1 own)
  generalize i.path = q at same
  subst same
  exact ⟨e, script, rfl, Template.keepsLabel _ (toList_escaped label)⟩

/-- The definitions of its indicators stand in the source of a plugin. -/
theorem exists_source_eq (e : Expansion) (label : String) {indicators : List Indicator}
    (instances : List Instance) (script : Tree) {i : Indicator} (mem : i ∈ indicators) :
    ∃ front rest, (Templates.defaultAlgorithm.substitute
      (algorithmValues e label indicators instances script)).toList =
        front ++ (i.definition.toList ++ rest) := by
  obtain ⟨front, rest, whole⟩ := Templates.exists_definitions_defaultAlgorithm
    (algorithmValues e label indicators instances script)
  have value : (Template.valueOf (algorithmValues e label indicators instances script)
      .indicatorDefinitions).toList =
        join ['\n'] ((indicators.map Indicator.definition).map String.toList) :=
    String.toList_ofList
  have piece : i.definition.toList ∈ (indicators.map Indicator.definition).map String.toList :=
    List.mem_map_of_mem (List.mem_map_of_mem mem)
  obtain ⟨before, after, split⟩ := infix_join ['\n'] piece
  rw [whole, value, ← split]
  exact ⟨front ++ before, after ++ '\n' :: rest, by simp⟩

theorem keepsLabels_of_ends (h : (compose g templates files p).Ends journal plugin journal') :
    KeepsLabels templates plugin := by
  obtain ⟨ds, indicators, _, _, -, composed, ends⟩ := ends_compose_iff.1 h
  obtain ⟨e, label, script, instances, _, -, -, -, rfl⟩ := ends_composeAlgorithm_iff.1 ends
  have keeps : templates.algorithm.KeepsLabel (algorithmValues e label indicators instances script)
      .algorithmName label := Template.keepsLabel _ (toList_escaped label)
  have none_composed : Composed g templates files [] := ⟨by simp, List.nodup_nil, List.nodup_nil⟩
  have own := (composed_of_ends none_composed composed).1.own
  refine ⟨⟨e, script, rfl, keeps⟩, fun i mem => keepsLabel_of_isOwn (own i mem), ?_, ?_⟩
  · intro default
    rw [ofParts, default]
    exact Templates.stands_defaultAlgorithm (default ▸ keeps)
  · rintro rfl i mem
    obtain ⟨e', script', definition, keeps'⟩ := keepsLabel_of_isOwn (own i mem)
    obtain ⟨front, rest, literal⟩ := Templates.stands_defaultIndicator keeps'
    obtain ⟨front', rest', source⟩ := exists_source_eq e label instances script mem
    -- the definition, and with it the literal, is a piece of the source
    have literal' := literal.append front' rest'
    rw [List.append_assoc, List.cons_append, ← List.append_assoc] at literal'
    refine ⟨front' ++ front, rest ++ rest', ?_⟩
    rw [definition] at source
    rw [ofParts]
    exact source ▸ literal'

end Compose

/-- An escaped text is read back as itself, no quote in it ends a literal and no backslash in it takes
the quote behind it; so different texts are escaped differently, and the labels of a composed plugin
keep to their literals. -/
theorem labels_of_compose (g : Grammar) (templates : Templates) (files : FileSet) (p : Path) :
    (∀ text, Literal.read (escaped text).toList = (text.toList, .unclosed)) ∧
    Function.Injective escaped ∧
    ∀ plugin, (compose g templates files p).start.1 = .ok plugin → KeepsLabels templates plugin := by
  refine ⟨fun text => ?_, escaped_injective,
    fun plugin h => keepsLabels_of_ends (Reading.start_eq_ok_iff.1 h)⟩
  rw [toList_escaped, Literal.read_escape]

/-! ### Labels that end in backslashes -/

section Backslashes

open Script Grammar

/-- An algorithm and an indicator with labels that end in backslashes. -/
def backslashes : FileSet :=
  { FileSet.empty with
    files := [(⟨"a.dts"⟩, "$label \"A\\\"\n#require \"b.dti\"\n"),
      (⟨"b.dti"⟩, "$label \"B\\\\\"\n$identifier B\n")] }

/-- The expansion of the algorithm. -/
def backslashExpansion : Expansion :=
  ⟨[.marker 1 ⟨"a.dts"⟩, .source [] ⟨"a.dts"⟩ 1, .source [] ⟨"a.dts"⟩ 2],
    [⟨.label, "A\\", ⟨"a.dts"⟩, 1⟩, ⟨.requirement, "b.dti", ⟨"a.dts"⟩, 2⟩]⟩

/-- The expansion of the indicator. -/
def backslashIndicatorExpansion : Expansion :=
  ⟨[.marker 1 ⟨"b.dti"⟩, .source [] ⟨"b.dti"⟩ 1, .source [] ⟨"b.dti"⟩ 2],
    [⟨.label, "B\\\\", ⟨"b.dti"⟩, 1⟩, ⟨.className, "B", ⟨"b.dti"⟩, 2⟩]⟩

theorem ends_expand_backslashes (journal : Journal) :
    (expand backslashes .elide ⟨"a.dts"⟩).Ends journal backslashExpansion
      { journal with reads := journal.reads ++ [⟨"a.dts"⟩] } := by
  have two_lines : lines (stripComments "$label \"A\\\"\n#require \"b.dti\"\n".toList) =
      ["$label \"A\\\"".toList, "#require \"b.dti\"".toList] := by decide +kernel
  exact ends_expand_elide rfl two_lines rfl journal

theorem ends_expand_backslashes_indicator (journal : Journal) :
    (expand backslashes .elide ⟨"b.dti"⟩).Ends journal backslashIndicatorExpansion
      { journal with reads := journal.reads ++ [⟨"b.dti"⟩] } := by
  have two_lines : lines (stripComments "$label \"B\\\\\"\n$identifier B\n".toList) =
      ["$label \"B\\\\\"".toList, "$identifier B".toList] := by decide +kernel
  exact ends_expand_elide rfl two_lines rfl journal

/-- The indicator. -/
def backslashIndicator : Indicator :=
  ⟨⟨"b.dti"⟩, "B", "B\\\\", Templates.default.indicator.substitute
    (indicatorValues backslashIndicatorExpansion "B" "B\\\\" (.node .program 0 .none []))⟩

/-- The plugin of the algorithm. -/
def backslashPlugin : Plugin :=
  ofParts .default ⟨"a.dts"⟩ [backslashIndicator] backslashExpansion "A\\"
    (.node .program 0 .none []) []

theorem ends_composeIndicator_backslashes (journal : Journal) :
    (composeIndicator grammar .default backslashes ⟨"b.dti"⟩).Ends journal backslashIndicator
      { journal with reads := journal.reads ++ [⟨"b.dti"⟩] } := by
  have no_tokens : Token.ofText "b.dti" backslashIndicatorExpansion.text = [] := by decide +kernel
  have no_warnings : Warning.ofText "b.dti" backslashIndicatorExpansion.text = [] := by
    decide +kernel
  exact ends_composeIndicator_of_no_tokens (ends_expand_backslashes_indicator journal) rfl rfl no_tokens
    no_warnings

theorem compose_backslashes :
    (compose grammar .default backslashes ⟨"a.dts"⟩).start.1 = .ok backslashPlugin := by
  have no_tokens : markedTokens backslashExpansion ⟨"a.dts"⟩ [backslashIndicator] = [] := by
    decide +kernel
  have parts : Parts grammar ⟨"a.dts"⟩ [backslashIndicator] backslashExpansion "A\\"
      (.node .program 0 .none []) [] := by
    refine ⟨rfl, rfl, ?_, ?_, ?_⟩
    · rw [no_tokens]
      exact parse_no_tokens
    · simp [Tree.algorithmFault?, phrases_node]
    · simp [phrases_node, Instance.collect]
  exact compose_oneIndicator (ends_dependencies_oneIndicator rfl rfl)
    ends_composeIndicator_backslashes ends_expand_backslashes parts

theorem labels_of_compose_backslashes :
    (compose grammar .default backslashes ⟨"a.dts"⟩).start.1 = .ok backslashPlugin ∧
      KeepsLabels .default backslashPlugin ∧
      ∃ front rest, Literal.Stands ['A', '\\'] (front ++ "\tinit_algorithm(out, ".toList)
        (", INDICATORS + 1);".toList ++ '\n' :: rest) backslashPlugin.source.toList := by
  have keeps :=
    (labels_of_compose grammar .default backslashes ⟨"a.dts"⟩).2.2 _ compose_backslashes
  exact ⟨compose_backslashes, keeps, keeps.algorithmLiteral rfl⟩

end Backslashes

end Plugin

end TradeScript
