import TradeScript.Proofs.Plugin.Wiring
import TradeScript.Proofs.Script.Return

/-!
# Returns of generated code

The code of an indicator runs in a function that returns nothing, and that of an algorithm in one
that returns an action. The code of a composed script returns accordingly, and a script that is
read but whose code would not is refused at its first statement that is out of place
(`Plugin.returns_of_compose`).
-/

namespace TradeScript

open Script

namespace Plugin

/-! ## Scripts that are read -/

/-- A script passes the checks of the directives of an indicator and is read as a tree. -/
structure ReadsIndicator (files : FileSet) (p : Path) (e : Expansion) (script : Tree) : Prop where
  expanded : (expand files .elide p).start.1 = .ok e
  labelled : ∃ label, e.theDirective .label p = .ok label
  named : ∃ className, e.theDirective .className p = .ok className
  parsed : Tree.parse grammar .program (Token.ofText p.text e.text) = .ok script

/-- A script passes the checks of the directives of an algorithm and is read as a tree, given the
indicators whose names it may use. -/
structure ReadsAlgorithm (files : FileSet) (p : Path) (indicators : List Indicator) (e : Expansion)
    (script : Tree) : Prop where
  expanded : (expand files .elide p).start.1 = .ok e
  labelled : ∃ label, e.theDirective .label p = .ok label
  nameless : classFault? e p = none
  parsed : Tree.parse grammar .program (markedTokens e p indicators) = .ok script

/-! ## Scripts whose code returns as it should -/

/-- An indicator is defined by the code of its script, and this code returns nothing. -/
def IndicatorReturns (templates : Templates) (files : FileSet) (i : Indicator) : Prop :=
  ∃ e script, ReadsIndicator files i.path e script ∧
    i.definition =
      templates.indicator.substitute (indicatorValues e i.className i.label script) ∧
    ∀ file, ReturnsNothing (generatedKinds file script)

/-- The source of a plugin is made from the code of its script, and this code returns values. -/
def AlgorithmReturns (templates : Templates) (files : FileSet) (plugin : Plugin) : Prop :=
  ∃ e script, ReadsAlgorithm files plugin.path plugin.indicators e script ∧
    plugin.source = templates.algorithm.substitute
      (algorithmValues e plugin.label plugin.indicators plugin.instances script) ∧
    ∀ file, ReturnsValues (generatedKinds file script)

variable {templates : Templates} {files : FileSet} {p : Path} {plugin : Plugin} {i : Indicator}
  {indicators : List Indicator} {e : Expansion} {script : Tree} {failure : Failure}
  {journal journal' middle : Journal}

theorem written_of_mem_ofText {file text : String} : ∀ t ∈ Token.ofText file text, Written t :=
  fun _ mem => .inr (Token.spelling_of_mem_ofText mem)

theorem indicatorReturns_of_isOwn (h : IsOwn grammar templates files i) :
    IndicatorReturns templates files i := by
  obtain ⟨e, label, className, script, _, expanded, labelled, named, parsed, allowed, -, same⟩ :=
    ends_composeIndicator_iff.1 (Reading.start_eq_ok_iff.1 h)
  have found := (tame_expand files .elide i.path).start_eq_ok expanded
  refine ⟨e, script, ⟨found, ⟨label, labelled⟩, ⟨className, named⟩, parsed⟩, ?_, fun file => ?_⟩
  · rw [← same]
  · rw [generatedKinds_eq parsed written_of_mem_ofText]
    exact (indicatorFault?_eq_none_iff parsed).1 allowed

theorem algorithmReturns_of_ends
    (h : (composeAlgorithm grammar templates files p indicators).Ends journal plugin journal') :
    plugin.path = p ∧ plugin.indicators = indicators ∧ AlgorithmReturns templates files plugin := by
  obtain ⟨e, label, script, instances, _, expanded, parts, -, rfl⟩ := ends_composeAlgorithm_iff.1 h
  have found := (tame_expand files .elide p).start_eq_ok expanded
  refine ⟨rfl, rfl, e, script, ⟨found, ⟨label, parts.labelled⟩, parts.nameless, parts.parsed⟩, rfl,
    fun file => ?_⟩
  rw [generatedKinds_eq parts.parsed fun t => written_of_mem]
  exact (algorithmFault?_eq_none_iff parts.parsed).1 parts.returns

/-! ## Scripts that are refused -/

theorem fails_composeIndicator (templates : Templates) (reads : ReadsIndicator files p e script)
    (expanded : (expand files .elide p).Ends journal e middle)
    (fault : script.indicatorFault? = some failure) :
    (composeIndicator grammar templates files p).Fails journal failure
      { middle with warnings := middle.warnings ++ Warning.ofText p.text e.text } := by
  obtain ⟨label, labelled⟩ := reads.labelled
  obtain ⟨className, named⟩ := reads.named
  refine Reading.fails_bind_iff.2 (.inr ⟨e, _, expanded, ?_⟩)
  refine Reading.fails_bind_iff.2 (.inr ⟨label, _, Reading.ends_ofExcept_iff.2 ⟨labelled, rfl⟩, ?_⟩)
  refine Reading.fails_bind_iff.2
    (.inr ⟨className, _, Reading.ends_ofExcept_iff.2 ⟨named, rfl⟩, ?_⟩)
  refine Reading.fails_bind_iff.2 (.inr ⟨_, _, ends_tokensOf_iff.2 ⟨rfl, rfl⟩, ?_⟩)
  refine Reading.fails_bind_iff.2 (.inr ⟨script, _, ends_parse_iff.2 ⟨reads.parsed, rfl⟩, ?_⟩)
  exact Reading.fails_bind_iff.2 (.inl (fails_check_iff.2 ⟨fault, rfl⟩))

theorem fails_composeAlgorithm (templates : Templates)
    (reads : ReadsAlgorithm files p indicators e script)
    (expanded : (expand files .elide p).Ends journal e middle)
    (fault : script.algorithmFault? = some failure) :
    (composeAlgorithm grammar templates files p indicators).Fails journal failure
      { middle with warnings := middle.warnings ++ Warning.ofText p.text e.text } := by
  obtain ⟨label, labelled⟩ := reads.labelled
  refine Reading.fails_bind_iff.2 (.inr ⟨e, _, expanded, ?_⟩)
  refine Reading.fails_bind_iff.2 (.inr ⟨label, _, Reading.ends_ofExcept_iff.2 ⟨labelled, rfl⟩, ?_⟩)
  refine Reading.fails_bind_iff.2 (.inr ⟨(), _, ends_check_iff.2 ⟨reads.nameless, rfl⟩, ?_⟩)
  refine Reading.fails_bind_iff.2 (.inr ⟨_, _, ends_tokensOf_iff.2 ⟨rfl, rfl⟩, ?_⟩)
  refine Reading.fails_bind_iff.2 (.inr ⟨script, _, ends_parse_iff.2 ⟨reads.parsed, rfl⟩, ?_⟩)
  exact Reading.fails_bind_iff.2 (.inl (fails_check_iff.2 ⟨fault, rfl⟩))

theorem offence_of_not_returnsNothing (templates : Templates)
    (reads : ReadsIndicator files p e script) {file : String}
    (breaks : ¬ ReturnsNothing (generatedKinds file script)) :
    ∃ d, (composeIndicator grammar templates files p).start.1 = .error (.malformed d) ∧
      IndicatorOffence script (Token.ofText p.text e.text) d := by
  rw [generatedKinds_eq reads.parsed written_of_mem_ofText,
    ← indicatorFault?_eq_none_iff reads.parsed, ← Ne, Option.ne_none_iff_exists'] at breaks
  obtain ⟨failure, fault⟩ := breaks
  obtain ⟨d, rfl, offence⟩ := offence_of_indicatorFault? reads.parsed fault
  have expanded := Reading.start_eq_ok_iff.1 reads.expanded
  have fails := fails_composeIndicator templates reads expanded fault
  exact ⟨d, Reading.start_eq_error_of_fails fails, offence⟩

theorem offence_of_not_returnsValues (templates : Templates)
    (reads : ReadsAlgorithm files p indicators e script)
    {file : String} (breaks : ¬ ReturnsValues (generatedKinds file script)) (journal : Journal) :
    ∃ d journal', (composeAlgorithm grammar templates files p indicators).Fails journal
        (.malformed d) journal' ∧ AlgorithmOffence script (markedTokens e p indicators) d := by
  rw [generatedKinds_eq reads.parsed fun t => written_of_mem,
    ← algorithmFault?_eq_none_iff reads.parsed, ← Ne, Option.ne_none_iff_exists'] at breaks
  obtain ⟨failure, fault⟩ := breaks
  obtain ⟨d, rfl, offence⟩ := offence_of_algorithmFault? reads.parsed fault
  obtain ⟨_, expanded⟩ := (tame_expand files .elide p).ends_of_start reads.expanded journal
  exact ⟨d, _, fails_composeAlgorithm templates reads expanded fault, offence⟩

/-- The code of a composed indicator returns nothing and that of a composed algorithm returns
values. A script that is read but whose code would return otherwise is refused at the first of its
statements that are out of place. -/
theorem returns_of_compose (templates : Templates) (files : FileSet) (p : Path) :
    (∀ i, (composeIndicator grammar templates files p).start.1 = .ok i →
      i.path = p ∧ IndicatorReturns templates files i) ∧
    (∀ plugin, (compose grammar templates files p).start.1 = .ok plugin →
      plugin.path = p ∧ AlgorithmReturns templates files plugin ∧
        ∀ i ∈ plugin.indicators, IndicatorReturns templates files i) ∧
    (∀ e script file, ReadsIndicator files p e script →
      ¬ ReturnsNothing (generatedKinds file script) →
      ∃ d, (composeIndicator grammar templates files p).start.1 = .error (.malformed d) ∧
        IndicatorOffence script (Token.ofText p.text e.text) d) ∧
    ∀ ds indicators journal journal' e script file,
      (Requirement.dependencies files p).Ends .empty ds journal →
      (composeIndicators grammar templates files []
        ((Requirement.compositionOrder ds).map Dependency.path)).Ends journal indicators journal' →
      ReadsAlgorithm files p indicators e script → ¬ ReturnsValues (generatedKinds file script) →
      ∃ d, (compose grammar templates files p).start.1 = .error (.malformed d) ∧
        AlgorithmOffence script (markedTokens e p indicators) d := by
  refine ⟨fun i h => ?_, fun plugin h => ?_, fun e script file reads breaks =>
    offence_of_not_returnsNothing templates reads breaks, ?_⟩
  · have path := (gives_of_composeIndicator h).1
    subst path
    exact ⟨rfl, indicatorReturns_of_isOwn h⟩
  · obtain ⟨ds, indicators, _, _, -, composed, ends⟩ :=
      ends_compose_iff.1 (Reading.start_eq_ok_iff.1 h)
    obtain ⟨path, rfl, returns⟩ := algorithmReturns_of_ends ends
    have none_composed : Composed grammar templates files [] :=
      ⟨by simp, List.nodup_nil, List.nodup_nil⟩
    have own := (composed_of_ends none_composed composed).1.own
    exact ⟨path, returns, fun i mem => indicatorReturns_of_isOwn (own i mem)⟩
  · intro ds indicators journal journal' e script file found composed reads breaks
    obtain ⟨d, final, fails, offence⟩ :=
      offence_of_not_returnsValues templates reads breaks journal'
    have whole : (compose grammar templates files p).Fails .empty (.malformed d) final :=
      Reading.fails_bind_iff.2 (.inr ⟨ds, journal, found,
        Reading.fails_bind_iff.2 (.inr ⟨indicators, journal', composed, fails⟩)⟩)
    exact ⟨d, Reading.start_eq_error_of_fails whole, offence⟩

/-! ### An indicator that buys and an algorithm that returns nothing -/

section Leavers

open Grammar Text

/-- A script that would be an indicator but buys, and an algorithm that returns nothing. -/
def leavers : FileSet :=
  { FileSet.empty with
    files := [(⟨"a.dts"⟩, "buy();\n$label \"A\"\n$identifier A\n"),
      (⟨"b.dts"⟩, "return;\n$label \"B\"\n")] }

/-- The expansion of the script that buys. -/
def buyingExpansion : Expansion :=
  ⟨[.marker 1 ⟨"a.dts"⟩, .source "buy();".toList ⟨"a.dts"⟩ 1, .source [] ⟨"a.dts"⟩ 2,
      .source [] ⟨"a.dts"⟩ 3],
    [⟨.label, "A", ⟨"a.dts"⟩, 2⟩, ⟨.className, "A", ⟨"a.dts"⟩, 3⟩]⟩

/-- The expansion of the algorithm that returns nothing. -/
def returningExpansion : Expansion :=
  ⟨[.marker 1 ⟨"b.dts"⟩, .source "return;".toList ⟨"b.dts"⟩ 1, .source [] ⟨"b.dts"⟩ 2],
    [⟨.label, "B", ⟨"b.dts"⟩, 2⟩]⟩

theorem ends_expand_buying (journal : Journal) : (expand leavers .elide ⟨"a.dts"⟩).Ends journal
    buyingExpansion { journal with reads := journal.reads ++ [⟨"a.dts"⟩] } := by
  have three_lines : lines (stripComments "buy();\n$label \"A\"\n$identifier A\n".toList) =
      ["buy();".toList, "$label \"A\"".toList, "$identifier A".toList] := by decide +kernel
  exact ends_expand_elide rfl three_lines rfl journal

theorem ends_expand_returning (journal : Journal) : (expand leavers .elide ⟨"b.dts"⟩).Ends journal
    returningExpansion { journal with reads := journal.reads ++ [⟨"b.dts"⟩] } := by
  have two_lines : lines (stripComments "return;\n$label \"B\"\n".toList) =
      ["return;".toList, "$label \"B\"".toList] := by decide +kernel
  exact ends_expand_elide rfl two_lines rfl journal

/-- The tokens of the algorithm that returns nothing. -/
def returningTokens : List Token :=
  [⟨.keyword .return, "return", ⟨"b.dts", 1, 1⟩⟩, ⟨.mark .semicolon, ";", ⟨"b.dts", 1, 7⟩⟩]

/-- The tree of the algorithm that returns nothing. -/
def returningTree : Tree :=
  .node .program 0 ⟨"b.dts", 1, 1⟩ [.node .item 1 ⟨"b.dts", 1, 1⟩
    [.node .statement 5 ⟨"b.dts", 1, 1⟩ [.node .returnStatement 0 ⟨"b.dts", 1, 1⟩
      (returningTokens.map .leaf)]]]

theorem parse_returning : Tree.parse grammar .program returningTokens = .ok returningTree := by
  have returns : grammar.Reads NearestElse (.symbol (.nonTerminal .returnStatement)) returningTokens
      [.node .returnStatement 0 ⟨"b.dts", 1, 1⟩ (returningTokens.map .leaf)] [] :=
    .phrase (by decide +kernel : (grammar.alternatives .returnStatement)[0]? =
        some [keyword .return, maybe .expression, mark .semicolon])
      (reads_leaf rfl (.cons (.omitted _ _) (reads_leaf rfl (.nil [])))) trivial
  have item := reads_statementItem
    (by decide +kernel : (grammar.alternatives .statement)[5]? = some [phrase .returnStatement])
    returns
  exact parse_of_items (.manyCons item (.manyNil _ []))

theorem readsIndicator_buying : ReadsIndicator leavers ⟨"a.dts"⟩ buyingExpansion buyTree := by
  refine ⟨(tame_expand _ _ _).start_eq_ok (ends_expand_buying .empty), ⟨"A", rfl⟩, ⟨"A", rfl⟩, ?_⟩
  have tokens : Token.ofText "a.dts" buyingExpansion.text = buyTokens 1 := by decide +kernel
  rw [tokens]
  exact parse_buy

theorem readsAlgorithm_returning :
    ReadsAlgorithm leavers ⟨"b.dts"⟩ [] returningExpansion returningTree := by
  refine ⟨(tame_expand _ _ _).start_eq_ok (ends_expand_returning .empty), ⟨"B", rfl⟩, rfl, ?_⟩
  have tokens : markedTokens returningExpansion ⟨"b.dts"⟩ [] = returningTokens := by decide +kernel
  rw [tokens]
  exact parse_returning

theorem generatedKinds_buyTree :
    generatedKinds "a.cpp" buyTree = [.keyword .return, .number, .mark .semicolon] := by
  decide +kernel

theorem generatedKinds_returningTree :
    generatedKinds "b.cpp" returningTree = [.keyword .return, .mark .semicolon] := by
  decide +kernel

theorem not_returnsNothing_buyTree : ¬ ReturnsNothing (generatedKinds "a.cpp" buyTree) := by
  rw [generatedKinds_buyTree]
  intro nothing
  exact absurd (nothing 0 rfl).2 (by decide)

theorem not_returnsValues_returningTree :
    ¬ ReturnsValues (generatedKinds "b.cpp" returningTree) := by
  rw [generatedKinds_returningTree]
  intro values
  obtain ⟨-, k, follows, other⟩ := values 0 rfl
  exact other (Option.some.inj follows).symm

theorem ends_dependencies_returning : (Requirement.dependencies leavers ⟨"b.dts"⟩).Ends .empty
    [] ⟨[⟨"b.dts"⟩], []⟩ :=
  Requirement.ends_dependencies_of_requires_none rfl

/-- The plugin with the twins and its indicator return as they should; the indicator that buys and
the algorithm that returns nothing are refused. -/
theorem returns_of_compose_leavers :
    IndicatorReturns .default twins twinsIndicator ∧ AlgorithmReturns .default twins twinsPlugin ∧
    (∃ d, (composeIndicator grammar .default leavers ⟨"a.dts"⟩).start.1 = .error (.malformed d) ∧
      IndicatorOffence buyTree (Token.ofText "a.dts" buyingExpansion.text) d) ∧
    ∃ d, (compose grammar .default leavers ⟨"b.dts"⟩).start.1 = .error (.malformed d) ∧
      AlgorithmOffence returningTree (markedTokens returningExpansion ⟨"b.dts"⟩ []) d := by
  obtain ⟨of_indicator, -, -⟩ := returns_of_compose .default twins ⟨"b.dti"⟩
  obtain ⟨-, of_plugin, -⟩ := returns_of_compose .default twins ⟨"a.dts"⟩
  obtain ⟨-, -, refused, -⟩ := returns_of_compose .default leavers ⟨"a.dts"⟩
  obtain ⟨-, -, -, refused'⟩ := returns_of_compose .default leavers ⟨"b.dts"⟩
  exact ⟨(of_indicator _ (congrArg Prod.fst (ends_composeIndicator_twins .empty))).2,
    (of_plugin _ compose_twins).2.1,
    refused _ _ "a.cpp" readsIndicator_buying not_returnsNothing_buyTree,
    refused' [] [] _ _ _ _ "b.cpp" ends_dependencies_returning
      (ends_composeIndicators_nil _ _ _ _) readsAlgorithm_returning not_returnsValues_returningTree⟩

end Leavers

end Plugin

end TradeScript
