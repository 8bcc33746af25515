import TradeScript.Proofs.Plugin.Indicators
import TradeScript.Proofs.Requirement.Resolution
import TradeScript.Proofs.Script.Declaration
import TradeScript.Proofs.Template

/-!
# How a plugin is wired

The run that composes an algorithm is taken apart into what it was composed from
(`Plugin.ends_composeAlgorithm_iff`, `Plugin.ends_compose_iff`). A composed plugin has one
indicator for each script that the algorithm leads to and one instance for each name of an
indicator in it, and its source is the template with both (`Plugin.wired_of_compose`). A clash of
names is one of two scripts or of two declarations.
-/

namespace TradeScript

open Requirement (Requires)
open Relation Text

namespace Plugin

/-! ## Instances -/

section Instances

variable {found instances : List Instance} {ts : List Tree} {failure : Failure}

/-- The instances of declarations whose names differ. -/
theorem collect_eq_ok (distinct : (found.map Instance.name).Nodup)
    (h : Instance.collect found ts = .ok instances) :
    instances = found ++ ts.map Instance.ofDeclaration ∧ (instances.map Instance.name).Nodup := by
  induction ts generalizing found with
  | nil =>
    cases h
    exact ⟨by simp, distinct⟩
  | cons t others ih =>
    rw [Instance.collect] at h
    split at h
    · cases h
    · next new =>
      simp only [List.any_eq_true, decide_eq_true_eq, not_exists, not_and] at new
      have distinct' : ((found ++ [Instance.ofDeclaration t]).map Instance.name).Nodup :=
        nodup_map_concat distinct (by simpa using new)
      obtain ⟨rfl, all⟩ := ih distinct' h
      exact ⟨by simp, all⟩

/-- A declaration is refused if an instance before it has the same name. -/
theorem collect_eq_error (h : Instance.collect found ts = .error failure) :
    ∃ front t back, ts = front ++ t :: back ∧
      (∃ i ∈ found ++ front.map Instance.ofDeclaration, i.name = (Instance.ofDeclaration t).name) ∧
      failure = .redeclared t.start.file t.start.line (Instance.ofDeclaration t).name := by
  induction ts generalizing found with
  | nil => cases h
  | cons t others ih =>
    rw [Instance.collect] at h
    split at h
    · next again =>
      cases h
      simp only [List.any_eq_true, decide_eq_true_eq] at again
      exact ⟨[], t, others, rfl, by simpa using again, rfl⟩
    · obtain ⟨front, u, back, rfl, again, rfl⟩ := ih h
      exact ⟨t :: front, u, back, rfl, by simpa using again, rfl⟩

theorem exists_sublist_of_forall₂ {α β : Type} {R : α → β → Prop} {xs some : List α} {ys : List β}
    (sub : some.Sublist xs) (h : List.Forall₂ R xs ys) :
    ∃ others, others.Sublist ys ∧ List.Forall₂ R some others := by
  induction sub generalizing ys with
  | slnil => exact ⟨[], List.nil_sublist ys, .nil⟩
  | cons x _ ih =>
    cases h with
    | cons _ rest =>
      obtain ⟨others, sub', related⟩ := ih rest
      exact ⟨others, sub'.cons _, related⟩
  | cons_cons x _ ih =>
    cases h with
    | cons first rest =>
      obtain ⟨others, sub', related⟩ := ih rest
      exact ⟨_ :: others, sub'.cons_cons _, .cons first related⟩

end Instances

/-! ## What a plugin is composed from -/

section Runs

variable {g : Grammar} {templates : Templates} {files : FileSet} {p : Path} {plugin : Plugin}
  {indicators : List Indicator} {journal journal' : Journal} {failure : Failure}

/-- The tokens of an expanded algorithm, in which the names of its indicators are marked. -/
def markedTokens (e : Expansion) (p : Path) (indicators : List Indicator) : List Token :=
  (Token.ofText p.text e.text).map (Token.markIndicator (indicators.map Indicator.className))

/-- The parts that the algorithm at a path is composed from. -/
structure Parts (g : Grammar) (p : Path) (indicators : List Indicator) (e : Expansion)
    (label : String) (script : Tree) (instances : List Instance) : Prop where
  labelled : e.theDirective .label p = .ok label
  nameless : classFault? e p = none
  parsed : Tree.parse g g.root (markedTokens e p indicators) = .ok script
  returns : script.algorithmFault? = none
  collected : Instance.collect [] (script.phrases .indicatorDeclaration) = .ok instances

/-- The plugin that is composed from some parts. -/
def ofParts (templates : Templates) (p : Path) (indicators : List Indicator) (e : Expansion)
    (label : String) (script : Tree) (instances : List Instance) : Plugin :=
  ⟨p, label, indicators, instances,
    templates.algorithm.substitute (algorithmValues e label indicators instances script),
    Path.distinct ((p :: indicators.map Indicator.path).map Path.folder)⟩

theorem ends_composeAlgorithm_iff :
    (composeAlgorithm g templates files p indicators).Ends journal plugin journal' ↔
      ∃ e label script instances middle, (expand files .elide p).Ends journal e middle ∧
        Parts g p indicators e label script instances ∧
        { middle with warnings := middle.warnings ++ Warning.ofText p.text e.text } = journal' ∧
        ofParts templates p indicators e label script instances = plugin := by
  unfold composeAlgorithm
  simp only [Reading.ends_bind_iff, Reading.ends_ofExcept_iff, Reading.ends_pure_iff,
    ends_tokensOf_iff, ends_parse_iff]
  constructor
  · rintro ⟨e, middle, expanded, label, _, ⟨labelled, rfl⟩, ⟨⟩, _, checked, tokens, _, ⟨rfl, rfl⟩,
      script, _, ⟨parsed, rfl⟩, ⟨⟩, _, checked', instances, _, ⟨collected, rfl⟩, rfl, rfl⟩
    obtain ⟨nameless, rfl⟩ := ends_check_iff.1 checked
    obtain ⟨returns, rfl⟩ := ends_check_iff.1 checked'
    exact ⟨e, label, script, instances, middle, expanded,
      ⟨labelled, nameless, parsed, returns, collected⟩, rfl, rfl⟩
  · rintro ⟨e, label, script, instances, middle, expanded, parts, rfl, rfl⟩
    exact ⟨e, middle, expanded, label, middle, ⟨parts.labelled, rfl⟩, (), middle,
      ends_check_iff.2 ⟨parts.nameless, rfl⟩, _, _, ⟨rfl, rfl⟩, script, _, ⟨parts.parsed, rfl⟩, (),
      _, ends_check_iff.2 ⟨parts.returns, rfl⟩, instances, _, ⟨parts.collected, rfl⟩, rfl, rfl⟩

theorem ends_compose_iff : (compose g templates files p).Ends journal plugin journal' ↔
    ∃ ds indicators middle middle', (Requirement.dependencies files p).Ends journal ds middle ∧
      (composeIndicators g templates files []
        ((Requirement.compositionOrder ds).map Dependency.path)).Ends middle indicators middle' ∧
      (composeAlgorithm g templates files p indicators).Ends middle' plugin journal' := by
  unfold compose
  simp only [Reading.ends_bind_iff]
  constructor
  · rintro ⟨ds, middle, found, indicators, middle', composed, ends⟩
    exact ⟨ds, indicators, middle, middle', found, composed, ends⟩
  · rintro ⟨ds, indicators, middle, middle', found, composed, ends⟩
    exact ⟨ds, middle, found, indicators, middle', composed, ends⟩

/-- Without dependencies there are no indicators to compose. -/
theorem ends_composeIndicators_nil (g : Grammar) (templates : Templates) (files : FileSet)
    (journal : Journal) : (composeIndicators g templates files []
      ((Requirement.compositionOrder []).map Dependency.path)).Ends journal [] journal := by
  have order : (Requirement.compositionOrder []).map Dependency.path = [] := by
    simp [Requirement.compositionOrder]
  rw [order]
  exact Reading.ends_pure_iff.2 ⟨rfl, rfl⟩

theorem not_isClash_of_classFault? {e : Expansion} (h : classFault? e p = some failure) :
    ¬ failure.IsClash := by
  obtain ⟨d, -, rfl⟩ := Option.map_eq_some_iff.1 h
  exact id

theorem not_isClash_of_algorithmFault? {script : Tree} (h : script.algorithmFault? = some failure) :
    ¬ failure.IsClash := by
  obtain ⟨statement, -, rfl⟩ := Option.map_eq_some_iff.1 h
  exact id

/-- Why an algorithm is refused once it is expanded. -/
inductive Refused (g : Grammar) (p : Path) (indicators : List Indicator) (e : Expansion) :
    Failure → Prop
  | label {failure : Failure} (h : e.theDirective .label p = .error failure) :
      Refused g p indicators e failure
  | className {failure : Failure} (h : classFault? e p = some failure) :
      Refused g p indicators e failure
  | unread {d : Diagnostic}
      (h : Tree.parse g g.root (markedTokens e p indicators) = .error d) :
      Refused g p indicators e (.malformed d)
  | returns {script : Tree} {failure : Failure}
      (parsed : Tree.parse g g.root (markedTokens e p indicators) = .ok script)
      (h : script.algorithmFault? = some failure) : Refused g p indicators e failure
  | instances {script : Tree} {failure : Failure}
      (parsed : Tree.parse g g.root (markedTokens e p indicators) = .ok script)
      (h : Instance.collect [] (script.phrases .indicatorDeclaration) = .error failure) :
      Refused g p indicators e failure

theorem refused_of_fails
    (fails : (composeAlgorithm g templates files p indicators).Fails journal failure journal') :
    failure.OfFiles ∨
      ∃ e, (expand files .elide p).start.1 = .ok e ∧ Refused g p indicators e failure := by
  have expandable := tame_expand files .elide p
  unfold composeAlgorithm at fails
  rcases Reading.fails_bind_iff.1 fails with failed | ⟨e, _, expanded, fails⟩
  · exact .inl (expandable.failure _ _ _ failed)
  refine .inr ⟨e, expandable.start_eq_ok expanded, ?_⟩
  rcases Reading.fails_bind_iff.1 fails with failed | ⟨label, _, -, fails⟩
  · exact .label (Reading.fails_ofExcept_iff.1 failed).1
  rcases Reading.fails_bind_iff.1 fails with failed | ⟨⟨⟩, _, -, fails⟩
  · exact .className (fails_check_iff.1 failed).1
  rcases Reading.fails_bind_iff.1 fails with failed | ⟨tokens, _, lexed, fails⟩
  · cases failed
  obtain ⟨rfl, -⟩ := ends_tokensOf_iff.1 lexed
  rcases Reading.fails_bind_iff.1 fails with failed | ⟨script, _, parsed, fails⟩
  · obtain ⟨⟨d, unread, rfl⟩, -⟩ := fails_parse_iff.1 failed
    exact .unread unread
  have parsed := (ends_parse_iff.1 parsed).1
  rcases Reading.fails_bind_iff.1 fails with failed | ⟨⟨⟩, _, -, fails⟩
  · exact .returns parsed (fails_check_iff.1 failed).1
  rcases Reading.fails_bind_iff.1 fails with failed | ⟨instances, _, -, fails⟩
  · exact .instances parsed (Reading.fails_ofExcept_iff.1 failed).1
  · exact absurd fails Reading.not_fails_pure

/-- If an algorithm cannot be composed because of a clash, then two of its declarations clash. -/
theorem collected_of_fails
    (fails : (composeAlgorithm g templates files p indicators).Fails journal failure journal')
    (clash : failure.IsClash) :
    ∃ e script, (expand files .elide p).start.1 = .ok e ∧
      Tree.parse g g.root (markedTokens e p indicators) = .ok script ∧
      Instance.collect [] (script.phrases .indicatorDeclaration) = .error failure := by
  rcases refused_of_fails fails with outside | ⟨e, expanded, refused⟩
  · exact absurd clash outside.not_isClash
  cases refused with
  | label h => exact absurd clash (not_isClash_of_theDirective h)
  | className h => exact absurd clash (not_isClash_of_classFault? h)
  | unread h => exact clash.elim
  | returns parsed h => exact absurd clash (not_isClash_of_algorithmFault? h)
  | instances parsed h => exact ⟨e, _, expanded, parsed, h⟩

end Runs

/-! ## The indicators of a plugin -/

/-- Some indicators are those of the scripts that an algorithm leads to, each after those that it
requires, with labels and classes of their own. -/
structure HasIndicators (templates : Templates) (files : FileSet) (p : Path)
    (indicators : List Indicator) : Prop where
  own : ∀ i ∈ indicators, IsOwn Script.grammar templates files i
  required : ∀ q, q ∈ indicators.map Indicator.path ↔ TransGen (Requires files) p.normalize q
  once : (indicators.map Indicator.path).Pairwise fun q r => (q == r) = false
  behind : ∀ front i back, indicators = front ++ i :: back →
    ∀ j ∈ indicators, Requires files j.path i.path → j ∈ back
  gives : ∀ i ∈ indicators,
    Gives files i.path .label i.label ∧ Gives files i.path .className i.className
  labels : (indicators.map Indicator.label).Nodup
  classes : (indicators.map Indicator.className).Nodup

section Indicators

variable {templates : Templates} {files : FileSet} {p : Path} {ds : List Dependency}
  {indicators : List Indicator} {journal journal' middle : Journal}

theorem IsOwn.eq_of_path {g : Grammar} {i j : Indicator} (hi : IsOwn g templates files i)
    (hj : IsOwn g templates files j) (same : i.path = j.path) : i = j := by
  rw [IsOwn, same] at hi
  exact Except.ok.inj (hi.symm.trans hj)

theorem hasIndicators_of_ends (found : (Requirement.dependencies files p).Ends journal ds middle)
    (ends : (composeIndicators Script.grammar templates files []
      ((Requirement.compositionOrder ds).map Dependency.path)).Ends middle indicators journal') :
    HasIndicators templates files p indicators := by
  obtain ⟨s, hs, rfl⟩ := Requirement.surveyed_of_dependencies found
  have none_composed : Composed Script.grammar templates files [] :=
    ⟨by simp, List.nodup_nil, List.nodup_nil⟩
  obtain ⟨composed, paths⟩ := composed_of_ends none_composed ends
  rw [List.map_nil, List.nil_append] at paths
  have perm := (Requirement.perm_compositionOrder (s.dependencies p.normalize)).map
    Dependency.path
  refine ⟨composed.own, fun q => ?_, ?_, ?_, fun i mem => ?_, composed.labels, composed.classes⟩
  · rw [paths, perm.mem_iff]
    exact hs.mem_path_iff q
  · rw [paths]
    exact hs.pairwise_compositionOrder_path
  · intro front i back split j mem requires
    have mem_path := List.mem_map_of_mem (f := Indicator.path) mem
    have split_paths := paths.symm
    rw [split, List.map_append, List.map_cons] at split_paths
    rw [paths] at mem_path
    obtain ⟨k, mem_k, same⟩ :=
      List.mem_map.1 (hs.path_mem_back_of_requires split_paths mem_path requires)
    -- the indicator with this path further back is the required one itself
    have whole : k ∈ indicators := by
      rw [split]
      exact List.mem_append_right _ (List.mem_cons_of_mem i mem_k)
    rwa [(composed.own j mem).eq_of_path (composed.own k whole) same.symm]
  · exact (gives_of_composeIndicator (composed.own i mem)).2

end Indicators

/-! ## The instances of a plugin -/

/-- Some instances are those that the tokens of an algorithm declare, each of one of its
indicators. -/
structure HasInstances (tokens : List Token) (indicators : List Indicator)
    (instances : List Instance) : Prop where
  declared : List.Forall₂ (fun i name => Script.Declares tokens name i) instances
    (Script.namesOf tokens)
  names : (instances.map Instance.name).Nodup
  ofIndicator : ∀ i ∈ instances, ∃! k, k ∈ indicators ∧ k.className = i.className

section Instances

variable {e : Expansion} {p : Path} {indicators : List Indicator} {script : Tree}
  {instances : List Instance}

theorem hasInstances_of_collect (classes : (indicators.map Indicator.className).Nodup)
    (parsed : Tree.parse Script.grammar .program (markedTokens e p indicators) = .ok script)
    (collected : Instance.collect [] (script.phrases .indicatorDeclaration) = .ok instances) :
    HasInstances (markedTokens e p indicators) indicators instances := by
  obtain ⟨rfl, names⟩ := collect_eq_ok (by simp) collected
  have declared : List.Forall₂ (fun i name => Script.Declares (markedTokens e p indicators) name i)
      ([] ++ (script.phrases .indicatorDeclaration).map Instance.ofDeclaration)
      (Script.namesOf (markedTokens e p indicators)) := by
    rw [List.nil_append, List.forall₂_map_left_iff]
    exact (Script.forall₂_declares parsed).imp fun _ _ => And.left
  refine ⟨declared, names, fun i mem => ?_⟩
  obtain ⟨own, sub, related⟩ := exists_sublist_of_forall₂ (List.singleton_sublist.2 mem) declared
  obtain ⟨name, rest, declares, -, rfl⟩ := List.forall₂_cons_left_iff.1 related
  obtain ⟨mem_tokens, kind⟩ := List.mem_filter.1 (sub.subset List.mem_cons_self)
  have marked := Script.mem_names_of_kind mem_tokens (of_decide_eq_true kind)
  rw [← declares.className_eq] at marked
  obtain ⟨k, mem_k, same⟩ := List.mem_map.1 marked
  refine ⟨k, ⟨mem_k, same⟩, fun k' h => ?_⟩
  exact List.inj_on_of_nodup_map classes h.1 mem_k (h.2.trans same.symm)

end Instances

/-! ## The source of a plugin -/

/-- The values of the placeholders in the template of a plugin, given the lines that include headers
and the code of its script. -/
def hookValue (plugin : Plugin) (includes code : String) : Hook → String
  | .includes => includes
  | .algorithmName => escaped plugin.label
  | .indicatorDefinitions => Expansion.linesOf (plugin.indicators.map Indicator.definition)
  | .indicatorDeclarations => Expansion.linesOf (plugin.instances.map Instance.declarationLine)
  | .indicatorData => Expansion.linesOf (plugin.instances.map Instance.dataLine)
  | .indicatorCount => toString plugin.instances.length
  | .algorithmScript => code
  | _ => ""

theorem source_ofParts {templates : Templates}
    (default : templates.algorithm = Templates.defaultAlgorithm) (p : Path)
    (indicators : List Indicator) (e : Expansion) (label : String) (script : Tree)
    (instances : List Instance) :
    (ofParts templates p indicators e label script instances).source =
      String.ofList (unlines ((Templates.filledAlgorithm
        ((ofParts templates p indicators e label script instances).hookValue e.includeLines
          (scriptCode script))).map String.toList)) := by
  have values : Template.valueOf (algorithmValues e label indicators instances script) =
      (ofParts templates p indicators e label script instances).hookValue e.includeLines
        (scriptCode script) := by
    funext h
    cases h <;> rfl
  rw [← values, ← Templates.substitute_defaultAlgorithm, ofParts, default]

/-! ## Plugins and clashes -/

/-- A plugin has the indicators that its algorithm requires and the instances that it declares, each
on lines of its own, and its source is the template with both. -/
def Wired (templates : Templates) (files : FileSet) (p : Path) (plugin : Plugin) : Prop :=
  HasIndicators templates files p plugin.indicators ∧
    ∃ e script, (expand files .elide p).start.1 = .ok e ∧
      e.theDirective .label p = .ok plugin.label ∧
      Tree.parse Script.grammar .program (markedTokens e p plugin.indicators) = .ok script ∧
      HasInstances (markedTokens e p plugin.indicators) plugin.indicators plugin.instances ∧
      (∀ i ∈ plugin.instances, OnOneLine i.declarationLine ∧ OnOneLine i.dataLine) ∧
      (templates.algorithm = Templates.defaultAlgorithm →
        plugin.source = String.ofList (unlines ((Templates.filledAlgorithm
          (plugin.hookValue e.includeLines (scriptCode script))).map String.toList)))

/-- Two different scripts that an algorithm leads to give the same argument to a directive. -/
def Shared (files : FileSet) (p : Path) (kind : DirectiveKind) (argument first second : String) :
    Prop :=
  ∃ q r, TransGen (Requires files) p.normalize q ∧ TransGen (Requires files) p.normalize r ∧
    (q == r) = false ∧ q.text = first ∧ r.text = second ∧ Gives files q kind argument ∧
      Gives files r kind argument

/-- An algorithm declares two instances of one name, the second one at the given line of a file. -/
def Redeclared (templates : Templates) (files : FileSet) (p : Path) (file : String) (line : Nat)
    (name : String) : Prop :=
  ∃ indicators e first second i j, HasIndicators templates files p indicators ∧
    (expand files .elide p).start.1 = .ok e ∧
    [first, second].Sublist (Script.namesOf (markedTokens e p indicators)) ∧
    Script.Declares (markedTokens e p indicators) first i ∧
    Script.Declares (markedTokens e p indicators) second j ∧
    i.name = name ∧ j.name = name ∧ second.start.file = file ∧ second.start.line = line

section Wired

variable {templates : Templates} {files : FileSet} {p : Path} {plugin : Plugin}
  {indicators : List Indicator} {failure : Failure} {journal journal' : Journal}

theorem wired_of_ends
    (h : (compose Script.grammar templates files p).Ends journal plugin journal') :
    Wired templates files p plugin := by
  obtain ⟨ds, indicators, _, _, found, composed, ends⟩ := ends_compose_iff.1 h
  have all := hasIndicators_of_ends found composed
  obtain ⟨e, label, script, instances, _, expanded, parts, -, rfl⟩ := ends_composeAlgorithm_iff.1 ends
  have own := hasInstances_of_collect all.classes parts.parsed parts.collected
  refine ⟨all, e, script, (tame_expand files .elide p).start_eq_ok expanded, parts.labelled,
    parts.parsed, own, fun i mem => ?_, fun default => source_ofParts default ..⟩
  obtain ⟨names, -, related⟩ :=
    exists_sublist_of_forall₂ (List.singleton_sublist.2 mem) own.declared
  obtain ⟨name, _, declares, -, -⟩ := List.forall₂_cons_left_iff.1 related
  exact declares.onOneLine fun t mem => Script.onOneLine_value mem

theorem shared_of_clashing {ds : List Dependency}
    (found : (Requirement.dependencies files p).Ends journal ds journal') {i j : Indicator}
    (sub : [i.path, j.path].Sublist ((Requirement.compositionOrder ds).map Dependency.path))
    (hi : IsOwn Script.grammar templates files i) (hj : IsOwn Script.grammar templates files j) :
    (i.label = j.label → Shared files p .label j.label i.path.text j.path.text) ∧
      (i.className = j.className →
        Shared files p .className j.className i.path.text j.path.text) := by
  obtain ⟨s, hs, rfl⟩ := Requirement.surveyed_of_dependencies found
  have required {q : Path} (mem : q ∈ [i.path, j.path]) :
      TransGen (Requires files) p.normalize q := by
    have perm := (Requirement.perm_compositionOrder (s.dependencies p.normalize)).map
      Dependency.path
    exact (hs.mem_path_iff q).1 (perm.mem_iff.1 (sub.subset mem))
  have differ : (i.path == j.path) = false := by
    have apart := hs.pairwise_compositionOrder_path.sublist sub
    rwa [List.pairwise_pair] at apart
  obtain ⟨-, label, className⟩ := gives_of_composeIndicator hi
  obtain ⟨-, label', className'⟩ := gives_of_composeIndicator hj
  exact ⟨fun same => ⟨i.path, j.path, required (by simp), required (by simp), differ, rfl, rfl,
      same ▸ label, label'⟩,
    fun same => ⟨i.path, j.path, required (by simp), required (by simp), differ, rfl, rfl,
      same ▸ className, className'⟩⟩

theorem redeclared_of_collect {e : Expansion} {script : Tree}
    (all : HasIndicators templates files p indicators)
    (expanded : (expand files .elide p).start.1 = .ok e)
    (parsed : Tree.parse Script.grammar .program (markedTokens e p indicators) = .ok script)
    (refused : Instance.collect [] (script.phrases .indicatorDeclaration) = .error failure) :
    ∃ file line name, failure = .redeclared file line name ∧
      Redeclared templates files p file line name := by
  obtain ⟨front, second, back, split, ⟨i, mem, again⟩, rfl⟩ := collect_eq_error refused
  obtain ⟨first, mem_front, rfl⟩ := List.mem_map.1 (by simpa using mem)
  have declared := Script.forall₂_declares parsed
  have sub : [first, second].Sublist (script.phrases .indicatorDeclaration) := by
    rw [split]
    exact (List.singleton_sublist.2 mem_front).append
      (List.singleton_sublist.2 List.mem_cons_self)
  obtain ⟨names, sub', related⟩ := exists_sublist_of_forall₂ sub declared
  obtain ⟨name, _, ⟨declares, -⟩, rest, rfl⟩ := List.forall₂_cons_left_iff.1 related
  obtain ⟨name', _, ⟨declares', start⟩, last, rfl⟩ := List.forall₂_cons_left_iff.1 rest
  obtain rfl := List.forall₂_nil_left_iff.1 last
  refine ⟨_, _, _, rfl, indicators, e, name, name', _, _, all, expanded, sub', declares, declares',
    again, rfl, ?_, ?_⟩
  · rw [start]
  · rw [start]

/-- A clash is one of two scripts or of two declarations. -/
theorem shared_or_redeclared_of_fails
    (h : (compose Script.grammar templates files p).Fails journal failure journal')
    (clash : failure.IsClash) :
    (∃ label first second, failure = .sharedLabel label first second ∧
      Shared files p .label label first second) ∨
    (∃ className first second, failure = .sharedClass className first second ∧
      Shared files p .className className first second) ∨
    ∃ file line name, failure = .redeclared file line name ∧
      Redeclared templates files p file line name := by
  unfold compose at h
  -- what fails before two names are compared is a failure of the files
  rcases Reading.fails_bind_iff.1 h with failed | ⟨ds, _, found, h⟩
  · exact absurd clash (Requirement.ofFiles_of_fails failed).not_isClash
  rcases Reading.fails_bind_iff.1 h with failed | ⟨indicators, _, composed, h⟩
  · obtain ⟨i, j, sub, own, own', clashing⟩ := clashing_of_fails (by simp) failed clash
    obtain ⟨label, className⟩ := shared_of_clashing found (by simpa using sub) own own'
    rcases clashing with ⟨same, rfl⟩ | ⟨same, rfl⟩
    · exact .inl ⟨_, _, _, rfl, label same⟩
    · exact .inr (.inl ⟨_, _, _, rfl, className same⟩)
  · obtain ⟨e, script, expanded, parsed, refused⟩ := collected_of_fails h clash
    exact .inr (.inr (redeclared_of_collect (hasIndicators_of_ends found composed) expanded parsed
      refused))

end Wired

/-- A composed plugin is wired. A clash that keeps it from being composed is that of two scripts
that share a label or a class, or of two declarations that share a name. -/
theorem wired_of_compose (templates : Templates) (files : FileSet) (p : Path) :
    (∀ plugin, (compose Script.grammar templates files p).start.1 = .ok plugin →
      Wired templates files p plugin) ∧
    (∀ label first second,
      (compose Script.grammar templates files p).start.1 = .error (.sharedLabel label first second) →
        Shared files p .label label first second) ∧
    (∀ className first second,
      (compose Script.grammar templates files p).start.1 =
          .error (.sharedClass className first second) →
        Shared files p .className className first second) ∧
    ∀ file line name,
      (compose Script.grammar templates files p).start.1 = .error (.redeclared file line name) →
        Redeclared templates files p file line name := by
  refine ⟨fun plugin h => wired_of_ends (Reading.start_eq_ok_iff.1 h), ?_, ?_, ?_⟩
  · intro label first second h
    obtain ⟨_, _, _, ⟨⟩, shared⟩ | ⟨_, _, _, ⟨⟩, -⟩ | ⟨_, _, _, ⟨⟩, -⟩ :=
      shared_or_redeclared_of_fails (Reading.start_eq_error_iff.1 h) trivial
    exact shared
  · intro className first second h
    obtain ⟨_, _, _, ⟨⟩, -⟩ | ⟨_, _, _, ⟨⟩, shared⟩ | ⟨_, _, _, ⟨⟩, -⟩ :=
      shared_or_redeclared_of_fails (Reading.start_eq_error_iff.1 h) trivial
    exact shared
  · intro file line name h
    obtain ⟨_, _, _, ⟨⟩, -⟩ | ⟨_, _, _, ⟨⟩, -⟩ | ⟨_, _, _, ⟨⟩, redeclared⟩ :=
      shared_or_redeclared_of_fails (Reading.start_eq_error_iff.1 h) trivial
    exact redeclared

/-! ### An algorithm with one indicator -/

section OneIndicator

open Requirement (requiredBy)
open Script Grammar

variable {files : FileSet}

theorem parse_no_tokens : Tree.parse grammar .program [] = .ok (.node .program 0 .none []) :=
  parse_of_items (.manyNil _ [])

theorem ends_dependencies_oneIndicator (algorithm : requiredBy files ⟨"a.dts"⟩ = .ok [⟨"b.dti"⟩])
    (indicator : requiredBy files ⟨"b.dti"⟩ = .ok []) :
    (Requirement.dependencies files ⟨"a.dts"⟩).Ends .empty [⟨⟨"b.dti"⟩, 1⟩]
      ⟨[⟨"a.dts"⟩, ⟨"b.dti"⟩], []⟩ := by
  have normal : (Path.mk "a.dts").normalize = ⟨"a.dts"⟩ := rfl
  have required : (Requirement.visit files [⟨"a.dts"⟩] ⟨"b.dti"⟩ ⟨[⟨"a.dts"⟩], []⟩).Ends
      ⟨[⟨"a.dts"⟩], []⟩ ⟨[⟨"a.dts"⟩, ⟨"b.dti"⟩], [(⟨"b.dti"⟩, [])]⟩
      ⟨[⟨"a.dts"⟩, ⟨"b.dti"⟩], []⟩ :=
    Requirement.ends_visit_iff.2
      ⟨rfl, .inr ⟨rfl, [], _, indicator, Requirement.ends_visitAll_nil.2 ⟨rfl, rfl⟩, rfl⟩⟩
  rw [Requirement.ends_dependencies_iff, normal]
  refine ⟨⟨[⟨"a.dts"⟩, ⟨"b.dti"⟩], [(⟨"a.dts"⟩, [⟨"b.dti"⟩]), (⟨"b.dti"⟩, [])]⟩, ?_, rfl⟩
  exact Requirement.ends_visit_iff.2 ⟨rfl, .inr ⟨rfl, [⟨"b.dti"⟩], _, algorithm,
    Requirement.ends_visitAll_cons.2 ⟨_, _, required, Requirement.ends_visitAll_nil.2 ⟨rfl, rfl⟩⟩,
    rfl⟩⟩

/-- A script without tokens is composed to an indicator if it has a label and a class. -/
theorem ends_composeIndicator_of_no_tokens {templates : Templates} {e : Expansion} {p : Path}
    {journal journal' : Journal} {label className : String}
    (expanded : (expand files .elide p).Ends journal e journal')
    (labelled : e.theDirective .label p = .ok label)
    (named : e.theDirective .className p = .ok className)
    (no_tokens : Token.ofText p.text e.text = [])
    (no_warnings : Warning.ofText p.text e.text = []) :
    (composeIndicator grammar templates files p).Ends journal
      ⟨p, className, label, templates.indicator.substitute
        (indicatorValues e className label (.node .program 0 .none []))⟩ journal' := by
  refine ends_composeIndicator_iff.2
    ⟨e, label, className, .node .program 0 .none [], journal', expanded, labelled, named, ?_, ?_, ?_,
      rfl⟩
  · rw [no_tokens]
    exact parse_no_tokens
  · simp [Tree.indicatorFault?, phrases_node]
  · rw [no_warnings, List.append_nil]

theorem compose_oneIndicator {templates : Templates} {indicator : Indicator} {e : Expansion}
    {label : String} {script : Tree} {instances : List Instance}
    (dependencies : (Requirement.dependencies files ⟨"a.dts"⟩).Ends .empty [⟨⟨"b.dti"⟩, 1⟩]
      ⟨[⟨"a.dts"⟩, ⟨"b.dti"⟩], []⟩)
    (composed : ∀ journal, (composeIndicator grammar templates files ⟨"b.dti"⟩).Ends journal indicator
      { journal with reads := journal.reads ++ [⟨"b.dti"⟩] })
    (expanded : ∀ journal, (expand files .elide ⟨"a.dts"⟩).Ends journal e
      { journal with reads := journal.reads ++ [⟨"a.dts"⟩] })
    (parts : Parts grammar ⟨"a.dts"⟩ [indicator] e label script instances) :
    (compose grammar templates files ⟨"a.dts"⟩).start.1 =
      .ok (ofParts templates ⟨"a.dts"⟩ [indicator] e label script instances) := by
  have order : (Requirement.compositionOrder [⟨⟨"b.dti"⟩, 1⟩]).map Dependency.path = [⟨"b.dti"⟩] := by
    simp [Requirement.compositionOrder]
  have inOrder : (composeIndicators grammar templates files []
      ((Requirement.compositionOrder [⟨⟨"b.dti"⟩, 1⟩]).map Dependency.path)).Ends
      ⟨[⟨"a.dts"⟩, ⟨"b.dti"⟩], []⟩ [indicator] ⟨[⟨"a.dts"⟩, ⟨"b.dti"⟩, ⟨"b.dti"⟩], []⟩ := by
    rw [order]
    exact Reading.ends_bind_iff.2 ⟨indicator, _, composed _,
      Reading.ends_bind_iff.2 ⟨(), _, ends_check_iff.2 ⟨rfl, rfl⟩,
        Reading.ends_pure_iff.2 ⟨rfl, rfl⟩⟩⟩
  suffices ends : ∃ journal, (compose grammar templates files ⟨"a.dts"⟩).Ends .empty
      (ofParts templates ⟨"a.dts"⟩ [indicator] e label script instances) journal from
    congrArg Prod.fst ends.choose_spec
  exact ⟨_, ends_compose_iff.2 ⟨_, _, _, _, dependencies, inOrder,
    ends_composeAlgorithm_iff.2 ⟨_, _, _, _, _, expanded _, parts, rfl, rfl⟩⟩⟩

end OneIndicator

/-! ### Two instances of one indicator -/

section Twins

open Script Grammar

/-- An algorithm that declares two instances of one indicator. -/
def twins : FileSet :=
  { FileSet.empty with
    files := [(⟨"a.dts"⟩, "$label \"A\"\n#require \"b.dti\"\nB<1> x;\nB<2> x_INDICATOR;\n"),
      (⟨"b.dti"⟩, "$label \"B\"\n$identifier B\n")] }

/-- The expansion of the algorithm. -/
def twinsExpansion : Expansion :=
  ⟨[.marker 1 ⟨"a.dts"⟩, .source [] ⟨"a.dts"⟩ 1, .source [] ⟨"a.dts"⟩ 2,
      .source "B<1> x;".toList ⟨"a.dts"⟩ 3, .source "B<2> x_INDICATOR;".toList ⟨"a.dts"⟩ 4],
    [⟨.label, "A", ⟨"a.dts"⟩, 1⟩, ⟨.requirement, "b.dti", ⟨"a.dts"⟩, 2⟩]⟩

/-- The expansion of the indicator. -/
def twinsIndicatorExpansion : Expansion :=
  ⟨[.marker 1 ⟨"b.dti"⟩, .source [] ⟨"b.dti"⟩ 1, .source [] ⟨"b.dti"⟩ 2],
    [⟨.label, "B", ⟨"b.dti"⟩, 1⟩, ⟨.className, "B", ⟨"b.dti"⟩, 2⟩]⟩

theorem ends_expand_twins (journal : Journal) : (expand twins .elide ⟨"a.dts"⟩).Ends journal
    twinsExpansion { journal with reads := journal.reads ++ [⟨"a.dts"⟩] } := by
  have four_lines : lines (stripComments
      "$label \"A\"\n#require \"b.dti\"\nB<1> x;\nB<2> x_INDICATOR;\n".toList) =
      ["$label \"A\"".toList, "#require \"b.dti\"".toList, "B<1> x;".toList,
        "B<2> x_INDICATOR;".toList] := by decide +kernel
  exact ends_expand_elide rfl four_lines rfl journal

theorem ends_expand_twins_indicator (journal : Journal) :
    (expand twins .elide ⟨"b.dti"⟩).Ends journal twinsIndicatorExpansion
      { journal with reads := journal.reads ++ [⟨"b.dti"⟩] } := by
  have two_lines : lines (stripComments "$label \"B\"\n$identifier B\n".toList) =
      ["$label \"B\"".toList, "$identifier B".toList] := by decide +kernel
  exact ends_expand_elide rfl two_lines rfl journal

/-- The tree of the algorithm. -/
def twinsTree : Tree :=
  .node .program 0 ⟨"a.dts", 3, 1⟩
    [.node .item 0 ⟨"a.dts", 3, 1⟩ [instanceTree 3 "1" "x"],
      .node .item 0 ⟨"a.dts", 4, 1⟩ [instanceTree 4 "2" "x_INDICATOR"]]

theorem parse_twins : Tree.parse grammar .program
    (instanceTokens 3 "1" "x" ++ instanceTokens 4 "2" "x_INDICATOR") = .ok twinsTree := by
  have second := reads_instanceTree 4 "2" "x_INDICATOR" []
  rw [List.append_nil] at second
  exact parse_of_items
    (.manyCons (reads_instanceTree 3 "1" "x" _) (.manyCons second (.manyNil _ [])))

/-- The instances of the algorithm. -/
def twinsInstances : List Instance :=
  [⟨"B", "x", "1", 3⟩, ⟨"B", "x_INDICATOR", "2", 4⟩]

theorem collect_twins : Instance.collect [] (twinsTree.phrases .indicatorDeclaration) =
    .ok twinsInstances := by
  have declarations : twinsTree.phrases .indicatorDeclaration =
      [instanceTree 3 "1" "x", instanceTree 4 "2" "x_INDICATOR"] := by
    simp [twinsTree, instanceTree, instanceTokens, numberArgument, sumOf, operandOf, phrases_node,
      phrases_leaf]
  rw [declarations]
  rfl

/-- The indicator of both instances. -/
def twinsIndicator : Indicator :=
  ⟨⟨"b.dti"⟩, "B", "B", Templates.default.indicator.substitute
    (indicatorValues twinsIndicatorExpansion "B" "B" (.node .program 0 .none []))⟩

theorem ends_composeIndicator_twins (journal : Journal) :
    (composeIndicator grammar .default twins ⟨"b.dti"⟩).Ends journal twinsIndicator
      { journal with reads := journal.reads ++ [⟨"b.dti"⟩] } := by
  have no_tokens : Token.ofText "b.dti" twinsIndicatorExpansion.text = [] := by decide +kernel
  have no_warnings : Warning.ofText "b.dti" twinsIndicatorExpansion.text = [] := by decide +kernel
  exact ends_composeIndicator_of_no_tokens (ends_expand_twins_indicator journal) rfl rfl no_tokens
    no_warnings

/-- The plugin of the algorithm. -/
def twinsPlugin : Plugin :=
  ofParts .default ⟨"a.dts"⟩ [twinsIndicator] twinsExpansion "A" twinsTree twinsInstances

theorem ends_dependencies_twins : (Requirement.dependencies twins ⟨"a.dts"⟩).Ends .empty
    [⟨⟨"b.dti"⟩, 1⟩] ⟨[⟨"a.dts"⟩, ⟨"b.dti"⟩], []⟩ :=
  ends_dependencies_oneIndicator rfl rfl

theorem compose_twins : (compose grammar .default twins ⟨"a.dts"⟩).start.1 = .ok twinsPlugin := by
  have marked : markedTokens twinsExpansion ⟨"a.dts"⟩ [twinsIndicator] =
      instanceTokens 3 "1" "x" ++ instanceTokens 4 "2" "x_INDICATOR" := by
    have named : [twinsIndicator].map Indicator.className = ["B"] := rfl
    rw [markedTokens, named]
    decide +kernel
  have parts : Parts grammar ⟨"a.dts"⟩ [twinsIndicator] twinsExpansion "A" twinsTree
      twinsInstances := by
    refine ⟨rfl, rfl, ?_, ?_, collect_twins⟩
    · rw [marked]
      exact parse_twins
    · simp [Tree.algorithmFault?, twinsTree, instanceTree, instanceTokens, numberArgument, sumOf,
        operandOf, phrases_node, phrases_leaf]
  exact compose_oneIndicator ends_dependencies_twins ends_composeIndicator_twins ends_expand_twins
    parts

theorem wired_of_compose_twins :
    (compose grammar .default twins ⟨"a.dts"⟩).start.1 = .ok twinsPlugin ∧
      Wired .default twins ⟨"a.dts"⟩ twinsPlugin :=
  ⟨compose_twins, (wired_of_compose .default twins ⟨"a.dts"⟩).1 twinsPlugin compose_twins⟩

end Twins

end Plugin

end TradeScript
