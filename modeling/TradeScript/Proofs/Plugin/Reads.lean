import TradeScript.Proofs.Plugin.Wiring
import TradeScript.Proofs.Source.Elision

/-!
# What composing reads

Composing an algorithm asks for its file and for those that it leads to, each once, to find the
dependencies; then for each dependency again, in the order of composition, and last for the
algorithm again (`Plugin.reads_of_compose`). A failure cuts this sequence off. What the other files
hold makes no difference (`Plugin.compose_congr`).
-/

namespace TradeScript

open Requirement (Requires dependencies compositionOrder)
open Relation

/-! ## What a computation asks for -/

namespace Reading

variable {α β : Type} {first second : List Path}

/-- A computation asks for some paths in order: for all of them if it succeeds, and for the first
ones if it fails. -/
structure Asks (computation : Reading α) (paths : List Path) : Prop where
  ends : ∀ journal a journal', computation.Ends journal a journal' →
    journal'.reads = journal.reads ++ paths
  fails : ∀ journal failure journal', computation.Fails journal failure journal' →
    ∃ front, front <+: paths ∧ journal'.reads = journal.reads ++ front

theorem asks_pure (a : α) : (pure a : Reading α).Asks [] := by
  constructor
  · intro journal b journal' ends
    rw [(ends_pure_iff.1 ends).2, List.append_nil]
  · exact fun journal failure journal' fails => absurd fails not_fails_pure

theorem asks_ask (p : Path) : (ask p).Asks [p] := by
  constructor
  · intro journal a journal' ends
    rw [← ends_ask_iff.1 ends]
  · exact fun journal failure journal' fails => absurd fails not_fails_ask

theorem asks_warn (warnings : List Warning) : (warn warnings).Asks [] := by
  constructor
  · rintro journal a journal' ⟨⟩
    exact (List.append_nil _).symm
  · rintro journal failure journal' ⟨⟩

theorem asks_fail (failure : Failure) : (fail failure : Reading α).Asks first := by
  constructor
  · exact fun journal a journal' ends => absurd ends not_ends_fail
  · intro journal reason journal' fails
    rw [(fails_fail_iff.1 fails).2]
    exact ⟨[], List.nil_prefix, (List.append_nil _).symm⟩

theorem asks_ofExcept (x : Except Failure α) : (ofExcept x).Asks [] := by
  cases x with
  | ok a => exact asks_pure a
  | error failure => exact asks_fail failure

theorem Asks.bind {computation : Reading α} {next : α → Reading β} (h : computation.Asks first)
    (h' : ∀ a, (next a).Asks second) : (computation >>= next).Asks (first ++ second) := by
  constructor
  · intro journal b journal' ends
    obtain ⟨a, middle, ends, ends'⟩ := ends_bind_iff.1 ends
    rw [(h' a).ends _ _ _ ends', h.ends _ _ _ ends, List.append_assoc]
  · intro journal failure journal' fails
    rcases fails_bind_iff.1 fails with fails | ⟨a, middle, ends, fails⟩
    · obtain ⟨front, before, reads⟩ := h.fails _ _ _ fails
      exact ⟨front, before.trans (List.prefix_append _ _), reads⟩
    · obtain ⟨front, before, reads⟩ := (h' a).fails _ _ _ fails
      refine ⟨first ++ front, (List.prefix_append_right_inj first).2 before, ?_⟩
      rw [reads, h.ends _ _ _ ends, List.append_assoc]

/-- A computation gives no warnings. -/
def Silent (computation : Reading α) : Prop :=
  ∀ journal, (computation.run.run journal).2.warnings = journal.warnings

theorem silent_pure (a : α) : (pure a : Reading α).Silent :=
  fun _ => rfl

theorem silent_ask (p : Path) : (ask p).Silent :=
  fun _ => rfl

theorem silent_fail (failure : Failure) : (fail failure : Reading α).Silent :=
  fun _ => rfl

theorem Silent.bind {computation : Reading α} {next : α → Reading β} (h : computation.Silent)
    (h' : ∀ a, (next a).Silent) : (computation >>= next).Silent := by
  intro journal
  have before := h journal
  rw [run_bind]
  cases outcome : computation.run.run journal with
  | mk result middle =>
    rw [outcome] at before
    cases result with
    | ok a => exact (h' a middle).trans before
    | error failure => exact before

end Reading

/-! ## Files that agree -/

/-- Two sets of files hold the same at all paths that a script leads to. -/
def Agree (files files' : FileSet) (p : Path) : Prop :=
  ∀ q, ReflTransGen (Requires files) p q → files.load q = files'.load q

variable {files files' : FileSet} {p : Path}

theorem requiredBy_congr (same : files.load p = files'.load p) :
    Requirement.requiredBy files p = Requirement.requiredBy files' p := by
  rw [Requirement.requiredBy, Requirement.requiredBy, same]

theorem Agree.of_requires (agree : Agree files files' p) {q : Path}
    (requires : Requires files p q) :
    Agree files files' q :=
  fun r reached => agree r (reached.head requires)

theorem expand_congr (same : files.load p.normalize = files'.load p.normalize) :
    expand files .elide p = expand files' .elide p := by
  rw [expand_elide_eq, expand_elide_eq, same]

/-! ## Surveys -/

namespace Requirement

mutual

/-- A survey gives no warnings. -/
theorem silent_visit (files : FileSet) (active : List Path) (p : Path) (s : Survey) :
    (visit files active p s).Silent := by
  rw [visit]
  split
  · exact Reading.silent_fail _
  · split
    · exact Reading.silent_pure _
    · refine .bind (Reading.silent_ask p) fun _ => ?_
      split
      · exact Reading.silent_fail _
      · exact .bind (silent_visitAll files (p :: active) _ _) fun _ => Reading.silent_pure _
  termination_by (files.countOutside active, 0)
  decreasing_by
    rename_i seen _ _ _ _ readable
    obtain ⟨_, found⟩ := text?_of_requiredBy readable
    exact Prod.Lex.left _ _ (FileSet.countOutside_cons_lt found (by simpa using seen))

theorem silent_visitAll (files : FileSet) (active targets : List Path) (s : Survey) :
    (visitAll files active targets s).Silent := by
  match targets with
  | [] =>
    rw [visitAll]
    exact Reading.silent_pure _
  | p :: others =>
    rw [visitAll]
    exact .bind (silent_visit files active p s) fun _ => silent_visitAll files active others _
  termination_by (files.countOutside active, targets.length + 1)

end

theorem silent_dependencies (files : FileSet) (root : Path) : (dependencies files root).Silent :=
  .bind (silent_visit files [] root.normalize .empty) fun _ => Reading.silent_pure _

mutual

/-- A survey depends only on what the script leads to. -/
theorem visit_congr {files files' : FileSet} {p : Path} (agree : Agree files files' p)
    (active : List Path) (s : Survey) : visit files active p s = visit files' active p s := by
  rw [visit, visit]
  by_cases seen : active.contains p
  · rw [dif_pos seen, dif_pos seen]
  · rw [dif_neg seen, dif_neg seen]
    congr 2
    funext _
    have same := requiredBy_congr (agree p .refl)
    -- both sides look at what the script requires, and that is the same
    split
    · next failure unreadable =>
      split
      · next failure' unreadable' =>
        rw [← same, unreadable] at unreadable'
        cases unreadable'
        rfl
      · next targets readable =>
        rw [← same, unreadable] at readable
        cases readable
    · next targets readable =>
      split
      · next failure unreadable =>
        rw [← same, readable] at unreadable
        cases unreadable
      · next targets' readable' =>
        rw [← same, readable] at readable'
        cases readable'
        have next : ∀ q ∈ targets, Agree files files' q :=
          fun q mem => agree.of_requires (requires_iff.2 ⟨targets, readable, mem⟩)
        rw [visitAll_congr next]
  termination_by (files.countOutside active, 0)
  decreasing_by
    obtain ⟨_, found⟩ := text?_of_requiredBy ‹requiredBy files p = .ok _›
    exact Prod.Lex.left _ _ (FileSet.countOutside_cons_lt found (by simpa using seen))

theorem visitAll_congr {files files' : FileSet} {targets : List Path}
    (agree : ∀ p ∈ targets, Agree files files' p) (active : List Path) (s : Survey) :
    visitAll files active targets s = visitAll files' active targets s := by
  match targets with
  | [] => rw [visitAll, visitAll]
  | p :: others =>
    rw [List.forall_mem_cons] at agree
    rw [visitAll, visitAll, visit_congr agree.1 active s]
    congr 1
    funext found
    exact visitAll_congr agree.2 active found
  termination_by (files.countOutside active, targets.length + 1)

end

theorem dependencies_congr {files files' : FileSet} {root : Path}
    (agree : Agree files files' root.normalize) :
    dependencies files root = dependencies files' root := by
  simp only [dependencies, visit_congr agree]

end Requirement

/-! ## Composition -/

namespace Plugin

variable {g : Grammar} {templates : Templates} {indicators composed : List Indicator}
  {paths : List Path} {ds : List Dependency} {journal journal' : Journal}

theorem asks_expand (files : FileSet) (p : Path) : (expand files .elide p).Asks [p.normalize] := by
  rw [expand_elide_eq]
  exact .bind (Reading.asks_ask _) fun _ => Reading.asks_ofExcept _

theorem asks_tokensOf (e : Expansion) (p : Path) : (tokensOf e p).Asks [] :=
  .bind (Reading.asks_warn _) fun _ => Reading.asks_pure _

theorem asks_check (fault : Option Failure) : (check fault).Asks [] := by
  cases fault with
  | none => exact Reading.asks_pure ()
  | some failure => exact Reading.asks_fail failure

theorem asks_composeIndicator (g : Grammar) (templates : Templates) (files : FileSet) (p : Path) :
    (composeIndicator g templates files p).Asks [p.normalize] := by
  unfold composeIndicator
  refine .bind (asks_expand files p) fun e => ?_
  refine .bind (Reading.asks_ofExcept _) fun label => .bind (Reading.asks_ofExcept _) fun name => ?_
  refine .bind (asks_tokensOf e p) fun tokens => .bind (Reading.asks_ofExcept _) fun script => ?_
  exact .bind (asks_check _) fun _ => Reading.asks_pure _

theorem asks_composeAlgorithm (g : Grammar) (templates : Templates) (files : FileSet) (p : Path)
    (indicators : List Indicator) :
    (composeAlgorithm g templates files p indicators).Asks [p.normalize] := by
  unfold composeAlgorithm
  refine .bind (asks_expand files p) fun e => .bind (Reading.asks_ofExcept _) fun label => ?_
  refine .bind (asks_check _) fun _ => .bind (asks_tokensOf e p) fun tokens => ?_
  refine .bind (Reading.asks_ofExcept _) fun script => .bind (asks_check _) fun _ => ?_
  exact .bind (Reading.asks_ofExcept _) fun instances => Reading.asks_pure _

theorem asks_composeIndicators (g : Grammar) (templates : Templates) (files : FileSet)
    (composed : List Indicator) (paths : List Path) :
    (composeIndicators g templates files composed paths).Asks (paths.map Path.normalize) := by
  induction paths generalizing composed with
  | nil => exact Reading.asks_pure composed
  | cons p others ih =>
    rw [composeIndicators, List.map_cons, ← List.singleton_append]
    refine .bind (asks_composeIndicator g templates files p) fun new => ?_
    exact .bind (asks_check _) fun _ => ih _

/-- Composing the indicators of some dependencies in order and then the algorithm. -/
def composeFrom (g : Grammar) (templates : Templates) (files : FileSet) (p : Path)
    (ds : List Dependency) : Reading Plugin := do
  let ordered := (compositionOrder ds).map Dependency.path
  let indicators ← composeIndicators g templates files [] ordered
  composeAlgorithm g templates files p indicators

theorem compose_eq (g : Grammar) (templates : Templates) (files : FileSet) (p : Path) :
    compose g templates files p = dependencies files p >>= composeFrom g templates files p :=
  rfl

theorem asks_composeFrom (g : Grammar) (templates : Templates) (files : FileSet) (p : Path)
    (normal : ∀ d ∈ ds, d.path.IsNormal) : (composeFrom g templates files p ds).Asks
      ((compositionOrder ds).map Dependency.path ++ [p.normalize]) := by
  have same : ((compositionOrder ds).map Dependency.path).map Path.normalize =
      (compositionOrder ds).map Dependency.path := by
    rw [List.map_map]
    refine List.map_congr_left fun d mem => (normal d ?_).normalize_eq
    exact (Requirement.perm_compositionOrder ds).mem_iff.1 mem
  rw [← same]
  exact .bind (asks_composeIndicators ..) fun indicators => asks_composeAlgorithm ..

/-- Finding the dependencies asks for the script and then for each of them. -/
theorem reads_dependencies (found : (dependencies files p).Ends journal ds journal') :
    journal'.reads = journal.reads ++ p.normalize :: ds.map Dependency.path ∧
      ∀ d ∈ ds, d.path.IsNormal ∧ TransGen (Requires files) p.normalize d.path := by
  obtain ⟨s, run, rfl⟩ := Requirement.ends_dependencies_iff.1 found
  obtain ⟨hs, reads⟩ := Requirement.surveyed_of_ends (Path.isNormal_normalize p) run
  refine ⟨by rw [reads, hs.order_eq], fun d mem => ?_⟩
  have mem_path : d.path ∈ (s.dependencies p.normalize).map Dependency.path :=
    List.mem_map_of_mem mem
  refine ⟨hs.normal _ ?_, (hs.mem_path_iff _).1 mem_path⟩
  rw [hs.order_eq]
  exact List.mem_cons_of_mem _ mem_path

/-! ### Files that are not read -/

theorem composeIndicator_congr (same : files.load p.normalize = files'.load p.normalize) :
    composeIndicator g templates files p = composeIndicator g templates files' p := by
  rw [composeIndicator, composeIndicator, expand_congr same]

theorem composeIndicators_congr
    (same : ∀ q ∈ paths, files.load q.normalize = files'.load q.normalize) :
    composeIndicators g templates files composed paths =
      composeIndicators g templates files' composed paths := by
  induction paths generalizing composed with
  | nil => rfl
  | cons p others ih =>
    rw [List.forall_mem_cons] at same
    rw [composeIndicators, composeIndicators, composeIndicator_congr same.1]
    congr 1
    funext new
    rw [ih same.2]

theorem composeAlgorithm_congr (same : files.load p.normalize = files'.load p.normalize) :
    composeAlgorithm g templates files p indicators =
      composeAlgorithm g templates files' p indicators := by
  rw [composeAlgorithm, composeAlgorithm, expand_congr same]

/-- Composing depends only on what the algorithm leads to. -/
theorem compose_congr (g : Grammar) (templates : Templates)
    (agree : Agree files files' p.normalize) :
    (compose g templates files p).start = (compose g templates files' p).start := by
  rw [compose_eq, compose_eq, ← Requirement.dependencies_congr agree, Reading.start, Reading.start,
    Reading.run_bind, Reading.run_bind]
  cases outcome : (dependencies files p).run.run Journal.empty with
  | mk result middle =>
    cases result with
    | error failure => rfl
    | ok ds =>
      have required := (reads_dependencies outcome).2
      have same : ∀ q ∈ (compositionOrder ds).map Dependency.path,
          files.load q.normalize = files'.load q.normalize := by
        intro q mem
        obtain ⟨d, mem_d, rfl⟩ := List.mem_map.1 mem
        obtain ⟨normal, reached⟩ :=
          required d ((Requirement.perm_compositionOrder ds).mem_iff.1 mem_d)
        rw [normal.normalize_eq]
        exact agree d.path reached.to_reflTransGen
      show (composeFrom g templates files p ds).run.run middle =
        (composeFrom g templates files' p ds).run.run middle
      rw [composeFrom, composeFrom, composeIndicators_congr same]
      congr 3
      funext indicators
      exact composeAlgorithm_congr (agree _ .refl)

/-! ### The sequence of reads -/

/-- What composing from some dependencies reads: all files once to find them, and each again to
compose it. -/
def composingReads (p : Path) (ds : List Dependency) : List Path :=
  p.normalize :: ds.map Dependency.path ++
    ((compositionOrder ds).map Dependency.path ++ [p.normalize])

theorem reads_of_ends {plugin : Plugin}
    (h : (compose g templates files p).Ends .empty plugin journal') :
    ∃ ds, (dependencies files p).start.1 = .ok ds ∧ journal'.reads = composingReads p ds := by
  rw [compose_eq] at h
  obtain ⟨ds, middle, found, ends⟩ := Reading.ends_bind_iff.1 h
  obtain ⟨reads, required⟩ := reads_dependencies found
  refine ⟨ds, congrArg Prod.fst found, ?_⟩
  rw [(asks_composeFrom g templates files p fun d mem => (required d mem).1).ends _ _ _ ends, reads]
  rfl

theorem reads_of_fails {failure : Failure} (outcome : (dependencies files p).start.1 = .ok ds)
    (h : (compose g templates files p).Fails .empty failure journal') :
    p.normalize :: ds.map Dependency.path <+: journal'.reads ∧
      journal'.reads <+: composingReads p ds := by
  rw [compose_eq] at h
  have found := Reading.start_eq_ok_iff.1 outcome
  rcases Reading.fails_bind_iff.1 h with failed | ⟨ds', middle, found', failed⟩
  · rw [Reading.start_eq_error_of_fails failed] at outcome
    cases outcome
  · obtain ⟨⟨⟩, rfl⟩ := Prod.mk.inj (found.symm.trans found')
    obtain ⟨reads, required⟩ := reads_dependencies found
    obtain ⟨front, before, asked⟩ :=
      (asks_composeFrom g templates files p fun d mem => (required d mem).1).fails _ _ _ failed
    rw [asked, reads]
    exact ⟨List.prefix_append _ _, (List.prefix_append_right_inj _).2 before⟩

/-- Composing reads the algorithm and its dependencies to find them, the dependencies in the order
of composition, and the algorithm again. A failure to find the dependencies is the failure of
composing, without further reads or warnings, and no file was read twice. What the algorithm does
not lead to makes no difference. -/
theorem reads_of_compose (g : Grammar) (templates : Templates) (files : FileSet) (p : Path) :
    (∀ plugin, (compose g templates files p).start.1 = .ok plugin →
      ∃ ds, (dependencies files p).start.1 = .ok ds ∧
        (compose g templates files p).start.2.reads = composingReads p ds) ∧
    (∀ ds failure, (dependencies files p).start.1 = .ok ds →
      (compose g templates files p).start.1 = .error failure →
        p.normalize :: ds.map Dependency.path <+: (compose g templates files p).start.2.reads ∧
        (compose g templates files p).start.2.reads <+: composingReads p ds) ∧
    (∀ failure, (dependencies files p).start.1 = .error failure →
      (compose g templates files p).start = (.error failure, (dependencies files p).start.2) ∧
      (compose g templates files p).start.2.reads.Pairwise (fun q r => (q == r) = false) ∧
      (compose g templates files p).start.2.warnings = []) ∧
    ∀ files', (∀ q, ReflTransGen (Requires files) p.normalize q → files.load q = files'.load q) →
      (compose g templates files p).start = (compose g templates files' p).start := by
  refine ⟨fun plugin h => reads_of_ends (Reading.start_eq_ok_iff.1 h),
    fun ds failure found h => reads_of_fails found (Reading.start_eq_error_iff.1 h),
    fun failure h => ?_, fun files' agree => compose_congr g templates agree⟩
  have same : (compose g templates files p).start =
      (.error failure, (dependencies files p).start.2) :=
    Reading.fails_bind_iff.2 (.inl (Reading.start_eq_error_iff.1 h))
  rw [same]
  exact ⟨rfl, Requirement.pairwise_reads_dependencies files p,
    Requirement.silent_dependencies files p .empty⟩

/-! ### Two instances, no label, and a circle -/

section Examples

open Requirement (mutualPair)

/-- An algorithm without a label. -/
def unlabelled : FileSet :=
  { FileSet.empty with files := [(⟨"a.dts"⟩, "")] }

/-- The failure to compose it. -/
def labelMissing : Failure :=
  .directive "a.dts" ("missing '" ++ DirectiveKind.label.word ++ "' directive")

theorem ends_dependencies_unlabelled : (dependencies unlabelled ⟨"a.dts"⟩).Ends .empty []
    ⟨[⟨"a.dts"⟩], []⟩ :=
  Requirement.ends_dependencies_of_requires_none rfl

theorem fails_compose_unlabelled (g : Grammar) (templates : Templates) :
    (compose g templates unlabelled ⟨"a.dts"⟩).start.1 = .error labelMissing := by
  have expanded : (expand unlabelled .elide ⟨"a.dts"⟩).Ends ⟨[⟨"a.dts"⟩], []⟩
      ⟨[.marker 1 ⟨"a.dts"⟩], []⟩ ⟨[⟨"a.dts"⟩, ⟨"a.dts"⟩], []⟩ :=
    ends_expand_elide rfl rfl rfl _
  have algorithm : (composeAlgorithm g templates unlabelled ⟨"a.dts"⟩ []).Fails ⟨[⟨"a.dts"⟩], []⟩
      labelMissing ⟨[⟨"a.dts"⟩, ⟨"a.dts"⟩], []⟩ :=
    Reading.fails_bind_iff.2 (.inr ⟨_, _, expanded, Reading.fails_bind_iff.2
      (.inl (Reading.fails_ofExcept_iff.2 ⟨rfl, rfl⟩))⟩)
  have from_dependencies : (composeFrom g templates unlabelled ⟨"a.dts"⟩ []).Fails
      ⟨[⟨"a.dts"⟩], []⟩ labelMissing
      ⟨[⟨"a.dts"⟩, ⟨"a.dts"⟩], []⟩ :=
    Reading.fails_bind_iff.2 (.inr ⟨[], _, ends_composeIndicators_nil _ _ _ _, algorithm⟩)
  exact Reading.start_eq_error_of_fails
    (Reading.fails_bind_iff.2 (.inr ⟨[], _, ends_dependencies_unlabelled, from_dependencies⟩))

theorem reads_of_compose_examples :
    (compose Script.grammar .default twins ⟨"a.dts"⟩).start.2.reads =
      composingReads ⟨"a.dts"⟩ [⟨⟨"b.dti"⟩, 1⟩] ∧
    (compose Script.grammar .default unlabelled ⟨"a.dts"⟩).start.2.reads <+:
      composingReads ⟨"a.dts"⟩ [] ∧
    (compose Script.grammar .default mutualPair ⟨"a.dti"⟩).start =
      (.error (.cycle [⟨"a.dti"⟩, ⟨"b.dti"⟩, ⟨"a.dti"⟩]),
        (dependencies mutualPair ⟨"a.dti"⟩).start.2) ∧
    (compose Script.grammar .default twins ⟨"a.dts"⟩).start =
      (compose Script.grammar .default { twins with folders := [⟨"other"⟩] } ⟨"a.dts"⟩).start := by
  obtain ⟨succeeds, -, -, congruent⟩ := reads_of_compose Script.grammar .default twins ⟨"a.dts"⟩
  obtain ⟨-, fails, -⟩ := reads_of_compose Script.grammar .default unlabelled ⟨"a.dts"⟩
  obtain ⟨-, -, stops, -⟩ := reads_of_compose Script.grammar .default mutualPair ⟨"a.dti"⟩
  refine ⟨?_, ?_, ?_, congruent _ fun q _ => rfl⟩
  · obtain ⟨ds, found, reads⟩ := succeeds _ compose_twins
    cases found.symm.trans (congrArg Prod.fst ends_dependencies_twins)
    exact reads
  · exact (fails _ _ (congrArg Prod.fst ends_dependencies_unlabelled)
      (fails_compose_unlabelled Script.grammar .default)).2
  · exact (stops _ Requirement.dependencies_mutualPair).1

end Examples

end Plugin

end TradeScript
