import TradeScript.Proofs.Requirement.Depth
import TradeScript.Proofs.Source.Expansion

/-!
# Dependencies

The dependencies of a script are the scripts that chains of requirements lead to, in the order of a
depth-first walk, each with the length of the longest chain; put in order by depth, each comes before
those that require it (`longestChains_of_dependencies`). They can be found unless scripts that can be
reached require one another in a circle or cannot be read (`circles_of_dependencies`).
-/

namespace TradeScript

namespace Requirement

open Relation

/-! ## The order of composition -/

section Order

variable {ds : List Dependency}

theorem perm_compositionOrder (ds : List Dependency) : (compositionOrder ds).Perm ds :=
  List.mergeSort_perm ds _

theorem deeper_trans (d e f : Dependency) (first : decide (e.depth ≤ d.depth) = true)
    (second : decide (f.depth ≤ e.depth) = true) : decide (f.depth ≤ d.depth) = true := by
  rw [decide_eq_true_eq] at first second ⊢
  omega

theorem deeper_total (d e : Dependency) :
    (decide (e.depth ≤ d.depth) || decide (d.depth ≤ e.depth)) = true := by
  rw [Bool.or_eq_true, decide_eq_true_eq, decide_eq_true_eq]
  omega

theorem pairwise_compositionOrder (ds : List Dependency) :
    (compositionOrder ds).Pairwise fun d e => e.depth ≤ d.depth :=
  (List.pairwise_mergeSort deeper_trans deeper_total ds).imp of_decide_eq_true

/-- Dependencies of one depth keep their order. -/
theorem filter_compositionOrder (ds : List Dependency) (n : Nat) :
    (compositionOrder ds).filter (·.depth = n) = ds.filter (·.depth = n) := by
  have level : (ds.filter (·.depth = n)).Pairwise fun d e => decide (e.depth ≤ d.depth) = true := by
    refine List.pairwise_of_forall_mem_list fun d mem e mem' => ?_
    rw [List.mem_filter, decide_eq_true_eq] at mem mem'
    rw [decide_eq_true_eq, mem.2, mem'.2]
  have sub := (List.sublist_mergeSort deeper_trans deeper_total level List.filter_sublist).filter
    (·.depth = n)
  rw [List.filter_filter] at sub
  simp only [Bool.and_self] at sub
  exact (sub.eq_of_length ((perm_compositionOrder ds).filter _).length_eq.symm).symm

end Order

/-! ## Runs that find the dependencies, or fail -/

section Runs

variable {files : FileSet} {root : Path} {ds : List Dependency} {failure : Failure}
  {journal journal' : Journal}

/-- The dependencies that a survey has found. -/
def Survey.dependencies (s : Survey) (root : Path) : List Dependency :=
  (s.order.filter (!· == root)).map fun p =>
    ⟨p, ((deepen s s.order.length 0 [] root).of? p).getD 0⟩

theorem ends_dependencies_iff : (dependencies files root).Ends journal ds journal' ↔
    ∃ s, (visit files [] root.normalize .empty).Ends journal s journal' ∧
      s.dependencies root.normalize = ds := by
  unfold dependencies
  rw [Reading.ends_bind_iff]
  constructor
  · rintro ⟨s, middle, run, ends⟩
    obtain ⟨rfl, rfl⟩ := Reading.ends_pure_iff.1 ends
    exact ⟨s, run, rfl⟩
  · rintro ⟨s, run, rfl⟩
    exact ⟨s, journal', run, Reading.ends_pure_iff.2 ⟨rfl, rfl⟩⟩

/-- A script that requires nothing is the only one that is read. -/
theorem ends_dependencies_of_requires_none
    (none_required : requiredBy files root.normalize = .ok []) :
    (dependencies files root).Ends .empty [] ⟨[root.normalize], []⟩ := by
  refine ends_dependencies_iff.2
    ⟨⟨[root.normalize], [(root.normalize, [])]⟩, ?_, by simp [Survey.dependencies]⟩
  exact ends_visit_iff.2
    ⟨rfl, .inr ⟨rfl, [], _, none_required, ends_visitAll_nil.2 ⟨rfl, rfl⟩, rfl⟩⟩

theorem fails_dependencies_iff : (dependencies files root).Fails journal failure journal' ↔
    (visit files [] root.normalize .empty).Fails journal failure journal' := by
  unfold dependencies
  exact Reading.fails_bind_pure_iff

end Runs

/-! ## What the dependencies are -/

section Dependencies

variable {files : FileSet} {root : Path} {s : Survey}

theorem Surveyed.order_eq (hs : Surveyed files root s) :
    s.order = root :: (s.dependencies root).map Dependency.path := by
  obtain ⟨others, order⟩ := hs.exists_order_eq
  have nodup := hs.nodup
  have normal := hs.normal
  rw [order] at nodup normal
  rw [List.forall_mem_cons] at normal
  have kept : s.order.filter (!· == root) = others := by
    rw [order, List.filter_cons_of_neg (by simp), List.filter_eq_self]
    intro q mem
    rw [Bool.not_eq_true', Bool.eq_false_iff]
    intro same
    rw [(normal.2 q mem).eq_of_beq normal.1 same] at mem
    exact (List.nodup_cons.1 nodup).1 mem
  rw [Survey.dependencies, List.map_map, kept, order]
  congr 1
  exact (List.map_id others).symm

theorem Surveyed.isGreatest (hs : Surveyed files root s) {d : Dependency}
    (mem : d ∈ s.dependencies root) : IsGreatest {n | Chain files n root d.path} d.depth := by
  obtain ⟨p, mem_p, rfl⟩ := List.mem_map.1 mem
  exact hs.isGreatest_depth (List.mem_filter.1 mem_p).1

theorem Surveyed.depth_lt (hs : Surveyed files root s) {d e : Dependency}
    (mem : d ∈ s.dependencies root) (mem' : e ∈ s.dependencies root)
    (requires : Requires files d.path e.path) : d.depth < e.depth := by
  have chain : Chain files d.depth root d.path := (hs.isGreatest mem).1
  exact (hs.isGreatest mem').2 (chain.concat requires)

theorem Surveyed.mem_path_iff (hs : Surveyed files root s) (q : Path) :
    q ∈ (s.dependencies root).map Dependency.path ↔ TransGen (Requires files) root q := by
  have mem_order := hs.mem_order q
  have root_mem : root ∈ s.order := (hs.mem_order root).2 .refl
  have distinct := hs.nodup
  rw [hs.order_eq] at mem_order distinct
  rw [List.mem_cons, reflTransGen_iff_eq_or_transGen] at mem_order
  constructor
  · intro mem
    rcases mem_order.1 (.inr mem) with rfl | reached
    · exact absurd mem (List.nodup_cons.1 distinct).1
    · exact reached
  · intro reached
    rcases mem_order.2 (.inr reached) with rfl | mem
    · exact absurd reached (hs.acyclic q root_mem)
    · exact mem

/-- In the order of composition, what requires a script comes after it. -/
theorem Surveyed.mem_back_of_requires (hs : Surveyed files root s) {front back : List Dependency}
    {d e : Dependency} (split : compositionOrder (s.dependencies root) = front ++ d :: back)
    (mem : e ∈ compositionOrder (s.dependencies root)) (requires : Requires files e.path d.path) :
    e ∈ back := by
  have perm := perm_compositionOrder (s.dependencies root)
  have sorted := pairwise_compositionOrder (s.dependencies root)
  have mem_d : d ∈ compositionOrder (s.dependencies root) := by
    rw [split]
    simp
  have lt : e.depth < d.depth :=
    hs.depth_lt (perm.mem_iff.1 mem) (perm.mem_iff.1 mem_d) requires
  rw [split, List.mem_append, List.mem_cons] at mem
  rw [split] at sorted
  rcases mem with before | rfl | after
  · have le := (List.pairwise_append.1 sorted).2.2 e before d List.mem_cons_self
    omega
  · omega
  · exact after

theorem Surveyed.path_mem_back_of_requires (hs : Surveyed files root s) {front back : List Path}
    {q r : Path}
    (split : (compositionOrder (s.dependencies root)).map Dependency.path = front ++ q :: back)
    (mem : r ∈ (compositionOrder (s.dependencies root)).map Dependency.path)
    (requires : Requires files r q) : r ∈ back := by
  obtain ⟨e, mem_e, rfl⟩ := List.mem_map.1 mem
  obtain ⟨before, rest, ordered, -, rest_paths⟩ := List.map_eq_append_iff.1 split
  obtain ⟨d, after, rfl, rfl, rfl⟩ := List.map_eq_cons_iff.1 rest_paths
  exact List.mem_map_of_mem (hs.mem_back_of_requires ordered mem_e requires)

/-- The scripts in the order of composition are different ones. -/
theorem Surveyed.pairwise_compositionOrder_path (hs : Surveyed files root s) :
    ((compositionOrder (s.dependencies root)).map Dependency.path).Pairwise
      fun p q => (p == q) = false := by
  have order := Path.pairwise_of_nodup hs.nodup hs.normal
  rw [hs.order_eq, List.pairwise_cons] at order
  have perm := (perm_compositionOrder (s.dependencies root)).map Dependency.path
  refine (perm.pairwise_iff fun {p q} differ => ?_).2 order.2
  rw [Bool.eq_false_iff] at differ ⊢
  exact fun same => differ (BEq.symm same)

theorem surveyed_of_dependencies {ds : List Dependency} {journal journal' : Journal}
    (h : (dependencies files root).Ends journal ds journal') :
    ∃ s, Surveyed files root.normalize s ∧ s.dependencies root.normalize = ds := by
  obtain ⟨s, run, found⟩ := ends_dependencies_iff.1 h
  exact ⟨s, (surveyed_of_ends (Path.isNormal_normalize root) run).1, found⟩

end Dependencies

/-- The dependencies of a script are the scripts that it leads to, in the order in which a depth-first
walk meets them first, with the lengths of the longest chains to them. Put in order by depth, each
comes before those that require it, and those of one depth keep their order. -/
theorem longestChains_of_dependencies {files : FileSet} {root : Path} {ds : List Dependency}
    (h : (dependencies files root).start.1 = .ok ds) :
    (∀ q, q ∈ ds.map Dependency.path ↔ TransGen (Requires files) root.normalize q) ∧
    (root.normalize :: ds.map Dependency.path).Pairwise (fun p q => (p == q) = false) ∧
    (∀ n, ds.length ≤ n → Path.distinct (walk files n root.normalize) =
      root.normalize :: ds.map Dependency.path) ∧
    (∀ d ∈ ds, IsGreatest {n | Chain files n root.normalize d.path} d.depth) ∧
    (compositionOrder ds).Perm ds ∧
    (compositionOrder ds).Pairwise (fun d e => e.depth ≤ d.depth) ∧
    (∀ n, (compositionOrder ds).filter (·.depth = n) = ds.filter (·.depth = n)) ∧
    ∀ front d back, compositionOrder ds = front ++ d :: back →
      ∀ e ∈ ds, Requires files e.path d.path → e ∈ back := by
  obtain ⟨s, hs, rfl⟩ := surveyed_of_dependencies (Reading.start_eq_ok_iff.1 h)
  have order := hs.order_eq
  have perm := perm_compositionOrder (s.dependencies root.normalize)
  refine ⟨hs.mem_path_iff, order ▸ Path.pairwise_of_nodup hs.nodup hs.normal, fun n le => ?_,
    fun d mem => hs.isGreatest mem, perm, pairwise_compositionOrder _, filter_compositionOrder _,
    fun front d back split e mem => hs.mem_back_of_requires split (perm.mem_iff.2 mem)⟩
  rw [← order]
  refine hs.met n ?_
  rw [order, List.length_cons, List.length_map]
  exact Nat.succ_le_succ le

/-! ### A script that is required directly and through another one -/

/-- Three scripts: the first requires the last, and then the second, which requires the last too. -/
def diamond : FileSet :=
  { FileSet.empty with
    files := [(⟨"a.dts"⟩, "#require \"c.dti\"\n#require \"b.dti\"\n"),
      (⟨"b.dti"⟩, "#require \"c.dti\"\n"), (⟨"c.dti"⟩, "")] }

/-- The survey of the three scripts. -/
def diamondSurvey : Survey :=
  ⟨[⟨"a.dts"⟩, ⟨"c.dti"⟩, ⟨"b.dti"⟩],
    [(⟨"a.dts"⟩, [⟨"c.dti"⟩, ⟨"b.dti"⟩]), (⟨"b.dti"⟩, [⟨"c.dti"⟩]), (⟨"c.dti"⟩, [])]⟩

theorem ends_visit_diamond : (visit diamond [] ⟨"a.dts"⟩ .empty).Ends .empty diamondSurvey
    ⟨[⟨"a.dts"⟩, ⟨"c.dti"⟩, ⟨"b.dti"⟩], []⟩ := by
  have required : (visit diamond [⟨"a.dts"⟩] ⟨"c.dti"⟩ ⟨[⟨"a.dts"⟩], []⟩).Ends
      ⟨[⟨"a.dts"⟩], []⟩ ⟨[⟨"a.dts"⟩, ⟨"c.dti"⟩], [(⟨"c.dti"⟩, [])]⟩
      ⟨[⟨"a.dts"⟩, ⟨"c.dti"⟩], []⟩ :=
    ends_visit_iff.2 ⟨rfl, .inr ⟨rfl, [], _, rfl, ends_visitAll_nil.2 ⟨rfl, rfl⟩, rfl⟩⟩
  have again : (visit diamond [⟨"b.dti"⟩, ⟨"a.dts"⟩] ⟨"c.dti"⟩
        ⟨diamondSurvey.order, [(⟨"c.dti"⟩, [])]⟩).Ends
      ⟨diamondSurvey.order, []⟩ ⟨diamondSurvey.order, [(⟨"c.dti"⟩, [])]⟩
      ⟨diamondSurvey.order, []⟩ :=
    ends_visit_iff.2 ⟨rfl, .inl ⟨rfl, rfl, rfl⟩⟩
  have through : (visit diamond [⟨"a.dts"⟩] ⟨"b.dti"⟩
        ⟨[⟨"a.dts"⟩, ⟨"c.dti"⟩], [(⟨"c.dti"⟩, [])]⟩).Ends
      ⟨[⟨"a.dts"⟩, ⟨"c.dti"⟩], []⟩ ⟨diamondSurvey.order, diamondSurvey.edges.tail⟩
      ⟨diamondSurvey.order, []⟩ :=
    ends_visit_iff.2 ⟨rfl, .inr ⟨rfl, [⟨"c.dti"⟩], _, rfl,
      ends_visitAll_cons.2 ⟨_, _, again, ends_visitAll_nil.2 ⟨rfl, rfl⟩⟩, rfl⟩⟩
  exact ends_visit_iff.2 ⟨rfl, .inr ⟨rfl, [⟨"c.dti"⟩, ⟨"b.dti"⟩], _, rfl,
    ends_visitAll_cons.2 ⟨_, _, required, ends_visitAll_cons.2
      ⟨_, _, through, ends_visitAll_nil.2 ⟨rfl, rfl⟩⟩⟩, rfl⟩⟩

theorem dependencies_diamond : (dependencies diamond ⟨"a.dts"⟩).start.1 =
    .ok [⟨⟨"c.dti"⟩, 2⟩, ⟨⟨"b.dti"⟩, 1⟩] := by
  have normal : (Path.mk "a.dts").normalize = ⟨"a.dts"⟩ := rfl
  suffices found : (dependencies diamond ⟨"a.dts"⟩).Ends .empty
      [⟨⟨"c.dti"⟩, 2⟩, ⟨⟨"b.dti"⟩, 1⟩] ⟨diamondSurvey.order, []⟩ from congrArg Prod.fst found
  rw [ends_dependencies_iff, normal]
  exact ⟨diamondSurvey, ends_visit_diamond, rfl⟩

/-- The script that is met first is the deeper one. -/
theorem longestChains_of_dependencies_diamond :
    (dependencies diamond ⟨"a.dts"⟩).start.1 = .ok [⟨⟨"c.dti"⟩, 2⟩, ⟨⟨"b.dti"⟩, 1⟩] ∧
    IsGreatest {n | Chain diamond n (Path.mk "a.dts").normalize ⟨"c.dti"⟩} 2 :=
  ⟨dependencies_diamond, (longestChains_of_dependencies dependencies_diamond).2.2.2.1
    ⟨⟨"c.dti"⟩, 2⟩ List.mem_cons_self⟩

/-! ## Whether there are circles -/

section Circles

variable {files : FileSet} {root : Path} {failure : Failure} {chain : List Path}
  {journal journal' : Journal}

theorem stop_of_fails (h : (dependencies files root).Fails journal failure journal') :
    Stop files root.normalize .empty failure journal journal' :=
  (visit_progress_or_stop (.empty files root.normalize)
    ⟨Path.isNormal_normalize root, .singleton _, .refl⟩ journal).2 failure journal'
    (fails_dependencies_iff.1 h)

/-- Finding the dependencies fails because of the files only. -/
theorem ofFiles_of_fails (h : (dependencies files root).Fails journal failure journal') :
    failure.OfFiles := by
  obtain ⟨chain, rfl, -⟩ | ⟨p, -, unreadable⟩ := (stop_of_fails h).explained
  · trivial
  · rcases error_of_requiredBy unreadable with rfl | ⟨line, fault, rfl⟩ <;> trivial

theorem pairwise_reads_dependencies (files : FileSet) (root : Path) :
    (dependencies files root).start.2.reads.Pairwise fun p q => (p == q) = false := by
  rcases outcome : (dependencies files root).start.1 with failure | ds
  · obtain ⟨new, reads, nodup, normal⟩ :=
      (stop_of_fails (Reading.start_eq_error_iff.1 outcome)).recorded
    rw [reads]
    exact Path.pairwise_of_nodup nodup normal
  · obtain ⟨s, run, -⟩ := ends_dependencies_iff.1 (Reading.start_eq_ok_iff.1 outcome)
    obtain ⟨hs, reads⟩ := surveyed_of_ends (Path.isNormal_normalize root) run
    rw [reads]
    exact Path.pairwise_of_nodup hs.nodup hs.normal

theorem circular_of_start (h : (dependencies files root).start.1 = .error (.cycle chain)) :
    Circular files root.normalize chain := by
  obtain ⟨chain', same, circular⟩ | ⟨p, -, unreadable⟩ :=
    (stop_of_fails (Reading.start_eq_error_iff.1 h)).explained
  · cases same
    exact circular
  · rcases error_of_requiredBy unreadable with missing | ⟨line, fault, faulty⟩
    · cases missing
    · cases faulty

/-- In a circle, the script at its end leads back to itself. -/
theorem Circular.exists_transGen_self (h : Circular files root chain) :
    ∃ p, ReflTransGen (Requires files) root p ∧ TransGen (Requires files) p p := by
  obtain ⟨p, first, circle⟩ := h.isCircle.exists_transGen_self
  exact ⟨p, h.reached p first, circle⟩

/-- If all scripts can be read, then only a circle keeps the dependencies from being found. -/
theorem exists_cycle_iff (readable : ∀ p, ReflTransGen (Requires files) root.normalize p →
      ∃ targets, requiredBy files p = .ok targets) :
    (∃ chain, (dependencies files root).start.1 = .error (.cycle chain)) ↔
      ∃ p, ReflTransGen (Requires files) root.normalize p ∧ TransGen (Requires files) p p := by
  constructor
  · rintro ⟨chain, failed⟩
    exact (circular_of_start failed).exists_transGen_self
  · rintro ⟨p, reached, circle⟩
    rcases outcome : (dependencies files root).start.1 with failure | ds
    · obtain ⟨chain, rfl, -⟩ | ⟨q, reached, unreadable⟩ :=
        (stop_of_fails (Reading.start_eq_error_iff.1 outcome)).explained
      · exact ⟨chain, rfl⟩
      · obtain ⟨targets, read⟩ := readable q reached
        cases read.symm.trans unreadable
    · obtain ⟨s, hs, -⟩ := surveyed_of_dependencies (Reading.start_eq_ok_iff.1 outcome)
      exact absurd circle (hs.acyclic p ((hs.mem_order p).2 reached))

end Circles

/-- Finding the dependencies ends: its deepening needs no bound, and no file is read twice. It fails
with a circle or with the failure of a script that it leads to; and if all of these can be read, then
with a circle exactly if one of them leads back to itself. -/
theorem circles_of_dependencies (files : FileSet) (root : Path) :
    (∀ s, (visit files [] root.normalize .empty).start.1 = .ok s →
      Deepens s 0 [] root.normalize (deepen s s.order.length 0 [] root.normalize)) ∧
    ((dependencies files root).start.2.reads.Pairwise fun p q => (p == q) = false) ∧
    (∀ chain, (dependencies files root).start.1 = .error (.cycle chain) →
      Circular files root.normalize chain) ∧
    (∀ failure, (dependencies files root).start.1 = .error failure →
      (∃ chain, failure = .cycle chain) ∨
        ∃ p, ReflTransGen (Requires files) root.normalize p ∧
          requiredBy files p = .error failure) ∧
    ((∀ p, ReflTransGen (Requires files) root.normalize p →
        ∃ targets, requiredBy files p = .ok targets) →
      ((∃ chain, (dependencies files root).start.1 = .error (.cycle chain)) ↔
        ∃ p, ReflTransGen (Requires files) root.normalize p ∧ TransGen (Requires files) p p)) := by
  refine ⟨fun s run => ?_, pairwise_reads_dependencies files root, fun _ => circular_of_start,
    fun failure failed => ?_, exists_cycle_iff⟩
  · have hs := (surveyed_of_ends (Path.isNormal_normalize root) (Reading.start_eq_ok_iff.1 run)).1
    exact hs.deepens_deepen (Nat.le_refl _) (.nil _) []
  · obtain ⟨chain, rfl, -⟩ | unreadable :=
      (stop_of_fails (Reading.start_eq_error_iff.1 failed)).explained
    · exact .inl ⟨chain, rfl⟩
    · exact .inr unreadable

/-! ### Two scripts that require each other -/

/-- Two scripts of which each requires the other. -/
def mutualPair : FileSet :=
  { FileSet.empty with
    files := [(⟨"a.dti"⟩, "#require \"b.dti\"\n"), (⟨"b.dti"⟩, "#require \"./a.dti\"\n")] }

theorem dependencies_mutualPair : (dependencies mutualPair ⟨"a.dti"⟩).start.1 =
    .error (.cycle [⟨"a.dti"⟩, ⟨"b.dti"⟩, ⟨"a.dti"⟩]) := by
  have normal : (Path.mk "a.dti").normalize = ⟨"a.dti"⟩ := rfl
  suffices failed : (dependencies mutualPair ⟨"a.dti"⟩).Fails .empty
      (.cycle [⟨"a.dti"⟩, ⟨"b.dti"⟩, ⟨"a.dti"⟩]) ⟨[⟨"a.dti"⟩, ⟨"b.dti"⟩], []⟩ from
    congrArg Prod.fst failed
  rw [fails_dependencies_iff, normal]
  have back : (visit mutualPair [⟨"b.dti"⟩, ⟨"a.dti"⟩] ⟨"a.dti"⟩
        ⟨[⟨"a.dti"⟩, ⟨"b.dti"⟩], []⟩).Fails ⟨[⟨"a.dti"⟩, ⟨"b.dti"⟩], []⟩
      (.cycle [⟨"a.dti"⟩, ⟨"b.dti"⟩, ⟨"a.dti"⟩]) ⟨[⟨"a.dti"⟩, ⟨"b.dti"⟩], []⟩ :=
    fails_visit_iff.2 (.inl ⟨rfl, rfl, rfl⟩)
  have there : (visit mutualPair [⟨"a.dti"⟩] ⟨"b.dti"⟩ ⟨[⟨"a.dti"⟩], []⟩).Fails
      ⟨[⟨"a.dti"⟩], []⟩ (.cycle [⟨"a.dti"⟩, ⟨"b.dti"⟩, ⟨"a.dti"⟩])
      ⟨[⟨"a.dti"⟩, ⟨"b.dti"⟩], []⟩ :=
    fails_visit_iff.2 (.inr ⟨rfl, rfl, .inr ⟨[⟨"a.dti"⟩], rfl, fails_visitAll_cons.2 (.inl back)⟩⟩)
  exact fails_visit_iff.2
    (.inr ⟨rfl, rfl, .inr ⟨[⟨"b.dti"⟩], rfl, fails_visitAll_cons.2 (.inl there)⟩⟩)

theorem circles_of_dependencies_mutualPair :
    (dependencies mutualPair ⟨"a.dti"⟩).start.1 =
      .error (.cycle [⟨"a.dti"⟩, ⟨"b.dti"⟩, ⟨"a.dti"⟩]) ∧
    Circular mutualPair (Path.mk "a.dti").normalize [⟨"a.dti"⟩, ⟨"b.dti"⟩, ⟨"a.dti"⟩] :=
  ⟨dependencies_mutualPair,
    (circles_of_dependencies mutualPair ⟨"a.dti"⟩).2.2.1 _ dependencies_mutualPair⟩

end Requirement

end TradeScript
