import Mathlib.Data.List.Chain
import Mathlib.Data.List.Nodup
import TradeScript.Proofs.Requirement.Chain
import TradeScript.Proofs.Requirement.Circle
import TradeScript.Proofs.Source.Reading

/-!
# What a survey finds

A survey is taken apart along its calls (`ends_visit_iff`, `fails_visit_iff`). While it is underway,
what it has discovered is finished or active, the finished scripts require only scripts that were
finished before them, and the active ones form a chain (`Underway`). One induction along the calls
says what a survey adds (`Progress`) and why it may stop (`Stop`).

Main statements: a survey that ends has discovered what can be reached, in the order in which a walk
meets it first (`surveyed_of_ends`); one that fails has met a circle or a script that cannot be read
(`visit_progress_or_stop`).
-/

namespace TradeScript

namespace Requirement

/-! ## Runs -/

section Runs

variable {files : FileSet} {active targets : List Path} {p : Path} {s s' : Survey}
  {journal journal' : Journal} {failure : Failure}

/-- The journal after one more path was asked for. -/
abbrev asking (journal : Journal) (p : Path) : Journal :=
  { journal with reads := journal.reads ++ [p] }

theorem ends_visit_iff : (visit files active p s).Ends journal s' journal' ↔
    active.contains p = false ∧
      ((s.isFinished p = true ∧ s = s' ∧ journal = journal') ∨
        s.isFinished p = false ∧ ∃ targets found, requiredBy files p = .ok targets ∧
          (visitAll files (p :: active) targets (s.discover p)).Ends (asking journal p) found
            journal' ∧ found.finish p targets = s') := by
  rw [visit]
  cases known : active.contains p with
  | true =>
    rw [dif_pos rfl]
    simp [Reading.not_ends_fail]
  | false =>
    rw [dif_neg (by simp)]
    cases done : s.isFinished p with
    | true => simp [Reading.ends_pure_iff]
    | false =>
      simp only [Bool.false_eq_true, if_false, Reading.ends_bind_iff, Reading.ends_ask_iff,
        exists_const, exists_eq_left', true_and, false_and, false_or]
      split
      · next reason unreadable => simp [unreadable, Reading.not_ends_fail]
      · next targets readable =>
        simp only [Reading.ends_bind_iff, Reading.ends_pure_iff, readable, Except.ok.injEq]
        constructor
        · rintro ⟨found, _, run, rfl, rfl⟩
          exact ⟨targets, found, rfl, run, rfl⟩
        · rintro ⟨_, found, rfl, run, rfl⟩
          exact ⟨found, journal', run, rfl, rfl⟩

theorem fails_visit_iff : (visit files active p s).Fails journal failure journal' ↔
    (active.contains p = true ∧ .cycle (requireCycle active p) = failure ∧ journal = journal') ∨
      active.contains p = false ∧ s.isFinished p = false ∧
        ((requiredBy files p = .error failure ∧ asking journal p = journal') ∨
          ∃ targets, requiredBy files p = .ok targets ∧
            (visitAll files (p :: active) targets (s.discover p)).Fails (asking journal p) failure
              journal') := by
  rw [visit]
  cases known : active.contains p with
  | true =>
    rw [dif_pos rfl]
    simp [Reading.fails_fail_iff]
  | false =>
    rw [dif_neg (by simp)]
    cases done : s.isFinished p with
    | true => simp [Reading.not_fails_pure]
    | false =>
      simp only [Bool.false_eq_true, if_false, Reading.fails_bind_iff, Reading.ends_ask_iff,
        Reading.not_fails_ask, exists_const, exists_eq_left', true_and, false_and, false_or]
      split
      · next reason unreadable => simp [unreadable, Reading.fails_fail_iff]
      · next targets readable =>
        simp only [Reading.fails_bind_iff, Reading.not_fails_pure, and_false, exists_false,
          or_false, readable, Except.ok.injEq, exists_eq_left', reduceCtorEq, false_and, false_or]

theorem ends_visitAll_nil : (visitAll files active [] s).Ends journal s' journal' ↔
    s = s' ∧ journal = journal' := by
  rw [visitAll, Reading.ends_pure_iff]

theorem ends_visitAll_cons : (visitAll files active (p :: targets) s).Ends journal s' journal' ↔
    ∃ found middle, (visit files active p s).Ends journal found middle ∧
      (visitAll files active targets found).Ends middle s' journal' := by
  rw [visitAll, Reading.ends_bind_iff]

theorem fails_visitAll_nil : ¬ (visitAll files active [] s).Fails journal failure journal' := by
  rw [visitAll]
  exact Reading.not_fails_pure

theorem fails_visitAll_cons :
    (visitAll files active (p :: targets) s).Fails journal failure journal' ↔
      (visit files active p s).Fails journal failure journal' ∨
        ∃ found middle, (visit files active p s).Ends journal found middle ∧
          (visitAll files active targets found).Fails middle failure journal' := by
  rw [visitAll, Reading.fails_bind_iff]

end Runs

/-! ## First meetings -/

/-- Some scripts and those met after them, each at its first place. -/
def gather (seen met : List Path) : List Path :=
  met.foldl (fun seen p => if seen.contains p then seen else seen ++ [p]) seen

theorem gather_append (seen met more : List Path) :
    gather seen (met ++ more) = gather (gather seen met) more :=
  List.foldl_append

theorem gather_cons_of_new {seen : List Path} {p : Path} (new : seen.contains p = false)
    (met : List Path) : gather seen (p :: met) = gather (seen ++ [p]) met := by
  rw [gather, List.foldl_cons, if_neg (by simp [new])]
  rfl

theorem gather_eq_self {seen met : List Path} (known : ∀ p ∈ met, p ∈ seen) :
    gather seen met = seen := by
  induction met with
  | nil => rfl
  | cons p met ih =>
    rw [List.forall_mem_cons] at known
    have contained : seen.contains p = true :=
      List.contains_iff_exists_mem_beq.2 ⟨p, known.1, BEq.rfl⟩
    rw [gather, List.foldl_cons, if_pos contained]
    exact ih known.2

theorem gather_eq_append_filter (seen met : List Path) :
    gather seen met = seen ++ (Path.distinct met).filter (!seen.contains ·) := by
  induction met generalizing seen with
  | nil => simp [gather, Path.distinct]
  | cons p met ih =>
    rw [Path.distinct]
    cases known : seen.contains p with
    | true =>
      have first : gather seen (p :: met) = gather seen met := by
        rw [gather, List.foldl_cons, if_pos known]
        rfl
      rw [first, ih, List.filter_cons, known, List.filter_filter]
      congr 1
      refine List.filter_congr fun q _ => ?_
      cases other : seen.contains q with
      | true => rfl
      | false =>
        have differs : (q == p) = false := by
          rw [Bool.eq_false_iff]
          intro same
          rw [List.contains_iff_exists_mem_beq] at known
          obtain ⟨r, mem, there⟩ := known
          have absent : seen.contains q ≠ true := by simp [other]
          exact absent (List.contains_iff_exists_mem_beq.2 ⟨r, mem, BEq.trans same there⟩)
        simp [differs]
    | false =>
      rw [gather_cons_of_new known, ih, List.filter_cons, known, List.filter_filter,
        List.append_assoc]
      congr 1
      rw [Bool.not_false, if_pos rfl, List.singleton_append]
      congr 1
      refine List.filter_congr fun q _ => ?_
      simp [List.contains_append, List.contains_cons, Bool.and_comm]

theorem distinct_eq_gather (met : List Path) : Path.distinct met = gather [] met := by
  simp [gather_eq_append_filter]

/-! ## While a survey is underway -/

/-- The scripts that a survey has finished, the last one first. -/
def Survey.finished (s : Survey) : List Path :=
  s.edges.map Prod.fst

/-- What holds of a survey that started at `root`, while some scripts are active, the innermost
first. -/
structure Underway (files : FileSet) (root : Path) (active : List Path) (s : Survey) : Prop where
  grounded : Grounded files s.edges
  mem_order : ∀ q, q ∈ s.order ↔ q ∈ active ∨ q ∈ s.finished
  nodup : s.order.Nodup
  normal : ∀ q ∈ s.order, q.IsNormal
  reached : ∀ q ∈ s.order, Relation.ReflTransGen (Requires files) root q
  chain : active.IsChain fun q p => Requires files p q
  distinct : active.Nodup
  unfinished : ∀ q ∈ active, q ∉ s.finished

/-- A script that may be surveyed next: the innermost active one requires it. -/
structure Next (files : FileSet) (root : Path) (active : List Path) (p : Path) : Prop where
  normal : p.IsNormal
  chain : (p :: active).IsChain fun q p => Requires files p q
  reached : Relation.ReflTransGen (Requires files) root p

section Steps

variable {files : FileSet} {root p : Path} {active targets : List Path} {s : Survey}

theorem isFinished_iff (normal : p.IsNormal) (all : ∀ q ∈ s.finished, q.IsNormal) :
    s.isFinished p = true ↔ p ∈ s.finished := by
  rw [Survey.isFinished, List.any_eq_true]
  constructor
  · rintro ⟨edge, mem, same⟩
    have there : edge.1 ∈ s.finished := List.mem_map.2 ⟨edge, mem, rfl⟩
    rwa [← (all _ there).eq_of_beq normal same]
  · intro mem
    obtain ⟨edge, there, rfl⟩ := List.mem_map.1 mem
    exact ⟨edge, there, BEq.rfl⟩

theorem Next.of_requires (h : Next files root active p) {targets : List Path}
    (readable : requiredBy files p = .ok targets) {q : Path} (mem : q ∈ targets) :
    Next files root (p :: active) q := by
  have requires : Requires files p q := requires_iff.2 ⟨targets, readable, mem⟩
  exact ⟨requires.isNormal, h.chain.cons_cons requires, h.reached.tail requires⟩

namespace Underway

theorem empty (files : FileSet) (root : Path) : Underway files root [] .empty where
  grounded := trivial
  mem_order q := by simp [Survey.empty, Survey.finished]
  nodup := List.nodup_nil
  normal q mem := by cases mem
  reached q mem := by cases mem
  chain := .nil
  distinct := List.nodup_nil
  unfinished q mem := by cases mem

theorem normal_of_active (h : Underway files root active s) : ∀ q ∈ active, q.IsNormal :=
  fun q mem => h.normal q ((h.mem_order q).2 (.inl mem))

theorem normal_of_finished (h : Underway files root active s) : ∀ q ∈ s.finished, q.IsNormal :=
  fun q mem => h.normal q ((h.mem_order q).2 (.inr mem))

theorem not_mem_order (h : Underway files root active s) (normal : p.IsNormal)
    (inactive : active.contains p = false) (open_ : s.isFinished p = false) : p ∉ s.order := by
  rw [h.mem_order, not_or, ← normal.contains_iff_mem h.normal_of_active,
    ← isFinished_iff normal h.normal_of_finished, inactive, open_]
  simp

theorem discover (h : Underway files root active s) (next : Next files root active p)
    (new : p ∉ s.order) : Underway files root (p :: active) (s.discover p) where
  grounded := h.grounded
  mem_order q := by
    have known := h.mem_order q
    simp only [Survey.discover, List.mem_append, List.mem_cons, List.not_mem_nil, or_false, known]
    exact ⟨fun mem => mem.elim (Or.imp_left .inr) fun here => .inl (.inl here),
      fun mem => mem.elim (fun mem => mem.elim .inr fun before => .inl (.inl before))
        fun done => .inl (.inr done)⟩
  nodup := by
    rw [Survey.discover, ← List.concat_eq_append]
    exact h.nodup.concat new
  normal q mem := by
    rcases List.mem_append.1 mem with before | here
    · exact h.normal q before
    · rw [List.mem_singleton.1 here]
      exact next.normal
  reached q mem := by
    rcases List.mem_append.1 mem with before | here
    · exact h.reached q before
    · rw [List.mem_singleton.1 here]
      exact next.reached
  chain := next.chain
  distinct := List.nodup_cons.2 ⟨fun mem => new ((h.mem_order p).2 (.inl mem)), h.distinct⟩
  unfinished := List.forall_mem_cons.2
    ⟨fun mem => new ((h.mem_order p).2 (.inr mem)), h.unfinished⟩

theorem finish (h : Underway files root (p :: active) s)
    (readable : requiredBy files p = .ok targets) (all : ∀ q ∈ targets, q ∈ s.finished) :
    Underway files root active (s.finish p targets) where
  grounded := ⟨readable, all, h.unfinished p List.mem_cons_self, h.grounded⟩
  mem_order q := by
    have known := h.mem_order q
    rw [List.mem_cons] at known
    simp only [Survey.finish, Survey.finished, List.map_cons, List.mem_cons] at known ⊢
    rw [known]
    tauto
  nodup := h.nodup
  normal := h.normal
  reached := h.reached
  chain := h.chain.tail
  distinct := (List.nodup_cons.1 h.distinct).2
  unfinished q mem := by
    rw [Survey.finish, Survey.finished, List.map_cons, List.mem_cons, not_or]
    refine ⟨?_, h.unfinished q (List.mem_cons_of_mem p mem)⟩
    rintro rfl
    exact (List.nodup_cons.1 h.distinct).1 mem

end Underway

end Steps

/-! ## Circles -/

/-- A circle of requirements among the scripts that `root` leads to, from a script back to itself. -/
structure Circular (files : FileSet) (root : Path) (chain : List Path) : Prop where
  length : 2 ≤ chain.length
  closed : chain.head? = chain.getLast?
  distinct : chain.tail.Pairwise fun p q => (p == q) = false
  requires : chain.IsChain (Requires files)
  reached : ∀ p ∈ chain.head?, Relation.ReflTransGen (Requires files) root p

theorem Circular.isCircle {files : FileSet} {root : Path} {chain : List Path}
    (h : Circular files root chain) : IsCircle (Requires files) chain :=
  ⟨h.length, h.closed, h.distinct, h.requires⟩

theorem circular_requireCycle {files : FileSet} {root p : Path} {active : List Path} {s : Survey}
    (h : Underway files root active s) (next : Next files root active p) (mem : p ∈ active) :
    Circular files root (requireCycle active p) := by
  have circle := isCircle_requireCycle next.normal h.normal_of_active h.distinct next.chain mem
  refine ⟨circle.length, circle.closed, circle.distinct, circle.linked, ?_⟩
  rintro q ⟨⟩
  exact next.reached

/-! ## What a survey adds -/

/-- What the survey of some scripts has added when it ends. -/
structure Progress (files : FileSet) (root : Path) (active targets : List Path) (s s' : Survey)
    (journal journal' : Journal) : Prop where
  underway : Underway files root active s'
  kept : ∀ q ∈ s.finished, q ∈ s'.finished
  finished : ∀ q ∈ targets, q ∈ s'.finished
  recorded : ∃ new, s'.order = s.order ++ new ∧ journal'.reads = journal.reads ++ new
  met : ∃ bound, ∀ n, bound ≤ n → s'.order = gather s.order (targets.flatMap (walk files n))

/-- Why a survey may fail: scripts require one another in a circle, or one that `root` leads to cannot
be read. -/
def Explains (files : FileSet) (root : Path) (failure : Failure) : Prop :=
  (∃ chain, failure = .cycle chain ∧ Circular files root chain) ∨
    ∃ q, Relation.ReflTransGen (Requires files) root q ∧ requiredBy files q = .error failure

/-- What holds of a survey that fails: no path was asked for twice. -/
structure Stop (files : FileSet) (root : Path) (s : Survey) (failure : Failure)
    (journal journal' : Journal) : Prop where
  recorded : ∃ new, journal'.reads = journal.reads ++ new ∧ (s.order ++ new).Nodup ∧
    ∀ q ∈ new, q.IsNormal
  explained : Explains files root failure

section Progress

variable {files : FileSet} {root p : Path} {active targets : List Path} {s s' found : Survey}
  {journal journal' middle : Journal} {failure : Failure}

theorem Progress.nil (h : Underway files root active s) :
    Progress files root active [] s s journal journal where
  underway := h
  kept _ mem := mem
  finished _ mem := by cases mem
  recorded := ⟨[], by simp⟩
  met := ⟨0, fun _ _ => rfl⟩

theorem Progress.cons (first : Progress files root active [p] s found journal middle)
    (others : Progress files root active targets found s' middle journal') :
    Progress files root active (p :: targets) s s' journal journal' where
  underway := others.underway
  kept q mem := others.kept q (first.kept q mem)
  finished := List.forall_mem_cons.2
    ⟨others.kept p (first.finished p List.mem_cons_self), others.finished⟩
  recorded := by
    obtain ⟨new, order, reads⟩ := first.recorded
    obtain ⟨more, order', reads'⟩ := others.recorded
    exact ⟨new ++ more, by rw [order', order, List.append_assoc],
      by rw [reads', reads, List.append_assoc]⟩
  met := by
    obtain ⟨bound, order⟩ := first.met
    obtain ⟨bound', order'⟩ := others.met
    refine ⟨max bound bound', fun n le => ?_⟩
    have here := order n (le_trans (le_max_left _ _) le)
    rw [List.flatMap_singleton] at here
    rw [order' n (le_trans (le_max_right _ _) le), here, List.flatMap_cons, gather_append]

/-- Nothing is added for a script that is finished. -/
theorem Progress.of_finished (h : Underway files root active s) (done : p ∈ s.finished) :
    Progress files root active [p] s s journal journal where
  underway := h
  kept _ mem := mem
  finished := by simpa using done
  recorded := ⟨[], by simp⟩
  met := by
    refine ⟨0, fun n _ => (gather_eq_self fun q met => ?_).symm⟩
    rw [List.flatMap_singleton] at met
    obtain ⟨m, -, chain⟩ := mem_walk_iff.1 met
    exact (h.mem_order q).2 (.inr (h.grounded.chain_lt chain done).1)

/-- A new script is finished after the scripts that it requires. -/
theorem Progress.finish (new : s.order.contains p = false)
    (readable : requiredBy files p = .ok targets)
    (h : Progress files root (p :: active) targets (s.discover p) found (asking journal p) journal') :
    Progress files root active [p] s (found.finish p targets) journal journal' where
  underway := h.underway.finish readable h.finished
  kept q mem := List.mem_cons_of_mem p (h.kept q mem)
  finished := by simp [Survey.finish, Survey.finished]
  recorded := by
    obtain ⟨more, order, reads⟩ := h.recorded
    refine ⟨p :: more, ?_, ?_⟩
    · simp [Survey.finish, order, Survey.discover]
    · simp [reads]
  met := by
    obtain ⟨bound, order⟩ := h.met
    refine ⟨bound + 1, fun n le => ?_⟩
    cases n with
    | zero => cases le
    | succ n =>
      rw [List.flatMap_singleton, walk, gather_cons_of_new new, targetsOf_eq readable]
      exact order n (Nat.le_of_succ_le_succ le)

/-- A failure is a failure of a survey that began earlier. -/
theorem Stop.of_progress (first : Progress files root active targets s found journal middle)
    (h : Stop files root found failure middle journal') :
    Stop files root s failure journal journal' where
  recorded := by
    obtain ⟨new, order, reads⟩ := first.recorded
    obtain ⟨more, reads', nodup, normal⟩ := h.recorded
    refine ⟨new ++ more, by rw [reads', reads, List.append_assoc], ?_, ?_⟩
    · rwa [order, List.append_assoc] at nodup
    · refine List.forall_mem_append.2 ⟨fun q mem => ?_, normal⟩
      exact first.underway.normal q (by rw [order]; exact List.mem_append_right _ mem)
  explained := h.explained

theorem Stop.of_discover (next : Next files root active p)
    (h : Stop files root (s.discover p) failure (asking journal p) journal') :
    Stop files root s failure journal journal' where
  recorded := by
    obtain ⟨more, reads, nodup, normal⟩ := h.recorded
    refine ⟨p :: more, by simp [reads], ?_, List.forall_mem_cons.2 ⟨next.normal, normal⟩⟩
    simpa [Survey.discover] using nodup
  explained := h.explained

end Progress

mutual

-- Both go along the calls: what is read becomes active, so that fewer files are left outside.

/-- The survey of a script adds what can be reached from it, or fails for a reason. -/
theorem visit_progress_or_stop {files : FileSet} {root : Path} {active : List Path} {p : Path}
    {s : Survey} (h : Underway files root active s) (next : Next files root active p)
    (journal : Journal) :
    (∀ s' journal', (visit files active p s).Ends journal s' journal' →
      Progress files root active [p] s s' journal journal') ∧
    ∀ failure journal', (visit files active p s).Fails journal failure journal' →
      Stop files root s failure journal journal' := by
  have new (inactive : active.contains p = false) (unfinished : s.isFinished p = false) :
      p ∉ s.order := h.not_mem_order next.normal inactive unfinished
  constructor
  · intro s' journal' ends
    obtain ⟨inactive, ⟨done, rfl, rfl⟩ | ⟨unfinished, targets, found, readable, run, rfl⟩⟩ :=
      ends_visit_iff.1 ends
    · exact .of_finished h ((isFinished_iff next.normal h.normal_of_finished).1 done)
    · have absent := new inactive unfinished
      refine .finish ?_ readable ((visitAll_progress_or_stop (h.discover next absent)
        (fun q mem => next.of_requires readable mem) _).1 found journal' run)
      rwa [Bool.eq_false_iff, Ne, next.normal.contains_iff_mem h.normal]
  · intro failure journal' fails
    rcases fails_visit_iff.1 fails with ⟨seen, rfl, rfl⟩ |
      ⟨inactive, unfinished, ⟨unreadable, rfl⟩ | ⟨targets, readable, run⟩⟩
    · have mem := (next.normal.contains_iff_mem h.normal_of_active).1 seen
      exact ⟨⟨[], by simpa using h.nodup⟩, .inl ⟨_, rfl, circular_requireCycle h next mem⟩⟩
    · have discovered := h.discover next (new inactive unfinished)
      refine ⟨⟨[p], rfl, discovered.nodup, ?_⟩, .inr ⟨p, next.reached, unreadable⟩⟩
      simpa using next.normal
    · exact .of_discover next ((visitAll_progress_or_stop
        (h.discover next (new inactive unfinished))
        (fun q mem => next.of_requires readable mem) _).2 failure journal' run)
  termination_by (files.countOutside active, 0)
  decreasing_by
    all_goals
      obtain ⟨_, found⟩ := text?_of_requiredBy ‹_›
      exact Prod.Lex.left _ _ (FileSet.countOutside_cons_lt found inactive)

/-- The survey of some scripts adds what can be reached from them, or fails for a reason. -/
theorem visitAll_progress_or_stop {files : FileSet} {root : Path} {active targets : List Path}
    {s : Survey} (h : Underway files root active s)
    (next : ∀ p ∈ targets, Next files root active p) (journal : Journal) :
    (∀ s' journal', (visitAll files active targets s).Ends journal s' journal' →
      Progress files root active targets s s' journal journal') ∧
    ∀ failure journal', (visitAll files active targets s).Fails journal failure journal' →
      Stop files root s failure journal journal' := by
  match targets with
  | [] =>
    constructor
    · intro s' journal' run
      obtain ⟨rfl, rfl⟩ := ends_visitAll_nil.1 run
      exact .nil h
    · exact fun failure journal' run => absurd run fails_visitAll_nil
  | p :: others =>
    rw [List.forall_mem_cons] at next
    have first := visit_progress_or_stop h next.1 journal
    constructor
    · intro s' journal' ends
      obtain ⟨found, middle, run, run'⟩ := ends_visitAll_cons.1 ends
      have progress := first.1 found middle run
      exact progress.cons ((visitAll_progress_or_stop progress.underway next.2 middle).1 _ _ run')
    · intro failure journal' fails
      rcases fails_visitAll_cons.1 fails with run | ⟨found, middle, run, run'⟩
      · exact first.2 failure journal' run
      · have progress := first.1 found middle run
        exact .of_progress progress
          ((visitAll_progress_or_stop progress.underway next.2 middle).2 _ _ run')
  termination_by (files.countOutside active, targets.length + 1)

end

/-! ## When a survey has ended -/

/-- What is known of a survey that has ended. -/
structure Surveyed (files : FileSet) (root : Path) (s : Survey) : Prop where
  met : ∀ n, s.order.length ≤ n + 1 → Path.distinct (walk files n root) = s.order
  mem_order : ∀ q, q ∈ s.order ↔ Relation.ReflTransGen (Requires files) root q
  nodup : s.order.Nodup
  normal : ∀ q ∈ s.order, q.IsNormal
  targets : ∀ q ∈ s.order, s.targets q = targetsOf files q
  short : ∀ n q, Chain files n root q → n < s.order.length
  acyclic : ∀ q ∈ s.order, ¬ Relation.TransGen (Requires files) q q

theorem targets_eq {files : FileSet} {root p : Path} {active : List Path} {s : Survey}
    (h : Underway files root active s) (mem : p ∈ s.finished) :
    s.targets p = targetsOf files p := by
  obtain ⟨edge, mem_edge, rfl⟩ := List.mem_map.1 mem
  have some_found : (s.edges.find? (·.1 == edge.1)).isSome := by
    rw [List.find?_isSome]
    exact ⟨edge, mem_edge, BEq.rfl⟩
  obtain ⟨⟨q, targets⟩, found⟩ := Option.isSome_iff_exists.1 some_found
  have mem_found := List.mem_of_find?_eq_some found
  have same : q = edge.1 := by
    refine (h.normal_of_finished q ?_).eq_of_beq (h.normal_of_finished _ mem) ?_
    · exact List.mem_map.2 ⟨(q, targets), mem_found, rfl⟩
    · simpa using List.find?_some found
  rw [Survey.targets, found, targetsOf_eq (same ▸ h.grounded.requiredBy_of_mem mem_found)]
  rfl

theorem exists_distinct_walk_eq (files : FileSet) (n : Nat) (p : Path) :
    ∃ others, Path.distinct (walk files n p) = p :: others := by
  cases n <;> exact ⟨_, rfl⟩

/-- A survey that ends has discovered what the root leads to, and has read that and nothing else. -/
theorem surveyed_of_ends {files : FileSet} {root : Path} (normal : root.IsNormal)
    {journal journal' : Journal} {s : Survey}
    (h : (visit files [] root .empty).Ends journal s journal') :
    Surveyed files root s ∧ journal'.reads = journal.reads ++ s.order := by
  have next : Next files root [] root := ⟨normal, .singleton _, .refl⟩
  have progress := (visit_progress_or_stop (.empty files root) next journal).1 s journal' h
  have finished (q : Path) : q ∈ s.order ↔ q ∈ s.finished := by
    simpa using progress.underway.mem_order q
  have root_finished : root ∈ s.finished := progress.finished root List.mem_cons_self
  have same_length : s.edges.length = s.order.length := by
    have perm := (List.perm_ext_iff_of_nodup progress.underway.grounded.nodup
      progress.underway.nodup).2 fun q => (finished q).symm
    simpa using perm.length_eq
  have short (n : Nat) (q : Path) (chain : Chain files n root q) : n < s.order.length :=
    same_length ▸ (progress.underway.grounded.chain_lt chain root_finished).2
  constructor
  · refine ⟨fun n le => ?_, fun q => ⟨progress.underway.reached q, fun reached => ?_⟩,
      progress.underway.nodup, progress.underway.normal,
      fun q mem => targets_eq progress.underway ((finished q).1 mem), short,
      fun q mem => progress.underway.grounded.not_transGen_self ((finished q).1 mem)⟩
    · obtain ⟨bound, order⟩ := progress.met
      have settled {m : Nat} (le : s.order.length ≤ m + 1) :
          walk files m root = walk files (s.order.length - 1) root :=
        walk_eq_of_le (fun k q chain => Nat.le_sub_one_of_lt (short k q chain)) (by omega)
      have met := order (max bound n) (le_max_left _ _)
      rw [List.flatMap_singleton, settled (le_trans le (by simp)), ← settled le] at met
      rw [distinct_eq_gather]
      exact met.symm
    · obtain ⟨n, chain⟩ := reflTransGen_iff.1 reached
      exact (finished q).2 (progress.underway.grounded.chain_lt chain root_finished).1
  · obtain ⟨new, order, reads⟩ := progress.recorded
    rw [order, reads]
    rfl

/-- The survey starts at its root. -/
theorem Surveyed.exists_order_eq {files : FileSet} {root : Path} {s : Survey}
    (h : Surveyed files root s) : ∃ others, s.order = root :: others := by
  obtain ⟨others, first⟩ := exists_distinct_walk_eq files s.order.length root
  exact ⟨others, by rw [← first, h.met _ (Nat.le_succ _)]⟩

end Requirement

end TradeScript
