import TradeScript.Proofs.Grammar.Checked

/-!
# Well-formed grammars

The check of a grammar (`Grammar.ofRules`) searches its rules. What it decides is said here without
the searches: a grammar is well-formed (`Grammar.WellFormed`) if its root and all that it mentions
have rules, no phrase has two empty alternatives, and, for derivations, no element of a repetition is
empty, no phrase begins with a phrase of its own kind, and the alternatives of a phrase have no
first terminal in common.

A flaw that is found is a flaw of the grammar (`Distinct.hasFlaw_of_flaw?`), and the searches miss
none, so the check passes the well-formed grammars and no others (`Grammar.ofRules_decides`).
-/

namespace TradeScript

open Relation

namespace Grammar

variable {g : Grammar}

/-! ## Flaws -/

/-- What the check of a grammar asks for, in terms of derivations. -/
structure WellFormed (g : Grammar) : Prop where
  /-- The start symbol has a rule. -/
  root : g.hasRule g.root = true
  /-- What a rule mentions has a rule. -/
  defined {m n : NonTerminal} {a : Alternative} {p : Part} (mem : a ∈ g.alternatives m)
    (mem_p : p ∈ a) (mentioned : p.symbol = .nonTerminal n) : g.hasRule n = true
  /-- A phrase has at most one alternative without parts. -/
  oneEmpty (n : NonTerminal) : (g.alternatives n).countP (·.isEmpty) ≤ 1
  /-- The elements of repetitions are not empty. -/
  element {n : NonTerminal} {a : Alternative} {p : Part} (mem : a ∈ g.alternatives n)
    (mem_p : p ∈ a) (loop : p.repeated = .many ∨ p.repeated = .separated) :
    [] ∉ g.language (.symbol p.symbol)
  /-- No phrase begins with a phrase of its own kind. -/
  acyclic (n : NonTerminal) : ¬ TransGen g.Front n n
  /-- Two alternatives of a phrase have no first terminal in common. -/
  disjoint {n : NonTerminal} {i j : Nat} {a b : Alternative} {k : Terminal}
    (at_i : (g.alternatives n)[i]? = some a) (at_j : (g.alternatives n)[j]? = some b)
    (here : g.First [.parts a] k) (there : g.First [.parts b] k) : i = j

/-- What a flaw says about a grammar. -/
def HasFlaw (g : Grammar) : GrammarFlaw → Prop
  | .noRoot root => root = g.root ∧ g.hasRule root = false
  | .undefined rule mentioned => g.hasRule mentioned = false ∧
    ∃ a ∈ g.alternatives rule, ∃ p ∈ a, p.symbol = .nonTerminal mentioned
  | .emptyAlternatives rule count =>
    count = (g.alternatives rule).countP (·.isEmpty) ∧ 1 < count
  | .emptyRepetition rule => ∃ a ∈ g.alternatives rule, ∃ p ∈ a,
    (p.repeated = .many ∨ p.repeated = .separated) ∧ [] ∈ g.language (.symbol p.symbol)
  | .leftRecursion rule => TransGen g.Front rule rule
  | .overlap rule first second shared => first < second ∧
    ∃ a b, (g.alternatives rule)[first]? = some a ∧ (g.alternatives rule)[second]? = some b ∧
      g.First [.parts a] shared ∧ g.First [.parts b] shared

/-- A well-formed grammar has no flaw. -/
theorem WellFormed.not_hasFlaw (h : g.WellFormed) (flaw : GrammarFlaw) : ¬ g.HasFlaw flaw := by
  cases flaw with
  | noRoot root =>
    rintro ⟨rfl, absent⟩
    simp [h.root] at absent
  | undefined rule mentioned =>
    rintro ⟨absent, a, mem, p, mem_p, names⟩
    simp [h.defined mem mem_p names] at absent
  | emptyAlternatives rule count =>
    rintro ⟨rfl, many⟩
    exact absurd (h.oneEmpty rule) (Nat.not_le.2 many)
  | emptyRepetition rule =>
    rintro ⟨a, mem, p, mem_p, loop, empty⟩
    exact h.element mem mem_p loop empty
  | leftRecursion rule => exact h.acyclic rule
  | overlap rule first second shared =>
    rintro ⟨lt, a, b, at_first, at_second, here, there⟩
    exact absurd (h.disjoint at_first at_second here there) (Nat.ne_of_lt lt)

/-! ### What is reported is there -/

variable {r : NonTerminal × List Alternative} {flaw : GrammarFlaw}

theorem Distinct.hasFlaw_of_undefined? (hg : g.Distinct) (mem : r ∈ g.rules)
    (h : g.undefined? r = some flaw) : g.HasFlaw flaw := by
  obtain ⟨p, mem_p, found⟩ := List.exists_of_findSome?_eq_some h
  obtain ⟨a, mem_a, mem_p⟩ := List.mem_flatten.1 mem_p
  rw [← hg.alternatives_eq mem] at mem_a
  split at found
  · cases found
  · next n names =>
    split at found
    · cases found
    · next absent =>
      cases found
      exact ⟨Bool.eq_false_iff.2 absent, a, mem_a, p, mem_p, names⟩

theorem Distinct.hasFlaw_of_emptyAlternatives? (hg : g.Distinct) (mem : r ∈ g.rules)
    (h : emptyAlternatives? r = some flaw) : g.HasFlaw flaw := by
  simp only [emptyAlternatives?, ← hg.alternatives_eq mem] at h
  split at h
  · next many =>
    cases h
    exact ⟨rfl, many⟩
  · cases h

theorem Distinct.hasFlaw_of_emptyRepetition? (hg : g.Distinct) (mem : r ∈ g.rules)
    (h : emptyRepetition? g.nullable r = some flaw) : g.HasFlaw flaw := by
  simp only [emptyRepetition?, ← hg.alternatives_eq mem] at h
  split at h
  · next found =>
    cases h
    obtain ⟨⟨s, repeated⟩, mem_p, loop⟩ := List.any_eq_true.1 found
    obtain ⟨a, mem_a, mem_p⟩ := List.mem_flatten.1 mem_p
    simp only [repeatsNothing, Bool.and_eq_true, Bool.or_eq_true, decide_eq_true_eq] at loop
    cases s with
    | terminal k => cases loop.2
    | nonTerminal n => exact ⟨a, mem_a, _, mem_p, loop.1, hg.mem_nullable_iff.1 loop.2⟩
  · cases h

theorem Distinct.hasFlaw_of_leftRecursion? (hg : g.Distinct)
    (h : leftRecursion? (g.leftRecursive g.nullable) r = some flaw) : g.HasFlaw flaw := by
  simp only [leftRecursion?] at h
  split at h
  · next found =>
    cases h
    exact hg.leftRecursive_iff_front.1 found
  · cases h

theorem mem_of_shared? {a b : List Terminal} {k : Terminal} (h : shared? a b = some k) :
    k ∈ a ∧ k ∈ b := by
  have both := List.find?_some h
  simpa using both

theorem Distinct.hasFlaw_of_overlap? (hg : g.Distinct) (mem : r ∈ g.rules)
    (h : overlap? (g.firstAlong g.nullable []) r = some flaw) : g.HasFlaw flaw := by
  simp only [overlap?, ← hg.alternatives_eq mem] at h
  obtain ⟨⟨first, i⟩, here, h⟩ := List.exists_of_findSome?_eq_some h
  obtain ⟨⟨second, j⟩, there, h⟩ := List.exists_of_findSome?_eq_some h
  obtain ⟨k, common, rfl⟩ := Option.map_eq_some_iff.1 h
  obtain ⟨a, at_i, rfl⟩ : ∃ a, (g.alternatives r.1)[i]? = some a ∧
      g.firstAlong g.nullable [] a = first := by
    simpa using List.mem_zipIdx_iff_getElem?.1 here
  -- the second alternative is looked for behind the first
  obtain ⟨m, behind⟩ := List.mem_iff_getElem?.1 there
  obtain ⟨b, at_j, rfl, rfl⟩ : ∃ b, (g.alternatives r.1)[i + 1 + m]? = some b ∧
      g.firstAlong g.nullable [] b = second ∧ i + 1 + m = j := by
    simpa using behind
  obtain ⟨in_first, in_second⟩ := mem_of_shared? common
  exact ⟨by omega, a, b, at_i, at_j, first_of_mem_firstAlong hg.empties in_first,
    first_of_mem_firstAlong hg.empties in_second⟩

/-- A flaw that is found is a flaw of the grammar. -/
theorem Distinct.hasFlaw_of_flaw? (hg : g.Distinct) (h : g.flaw? = some flaw) :
    g.HasFlaw flaw := by
  unfold flaw? at h
  split at h
  · next absent =>
    cases h
    exact ⟨rfl, by simpa using absent⟩
  · simp only [Option.orElse_eq_orElse, Option.orElse_eq_or, Option.or_eq_some_iff] at h
    rcases h with h | ⟨-, h | ⟨-, h | ⟨-, h | ⟨-, h⟩⟩⟩⟩
    all_goals obtain ⟨r, mem, found⟩ := List.exists_of_findSome?_eq_some h
    · exact hg.hasFlaw_of_undefined? mem found
    · exact hg.hasFlaw_of_emptyAlternatives? mem found
    · exact hg.hasFlaw_of_emptyRepetition? mem found
    · exact hg.hasFlaw_of_leftRecursion? found
    · exact hg.hasFlaw_of_overlap? mem found

/-! ### What is not there is not reported -/

/-- A grammar that passes its check is well-formed. -/
theorem Checked.wellFormed (hg : g.Checked) : g.WellFormed where
  root := by
    have flawless := hg.flawless
    unfold flaw? at flawless
    split at flawless
    · cases flawless
    · next present => simpa using present
  defined {m n a p} mem mem_p names := by
    obtain ⟨check, -⟩ := checks_of_flaw? hg.flawless
    have none_found := check _ (rule_of_mem_alternatives mem)
    have own := List.findSome?_eq_none_iff.1 none_found p (List.mem_flatten.2 ⟨a, mem, mem_p⟩)
    simpa [names] using own
  oneEmpty n := by
    rcases List.eq_nil_or_concat' (g.alternatives n) with none | ⟨others, a, split⟩
    · simp [none]
    · have mem : a ∈ g.alternatives n := by simp [split]
      obtain ⟨-, check, -⟩ := checks_of_flaw? hg.flawless
      have none_found := check _ (rule_of_mem_alternatives mem)
      simpa [emptyAlternatives?] using none_found
  element := hg.element
  acyclic := hg.acyclic
  disjoint {n i j a b k} at_i at_j here there := by
    rw [← hg.mem_firstAlong_iff_first (hg.solid (List.mem_of_getElem? at_i))] at here
    rw [← hg.mem_firstAlong_iff_first (hg.solid (List.mem_of_getElem? at_j))] at there
    exact hg.eq_of_mem_firstAlong at_i at_j here there

theorem Distinct.flaw?_eq_none_iff (hg : g.Distinct) : g.flaw? = none ↔ g.WellFormed := by
  constructor
  · intro flawless
    exact Checked.wellFormed ⟨hg, flawless⟩
  · intro h
    rw [Option.eq_none_iff_forall_ne_some]
    intro flaw found
    exact h.not_hasFlaw flaw (hg.hasFlaw_of_flaw? found)

/-! ## Merged rules -/

/-- The alternatives that some rules give to a non-terminal, in the order of the rules. -/
def merged (rules : List Rule) (n : NonTerminal) : List Alternative :=
  (rules.filter fun r => r.head = n).flatMap Rule.alternatives

theorem lookup_filterMap {α : Type} {made? : NonTerminal → Option (NonTerminal × α)}
    (own : ∀ n entry, made? n = some entry → entry.1 = n) (n : NonTerminal)
    (all : List NonTerminal) : (all.filterMap made?).lookup n =
      if n ∈ all then (made? n).map Prod.snd else none := by
  induction all with
  | nil => rfl
  | cons m all ih =>
    cases made : made? m with
    | none =>
      rw [List.filterMap_cons_none made, ih]
      by_cases same : n = m
      · simp [same, made]
      · simp [same]
    | some entry =>
      obtain ⟨head, value⟩ := entry
      obtain rfl : head = m := own m _ made
      rw [List.filterMap_cons_some made, List.lookup_cons, ih]
      by_cases same : n = head
      · simp [same, made]
      · simp [same, beq_eq_false_iff_ne.2 same]

variable {root n : NonTerminal} {rules : List Rule}

theorem lookup_merge : (merge rules).lookup n =
    if ∃ r ∈ rules, r.head = n then some (emptyLast (merged rules n)) else none := by
  have listed : n ∈ NonTerminal.all := Listed.mem_all n
  unfold merge
  rw [lookup_filterMap (fun m entry made => ?_), if_pos listed]
  · unfold merged
    split
    · next none_own =>
      rw [if_neg]
      · rfl
      · simpa using none_own
    · next some_own =>
      rw [if_pos]
      · rfl
      · simpa using some_own
  · split at made
    · cases made
    · cases made
      rfl

theorem hasRule_merge : (Grammar.mk root (merge rules)).hasRule n = true ↔
    ∃ r ∈ rules, r.head = n := by
  rw [hasRule, lookup_merge]
  split
  · next present => simpa using present
  · next absent => simpa using absent

theorem alternatives_merge :
    (Grammar.mk root (merge rules)).alternatives n = emptyLast (merged rules n) := by
  rw [alternatives, lookup_merge]
  split
  · rfl
  · next absent =>
    have none_own : rules.filter (fun r => r.head = n) = [] := by simpa using absent
    simp [merged, none_own, emptyLast]

theorem perm_emptyLast (alternatives : List Alternative) :
    (emptyLast alternatives).Perm alternatives :=
  List.perm_append_comm.trans (List.filter_append_perm (·.isEmpty) alternatives)

/-- If at most one alternative is empty, it stands behind the others. -/
theorem emptyLast_eq {alternatives : List Alternative}
    (h : alternatives.countP (·.isEmpty) ≤ 1) : emptyLast alternatives =
      alternatives.filter (· ≠ []) ++ if [] ∈ alternatives then [[]] else [] := by
  have others : alternatives.filter (!·.isEmpty) = alternatives.filter (· ≠ []) :=
    List.filter_congr fun a _ => by cases a <;> rfl
  have empties : alternatives.filter (·.isEmpty) =
      List.replicate (alternatives.countP (·.isEmpty)) [] := by
    rw [List.eq_replicate_iff, List.countP_eq_length_filter]
    exact ⟨rfl, fun a mem => by simpa using (List.mem_filter.1 mem).2⟩
  rw [emptyLast, others, empties]
  split
  · next mem =>
    have some : 0 < alternatives.countP (·.isEmpty) := List.countP_pos_iff.2 ⟨[], mem, rfl⟩
    rw [show alternatives.countP (·.isEmpty) = 1 by omega]
    rfl
  · next absent =>
    have none : alternatives.countP (·.isEmpty) = 0 := by
      rw [List.countP_eq_zero]
      rintro (_ | ⟨p, ps⟩) mem
      · exact absurd mem absent
      · exact Bool.false_ne_true
    rw [none]
    rfl

/-! ## What the check decides -/

/-- The check passes just the rules that make a well-formed grammar after rules of the same
non-terminal are merged. The empty alternative of a phrase then comes last, behind the others in
their order. A flaw that is reported is one of the merged grammar. -/
theorem ofRules_decides (root : NonTerminal) (rules : List Rule) :
    ((∃ g, ofRules root rules = .ok g) ↔ (Grammar.mk root (merge rules)).WellFormed) ∧
      (∀ n, ((Grammar.mk root (merge rules)).hasRule n = true ↔ ∃ r ∈ rules, r.head = n) ∧
        (Grammar.mk root (merge rules)).alternatives n = emptyLast (merged rules n)) ∧
      (∀ g, ofRules root rules = .ok g → g = ⟨root, merge rules⟩ ∧ ∀ n, g.alternatives n =
        (merged rules n).filter (· ≠ []) ++ if [] ∈ merged rules n then [[]] else []) ∧
      ∀ flaw, ofRules root rules = .error flaw →
        (Grammar.mk root (merge rules)).HasFlaw flaw := by
  have distinct := distinct_merge root rules
  refine ⟨?_, fun n => ⟨hasRule_merge, alternatives_merge⟩, fun g passed => ?_,
    fun flaw failed => ?_⟩
  · rw [← distinct.flaw?_eq_none_iff]
    constructor
    · rintro ⟨g, passed⟩
      obtain ⟨rfl, flawless⟩ := ofRules_eq_ok_iff.1 passed
      exact flawless
    · intro flawless
      exact ⟨_, ofRules_eq_ok flawless⟩
  · obtain ⟨rfl, flawless⟩ := ofRules_eq_ok_iff.1 passed
    refine ⟨rfl, fun n => ?_⟩
    have one := (distinct.flaw?_eq_none_iff.1 flawless).oneEmpty n
    rw [alternatives_merge] at one ⊢
    rw [(perm_emptyLast _).countP_eq] at one
    exact emptyLast_eq one
  · exact distinct.hasFlaw_of_flaw? (ofRules_eq_error_iff.1 failed)

/-- A block is a number, a string or nothing, by two rules. -/
def blockRules : List Rule :=
  [⟨.block, [[], [⟨.terminal .number, .once⟩]]⟩, ⟨.block, [[⟨.terminal .string, .many⟩]]⟩]

/-- A program begins with a program behind a block, which may be nothing. -/
def recursiveRules : List Rule :=
  ⟨.program, [[⟨.nonTerminal .block, .once⟩, ⟨.nonTerminal .program, .once⟩]]⟩ :: blockRules

theorem ofRules_decides_blocks : (Grammar.mk .block (merge blockRules)).WellFormed ∧
    (Grammar.mk .block (merge blockRules)).alternatives .block =
      [[⟨.terminal .number, .once⟩], [⟨.terminal .string, .many⟩], []] ∧
    TransGen (Grammar.mk .program (merge recursiveRules)).Front .program .program := by
  have passed : ofRules .block blockRules = .ok ⟨.block, merge blockRules⟩ :=
    ofRules_eq_ok (flaw?_merge.trans (by decide +kernel))
  have failed : ofRules .program recursiveRules = .error (.leftRecursion .program) :=
    ofRules_eq_error_iff.2 (flaw?_merge.trans (by decide +kernel))
  obtain ⟨accepted, -, table, -⟩ := ofRules_decides .block blockRules
  obtain ⟨-, -, -, reported⟩ := ofRules_decides .program recursiveRules
  exact ⟨accepted.1 ⟨_, passed⟩, (table _ passed).2 .block, reported _ failed⟩

end Grammar

end TradeScript
