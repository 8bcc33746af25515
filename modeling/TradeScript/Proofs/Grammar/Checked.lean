import TradeScript.Grammar.Script
import TradeScript.Proofs.Grammar.Search

/-!
# Checked grammars

What the check of a grammar has found to be so (`Grammar.Checked`): no element of a repetition is
empty (`Checked.element`), no phrase begins with a phrase of its own kind (`Checked.acyclic`), and
two alternatives of a phrase do not begin alike (`Checked.disjoint`). The grammar of scripts passes
its check (`Script.grammar?_eq_ok`).
-/

open Computability Relation

namespace TradeScript

namespace Grammar

variable {g : Grammar}

/-- What the check of a grammar rules out. -/
theorem checks_of_flaw? (h : g.flaw? = none) :
    (∀ r ∈ g.rules, g.undefined? r = none) ∧ (∀ r ∈ g.rules, emptyAlternatives? r = none) ∧
      (∀ r ∈ g.rules, emptyRepetition? g.nullable r = none) ∧
      (∀ r ∈ g.rules, leftRecursion? (g.leftRecursive g.nullable) r = none) ∧
      ∀ r ∈ g.rules, overlap? (g.firstAlong g.nullable []) r = none := by
  unfold flaw? at h
  split at h
  · cases h
  · simpa only [Option.orElse_eq_orElse, Option.orElse_eq_or, Option.or_eq_none_iff,
      List.findSome?_eq_none_iff] using h

/-- A grammar with one entry for each rule, in which the check finds no flaw. -/
structure Checked (g : Grammar) : Prop where
  distinct : g.Distinct
  flawless : g.flaw? = none

theorem checked_of_ofRules {root : NonTerminal} {rules : List Rule}
    (h : ofRules root rules = .ok g) : g.Checked := by
  obtain ⟨rfl, flawless⟩ := ofRules_eq_ok_iff.1 h
  exact ⟨distinct_merge root rules, flawless⟩

theorem Checked.surveyed (hg : g.Checked) : g.Surveyed :=
  hg.distinct.surveyed

theorem Checked.solid (hg : g.Checked) {n : NonTerminal} {a : Alternative}
    (mem : a ∈ g.alternatives n) : g.Solid (.parts a) := by
  intro p mem_p
  obtain ⟨-, -, check, -⟩ := checks_of_flaw? hg.flawless
  have none_found := check _ (rule_of_mem_alternatives mem)
  simp only [emptyRepetition?, ite_eq_right_iff, reduceCtorEq, imp_false, Bool.not_eq_true,
    List.any_eq_false] at none_found
  exact none_found p (List.mem_flatten.2 ⟨a, mem, mem_p⟩)

theorem Checked.begins (hg : g.Checked) {goal : Goal} {k : Terminal} {ks : List Terminal}
    (h : k :: ks ∈ g.language goal) (own : g.Solid goal) : g.Begins goal k :=
  (Yields.first h rfl).begins hg.surveyed (fun _ _ mem => hg.solid mem) own

/-- The elements of repetitions are not empty. -/
theorem Checked.element (hg : g.Checked) {n : NonTerminal} {a : Alternative} {p : Part}
    (mem : a ∈ g.alternatives n) (mem_p : p ∈ a)
    (loop : p.repeated = .many ∨ p.repeated = .separated) :
    [] ∉ g.language (.symbol p.symbol) :=
  fun empty => not_skips_of_solid loop (hg.solid mem p mem_p) (Yields.skips hg.surveyed empty rfl)

/-! ## Phrases at the front -/

theorem Checked.not_transGen_leads (hg : g.Checked) (n : NonTerminal) :
    ¬ TransGen (g.Leads g.nullable) n n := by
  obtain ⟨-, -, -, check, -⟩ := checks_of_flaw? hg.flawless
  exact not_transGen_of_leftRecursion? check n

/-- No phrase begins with a phrase of its own kind. -/
theorem Checked.acyclic (hg : g.Checked) (n : NonTerminal) : ¬ TransGen g.Front n n := by
  intro cycle
  refine hg.not_transGen_leads n ?_
  exact cycle.lift id fun _ _ => hg.surveyed.leads_of_front

/-! ## First terminals -/

theorem Checked.mem_firstAlong_iff_begins (hg : g.Checked) {ps : List Part} {k : Terminal} :
    k ∈ g.firstAlong g.nullable [] ps ↔ g.Begins (.parts ps) k :=
  hg.distinct.mem_firstAlong_iff_begins hg.not_transGen_leads

/-- The search finds the terminals that rewriting can bring to the front. -/
theorem Checked.mem_firstAlong_iff_first (hg : g.Checked) {ps : List Part}
    (own : g.Solid (.parts ps)) {k : Terminal} :
    k ∈ g.firstAlong g.nullable [] ps ↔ g.First [.parts ps] k := by
  refine ⟨first_of_mem_firstAlong hg.distinct.empties, fun first => ?_⟩
  rw [hg.mem_firstAlong_iff_begins]
  exact first.begins hg.surveyed (fun _ _ mem => hg.solid mem) own

theorem not_mem_of_shared? {a b : List Terminal} (h : shared? a b = none) {k : Terminal}
    (here : k ∈ a) : k ∉ b := by
  intro there
  have apart := List.find?_eq_none.1 h k (Listed.mem_all k)
  exact apart (by simp [here, there])

theorem shared?_of_overlap? {starts : Alternative → List Terminal} {n : NonTerminal}
    {alternatives : List Alternative} (h : overlap? starts (n, alternatives) = none) {i j : Nat}
    {a b : Alternative} (lt : i < j) (at_i : alternatives[i]? = some a)
    (at_j : alternatives[j]? = some b) : shared? (starts a) (starts b) = none := by
  have first : (alternatives.map starts).zipIdx[i]? = some (starts a, i) := by simp [at_i]
  have second : (alternatives.map starts).zipIdx[j]? = some (starts b, j) := by simp [at_j]
  have behind : (starts b, j) ∈ (alternatives.map starts).zipIdx.drop (i + 1) := by
    refine List.mem_of_getElem? (i := j - (i + 1)) ?_
    rw [List.getElem?_drop, Nat.add_sub_cancel' lt, second]
  have inner := List.findSome?_eq_none_iff.1 h _ (List.mem_of_getElem? first)
  have none_found := List.findSome?_eq_none_iff.1 inner _ behind
  simpa using none_found

/-- In two alternatives of a phrase the search does not find the same terminal. -/
theorem Checked.eq_of_mem_firstAlong (hg : g.Checked) {n : NonTerminal} {i j : Nat}
    {a b : Alternative} {k : Terminal} (at_i : (g.alternatives n)[i]? = some a)
    (at_j : (g.alternatives n)[j]? = some b) (here : k ∈ g.firstAlong g.nullable [] a)
    (there : k ∈ g.firstAlong g.nullable [] b) : i = j := by
  obtain ⟨-, -, -, -, check⟩ := checks_of_flaw? hg.flawless
  have none_found := check _ (rule_of_mem_alternatives (List.mem_of_getElem? at_i))
  rcases Nat.lt_trichotomy i j with lt | same | lt
  · have apart := shared?_of_overlap? none_found lt at_i at_j
    exact absurd there (not_mem_of_shared? apart here)
  · exact same
  · have apart := shared?_of_overlap? none_found lt at_j at_i
    exact absurd here (not_mem_of_shared? apart there)

/-- Two alternatives of a phrase do not begin with the same terminal, by the tables. -/
theorem Checked.eq_of_begins (hg : g.Checked) {n : NonTerminal} {i j : Nat} {a b : Alternative}
    {k : Terminal} (at_i : (g.alternatives n)[i]? = some a)
    (at_j : (g.alternatives n)[j]? = some b) (here : g.Begins (.parts a) k)
    (there : g.Begins (.parts b) k) : i = j :=
  hg.eq_of_mem_firstAlong at_i at_j (hg.mem_firstAlong_iff_begins.2 here)
    (hg.mem_firstAlong_iff_begins.2 there)

/-- Two alternatives do not begin with the same kind. -/
theorem Checked.disjoint (hg : g.Checked) {n : NonTerminal} {i j : Nat} {a b : Alternative}
    {k : Terminal} {ks ls : List Terminal} (at_i : (g.alternatives n)[i]? = some a)
    (at_j : (g.alternatives n)[j]? = some b) (here : k :: ks ∈ g.language (.parts a))
    (there : k :: ls ∈ g.language (.parts b)) : i = j :=
  hg.eq_of_begins at_i at_j (hg.begins here (hg.solid (List.mem_of_getElem? at_i)))
    (hg.begins there (hg.solid (List.mem_of_getElem? at_j)))

end Grammar

/-! ## The grammar of scripts -/

namespace Script

open Grammar

theorem grammar?_eq_ok : grammar? = .ok grammar :=
  ofRules_eq_ok (flaw?_merge.trans grammar_tabledFlaw?)

end Script

end TradeScript
