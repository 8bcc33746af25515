import TradeScript.Grammar.Table
import TradeScript.Proofs.Grammar.Context
import TradeScript.Proofs.Grammar.First

/-!
# What the tables of a grammar say about derivations

The tables `Grammar.nullable` and `Grammar.fronts` are computed round by round. If one more round
adds nothing (`Grammar.Surveyed`), then every goal from which nothing can be derived is skippable
by the first table (`Yields.skips`), and every first terminal is one that the second one lists
(`First.begins`).

Both are read backwards along a rewriting: what the tables say of the goals at its end they say of
the goals at its start.
-/

open Computability Relation

namespace TradeScript

namespace Grammar

/-- One more round adds nothing to the tables of a grammar. -/
structure Surveyed (g : Grammar) : Prop where
  nullable : ∀ r ∈ g.rules, r.2.any (·.all (skippable g.nullable)) = true → r.1 ∈ g.nullable
  fronts : ∀ r ∈ g.rules,
    (frontOf g.nullable g.fronts r.2).union (g.fronts.of r.1) = g.fronts.of r.1

variable {g : Grammar}

theorem rule_of_mem_alternatives {n : NonTerminal} {a : Alternative} (h : a ∈ g.alternatives n) :
    (n, g.alternatives n) ∈ g.rules := by
  unfold alternatives at h ⊢
  cases found : g.rules.lookup n with
  | none => simp [found] at h
  | some own =>
    obtain ⟨before, behind, split, -⟩ := List.lookup_eq_some_iff.1 found
    simp [split]

/-! ## Matching nothing -/

/-- Nothing need stand for a goal, by the table. -/
def Skips (g : Grammar) : Goal → Prop
  | .symbol (.terminal _) => False
  | .symbol (.nonTerminal n) => n ∈ g.nullable
  | .part p => skippable g.nullable p = true
  | .parts ps => ps.all (skippable g.nullable) = true
  | .many _ => True
  | .further _ => True

theorem skippable_of_skips {p : Part} (h : g.Skips (.symbol p.symbol)) :
    skippable g.nullable p = true := by
  obtain ⟨s | n, repeated⟩ := p
  · exact absurd h id
  · simpa [skippable, Subset.mem_iff] using .inr h

/-- Nothing need stand for a goal if nothing need stand for the goals that replace it. -/
theorem Surveyed.skips_of_expands (hs : g.Surveyed) {goal : Goal} {new : List Goal}
    (h : g.Expands goal new) (all : ∀ x ∈ new, g.Skips x) : g.Skips goal := by
  cases h with
  | @phrase n a mem =>
    have skips := all _ List.mem_cons_self
    exact hs.nullable _ (rule_of_mem_alternatives mem) (List.any_eq_true.2 ⟨a, mem, skips⟩)
  | cons p ps =>
    obtain ⟨first, others⟩ := List.forall_mem_cons.1 all
    exact List.all_cons.trans (Bool.and_eq_true_iff.2 ⟨first, others _ List.mem_cons_self⟩)
  | once s => exact skippable_of_skips (all _ List.mem_cons_self)
  | present s => exact skippable_of_skips (all _ List.mem_cons_self)
  | nil | omitted s | repeated s | noElement s | separated s => rfl
  | manyNil s | manyCons s | furtherNil s | furtherCons s => trivial

theorem Surveyed.skips_of_rewrites (hs : g.Surveyed) {goals new : List Goal}
    (h : g.Rewrites goals new) (all : ∀ x ∈ new, g.Skips x) : ∀ x ∈ goals, g.Skips x := by
  cases h with
  | front expands rest =>
    obtain ⟨here, others⟩ := List.forall_mem_append.1 all
    exact List.forall_mem_cons.2 ⟨hs.skips_of_expands expands here, others⟩

theorem Yields.skips (hs : g.Surveyed) {goal : Goal} {ks : List Terminal}
    (h : g.Yields goal ks) (empty : ks = []) : g.Skips goal := by
  have all : ∀ x ∈ [goal], g.Skips x := by
    refine (h.passed empty []).head_induction_on (by simp) fun step _ ih => ?_
    exact hs.skips_of_rewrites step ih
  exact all _ List.mem_cons_self

/-! ## First terminals -/

/-- The symbols of which one stands at the front of what is derived from a goal. -/
def leaders (g : Grammar) : Goal → List Symbol
  | .symbol s => [s]
  | .part p => [p.symbol]
  | .parts ps => leading g.nullable ps
  | .many s => [s]
  | .further _ => [.terminal (.mark .comma)]

/-- A terminal that can begin what is derived from a goal, by the table. -/
def Begins (g : Grammar) (goal : Goal) (k : Terminal) : Prop :=
  Symbol.terminal k ∈ g.fronts.ofSymbols (g.leaders goal)

theorem mem_firstOf {a : Alternative} {k : Terminal} :
    k ∈ g.firstOf a ↔ g.Begins (.parts a) k := by
  unfold firstOf terminalsOf
  rw [List.mem_filter]
  exact and_iff_right (Listed.mem_all k)

theorem Fronts.ofSymbols_mono {fronts : Fronts} {symbols others : List Symbol}
    (h : ∀ s ∈ symbols, s ∈ others) {s : Symbol} (mem : s ∈ fronts.ofSymbols symbols) :
    s ∈ fronts.ofSymbols others := by
  rw [Fronts.mem_ofSymbols] at mem ⊢
  rcases mem with here | ⟨n, here, deeper⟩
  · exact .inl (h s here)
  · exact .inr ⟨n, h _ here, deeper⟩

theorem Surveyed.mem_fronts (hs : g.Surveyed) {n : NonTerminal} {a : Alternative}
    (mem : a ∈ g.alternatives n) {s : Symbol}
    (h : s ∈ g.fronts.ofSymbols (leading g.nullable a)) : s ∈ g.fronts.of n := by
  rw [← hs.fronts _ (rule_of_mem_alternatives mem), Subset.mem_union]
  refine .inl (Fronts.ofSymbols_mono (fun t ht => ?_) h)
  exact List.mem_flatMap.2 ⟨a, mem, ht⟩

theorem cons_mem_mul {here there : Language Terminal} {k : Terminal} {ks : List Terminal}
    (h : k :: ks ∈ here * there) :
    (∃ ls, k :: ls ∈ here) ∨ [] ∈ here ∧ k :: ks ∈ there := by
  obtain ⟨front, mem, back, mem', split⟩ := Language.mem_mul.1 h
  cases front with
  | nil =>
    obtain rfl : back = k :: ks := split
    exact .inr ⟨mem, mem'⟩
  | cons l front =>
    obtain ⟨rfl, -⟩ := List.cons.inj split
    exact .inl ⟨front, mem⟩

/-- No part of a goal repeats a symbol that can stand for nothing, by the table. -/
def Solid (g : Grammar) : Goal → Prop
  | .part p => repeatsNothing g.nullable p = false
  | .parts ps => ∀ p ∈ ps, repeatsNothing g.nullable p = false
  | _ => True

theorem not_skips_of_solid {s : Symbol} {repeated : Repeat}
    (loop : repeated = .many ∨ repeated = .separated) (h : g.Solid (.part ⟨s, repeated⟩)) :
    ¬ g.Skips (.symbol s) := by
  intro skips
  cases s with
  | terminal k => exact skips
  | nonTerminal n =>
    have contains : g.nullable.contains n = true := skips
    rcases loop with rfl | rfl
    all_goals simp [Solid, repeatsNothing, contains] at h

/-- A terminal that can begin what is derived from some goals in a row, by the tables. -/
def Opening (g : Grammar) (k : Terminal) : List Goal → Prop
  | [] => False
  | goal :: rest => g.Begins goal k ∨ g.Skips goal ∧ Opening g k rest

theorem opening_append {k : Terminal} {goals rest : List Goal}
    (h : g.Opening k (goals ++ rest)) :
    g.Opening k goals ∨ (∀ x ∈ goals, g.Skips x) ∧ g.Opening k rest := by
  induction goals with
  | nil => exact .inr ⟨by simp, h⟩
  | cons goal goals ih =>
    rcases h with begins | ⟨skips, h⟩
    · exact .inl (.inl begins)
    · rcases ih h with opening | ⟨all, opening⟩
      · exact .inl (.inr ⟨skips, opening⟩)
      · exact .inr ⟨List.forall_mem_cons.2 ⟨skips, all⟩, opening⟩

theorem opening_single {k : Terminal} {goal : Goal} (h : g.Opening k [goal]) : g.Begins goal k :=
  h.elim id fun ⟨_, absurd⟩ => absurd.elim

/-- A goal begins with what the goals that replace it begin with. -/
theorem Surveyed.begins_of_expands (hs : g.Surveyed) {goal : Goal} {new : List Goal} {k : Terminal}
    (own : g.Solid goal) (h : g.Expands goal new) (opening : g.Opening k new) :
    g.Begins goal k := by
  cases h with
  | @phrase n a mem =>
    have deeper := hs.mem_fronts mem (opening_single opening)
    exact Fronts.mem_ofSymbols.2 (.inr ⟨n, by simp [leaders], deeper⟩)
  | cons p ps =>
    rcases opening with begins | ⟨skips, rest⟩
    · refine Fronts.ofSymbols_mono (fun s mem => ?_) begins
      exact mem_leading_cons.2 (.inl (by simpa [leaders] using mem))
    · refine Fronts.ofSymbols_mono (fun s mem => ?_) (opening_single rest)
      exact mem_leading_cons.2 (.inr ⟨skips, mem⟩)
  | once s =>
    have begins : g.Begins (.symbol s) k := opening_single opening
    exact begins
  | present s =>
    have begins : g.Begins (.symbol s) k := opening_single opening
    exact begins
  | repeated s =>
    have begins : g.Begins (.many s) k := opening_single opening
    exact begins
  | separated s =>
    -- a comma cannot come first, since the elements of a list are not empty
    rcases opening with begins | ⟨skips, -⟩
    · exact begins
    · exact absurd skips (not_skips_of_solid (.inr rfl) own)
  | manyCons s =>
    rcases opening with begins | ⟨-, rest⟩
    · exact begins
    · exact opening_single rest
  | furtherCons s =>
    rcases opening with begins | ⟨skips, -⟩
    · exact begins
    · exact absurd skips id
  | nil | omitted s | noElement s | manyNil s | furtherNil s => exact opening.elim

theorem solid_of_expands (solid : ∀ n, ∀ a ∈ g.alternatives n, g.Solid (.parts a)) {goal : Goal}
    {new : List Goal} (own : g.Solid goal) (h : g.Expands goal new) : ∀ x ∈ new, g.Solid x := by
  cases h with
  | phrase mem => simpa using solid _ _ mem
  | cons p ps =>
    obtain ⟨first, others⟩ := List.forall_mem_cons.1 own
    exact List.forall_mem_cons.2 ⟨first, List.forall_mem_singleton.2 others⟩
  | _ => simp [Solid]

/-- The first terminals of a goal are listed by the tables. -/
theorem First.begins (hs : g.Surveyed)
    (solid : ∀ n, ∀ a ∈ g.alternatives n, g.Solid (.parts a)) {goal : Goal} {k : Terminal}
    (h : g.First [goal] k) (own : g.Solid goal) : g.Begins goal k := by
  obtain ⟨rest, rewrites⟩ := h
  suffices opening : (∀ x ∈ [goal], g.Solid x) → g.Opening k [goal] from
    opening_single (opening (List.forall_mem_singleton.2 own))
  -- backwards from the terminal; the goals on the way are solid because the first one is
  refine rewrites.head_induction_on (fun _ => ?_) fun {goals new} step _ ih all => ?_
  · exact .inl (Fronts.mem_ofSymbols.2 (.inl (by simp [leaders])))
  · cases step with
    | front expands rest =>
      obtain ⟨own, others⟩ := List.forall_mem_cons.1 all
      have kept := solid_of_expands solid own expands
      have opening := ih (List.forall_mem_append.2 ⟨kept, others⟩)
      rcases opening_append opening with here | ⟨skips, later⟩
      · exact .inl (hs.begins_of_expands own expands here)
      · exact .inr ⟨hs.skips_of_expands expands skips, later⟩

/-! ## Phrases at the front -/

theorem mem_leading_of_opens (hs : g.Surveyed) {n : NonTerminal} {ps : List Part}
    (h : g.Opens n ps) : .nonTerminal n ∈ leading g.nullable ps := by
  induction ps with
  | nil => cases h
  | cons p others ih =>
    rw [mem_leading_cons]
    rcases h with here | ⟨empty, deeper⟩
    · exact .inl here.symm
    · exact .inr ⟨empty.skips hs rfl, ih deeper⟩

theorem mem_fronts_of_transGen (hs : g.Surveyed) {m n : NonTerminal}
    (h : Relation.TransGen g.Front m n) : .nonTerminal n ∈ g.fronts.of m := by
  induction h using Relation.TransGen.head_induction_on with
  | single front =>
    obtain ⟨a, mem, opens⟩ := front
    exact hs.mem_fronts mem (Fronts.mem_ofSymbols.2 (.inl (mem_leading_of_opens hs opens)))
  | head front _ ih =>
    obtain ⟨a, mem, opens⟩ := front
    refine hs.mem_fronts mem (Fronts.mem_ofSymbols.2 (.inr ⟨_, ?_, ih⟩))
    exact mem_leading_of_opens hs opens

end Grammar

end TradeScript
