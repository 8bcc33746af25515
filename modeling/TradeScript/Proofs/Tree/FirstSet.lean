import TradeScript.Proofs.Tree.Choice

/-!
# First sets

The first set of a phrase (`Grammar.first`) is searched for in the rules, along paths of phrases of
which each stands at the front of the one before. On a checked grammar it is exact: it lists the
terminals that rewriting the phrase from the left can bring to the front, and a match that takes a
token takes one of a kind that it lists.

What is found on a path can stand at the front, whatever the path (`first_of_mem_firstAlong`). The
search turns back at a phrase that is already on its path, but on a checked grammar it never comes to
one, since no phrase begins with a phrase of its own kind. So nothing that the tables list is missed
(`Checked.mem_firstAlong_iff_begins`).

Main statement: `Grammar.first_exact`.
-/

namespace TradeScript

open Relation

namespace Grammar

variable {g : Grammar} {k : Terminal}

/-! ## Rewriting from the left -/

/-- A step of rewriting from the left: the goal at the front is expanded, or dropped if it can stand
for nothing. -/
inductive LeftStep (g : Grammar) : List Goal → List Goal → Prop
  | expand {goal : Goal} {new : List Goal} (expands : g.Expands goal new) (rest : List Goal) :
      LeftStep g (goal :: rest) (new ++ rest)
  | drop {goal : Goal} (empty : [] ∈ g.language goal) (rest : List Goal) :
      LeftStep g (goal :: rest) rest

theorem LeftStep.rewrites {goals new : List Goal} (h : g.LeftStep goals new) :
    ReflTransGen g.Rewrites goals new := by
  cases h with
  | expand expands rest => exact .single (.front expands rest)
  | drop empty => exact Yields.passed empty rfl new

theorem Rewrites.leftStep {goals new : List Goal} (h : g.Rewrites goals new) :
    g.LeftStep goals new := by
  cases h with
  | front expands rest => exact .expand expands rest

theorem first_iff {goals : List Goal} : g.First goals k ↔
    ∃ rest, ReflTransGen g.LeftStep goals (.symbol (.terminal k) :: rest) := by
  constructor
  · rintro ⟨rest, rewrites⟩
    exact ⟨rest, rewrites.lift id fun _ _ step => step.leftStep⟩
  · rintro ⟨rest, steps⟩
    exact ⟨rest, steps.head_induction_on .refl fun step _ later => step.rewrites.trans later⟩

/-! ## First sets -/

theorem mem_first_iff {n : NonTerminal} :
    k ∈ g.first n ↔ ∃ a ∈ g.alternatives n, k ∈ g.firstAlong g.nullable [] a := by
  unfold first
  rw [List.mem_filter, List.contains_iff_mem, List.mem_flatMap]
  exact and_iff_right (Listed.mem_all k)

/-- What the search finds, rewriting can bring to the front. -/
theorem Distinct.first_of_mem_first (hd : g.Distinct) {n : NonTerminal} (mem : k ∈ g.first n) :
    g.First [.symbol (.nonTerminal n)] k := by
  obtain ⟨a, mem_a, mem⟩ := mem_first_iff.1 mem
  exact (first_of_mem_firstAlong hd.empties mem).expand (.phrase mem_a)

/-- The search finds what the tables list. -/
theorem Checked.mem_first_of_begins (hg : g.Checked) {n : NonTerminal}
    (begins : g.Begins (.symbol (.nonTerminal n)) k) : k ∈ g.first n := by
  obtain ⟨a, mem_a, begins⟩ := (begins_phrase_iff hg.distinct).1 begins
  exact mem_first_iff.2 ⟨a, mem_a, hg.mem_firstAlong_iff_begins.2 begins⟩

theorem Checked.mem_first_iff_first (hg : g.Checked) {n : NonTerminal} :
    k ∈ g.first n ↔ g.First [.symbol (.nonTerminal n)] k := by
  refine ⟨hg.distinct.first_of_mem_first, fun first => hg.mem_first_of_begins ?_⟩
  exact first.begins hg.surveyed (fun _ _ mem => hg.solid mem) trivial

end Grammar

/-- An attempt to match has taken a token. One that fails has taken some before. -/
def Outcome.Takes {α : Type} {tokens : List Token} : Outcome α tokens → Prop
  | rejected => False
  | failed _ _ => True
  | matched _ rest _ _ => rest.length < tokens.length

namespace Grammar

theorem Checked.starts_of_takes (hg : g.Checked) {n : NonTerminal}
    {tokens : List Token} (takes : (Matching.phrase g [] n tokens).Takes) :
    g.Starts (.symbol (.nonTerminal n)) tokens := by
  have heeds := Matching.phrase_heeds hg [] n tokens (by simp)
  cases outcome : Matching.phrase g [] n tokens with
  | rejected =>
    rw [outcome] at takes
    exact takes.elim
  | failed misfit rest =>
    rw [outcome] at heeds
    exact heeds
  | matched t rest moved le =>
    rw [outcome] at heeds takes
    cases moved with
    | true => exact heeds
    | false =>
      obtain ⟨rfl, -⟩ := Matching.yields_phrase_of_still outcome
      exact absurd takes (Nat.lt_irrefl _)

/-- The first set of a phrase lists the terminals that rewriting the phrase from the left can bring
to the front, in their fixed order. An attempt to match the phrase that takes a token takes one of a
kind that is listed. -/
theorem first_exact {root : NonTerminal} {rules : List Rule} (checked : ofRules root rules = .ok g)
    (n : NonTerminal) :
    (∀ k, k ∈ g.first n ↔ ∃ rest, ReflTransGen g.LeftStep [.symbol (.nonTerminal n)]
      (.symbol (.terminal k) :: rest)) ∧
    (g.first n).Sublist Terminal.all ∧
    ∀ (tokens : List Token) (p : Nat), (Matching.phrase g [] n (tokens.drop p)).Takes →
      ∃ t, tokens[p]? = some t ∧ t.kind ∈ g.first n := by
  have hg := checked_of_ofRules checked
  refine ⟨fun k => hg.mem_first_iff_first.trans first_iff, List.filter_sublist,
    fun tokens p takes => ?_⟩
  obtain ⟨t, head, begins⟩ := hg.starts_of_takes takes
  rw [List.head?_drop] at head
  exact ⟨t, head, hg.mem_first_of_begins begins⟩

/-- A program is a name behind a block, which is a number or nothing. -/
def namedRules : List Rule :=
  [⟨.program, [[⟨.nonTerminal .block, .once⟩, ⟨.terminal .identifier, .once⟩]]⟩,
    ⟨.block, [[], [⟨.terminal .number, .once⟩]]⟩]

/-- The name `x` alone in a file. -/
def nameToken : Token :=
  ⟨.identifier, "x", ⟨"a.dts", 1, 1⟩⟩

theorem first_exact_named :
    .identifier ∈ (Grammar.mk .program (merge namedRules)).first .program ∧
      ∃ t, [nameToken][0]? = some t ∧
        t.kind ∈ (Grammar.mk .program (merge namedRules)).first .program := by
  have passed : ofRules .program namedRules = .ok ⟨.program, merge namedRules⟩ :=
    ofRules_eq_ok (flaw?_merge.trans (by decide +kernel))
  have program : Grammar.alternatives ⟨.program, merge namedRules⟩ .program =
      [[⟨.nonTerminal .block, .once⟩, ⟨.terminal .identifier, .once⟩]] := by decide +kernel
  have block : Grammar.alternatives ⟨.program, merge namedRules⟩ .block =
      [[⟨.terminal .number, .once⟩], []] := by decide +kernel
  have takes :
      (Matching.phrase ⟨.program, merge namedRules⟩ [] .program [nameToken]).Takes := by
    simp [Matching.phrase, Matching.alternatives, program, block, Matching.parts, Matching.part,
      Matching.symbol, nameToken, Outcome.Takes]
  obtain ⟨exact, -, taken⟩ := first_exact passed .program
  refine ⟨(exact .identifier).2 ⟨[.parts []], ?_⟩, taken [nameToken] 0 takes⟩
  -- the program is expanded, the block dropped, and the name expanded
  have whole : [⟨.nonTerminal .block, .once⟩, ⟨.terminal .identifier, .once⟩] ∈
      Grammar.alternatives ⟨.program, merge namedRules⟩ .program := by simp [program]
  have none : [] ∈ Grammar.alternatives ⟨.program, merge namedRules⟩ .block := by simp [block]
  refine .head (.expand (.phrase whole) []) (.head (.expand (.cons _ _) []) ?_)
  refine .head (.drop (.once (.phrase none .nil)) _) (.head (.expand (.cons _ _) []) ?_)
  exact .single (.expand (.once _) _)

end Grammar

end TradeScript
