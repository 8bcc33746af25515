import Mathlib.Tactic.MkIffOfInductiveProp
import TradeScript.Proofs.Grammar.Follow

/-!
# One token tells how to read a script

The grammar of scripts is predictive (`Script.predictive`) and, although a statement after a
condition may or may not have an else clause, decisive (`Script.decisive`): what may follow a
statement and begins with `else` can as well be read as an else clause and what follows it
(`Script.absorbs_else`).
-/

open Computability

namespace TradeScript

namespace Script

open Grammar

/-- What the tables of the grammar say. -/
@[mk_iff]
structure Tables : Prop where
  /-- Something can be derived from every phrase. -/
  derives : ∀ n ∈ NonTerminal.all, grammar.derives 20 n = true
  emptyLast : ∀ r ∈ grammar.rules, ∀ a ∈ r.2.dropLast, a.all (skippable grammar.nullable) = false
  lookahead : ∀ place ∈ grammar.places, grammar.lists place = true ∧ grammar.Parted place
  /-- Optional symbols are not empty, and the phrases that can be empty do not begin like what follows
  them, but for else clauses. -/
  empty : ∀ r ∈ grammar.rules,
    (∀ a ∈ r.2, ∀ p ∈ a, p.repeated = .optional →
      skippable grammar.nullable ⟨p.symbol, .once⟩ = false) ∧
    (r.2.any (·.all (skippable grammar.nullable)) = true → r.1 ≠ .elseClause →
      Apart (grammar.fronts.of r.1) (grammar.follows.of r.1))
  /-- Where something can go on with an else, it does so with an else clause. -/
  dangling : ∀ place ∈ grammar.places,
    .terminal (.keyword .else) ∉ grammar.fronts.ofSymbols (repeaters place.2.1) ∧
    (.terminal (.keyword .else) ∈ grammar.fronts.ofSymbols (leading grammar.nullable place.2.2) →
      place.2 = (phrase .statement, [phrase .elseClause]))

-- decided all at once, so that the tables are computed once
set_option maxRecDepth 10000 in
theorem tables : Tables := by
  rw [tables_iff]
  decide +kernel

theorem checked : grammar.Checked :=
  checked_of_ofRules grammar?_eq_ok

theorem predictive : grammar.Predictive where
  checked := checked
  productive n := exists_yields_of_derives (tables.derives n (Listed.mem_all n))
  emptyLast := tables.emptyLast
  lookahead := tables.lookahead

/-! ## What may be empty -/

theorem definite : grammar.Definite := by
  intro n a p mem mem_p optional empty
  have check := (tables.empty _ (rule_of_mem_alternatives mem)).1 a mem p mem_p optional
  have skips := skippable_of_skips (p := ⟨p.symbol, .once⟩) (empty.skips checked.surveyed rfl)
  rw [check] at skips
  cases skips

/-! ## Else clauses -/

/-- The alternative of an else clause that is not empty. -/
def elseBranch : Alternative :=
  [keyword .else, phrase .statement]

theorem alternatives_elseClause : grammar.alternatives .elseClause = [elseBranch, []] :=
  rfl

theorem kind_of_elseBranch {k : Terminal} {ks : List Terminal}
    (h : k :: ks ∈ grammar.language (.parts elseBranch)) : k = .keyword .else := by
  have split : grammar.language (.parts elseBranch) =
      {[.keyword .else]} * grammar.language (.parts [phrase .statement]) := by
    rw [elseBranch, language_cons, keyword, token, language_once, language_terminal]
  rw [split] at h
  obtain ⟨_, rfl, back, -, whole⟩ := Language.mem_mul.1 h
  exact (List.cons.inj whole).1.symm

/-- A phrase that can be empty, but can also take what follows it, is an else clause. -/
theorem elseClause_of_conflict {n : NonTerminal} {after : Language Terminal} {a b : Alternative}
    {k : Terminal} {ks ls : List Terminal} (context : grammar.Context (.nonTerminal n) after)
    (mem_a : a ∈ grammar.alternatives n) (mem_b : b ∈ grammar.alternatives n)
    (here : k :: ks ∈ grammar.language (.parts a)) (empty : [] ∈ grammar.language (.parts b))
    (next : k :: ls ∈ after) : n = .elseClause ∧ a = elseBranch ∧ k = .keyword .else := by
  have skips : b.all (skippable grammar.nullable) = true := empty.skips checked.surveyed rfl
  have is_else : n = .elseClause := by
    by_contra other
    have check := (tables.empty _ (rule_of_mem_alternatives mem_b)).2
      (List.any_eq_true.2 ⟨b, mem_b, skips⟩) other
    have begins := checked.surveyed.mem_fronts mem_a (checked.begins here (checked.solid mem_a))
    have listed := context.follow checked predictive.followed rfl next
    exact check k (Listed.mem_all k) begins listed
  subst is_else
  rw [alternatives_elseClause] at mem_a
  rcases List.mem_pair.1 mem_a with rfl | rfl
  · exact ⟨rfl, rfl, kind_of_elseBranch here⟩
  · cases here

theorem mem_mul_of_empty {here there after : Language Terminal} {ks : List Terminal}
    (h : ks ∈ here * after) (empty : [] ∈ there) : ks ∈ here * (there * after) := by
  obtain ⟨front, mem, back, mem', rfl⟩ := Language.mem_mul.1 h
  exact Language.append_mem_mul mem (Language.append_mem_mul empty mem')

theorem language_elseClause :
    grammar.language (.parts [phrase .elseClause]) = grammar.language (.parts elseBranch) + 1 := by
  ext ks
  rw [language_cons, language_nil, mul_one, phrase, language_once, mem_language_phrase,
    alternatives_elseClause, Language.mem_add, ← language_nil (g := grammar)]
  simp

/-- What follows a symbol and begins with an else can as well be read as an else clause and what
follows it. -/
theorem absorbs_else {s : Symbol} {after : Language Terminal} (context : grammar.Context s after)
    {ks : List Terminal} (h : .keyword .else :: ks ∈ after) :
    .keyword .else :: ks ∈ grammar.language (.parts elseBranch) * after := by
  induction context generalizing ks with
  | whole s => cases h
  | @within n a p others after outer mem place ih =>
    have check := tables.dangling _ (mem_places mem place)
    rcases cons_mem_mul h with ⟨ls, more⟩ | ⟨empty, past⟩
    · exact absurd (mem_repeaters checked more) check.1
    · refine mem_mul_of_empty ?_ empty
      rcases cons_mem_mul past with ⟨ls, inside⟩ | ⟨empty', outside⟩
      · have solid : grammar.Solid (.parts others) := fun q mem_q =>
          checked.solid mem q (place.subset (List.mem_cons_of_mem p mem_q))
        have clause : others = [phrase .elseClause] :=
          (Prod.mk.inj (check.2 (checked.begins inside solid))).2
        subst clause
        have none_left : [] ∈ grammar.language (.parts [phrase .elseClause]) := by
          rw [language_elseClause]
          exact .inr rfl
        refine mem_mul_of_empty ?_ none_left
        rw [language_elseClause, add_mul, one_mul, Language.mem_add] at past
        exact past.elim id ih
      · exact mem_mul_of_empty (ih outside) empty'

theorem decisive : grammar.Decisive := by
  refine predictive.decisive ?_
  intro n after a b k ks ls context mem_a mem_b here empty next
  obtain ⟨rfl, rfl, rfl⟩ := elseClause_of_conflict context mem_a mem_b here empty next
  exact absorbs_else context next

end Script

end TradeScript
