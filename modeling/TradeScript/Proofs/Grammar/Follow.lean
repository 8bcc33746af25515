import TradeScript.Proofs.Grammar.Checked

/-!
# What can follow a phrase

`Grammar.follows` collects, for each non-terminal, the symbols that can stand behind its phrases.
If one more round adds nothing (`Grammar.Followed`), the table lists every terminal with which
something that may follow the phrase begins (`Context.follow`).

A grammar is predictive (`Grammar.Predictive`) if, by its tables, what may be missing does not begin
like what follows it. All of this is decidable, and a predictive grammar is decisive as soon as it
is so where a phrase can be left empty (`Predictive.decisive`).
-/

open Computability

namespace TradeScript

namespace Grammar

/-! ## The table -/

/-- Every part of an alternative, with the non-terminal of the rule and the parts behind it. -/
def places (g : Grammar) : List (NonTerminal × Part × List Part) :=
  g.rules.flatMap fun (n, alternatives) => alternatives.flatMap fun a =>
    a.tails.filterMap fun tail => tail.head?.map fun p => (n, p, tail.tail)

/-- The symbols at the front of what may follow a symbol within its part. -/
def repeaters (p : Part) : List Symbol :=
  match p.repeated with
  | .once => []
  | .optional => []
  | .many => [p.symbol]
  | .separated => [.terminal (.mark .comma)]

/-- The symbols that can stand behind a part, given the parts after it. -/
def behind (g : Grammar) (follows : Fronts) (n : NonTerminal) (others : List Part) :
    Subset Symbol :=
  let inside := g.fronts.ofSymbols (leading g.nullable others)
  if others.all (skippable g.nullable) then inside.union (follows.of n) else inside

/-- The symbols that can stand behind one occurrence of the symbol of a part. -/
def beyond (g : Grammar) (follows : Fronts) : NonTerminal × Part × List Part → Subset Symbol
  | (n, p, others) => (g.fronts.ofSymbols (repeaters p)).union (g.behind follows n others)

/-- The symbols behind each non-terminal after one more round. -/
def followsStep (g : Grammar) (follows : Fronts) : Fronts :=
  g.rules.map fun (n, _) =>
    (n, (g.places.filter fun place => place.2.1.symbol = .nonTerminal n).foldl
      (fun found place => found.union (g.beyond follows place)) .empty)

/-- The symbols that can stand behind the phrases of each non-terminal. -/
def follows (g : Grammar) : Fronts :=
  settle g.followsStep (NonTerminal.all.length * Symbol.all.length + 1) []

/-- Whether the table lists all that can stand behind the symbol of a part. -/
def lists (g : Grammar) (place : NonTerminal × Part × List Part) : Bool :=
  match place.2.1.symbol with
  | .terminal _ => true
  | .nonTerminal n => (g.beyond g.follows place).union (g.follows.of n) = g.follows.of n

/-- One more round adds nothing to the table. -/
def Followed (g : Grammar) : Prop :=
  ∀ place ∈ g.places, g.lists place = true

variable {g : Grammar}

theorem mem_places {n : NonTerminal} {a : Alternative} {p : Part} {others : List Part}
    (mem : a ∈ g.alternatives n) (place : p :: others <:+ a) : (n, p, others) ∈ g.places := by
  refine List.mem_flatMap.2 ⟨_, rule_of_mem_alternatives mem, List.mem_flatMap.2 ⟨a, mem, ?_⟩⟩
  exact List.mem_filterMap.2 ⟨p :: others, (List.mem_tails _ _).2 place, rfl⟩

/-! ## What the table says about contexts -/

theorem mem_repeaters (hg : g.Checked) {p : Part} {k : Terminal} {ks : List Terminal}
    (h : k :: ks ∈ g.again p) : .terminal k ∈ g.fronts.ofSymbols (repeaters p) := by
  obtain ⟨s, _ | _ | _ | _⟩ := p
  · cases h
  · cases h
  · have begins : g.Begins (.many s) k := hg.begins h trivial
    exact begins
  · have begins : g.Begins (.further s) k := hg.begins h trivial
    exact begins

/-- What stands behind a part begins with a terminal that the table lists. -/
theorem mem_behind (hg : g.Checked) {n : NonTerminal} {a : Alternative} {others : List Part}
    (mem : a ∈ g.alternatives n) (place : others <:+ a) {after : Language Terminal}
    (follow : ∀ k ks, k :: ks ∈ after → .terminal k ∈ g.follows.of n) {k : Terminal}
    {ks : List Terminal} (h : k :: ks ∈ g.language (.parts others) * after) :
    .terminal k ∈ g.behind g.follows n others := by
  have solid : g.Solid (.parts others) := fun p mem_p => hg.solid mem p (place.subset mem_p)
  unfold behind
  rcases cons_mem_mul h with ⟨ls, inside⟩ | ⟨empty, outside⟩
  · have begins := hg.begins inside solid
    split
    · exact Subset.mem_union.2 (.inl begins)
    · exact begins
  · have skips : others.all (skippable g.nullable) = true := Yields.skips hg.surveyed empty rfl
    rw [if_pos skips]
    exact Subset.mem_union.2 (.inr (follow k ks outside))

/-- Every terminal that can come after a phrase is listed by the table. -/
theorem Context.follow (hg : g.Checked) (hf : g.Followed) {s : Symbol}
    {after : Language Terminal} (context : g.Context s after) {n : NonTerminal}
    (at_phrase : s = .nonTerminal n) {k : Terminal} {ks : List Terminal} (h : k :: ks ∈ after) :
    .terminal k ∈ g.follows.of n := by
  induction context generalizing n k ks with
  | whole s => cases h
  | @within m a p others after outer mem place ih =>
    have closed := hf _ (mem_places mem place)
    simp only [lists, at_phrase, decide_eq_true_eq] at closed
    rw [← closed, Subset.mem_union]
    refine .inl (Subset.mem_union.2 ?_)
    rcases cons_mem_mul h with ⟨ls, more⟩ | ⟨-, past⟩
    · exact .inl (mem_repeaters hg more)
    · exact .inr (mem_behind hg mem ((List.suffix_cons p others).trans place)
        (fun l ls => ih rfl) past)

/-! ## Grammars that look one token ahead -/

/-- Whether something can be derived from a phrase within a number of nested phrases. -/
def derives (g : Grammar) : (depth : Nat) → NonTerminal → Bool
  | 0, _ => false
  | depth + 1, n => (g.alternatives n).any fun a => a.all fun p =>
      p.repeated ≠ .once ||
        match p.symbol with
        | .terminal _ => true
        | .nonTerminal m => derives g depth m

theorem exists_yields_of_derives {depth : Nat} {n : NonTerminal} (h : g.derives depth n = true) :
    ∃ ks, g.Yields (.symbol (.nonTerminal n)) ks := by
  induction depth generalizing n with
  | zero => cases h
  | succ depth ih =>
    obtain ⟨a, mem, all⟩ := List.any_eq_true.1 h
    have part : ∀ p ∈ a, ∃ ks, g.Yields (.part p) ks := by
      rintro ⟨s, _ | _ | _ | _⟩ mem_p
      · have once := List.all_eq_true.1 all _ mem_p
        cases s with
        | terminal k => exact ⟨[k], .once (.terminal k)⟩
        | nonTerminal m =>
          obtain ⟨ks, one⟩ := ih (by simpa using once)
          exact ⟨ks, .once one⟩
      · exact ⟨[], .omitted s⟩
      · exact ⟨[], .repeated (.manyNil s)⟩
      · exact ⟨[], .noElement s⟩
    have parts : ∀ ps : List Part, (∀ p ∈ ps, ∃ ks, g.Yields (.part p) ks) →
        ∃ ks, g.Yields (.parts ps) ks := by
      intro ps each
      induction ps with
      | nil => exact ⟨[], .nil⟩
      | cons p ps ih =>
        rw [List.forall_mem_cons] at each
        obtain ⟨ks, first⟩ := each.1
        obtain ⟨ls, rest⟩ := ih each.2
        exact ⟨ks ++ ls, .cons first rest⟩
    obtain ⟨ks, body⟩ := parts a part
    exact ⟨ks, .phrase mem body⟩

/-- Two sets of symbols have no terminal in common. -/
def Apart (a b : Subset Symbol) : Prop :=
  ∀ k ∈ Terminal.all, .terminal k ∈ a → .terminal k ∉ b

instance (a b : Subset Symbol) : Decidable (Apart a b) :=
  inferInstanceAs (Decidable (∀ k ∈ Terminal.all, .terminal k ∈ a → .terminal k ∉ b))

/-- By the table, what may be missing does not begin like what follows it, and no comma follows a
list. -/
def Parted (g : Grammar) (place : NonTerminal × Part × List Part) : Prop :=
  let next := g.behind g.follows place.1 place.2.2
  (place.2.1.repeated ≠ .once → Apart (g.fronts.ofSymbols [place.2.1.symbol]) next) ∧
    (place.2.1.repeated = .separated → .terminal (.mark .comma) ∉ next)

/-- By the tables, the next token tells whether a phrase goes on, and only the last alternative of a
rule can be empty. -/
structure Predictive (g : Grammar) : Prop where
  checked : g.Checked
  productive (n : NonTerminal) : ∃ ks, g.Yields (.symbol (.nonTerminal n)) ks
  emptyLast : ∀ r ∈ g.rules, ∀ a ∈ r.2.dropLast, a.all (skippable g.nullable) = false
  lookahead : ∀ place ∈ g.places, g.lists place = true ∧ g.Parted place

theorem Predictive.followed (hg : g.Predictive) : g.Followed :=
  fun place mem => (hg.lookahead place mem).1

instance (place : NonTerminal × Part × List Part) : Decidable (g.Parted place) :=
  inferInstanceAs (Decidable (_ ∧ _))

/-- A predictive grammar is decisive if that is so where a phrase can be left empty. -/
theorem Predictive.decisive (hg : g.Predictive)
    (greedy : ∀ {n : NonTerminal} {after : Language Terminal} {a b : Alternative} {k : Terminal}
      {ks ls : List Terminal}, g.Context (.nonTerminal n) after → a ∈ g.alternatives n →
      b ∈ g.alternatives n → k :: ks ∈ g.language (.parts a) → [] ∈ g.language (.parts b) →
      k :: ls ∈ after → k :: ls ∈ g.language (.parts a) * after) : g.Decisive where
  productive := hg.productive
  acyclic := hg.checked.acyclic
  disjoint := hg.checked.disjoint
  element := hg.checked.element
  greedy := greedy
  emptyLast := by
    intro n i a at_i empty
    have skips : a.all (skippable g.nullable) = true := Yields.skips hg.checked.surveyed empty rfl
    have le := (List.getElem?_eq_some_iff.1 at_i).1
    by_contra early
    have before : a ∈ (g.alternatives n).dropLast := by
      refine List.mem_of_getElem? (i := i) ?_
      rw [List.getElem?_dropLast, if_pos (by omega), at_i]
    have rule := rule_of_mem_alternatives (List.mem_of_getElem? at_i)
    have not_empty := hg.emptyLast _ rule a before
    rw [skips] at not_empty
    cases not_empty
  apart := by
    intro n after a p others k ks ls context mem place loose here there
    have begins : g.Begins (.symbol p.symbol) k := hg.checked.begins here trivial
    have follow : ∀ l ls, l :: ls ∈ after → .terminal l ∈ g.follows.of n :=
      fun l ls => context.follow hg.checked hg.followed rfl
    have listed := mem_behind hg.checked mem ((List.suffix_cons p others).trans place) follow there
    have parted := (hg.lookahead _ (mem_places mem place)).2
    exact parted.1 loose k (Listed.mem_all k) begins listed
  comma := by
    intro n after a p others ls context mem place list there
    have follow : ∀ l ls, l :: ls ∈ after → .terminal l ∈ g.follows.of n :=
      fun l ls => context.follow hg.checked hg.followed rfl
    have listed := mem_behind hg.checked mem ((List.suffix_cons p others).trans place) follow there
    have parted := (hg.lookahead _ (mem_places mem place)).2
    exact parted.2 list listed

end Grammar

end TradeScript
