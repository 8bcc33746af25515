import TradeScript.Proofs.Tree.Parsing

/-!
# Trees cover their tokens

A tree covers the tokens that it was read from (`Grammar.Covers`). A leaf covers its own token. The
children of a phrase fall into one group for each part of the alternative that it took, and cover the
tokens of the phrase one after another, with a comma between neighbours where the part is a separated
repetition. A phrase starts where the tokens that it covers start, or where the rest does if it covers
none.

What a grammar reads covers all tokens, and every node of it covers some of them
(`Tree.covers_of_parse_eq_ok`). Only commas are left out of a tree.
-/

namespace TradeScript

/-- How many trees may stand for a part. -/
def Repeat.Admits : Repeat → Nat → Prop
  | once, count => count = 1
  | optional, count => count ≤ 1
  | many, _ => True
  | separated, _ => True

/-- The tokens between two neighbours in a part: one comma if they are separated. -/
def Repeat.Between : Repeat → List Token → Prop
  | separated, gap => ∃ comma : Token, comma.kind = .mark .comma ∧ gap = [comma]
  | _, gap => gap = []

namespace Grammar

mutual

/-- `g.Covers t covered rest`: the leaves of `t`, with the commas between them, are `covered`, and
`rest` comes after them. -/
inductive Covers (g : Grammar) : Tree → List Token → List Token → Prop
  | leaf (t : Token) (rest : List Token) : Covers g (.leaf t) [t] rest
  | node {n : NonTerminal} {choice : Nat} {a : Alternative} {groups : List (List Tree)}
      {covered rest : List Token} (chosen : (g.alternatives n)[choice]? = some a)
      (split : CoversParts g a groups covered rest) :
      Covers g (.node n choice (Position.ofTokens (covered ++ rest)) groups.flatten) covered rest

/-- One group of trees for each part covers the tokens. -/
inductive CoversParts (g : Grammar) :
    List Part → List (List Tree) → List Token → List Token → Prop
  | nil (rest : List Token) : CoversParts g [] [] [] rest
  | cons {p : Part} {ps : List Part} {group : List Tree} {groups : List (List Tree)}
      {front back rest : List Token} (count : p.repeated.Admits group.length)
      (symbols : ∀ t ∈ group, t.symbol = p.symbol)
      (first : CoversGroup g p.repeated group front (back ++ rest))
      (others : CoversParts g ps groups back rest) :
      CoversParts g (p :: ps) (group :: groups) (front ++ back) rest

/-- The trees of one part, with what stands between them, cover the tokens. -/
inductive CoversGroup (g : Grammar) : Repeat → List Tree → List Token → List Token → Prop
  | nil (repeated : Repeat) (rest : List Token) : CoversGroup g repeated [] [] rest
  | single {repeated : Repeat} {t : Tree} {covered rest : List Token}
      (one : Covers g t covered rest) : CoversGroup g repeated [t] covered rest
  | cons {repeated : Repeat} {t u : Tree} {others : List Tree} {front gap back rest : List Token}
      (first : Covers g t front (gap ++ (back ++ rest))) (between : repeated.Between gap)
      (more : CoversGroup g repeated (u :: others) back rest) :
      CoversGroup g repeated (t :: u :: others) (front ++ (gap ++ back)) rest

end

variable {g : Grammar} {keep : PhraseCondition}

/-! ## What is read covers the tokens -/

/-- Trees that are read from a goal cover the tokens. After an element of a separated repetition they
stand behind a comma. -/
def CoversGoal (g : Grammar) : Goal → List Tree → List Token → List Token → Prop
  | .symbol s, trees, covered, rest => ∃ t, trees = [t] ∧ t.symbol = s ∧ g.Covers t covered rest
  | .part p, trees, covered, rest => p.repeated.Admits trees.length ∧
      (∀ t ∈ trees, t.symbol = p.symbol) ∧ g.CoversGroup p.repeated trees covered rest
  | .parts ps, trees, covered, rest =>
      ∃ groups, trees = groups.flatten ∧ g.CoversParts ps groups covered rest
  | .many s, trees, covered, rest =>
      (∀ t ∈ trees, t.symbol = s) ∧ g.CoversGroup .many trees covered rest
  | .further s, trees, covered, rest => (∀ t ∈ trees, t.symbol = s) ∧
      (trees = [] ∧ covered = [] ∨ ∃ t others comma back, trees = t :: others ∧
        covered = comma :: back ∧ comma.kind = .mark .comma ∧
          g.CoversGroup .separated trees back rest)

theorem CoversGroup.cons_many {t : Tree} {others : List Tree} {front back rest : List Token}
    (first : g.Covers t front (back ++ rest)) (more : g.CoversGroup .many others back rest) :
    g.CoversGroup .many (t :: others) (front ++ back) rest := by
  cases others with
  | nil =>
    cases more
    rw [List.append_nil]
    exact .single first
  | cons u others =>
    have covers : g.CoversGroup .many (t :: u :: others) (front ++ ([] ++ back)) rest :=
      .cons first rfl more
    exact covers

theorem CoversGoal.cons_further {s : Symbol} {t : Tree} {others : List Tree}
    {front back rest : List Token} (first : g.Covers t front (back ++ rest))
    (more : g.CoversGoal (.further s) others back rest) :
    g.CoversGroup .separated (t :: others) (front ++ back) rest := by
  obtain ⟨-, ⟨rfl, rfl⟩ | ⟨u, behind, comma, back, rfl, rfl, kind, more⟩⟩ := more
  · rw [List.append_nil]
    exact .single first
  · have covers :
        g.CoversGroup .separated (t :: u :: behind) (front ++ ([comma] ++ back)) rest :=
      .cons first ⟨comma, kind, rfl⟩ more
    exact covers

theorem Reads.covers {goal : Goal} {tokens rest : List Token} {trees : List Tree}
    (h : g.Reads keep goal tokens trees rest) :
    ∃ covered, tokens = covered ++ rest ∧ g.CoversGoal goal trees covered rest := by
  induction h with
  | token t rest => exact ⟨[t], rfl, .leaf t, rfl, rfl, .leaf t rest⟩
  | phrase chosen _ _ ih =>
    obtain ⟨covered, rfl, groups, rfl, split⟩ := ih
    exact ⟨covered, rfl, _, rfl, rfl, .node chosen split⟩
  | nil tokens => exact ⟨[], rfl, [], rfl, .nil tokens⟩
  | cons _ _ ih₁ ih₂ =>
    obtain ⟨front, rfl, count, symbols, first⟩ := ih₁
    obtain ⟨back, rfl, groups, rfl, others⟩ := ih₂
    exact ⟨front ++ back, by simp, _ :: groups, rfl, .cons count symbols first others⟩
  | once _ ih =>
    obtain ⟨covered, rfl, t, rfl, rfl, one⟩ := ih
    exact ⟨covered, rfl, rfl, by simp, .single one⟩
  | omitted s tokens => exact ⟨[], rfl, Nat.zero_le 1, by simp, .nil _ tokens⟩
  | present _ ih =>
    obtain ⟨covered, rfl, t, rfl, rfl, one⟩ := ih
    exact ⟨covered, rfl, Nat.le_refl 1, by simp, .single one⟩
  | repeated _ ih =>
    obtain ⟨covered, rfl, symbols, group⟩ := ih
    exact ⟨covered, rfl, trivial, symbols, group⟩
  | noElement s tokens => exact ⟨[], rfl, trivial, by simp, .nil _ tokens⟩
  | separated _ _ ih₁ ih₂ =>
    obtain ⟨front, rfl, t, rfl, rfl, first⟩ := ih₁
    obtain ⟨back, rfl, more⟩ := ih₂
    refine ⟨front ++ back, by simp, trivial, ?_, more.cons_further first⟩
    exact List.forall_mem_cons.2 ⟨rfl, more.1⟩
  | manyNil s tokens => exact ⟨[], rfl, by simp, .nil _ tokens⟩
  | manyCons _ _ ih₁ ih₂ =>
    obtain ⟨front, rfl, t, rfl, rfl, first⟩ := ih₁
    obtain ⟨back, rfl, symbols, more⟩ := ih₂
    exact ⟨front ++ back, by simp, List.forall_mem_cons.2 ⟨rfl, symbols⟩, more.cons_many first⟩
  | furtherNil s tokens => exact ⟨[], rfl, by simp, .inl ⟨rfl, rfl⟩⟩
  | @furtherCons s comma _ _ _ _ _ kind _ _ ih₁ ih₂ =>
    obtain ⟨front, rfl, t, rfl, rfl, first⟩ := ih₁
    obtain ⟨back, rfl, more⟩ := ih₂
    refine ⟨comma :: (front ++ back), by simp, List.forall_mem_cons.2 ⟨rfl, more.1⟩, .inr ?_⟩
    exact ⟨t, _, comma, front ++ back, rfl, rfl, kind, more.cons_further first⟩

/-! ## Every node covers some of the tokens -/

/-- A tree covers some of the given tokens. -/
def CoversWithin (g : Grammar) (t : Tree) (tokens : List Token) : Prop :=
  ∃ before covered rest, tokens = before ++ (covered ++ rest) ∧ g.Covers t covered rest

theorem CoversWithin.append {t : Tree} {tokens : List Token} (h : g.CoversWithin t tokens)
    (front : List Token) : g.CoversWithin t (front ++ tokens) := by
  obtain ⟨before, covered, rest, rfl, covers⟩ := h
  exact ⟨front ++ before, covered, rest, by simp, covers⟩

mutual

theorem Covers.within {t : Tree} {covered rest : List Token} (h : g.Covers t covered rest) :
    ∀ u ∈ t.descendants, g.CoversWithin u (covered ++ rest) := by
  match h with
  | .leaf t rest =>
    intro u mem
    rw [Tree.descendants_eq] at mem
    obtain rfl : u = .leaf t := by simpa [Tree.children] using mem
    exact ⟨[], [t], rest, rfl, .leaf t rest⟩
  | .node chosen split =>
    intro u mem
    have below := split.within
    rw [Tree.descendants_eq] at mem
    rcases List.mem_cons.1 mem with rfl | mem
    · exact ⟨[], covered, rest, rfl, .node chosen split⟩
    · exact below u mem

theorem CoversParts.within {ps : List Part} {groups : List (List Tree)} {covered rest : List Token}
    (h : g.CoversParts ps groups covered rest) :
    ∀ u ∈ groups.flatten.flatMap Tree.descendants, g.CoversWithin u (covered ++ rest) := by
  match h with
  | .nil rest => simp
  | @CoversParts.cons _ p ps group groups front back rest count symbols first others =>
    intro u mem
    rw [List.flatten_cons, List.flatMap_append] at mem
    rw [List.append_assoc]
    rcases List.mem_append.1 mem with here | behind
    · exact first.within u here
    · exact (others.within u behind).append front

theorem CoversGroup.within {repeated : Repeat} {trees : List Tree} {covered rest : List Token}
    (h : g.CoversGroup repeated trees covered rest) :
    ∀ u ∈ trees.flatMap Tree.descendants, g.CoversWithin u (covered ++ rest) := by
  match h with
  | .nil repeated rest => simp
  | .single one =>
    intro u mem
    rw [List.flatMap_singleton] at mem
    exact one.within u mem
  | @CoversGroup.cons _ _ t v others front gap back rest first between more =>
    intro u mem
    rw [List.flatMap_cons] at mem
    rw [List.append_assoc, List.append_assoc]
    rcases List.mem_append.1 mem with here | behind
    · exact first.within u here
    · exact ((more.within u behind).append gap).append front

end

/-! ## Only commas are left out -/

/-- Some tokens are others without some of their commas. -/
def LacksCommas (some all : List Token) : Prop :=
  some.Sublist all ∧
    some.filter (fun t => t.kind ≠ .mark .comma) = all.filter (fun t => t.kind ≠ .mark .comma)

theorem LacksCommas.refl (tokens : List Token) : LacksCommas tokens tokens :=
  ⟨List.Sublist.refl tokens, rfl⟩

theorem LacksCommas.append {some all more others : List Token} (first : LacksCommas some all)
    (second : LacksCommas more others) : LacksCommas (some ++ more) (all ++ others) := by
  refine ⟨first.1.append second.1, ?_⟩
  rw [List.filter_append, List.filter_append, first.2, second.2]

theorem lacksCommas_of_between {repeated : Repeat} {gap : List Token}
    (between : repeated.Between gap) : LacksCommas [] gap := by
  refine ⟨List.nil_sublist gap, ?_⟩
  cases repeated with
  | separated =>
    obtain ⟨comma, kind, rfl⟩ := between
    simp [kind]
  | once => rw [show gap = [] from between]
  | optional => rw [show gap = [] from between]
  | many => rw [show gap = [] from between]

theorem tokens_node (n : NonTerminal) (choice : Nat) (start : Position) (children : List Tree) :
    (Tree.node n choice start children).tokens = children.flatMap Tree.tokens :=
  Tree.tokens_eq _

mutual

theorem Covers.lacksCommas {t : Tree} {covered rest : List Token} (h : g.Covers t covered rest) :
    LacksCommas t.tokens covered := by
  match h with
  | .leaf t rest =>
    have own : (Tree.leaf t).tokens = [t] := by
      simp [Tree.tokens, Tree.descendants_eq, Tree.children, Tree.token?]
    rw [own]
    exact .refl [t]
  | .node chosen split =>
    rw [tokens_node]
    exact split.lacksCommas

theorem CoversParts.lacksCommas {ps : List Part} {groups : List (List Tree)}
    {covered rest : List Token} (h : g.CoversParts ps groups covered rest) :
    LacksCommas (groups.flatten.flatMap Tree.tokens) covered := by
  match h with
  | .nil rest => exact .refl []
  | .cons count symbols first others =>
    rw [List.flatten_cons, List.flatMap_append]
    exact first.lacksCommas.append others.lacksCommas

theorem CoversGroup.lacksCommas {repeated : Repeat} {trees : List Tree}
    {covered rest : List Token} (h : g.CoversGroup repeated trees covered rest) :
    LacksCommas (trees.flatMap Tree.tokens) covered := by
  match h with
  | .nil repeated rest => exact .refl []
  | .single one =>
    rw [List.flatMap_singleton]
    exact one.lacksCommas
  | .cons first between more =>
    rw [List.flatMap_cons]
    exact first.lacksCommas.append ((lacksCommas_of_between between).append more.lacksCommas)

end

end Grammar

namespace Tree

open Grammar

/-- What is read covers all tokens, and every node of it covers some of them: a phrase by one group
of children for each part of its alternative. The leaves are the tokens without the commas that
separate repetitions. -/
theorem covers_of_parse_eq_ok {g : Grammar} {n : NonTerminal} {tokens : List Token} {t : Tree}
    (h : parse g n tokens = .ok t) :
    t.symbol = .nonTerminal n ∧ g.Covers t tokens [] ∧
      (∀ u ∈ t.descendants, g.CoversWithin u tokens) ∧ LacksCommas t.tokens tokens := by
  obtain ⟨covered, rfl, u, same, symbol, covers⟩ := (reads_of_parse_eq_ok h).covers
  obtain rfl : t = u := List.singleton_inj.1 same
  have within := covers.within
  rw [List.append_nil] at within ⊢
  exact ⟨symbol, covers, within, covers.lacksCommas⟩

/-! ### Two numbers with a comma between them -/

/-- A grammar for numbers in brackets, with commas between them. -/
def bracketedNumbers : Grammar :=
  ⟨.program, [(.program, [[⟨.terminal (.mark .leftBracket), .once⟩, ⟨.terminal .number, .separated⟩,
    ⟨.terminal (.mark .rightBracket), .once⟩]])]⟩

/-- The tokens of `[1,2]`, of which the comma is the third. -/
def oneAndTwo : List Token :=
  [⟨.mark .leftBracket, "[", ⟨"a.dts", 1, 1⟩⟩, ⟨.number, "1", ⟨"a.dts", 1, 2⟩⟩,
    ⟨.mark .comma, ",", ⟨"a.dts", 1, 3⟩⟩, ⟨.number, "2", ⟨"a.dts", 1, 4⟩⟩,
    ⟨.mark .rightBracket, "]", ⟨"a.dts", 1, 5⟩⟩]

theorem parse_oneAndTwo : parse bracketedNumbers .program oneAndTwo =
    .ok (.node .program 0 ⟨"a.dts", 1, 1⟩ ((oneAndTwo.eraseIdx 2).map .leaf)) := by
  have own : bracketedNumbers.alternatives .program = [[⟨.terminal (.mark .leftBracket), .once⟩,
      ⟨.terminal .number, .separated⟩, ⟨.terminal (.mark .rightBracket), .once⟩]] := rfl
  simp [parse, Matching.phrase, own, Matching.alternatives, Matching.parts, Matching.part,
    Matching.symbol, Matching.further, Matching.enteredAfter, Position.ofTokens, oneAndTwo]

theorem covers_oneAndTwo : parse bracketedNumbers .program oneAndTwo =
      .ok (.node .program 0 ⟨"a.dts", 1, 1⟩ ((oneAndTwo.eraseIdx 2).map .leaf)) ∧
    bracketedNumbers.Covers (.node .program 0 ⟨"a.dts", 1, 1⟩ ((oneAndTwo.eraseIdx 2).map .leaf))
      oneAndTwo [] :=
  ⟨parse_oneAndTwo, (covers_of_parse_eq_ok parse_oneAndTwo).2.1⟩

end Tree

end TradeScript
