import TradeScript.Grammar.Flaw

/-!
# Tables of a grammar

`Grammar.fronts` collects, for each non-terminal, the symbols that can stand at the front of its
phrases after any number of expansions, round by round. The check of a grammar searches its rules
for what it needs of them. Looked up in the table, all of it is a matter of evaluation
(`Grammar.tabledFlaw?`).

Main statement: `Fronts.mem_ofSymbols`.
-/

namespace TradeScript

namespace Grammar

/-- For each non-terminal, the symbols that can stand at the front of its phrases. -/
abbrev Fronts := List (NonTerminal × Subset Symbol)

namespace Fronts

/-- The symbols recorded for a non-terminal. -/
def of (fronts : Fronts) (n : NonTerminal) : Subset Symbol :=
  (fronts.lookup n).getD .empty

/-- The given symbols and those recorded for the non-terminals among them. -/
def ofSymbols (fronts : Fronts) : List Symbol → Subset Symbol
  | [] => .empty
  | s :: others =>
    let rest := (ofSymbols fronts others).insert s
    match s with
    | .terminal _ => rest
    | .nonTerminal n => rest.union (fronts.of n)

theorem mem_ofSymbols {fronts : Fronts} {symbols : List Symbol} {s : Symbol} :
    s ∈ fronts.ofSymbols symbols ↔
      s ∈ symbols ∨ ∃ n, Symbol.nonTerminal n ∈ symbols ∧ s ∈ fronts.of n := by
  induction symbols with
  | nil => simp [ofSymbols]
  | cons t others ih =>
    cases t with
    | terminal t =>
      simp only [ofSymbols, Subset.mem_insert, ih, List.mem_cons, reduceCtorEq, false_or]
      exact ⟨fun h => h.elim (fun h => h.elim (fun h => .inl (.inr h)) .inr) fun h => .inl (.inl h),
        fun h => h.elim (fun h => h.elim .inr fun h => .inl (.inl h)) fun h => .inl (.inr h)⟩
    | nonTerminal m =>
      simp only [ofSymbols, Subset.mem_union, Subset.mem_insert, ih, List.mem_cons,
        Symbol.nonTerminal.injEq]
      constructor
      · rintro (((h | ⟨n, hn, hs⟩) | h) | h)
        · exact .inl (.inr h)
        · exact .inr ⟨n, .inr hn, hs⟩
        · exact .inl (.inl h)
        · exact .inr ⟨m, .inl rfl, h⟩
      · rintro ((h | h) | ⟨n, rfl | hn, hs⟩)
        · exact .inl (.inr h)
        · exact .inl (.inl (.inl h))
        · exact .inr hs
        · exact .inl (.inl (.inr ⟨n, hn, hs⟩))

end Fronts

/-- The symbols at the front of a rule's phrases, by the fronts found so far. -/
def frontOf (nullable : Subset NonTerminal) (fronts : Fronts) (alternatives : List Alternative) :
    Subset Symbol :=
  fronts.ofSymbols (alternatives.flatMap (leading nullable))

/-- The fronts after one more expansion. -/
def frontsStep (g : Grammar) (nullable : Subset NonTerminal) (fronts : Fronts) : Fronts :=
  g.rules.map fun (n, alternatives) => (n, frontOf nullable fronts alternatives)

/-- The symbols that can stand at the front of each non-terminal's phrases. -/
def fronts (g : Grammar) : Fronts :=
  settle (g.frontsStep g.nullable) (NonTerminal.all.length * Symbol.all.length + 1) []

/-- The terminals in a set of symbols, in their fixed order. -/
def terminalsOf (symbols : Subset Symbol) : List Terminal :=
  Terminal.all.filter fun t => symbols.contains (.terminal t)

/-- The terminals that can begin a match of an alternative. -/
def firstOf (g : Grammar) (a : Alternative) : List Terminal :=
  terminalsOf (g.fronts.ofSymbols (leading g.nullable a))

/-- The first flaw of a grammar, looked up in its tables. -/
def tabledFlaw? (g : Grammar) : Option GrammarFlaw :=
  if !g.hasRule g.root then some (.noRoot g.root)
  else
    (g.rules.findSome? g.undefined?) <|> (g.rules.findSome? emptyAlternatives?) <|>
      (g.rules.findSome? (emptyRepetition? g.nullable)) <|>
      (g.rules.findSome? (leftRecursion? fun n => (g.fronts.of n).contains (.nonTerminal n))) <|>
      (g.rules.findSome? (overlap? g.firstOf))

end Grammar

end TradeScript
