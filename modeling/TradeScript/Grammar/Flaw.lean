import TradeScript.Grammar.Front

/-!
# Sound grammars

A grammar is used only if it passes a check (`Grammar.ofRules`), after which one token decides which
alternative to try. `GrammarFlaw` lists what can be wrong with it; `Grammar.flaw?` finds the first
flaw.
-/

namespace TradeScript

/-- What can be wrong with a grammar. -/
inductive GrammarFlaw
  /-- A rule has more than one empty alternative. -/
  | emptyAlternatives (rule : NonTerminal) (count : Nat)
  /-- Two alternatives can start with the same terminal. -/
  | overlap (rule : NonTerminal) (first second : Nat) (shared : Terminal)
  /-- A rule mentions a non-terminal without a rule. -/
  | undefined (rule mentioned : NonTerminal)
  /-- A phrase can begin with a phrase of the same rule. -/
  | leftRecursion (rule : NonTerminal)
  /-- A rule repeats a symbol that can match nothing. -/
  | emptyRepetition (rule : NonTerminal)
  /-- The start symbol has no rule. -/
  | noRoot (root : NonTerminal)
  deriving DecidableEq

namespace GrammarFlaw

/-- The text of a flaw. -/
def message : GrammarFlaw → String
  | emptyAlternatives rule count =>
    "rule '" ++ rule.name ++ "' has " ++ toString count ++
      " empty alternatives, at most one is allowed"
  | overlap rule first second shared =>
    "rule '" ++ rule.name ++ "': alternatives " ++ toString first ++ " and " ++ toString second ++
      " can both start with " ++ shared.describe
  | undefined rule mentioned =>
    "rule '" ++ rule.name ++ "' refers to '" ++ mentioned.name ++ "', which has no rule"
  | leftRecursion rule => "rule '" ++ rule.name ++ "' is left-recursive"
  | emptyRepetition rule => "rule '" ++ rule.name ++ "' repeats a symbol that can match nothing"
  | noRoot root => "root rule '" ++ root.name ++ "' is not defined"

end GrammarFlaw

namespace Grammar

/-! ## Single checks -/

/-- The first part that mentions a non-terminal without a rule. -/
def undefined? (g : Grammar) : NonTerminal × List Alternative → Option GrammarFlaw
  | (rule, alternatives) => alternatives.flatten.findSome? fun p =>
    match p.symbol with
    | .terminal _ => none
    | .nonTerminal n => if g.hasRule n then none else some (.undefined rule n)

/-- Whether a rule has more than one empty alternative. -/
def emptyAlternatives? : NonTerminal × List Alternative → Option GrammarFlaw
  | (rule, alternatives) =>
    let count := alternatives.countP (·.isEmpty)
    if count > 1 then some (.emptyAlternatives rule count) else none

/-- Whether a part repeats a non-terminal that can match nothing. -/
def repeatsNothing (nullable : Subset NonTerminal) (p : Part) : Bool :=
  (p.repeated = .many || p.repeated = .separated) &&
    match p.symbol with
    | .terminal _ => false
    | .nonTerminal n => nullable.contains n

/-- Whether a rule repeats a symbol that can match nothing. -/
def emptyRepetition? (nullable : Subset NonTerminal) :
    NonTerminal × List Alternative → Option GrammarFlaw
  | (rule, alternatives) =>
    if alternatives.flatten.any (repeatsNothing nullable) then some (.emptyRepetition rule)
    else none

/-- Whether a phrase of the rule can begin with a phrase of the same rule, which a test tells. -/
def leftRecursion? (recursive : NonTerminal → Bool) :
    NonTerminal × List Alternative → Option GrammarFlaw
  | (rule, _) => if recursive rule then some (.leftRecursion rule) else none

/-- The first terminal that stands in both of two lists. -/
def shared? (a b : List Terminal) : Option Terminal :=
  Terminal.all.find? fun t => a.contains t && b.contains t

/-- The first two alternatives of a rule that can start with the same terminal, given what an
alternative can start with. -/
def overlap? (starts : Alternative → List Terminal) :
    NonTerminal × List Alternative → Option GrammarFlaw
  | (rule, alternatives) =>
    let firsts := (alternatives.map starts).zipIdx
    firsts.findSome? fun (a, i) =>
      (firsts.drop (i + 1)).findSome? fun (b, j) => (shared? a b).map (.overlap rule i j)

/-! ## The whole check -/

/-- The first flaw of a grammar: its root, mentions without rule, empty alternatives, repetitions of
nothing, left recursion and overlaps are looked at in this order. -/
def flaw? (g : Grammar) : Option GrammarFlaw :=
  if !g.hasRule g.root then some (.noRoot g.root)
  else
    (g.rules.findSome? g.undefined?) <|> (g.rules.findSome? emptyAlternatives?) <|>
      (g.rules.findSome? (emptyRepetition? g.nullable)) <|>
      (g.rules.findSome? (leftRecursion? (g.leftRecursive g.nullable))) <|>
      (g.rules.findSome? (overlap? (g.firstAlong g.nullable [])))

/-- The grammar with the given start symbol and rules, if it has no flaw. -/
def ofRules (root : NonTerminal) (rules : List Rule) : Except GrammarFlaw Grammar :=
  match flaw? ⟨root, merge rules⟩ with
  | some flaw => .error flaw
  | none => .ok ⟨root, merge rules⟩

theorem ofRules_eq_ok {root : NonTerminal} {rules : List Rule}
    (h : flaw? ⟨root, merge rules⟩ = none) : ofRules root rules = .ok ⟨root, merge rules⟩ := by
  simp only [ofRules, h]

theorem ofRules_eq_ok_iff {root : NonTerminal} {rules : List Rule} {g : Grammar} :
    ofRules root rules = .ok g ↔ g = ⟨root, merge rules⟩ ∧ g.flaw? = none := by
  unfold ofRules
  constructor
  · intro h
    split at h
    · cases h
    · next none_found =>
      cases h
      exact ⟨rfl, none_found⟩
  · rintro ⟨rfl, h⟩
    rw [h]

theorem ofRules_eq_error_iff {root : NonTerminal} {rules : List Rule} {flaw : GrammarFlaw} :
    ofRules root rules = .error flaw ↔ flaw? ⟨root, merge rules⟩ = some flaw := by
  unfold ofRules
  split
  · next found => simp [found]
  · next none_found => simp [none_found]

end Grammar

end TradeScript
