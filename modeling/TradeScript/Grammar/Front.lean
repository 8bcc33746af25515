import TradeScript.Counting
import TradeScript.Grammar

/-!
# What can stand at the front

The check of a grammar asks which non-terminals can match without a token (`Grammar.nullable`),
which of them can begin with a phrase of their own (`Grammar.leftRecursive`), and with which
terminals an alternative can begin (`Grammar.firstAlong`). The first is found round by round. For the
second the rules are searched with a stack of what is still to be looked at, and for the third along
paths of phrases of which each stands at the front of the one before. The first set of a
non-terminal (`Grammar.first`) is searched for in the same way.

Main statements: `mem_leading_cons` and `mem_leftmost`.
-/

namespace TradeScript

namespace Grammar

/-! ## Matching nothing -/

/-- Whether a part can match without a token, given the non-terminals that can. -/
def skippable (nullable : Subset NonTerminal) (p : Part) : Bool :=
  p.repeated ≠ .once ||
    match p.symbol with
    | .terminal _ => false
    | .nonTerminal n => nullable.contains n

/-- The non-terminals found to match without a token, after one more look at every rule. -/
def nullableStep (rules : List (NonTerminal × List Alternative)) (nullable : Subset NonTerminal) :
    Subset NonTerminal :=
  rules.foldl (fun found (n, alternatives) =>
    if alternatives.any (·.all (skippable found)) then found.insert n else found) nullable

/-- The non-terminals that can match without a token. -/
def nullable (g : Grammar) : Subset NonTerminal :=
  settle (nullableStep g.rules) NonTerminal.all.length .empty

/-! ## Leading symbols -/

/-- The symbols of an alternative that only skippable parts precede. -/
def leading (nullable : Subset NonTerminal) : Alternative → List Symbol
  | [] => []
  | p :: ps => p.symbol :: if skippable nullable p then leading nullable ps else []

theorem mem_leading_cons {nullable : Subset NonTerminal} {s : Symbol} {p : Part}
    {ps : List Part} : s ∈ leading nullable (p :: ps) ↔
      s = p.symbol ∨ skippable nullable p = true ∧ s ∈ leading nullable ps := by
  cases h : skippable nullable p <;> simp [leading, h]

/-- The phrases that can stand at the front of a phrase after one expansion, in the order of its
alternatives. -/
def leftmost (g : Grammar) (nullable : Subset NonTerminal) (n : NonTerminal) : List NonTerminal :=
  (g.alternatives n).flatMap fun a => (leading nullable a).filterMap Symbol.nonTerminal?

theorem mem_leftmost {g : Grammar} {nullable : Subset NonTerminal} {m n : NonTerminal} :
    n ∈ g.leftmost nullable m ↔
      ∃ a ∈ g.alternatives m, Symbol.nonTerminal n ∈ leading nullable a := by
  simp [leftmost]

/-! ## Left recursion -/

/-- Whether a search comes upon a phrase. The phrases to look at next lie on a stack, and one that
has been seen is not expanded once more. -/
def comesUpon (g : Grammar) (nullable : Subset NonTerminal) (goal : NonTerminal)
    (seen : List NonTerminal) : List NonTerminal → Bool
  | [] => false
  | n :: pending =>
    if n = goal then true
    else if _ : n ∈ seen then comesUpon g nullable goal seen pending
    else comesUpon g nullable goal (n :: seen) ((g.leftmost nullable n).reverse ++ pending)
  termination_by pending => (NonTerminal.all.countP (fun m => !seen.contains m), pending.length)
  decreasing_by
    · exact Prod.Lex.right _ (Nat.lt_succ_self _)
    · exact Prod.Lex.left _ _ (countP_new_cons_lt ‹_› (Listed.mem_all n))

/-- Whether a phrase can begin with a phrase of the same rule. -/
def leftRecursive (g : Grammar) (nullable : Subset NonTerminal) (n : NonTerminal) : Bool :=
  g.comesUpon nullable n [] (g.leftmost nullable n).reverse

/-! ## First sets -/

/-- The terminals found by following some parts from the left, up to the first one that cannot be
skipped. The phrases on the path are being followed already, and not once more within themselves. -/
def firstAlong (g : Grammar) (nullable : Subset NonTerminal) (path : List NonTerminal) :
    List Part → List Terminal
  | [] => []
  | p :: ps =>
    let here := match p.symbol with
      | .terminal k => [k]
      | .nonTerminal n =>
        if _ : n ∈ path then []
        else (g.alternatives n).flatMap fun a => firstAlong g nullable (n :: path) a
    here ++ if skippable nullable p then firstAlong g nullable path ps else []
  termination_by ps => (NonTerminal.all.countP (fun n => !path.contains n), ps.length)
  decreasing_by
    · exact Prod.Lex.left _ _ (countP_new_cons_lt ‹_› (Listed.mem_all n))
    · exact Prod.Lex.right _ (Nat.lt_succ_self _)

/-- The terminals that can begin a match of a non-terminal, in their fixed order. -/
def first (g : Grammar) (n : NonTerminal) : List Terminal :=
  let found := (g.alternatives n).flatMap (g.firstAlong g.nullable [])
  Terminal.all.filter found.contains

end Grammar

end TradeScript
