import TradeScript.Proofs.Script.Parsing

/-!
# Readings put together

How a script is read from how its phrases are read. An operand alone is read as a sum and as an
expression by all levels of operators above it (`reads_sumOf`, `reads_expressionOf`), a statement as
an item (`reads_statementItem`), and items in a row as a program (`parse_of_items`).
-/

namespace TradeScript

namespace Script

open Grammar

variable {keep : PhraseCondition} {tokens rest : List Token} {t : Tree}

theorem reads_leaf {k : Terminal} {ps : List Part} {t : Token} {middle : List Token}
    {back : List Tree} (kind : t.kind = k)
    (others : grammar.Reads keep (.parts ps) middle back rest) :
    grammar.Reads keep (.parts (token k :: ps)) (t :: middle) (.leaf t :: back) rest := by
  subst kind
  exact .cons (.once (.token t middle)) others

theorem reads_phrase {n : NonTerminal} {ps : List Part} {middle : List Token} {back : List Tree}
    (first : grammar.Reads keep (.symbol (.nonTerminal n)) tokens [t] middle)
    (others : grammar.Reads keep (.parts ps) middle back rest) :
    grammar.Reads keep (.parts (phrase n :: ps)) tokens (t :: back) rest :=
  .cons (.once first) others

/-! ## Operands -/

/-- The tree of a sum that is one operand. -/
def sumOf (start : Position) (operand : Tree) : Tree :=
  .node .sum 0 start [.node .product 0 start [.node .unary 1 start [operand]]]

/-- The tree of an expression that is one operand. -/
def expressionOf (start : Position) (operand : Tree) : Tree :=
  .node .expression 0 start [.node .conditional 0 start [.node .disjunction 0 start
    [.node .conjunction 0 start [.node .equality 0 start [.node .comparison 0 start
      [sumOf start operand]]]]]]

/-- The tree of an operand that is one token, by the alternative for its kind. -/
def operandOf (choice : Nat) (t : Token) : Tree :=
  .node .postfixed 0 t.start [.node .primary choice t.start [.leaf t]]

/-- An operand is read by a level of operators if no operator follows it there. -/
theorem reads_level {n operand : NonTerminal} (further : NonTerminal)
    (rule : (grammar.alternatives n)[0]? = some [phrase operand, many further])
    (h : grammar.Reads NearestElse (.symbol (.nonTerminal operand)) tokens [t] rest)
    (kept : NearestElse (.node n 0 (Position.ofTokens tokens) [t]) tokens rest) :
    grammar.Reads NearestElse (.symbol (.nonTerminal n)) tokens
      [.node n 0 (Position.ofTokens tokens) [t]] rest :=
  .phrase rule (reads_phrase h (.cons (.repeated (.manyNil _ rest)) (.nil rest))) kept

theorem reads_operandOf {choice : Nat} {k : Terminal}
    (rule : (grammar.alternatives .primary)[choice]? = some [token k]) {t : Token}
    (kind : t.kind = k) (rest : List Token) :
    grammar.Reads NearestElse (.symbol (.nonTerminal .postfixed)) (t :: rest) [operandOf choice t]
      rest :=
  reads_level .postfixOperator (by decide +kernel)
    (.phrase rule (reads_leaf kind (.nil rest)) trivial) trivial

theorem reads_sumOf
    (h : grammar.Reads NearestElse (.symbol (.nonTerminal .postfixed)) tokens [t] rest) :
    grammar.Reads NearestElse (.symbol (.nonTerminal .sum)) tokens
      [sumOf (Position.ofTokens tokens) t] rest := by
  have unary := Reads.phrase
    (by decide +kernel : (grammar.alternatives .unary)[1]? = some [phrase .postfixed])
    (reads_phrase h (.nil rest)) trivial
  have product := reads_level (n := .product) .furtherFactor (by decide +kernel) unary trivial
  exact reads_level .furtherSummand (by decide +kernel) product trivial

theorem reads_expressionOf
    (h : grammar.Reads NearestElse (.symbol (.nonTerminal .postfixed)) tokens [t] rest) :
    grammar.Reads NearestElse (.symbol (.nonTerminal .expression)) tokens
      [expressionOf (Position.ofTokens tokens) t] rest := by
  have comparison := reads_level (n := .comparison) .furtherComparison (by decide +kernel)
    (reads_sumOf h) trivial
  have equality := reads_level (n := .equality) .furtherEquality (by decide +kernel) comparison
    trivial
  have conjunction := reads_level (n := .conjunction) .furtherConjunct (by decide +kernel) equality
    trivial
  have disjunction := reads_level (n := .disjunction) .furtherDisjunct (by decide +kernel)
    conjunction trivial
  have conditional := Reads.phrase
    (by decide +kernel : (grammar.alternatives .conditional)[0]? =
      some [phrase .disjunction, maybe .conditionalBranches])
    (reads_phrase disjunction (.cons (.omitted _ rest) (.nil rest))) trivial
  exact .phrase (by decide +kernel : (grammar.alternatives .expression)[0]? =
      some [phrase .conditional, maybe .assignment])
    (reads_phrase conditional (.cons (.omitted _ rest) (.nil rest))) trivial

/-! ## Items -/

theorem reads_statementItem {choice : Nat} {n : NonTerminal}
    (rule : (grammar.alternatives .statement)[choice]? = some [phrase n])
    (h : grammar.Reads NearestElse (.symbol (.nonTerminal n)) tokens [t] rest) :
    grammar.Reads NearestElse (.symbol (.nonTerminal .item)) tokens
      [.node .item 1 (Position.ofTokens tokens)
        [.node .statement choice (Position.ofTokens tokens) [t]]] rest := by
  have statement := Reads.phrase rule (reads_phrase h (.nil rest)) trivial
  exact .phrase (by decide +kernel : (grammar.alternatives .item)[1]? = some [phrase .statement])
    (reads_phrase statement (.nil rest)) trivial

theorem parse_of_items {items : List Tree}
    (h : grammar.Reads NearestElse (.many (.nonTerminal .item)) tokens items []) :
    Tree.parse grammar .program tokens =
      .ok (.node .program 0 (Position.ofTokens tokens) items) := by
  have body := Reads.cons (.repeated h) (.nil [])
  rw [List.append_nil] at body
  exact parse_eq_ok_of_reads
    (.phrase (by decide +kernel : (grammar.alternatives .program)[0]? = some [many .item]) body
      trivial)

end Script

end TradeScript
