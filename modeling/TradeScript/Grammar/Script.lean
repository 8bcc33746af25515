import TradeScript.Grammar.Table

/-!
# The grammar of scripts

Scripts are written in a small statement language with the expressions of C. `Script.rules` are its
rules, `Script.grammar?` the checked grammar. By its tables the grammar has no flaw
(`Script.grammar_tabledFlaw?`).
-/

namespace TradeScript

namespace Script

/-! ## Ways to write rules -/

/-- A terminal that stands once. -/
def token (t : Terminal) : Part :=
  ⟨.terminal t, .once⟩

/-- A mark that stands once. -/
def mark (m : Mark) : Part :=
  token (.mark m)

/-- A keyword that stands once. -/
def keyword (k : Keyword) : Part :=
  token (.keyword k)

/-- A phrase that stands once. -/
def phrase (n : NonTerminal) : Part :=
  ⟨.nonTerminal n, .once⟩

/-- A phrase that may stand. -/
def maybe (n : NonTerminal) : Part :=
  ⟨.nonTerminal n, .optional⟩

/-- A phrase that stands any number of times. -/
def many (n : NonTerminal) : Part :=
  ⟨.nonTerminal n, .many⟩

/-- A phrase that stands any number of times, with commas between. -/
def listOf (n : NonTerminal) : Part :=
  ⟨.nonTerminal n, .separated⟩

/-- A rule with one alternative for each of some terminals. -/
def oneOf (n : NonTerminal) (terminals : List Terminal) : Rule :=
  ⟨n, terminals.map fun t => [token t]⟩

/-- The two rules of a level of binary operators: `operand (operator operand)*`. -/
def level (n further : NonTerminal) (operator : Part) (operand : NonTerminal) : List Rule :=
  [⟨n, [[phrase operand, many further]]⟩, ⟨further, [[operator, phrase operand]]⟩]

/-! ## The rules -/

/-- Rules for declarations and for a script as a whole. -/
def declarationRules : List Rule :=
  [⟨.program, [[many .item]]⟩,
    ⟨.item, [[phrase .indicatorDeclaration], [phrase .statement]]⟩,
    ⟨.indicatorDeclaration,
      [[token .indicatorName, mark .less, phrase .initializerList, mark .greater,
        token .identifier, mark .semicolon]]⟩,
    ⟨.initializerList, [[listOf .sum]]⟩,
    ⟨.declaration,
      [[phrase .typeSpecifier, phrase .declarator, many .furtherDeclarator, mark .semicolon]]⟩,
    ⟨.typeSpecifier,
      [[⟨.terminal (.keyword .const), .optional⟩, token .typeName, ⟨.terminal .typeName, .many⟩]]⟩,
    ⟨.declarator, [[token .identifier, maybe .initializer]]⟩,
    ⟨.initializer, [[mark .assign, phrase .expression]]⟩,
    ⟨.furtherDeclarator, [[mark .comma, phrase .declarator]]⟩]

/-- Rules for statements. -/
def statementRules : List Rule :=
  [⟨.statement,
      [[phrase .block], [phrase .declaration], [phrase .ifStatement], [phrase .whileStatement],
        [phrase .forStatement], [phrase .returnStatement], [phrase .breakStatement],
        [phrase .continueStatement], [phrase .actionStatement], [phrase .expressionStatement],
        [phrase .emptyStatement]]⟩,
    ⟨.block, [[mark .leftBrace, many .statement, mark .rightBrace]]⟩,
    ⟨.ifStatement,
      [[keyword .if, mark .leftParen, phrase .expression, mark .rightParen, phrase .statement,
        phrase .elseClause]]⟩,
    ⟨.elseClause, [[keyword .else, phrase .statement], []]⟩,
    ⟨.whileStatement,
      [[keyword .while, mark .leftParen, phrase .expression, mark .rightParen,
        phrase .statement]]⟩,
    ⟨.forStatement,
      [[keyword .for, mark .leftParen, phrase .forInitializer, maybe .expression, mark .semicolon,
        maybe .expression, mark .rightParen, phrase .statement]]⟩,
    ⟨.forInitializer,
      [[phrase .declaration], [phrase .expressionStatement], [phrase .emptyStatement]]⟩,
    ⟨.returnStatement, [[keyword .return, maybe .expression, mark .semicolon]]⟩,
    ⟨.breakStatement, [[keyword .break, mark .semicolon]]⟩,
    ⟨.continueStatement, [[keyword .continue, mark .semicolon]]⟩,
    ⟨.actionStatement,
      [[phrase .actionCall, mark .leftParen, mark .rightParen, mark .semicolon]]⟩,
    oneOf .actionCall [.keyword .buy, .keyword .sell, .keyword .doNothing],
    ⟨.expressionStatement, [[phrase .expression, mark .semicolon]]⟩,
    ⟨.emptyStatement, [[mark .semicolon]]⟩]

/-- Rules for expressions, from assignments to the operators of two operands. -/
def operatorRules : List Rule :=
  [⟨.expression, [[phrase .conditional, maybe .assignment]]⟩,
    ⟨.assignment, [[phrase .assignmentOperator, phrase .expression]]⟩,
    oneOf .assignmentOperator
      [.mark .assign, .operator .plusAssign, .operator .minusAssign, .operator .starAssign,
        .operator .slashAssign],
    ⟨.conditional, [[phrase .disjunction, maybe .conditionalBranches]]⟩,
    ⟨.conditionalBranches,
      [[mark .question, phrase .expression, mark .colon, phrase .conditional]]⟩] ++
  level .disjunction .furtherDisjunct (token (.operator .or)) .conjunction ++
  level .conjunction .furtherConjunct (token (.operator .and)) .equality ++
  level .equality .furtherEquality (phrase .equalityOperator) .comparison ++
  [oneOf .equalityOperator [.operator .equal, .operator .notEqual]] ++
  level .comparison .furtherComparison (phrase .comparisonOperator) .sum ++
  [oneOf .comparisonOperator
    [.mark .less, .mark .greater, .operator .lessEqual, .operator .greaterEqual]] ++
  level .sum .furtherSummand (phrase .sumOperator) .product ++
  [oneOf .sumOperator [.mark .plus, .mark .minus]] ++
  level .product .furtherFactor (phrase .productOperator) .unary ++
  [oneOf .productOperator [.mark .star, .mark .slash, .mark .percent]]

/-- Rules for operands. -/
def operandRules : List Rule :=
  [⟨.unary, [[phrase .unaryOperator, phrase .unary], [phrase .postfixed]]⟩,
    oneOf .unaryOperator [.mark .minus, .mark .bang, .mark .plus],
    ⟨.postfixed, [[phrase .primary, many .postfixOperator]]⟩,
    ⟨.postfixOperator,
      [[mark .leftBracket, phrase .expression, mark .rightBracket],
        [mark .leftParen, phrase .arguments, mark .rightParen],
        [mark .period, token .identifier],
        [token (.operator .increment)],
        [token (.operator .decrement)]]⟩,
    ⟨.arguments, [[listOf .expression]]⟩,
    ⟨.primary,
      [[token .identifier], [token .number], [token .string], [token .character],
        [keyword .true], [keyword .false],
        [mark .leftParen, phrase .expression, mark .rightParen]]⟩]

/-- The rules of the language of scripts. -/
def rules : List Rule :=
  declarationRules ++ statementRules ++ operatorRules ++ operandRules

/-- The grammar of scripts with its rules as merged, unchecked. -/
def grammar : Grammar :=
  ⟨.program, Grammar.merge rules⟩

/-- The grammar of scripts after its check. -/
def grammar? : Except GrammarFlaw Grammar :=
  Grammar.ofRules .program rules

-- the tables can be evaluated, while the searches are well-founded recursions
set_option maxRecDepth 10000 in
theorem grammar_tabledFlaw? : grammar.tabledFlaw? = none := by
  decide +kernel

end Script

end TradeScript
