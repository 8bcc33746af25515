import TradeScript.Subset

/-!
# Non-terminals

The phrases of a script. Each has a name, under which reports on a grammar refer to its rule, and a
description for messages to the author of a script.
-/

namespace TradeScript

/-- The phrases that a grammar has rules for. -/
inductive NonTerminal
  | program
  | item
  | indicatorDeclaration
  | initializerList
  | statement
  | block
  | declaration
  | typeSpecifier
  | declarator
  | initializer
  | furtherDeclarator
  | ifStatement
  | elseClause
  | whileStatement
  | forStatement
  | forInitializer
  | returnStatement
  | breakStatement
  | continueStatement
  | actionStatement
  | actionCall
  | expressionStatement
  | emptyStatement
  | expression
  | assignment
  | assignmentOperator
  | conditional
  | conditionalBranches
  | disjunction
  | furtherDisjunct
  | conjunction
  | furtherConjunct
  | equality
  | furtherEquality
  | equalityOperator
  | comparison
  | furtherComparison
  | comparisonOperator
  | sum
  | furtherSummand
  | sumOperator
  | product
  | furtherFactor
  | productOperator
  | unary
  | unaryOperator
  | postfixed
  | postfixOperator
  | arguments
  | primary
  deriving DecidableEq

namespace NonTerminal

/-- The non-terminals in their fixed order. -/
def all : List NonTerminal :=
  [program, item, indicatorDeclaration, initializerList, statement, block, declaration,
    typeSpecifier, declarator, initializer, furtherDeclarator, ifStatement, elseClause,
    whileStatement, forStatement, forInitializer, returnStatement, breakStatement,
    continueStatement, actionStatement, actionCall, expressionStatement, emptyStatement,
    expression, assignment, assignmentOperator, conditional, conditionalBranches, disjunction,
    furtherDisjunct, conjunction, furtherConjunct, equality, furtherEquality, equalityOperator,
    comparison, furtherComparison, comparisonOperator, sum, furtherSummand, sumOperator, product,
    furtherFactor, productOperator, unary, unaryOperator, postfixed, postfixOperator, arguments,
    primary]

/-- The name of a rule in reports on a grammar. -/
def name : NonTerminal → String
  | program => "Program"
  | item => "Item"
  | indicatorDeclaration => "IndicatorDecl"
  | initializerList => "InitList"
  | statement => "Statement"
  | block => "Block"
  | declaration => "Declaration"
  | typeSpecifier => "TypeSpec"
  | declarator => "Declarator"
  | initializer => "Initializer"
  | furtherDeclarator => "DeclaratorTail"
  | ifStatement => "IfStmt"
  | elseClause => "ElseClause"
  | whileStatement => "WhileStmt"
  | forStatement => "ForStmt"
  | forInitializer => "ForInit"
  | returnStatement => "ReturnStmt"
  | breakStatement => "BreakStmt"
  | continueStatement => "ContinueStmt"
  | actionStatement => "ActionStmt"
  | actionCall => "ActionCall"
  | expressionStatement => "ExprStmt"
  | emptyStatement => "EmptyStmt"
  | expression => "Expression"
  | assignment => "AssignTail"
  | assignmentOperator => "AssignOp"
  | conditional => "Ternary"
  | conditionalBranches => "TernaryTail"
  | disjunction => "LogicalOr"
  | furtherDisjunct => "OrTail"
  | conjunction => "LogicalAnd"
  | furtherConjunct => "AndTail"
  | equality => "Equality"
  | furtherEquality => "EqualityTail"
  | equalityOperator => "EqualityOp"
  | comparison => "Relational"
  | furtherComparison => "RelationalTail"
  | comparisonOperator => "RelationalOp"
  | sum => "Additive"
  | furtherSummand => "AdditiveTail"
  | sumOperator => "AdditiveOp"
  | product => "Multiplicative"
  | furtherFactor => "MultiplicativeTail"
  | productOperator => "MultiplicativeOp"
  | unary => "Unary"
  | unaryOperator => "UnaryOp"
  | postfixed => "Postfix"
  | postfixOperator => "PostfixOp"
  | arguments => "Arguments"
  | primary => "Primary"

/-- The description of a phrase in messages. -/
def describe : NonTerminal → String
  | program => "program"
  | item => "declaration or statement"
  | indicatorDeclaration => "indicator declaration"
  | initializerList => "indicator arguments"
  | statement => "statement"
  | block => "block"
  | declaration => "declaration"
  | typeSpecifier => "type"
  | declarator => "variable name"
  | initializer => "initializer"
  | furtherDeclarator => "declarator"
  | ifStatement => "if statement"
  | elseClause => "else clause"
  | whileStatement => "while statement"
  | forStatement => "for statement"
  | forInitializer => "for initializer"
  | returnStatement => "return statement"
  | breakStatement => "break statement"
  | continueStatement => "continue statement"
  | actionStatement => "action statement"
  | actionCall => "'buy', 'sell' or 'do_nothing'"
  | expressionStatement => "expression statement"
  | emptyStatement => "';'"
  | assignmentOperator => "assignment operator"
  | equalityOperator => "'==' or '!='"
  | comparisonOperator => "comparison operator"
  | sumOperator => "'+' or '-'"
  | productOperator => "'*', '/' or '%'"
  | unaryOperator => "unary operator"
  | postfixOperator => "postfix operator"
  | arguments => "arguments"
  | _ => "expression"

instance : Listed NonTerminal where
  all := all
  index := NonTerminal.ctorIdx
  getElem?_index a := by cases a <;> rfl

end NonTerminal

end TradeScript
