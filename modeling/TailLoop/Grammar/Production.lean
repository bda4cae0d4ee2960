import TailLoop.Grammar.Part

/-!
# The grammar

The productions of the language: function-scoped variables, no objects, semicolons required.
Function expressions only appear where a full assignment expression is expected, and an expression
statement cannot start with `function`, so a leading `function` is always a declaration.
-/

namespace TailLoop.Grammar

/-- A production: a phrase, the symbols it is made of, and the rule for its content. -/
structure Production where
  /-- The phrase. -/
  phrase : Phrase
  /-- Its symbols, in order. -/
  symbols : List Symbol
  /-- How its content is made. -/
  rule : Rule

instance : Coe Terminal Symbol := ⟨.terminal⟩
instance : Coe Phrase Symbol := ⟨.phrase⟩

open Rule

/-- A phrase that is another one. -/
def isA (p : Phrase) (q : Phrase) : Production := ⟨p, [q], .keep 0⟩

/-- A phrase made of the given symbols by the given rule. -/
def derive (p : Phrase) (symbols : List Symbol) (rule : Rule) : Production := ⟨p, symbols, rule⟩

/-- A declaration of variables. -/
def declared (declarators : Tree) : Shape Tree :=
  .variableDeclaration declarators (.text Tree.varKind)

/-- The absent tree. -/
def absent : Tree := .null

/-- A row without trees. -/
def emptyRow : Tree := .tuple []

open Terminal in
/-- Programs, functions and declarations. -/
def structureProductions : List Production :=
  [derive .root [Phrase.program] (.keep 0),
   derive .program [Phrase.statements] (make "program" fun ps => .program (ps.row 0)),
   derive .program [] (make "program" fun _ => .program emptyRow),
   derive .statements [Phrase.statement] (gather fun ps => [ps.tree 0]),
   derive .statements [Phrase.statements, Phrase.statement]
     (gather fun ps => ps.trees 0 ++ [ps.tree 1]),
   derive .functionDeclaration
     [function, name, leftParen, Phrase.params, rightParen, Phrase.block]
     (make "function_declaration" fun ps =>
       .function .declaration (ps.name 1) (ps.row 3) (ps.tree 5)),
   derive .functionDeclaration [function, name, leftParen, rightParen, Phrase.block]
     (make "function_declaration" fun ps =>
       .function .declaration (ps.name 1) emptyRow (ps.tree 4)),
   derive .params [name, Phrase.moreNames] (gather fun ps => ps.name 0 :: ps.trees 1),
   derive .params [name] (gather fun ps => [ps.name 0]),
   derive .moreNames [comma, name] (gather fun ps => [ps.name 1]),
   derive .moreNames [Phrase.moreNames, comma, name] (gather fun ps => ps.trees 0 ++ [ps.name 2]),
   derive .block [leftBrace, Phrase.statements, rightBrace]
     (make "block" fun ps => .block (ps.row 1)),
   derive .block [leftBrace, rightBrace] (make "block" fun _ => .block emptyRow),
   derive .variableStatement [var, Phrase.declaratorList, semicolon]
     (make "variable_statement" fun ps => declared (ps.row 1)),
   derive .declaratorList [Phrase.declarator, Phrase.moreDeclarators]
     (gather fun ps => ps.tree 0 :: ps.trees 1),
   derive .declaratorList [Phrase.declarator] (gather fun ps => [ps.tree 0]),
   derive .moreDeclarators [comma, Phrase.declarator] (gather fun ps => [ps.tree 1]),
   derive .moreDeclarators [Phrase.moreDeclarators, comma, Phrase.declarator]
     (gather fun ps => ps.trees 0 ++ [ps.tree 2]),
   derive .declarator [name, equal, Phrase.assignmentExpr]
     (make "declarator" fun ps => .variableDeclarator (ps.name 0) (ps.tree 2)),
   derive .declarator [name]
     (make "declarator" fun ps => .variableDeclarator (ps.name 0) absent)]

/-- The kinds of statements. -/
def statementProductions : List Production :=
  [isA .statement .functionDeclaration, isA .statement .variableStatement,
   isA .statement .block, isA .statement .emptyStatement, isA .statement .ifStatement,
   isA .statement .forStatement, isA .statement .forInStatement,
   isA .statement .forOfStatement, isA .statement .whileStatement,
   isA .statement .doWhileStatement, isA .statement .returnStatement,
   isA .statement .continueStatement, isA .statement .breakStatement,
   isA .statement .labeledStatement, isA .statement .expressionStatement]

open Terminal in
/-- Conditions and loops. -/
def controlProductions : List Production :=
  [derive .ifStatement
     [if_, leftParen, Phrase.expression, rightParen, Phrase.statement, else_, Phrase.statement]
     (make "if_statement" fun ps => .ifStatement (ps.tree 2) (ps.tree 4) (ps.tree 6)),
   derive .ifStatement [if_, leftParen, Phrase.expression, rightParen, Phrase.statement]
     (make "if_statement" fun ps => .ifStatement (ps.tree 2) (ps.tree 4) absent),
   derive .forStatement
     [for_, leftParen, Phrase.forInit, semicolon, Phrase.expression, semicolon,
      Phrase.expression, rightParen, Phrase.statement]
     (make "for_statement" fun ps =>
       .forStatement (ps.tree 2) (ps.tree 4) (ps.tree 6) (ps.tree 8)),
   derive .forStatement
     [for_, leftParen, Phrase.forInit, semicolon, Phrase.expression, semicolon, rightParen,
      Phrase.statement]
     (make "for_statement" fun ps => .forStatement (ps.tree 2) (ps.tree 4) absent (ps.tree 7)),
   derive .forStatement
     [for_, leftParen, Phrase.forInit, semicolon, semicolon, Phrase.expression, rightParen,
      Phrase.statement]
     (make "for_statement" fun ps => .forStatement (ps.tree 2) absent (ps.tree 5) (ps.tree 7)),
   derive .forStatement
     [for_, leftParen, Phrase.forInit, semicolon, semicolon, rightParen, Phrase.statement]
     (make "for_statement" fun ps => .forStatement (ps.tree 2) absent absent (ps.tree 6)),
   derive .forStatement
     [for_, leftParen, semicolon, Phrase.expression, semicolon, Phrase.expression, rightParen,
      Phrase.statement]
     (make "for_statement" fun ps => .forStatement absent (ps.tree 3) (ps.tree 5) (ps.tree 7)),
   derive .forStatement
     [for_, leftParen, semicolon, Phrase.expression, semicolon, rightParen, Phrase.statement]
     (make "for_statement" fun ps => .forStatement absent (ps.tree 3) absent (ps.tree 6)),
   derive .forStatement
     [for_, leftParen, semicolon, semicolon, Phrase.expression, rightParen, Phrase.statement]
     (make "for_statement" fun ps => .forStatement absent absent (ps.tree 4) (ps.tree 6)),
   derive .forStatement [for_, leftParen, semicolon, semicolon, rightParen, Phrase.statement]
     (make "for_statement" fun ps => .forStatement absent absent absent (ps.tree 5)),
   derive .forInit [var, Phrase.declaratorList]
     (make "var_init" fun ps => declared (ps.row 1)),
   isA .forInit .expression,
   derive .forInStatement
     [for_, leftParen, Phrase.forBinding, in_, Phrase.expression, rightParen, Phrase.statement]
     (makeForEach "for_in_statement" .keys),
   derive .forOfStatement
     [for_, leftParen, Phrase.forBinding, of, Phrase.assignmentExpr, rightParen,
      Phrase.statement]
     (makeForEach "for_of_statement" .values),
   derive .forBinding [var, name]
     (make "var_binding" fun ps =>
       declared (.tuple [ps.nodeAt 1 (.variableDeclarator (ps.name 1) absent)])),
   isA .forBinding .lhsExpr,
   derive .whileStatement
     [while_, leftParen, Phrase.expression, rightParen, Phrase.statement]
     (make "while_statement" fun ps => .whileStatement (ps.tree 2) (ps.tree 4)),
   derive .doWhileStatement
     [do_, Phrase.statement, while_, leftParen, Phrase.expression, rightParen, semicolon]
     (make "do_while_statement" fun ps => .doWhileStatement (ps.tree 1) (ps.tree 4))]

open Terminal in
/-- Jumps, labels and expression statements. -/
def simpleProductions : List Production :=
  [derive .emptyStatement [semicolon] (make "empty_statement" fun _ => .emptyStatement),
   derive .returnStatement [return_, Phrase.expression, semicolon]
     (make "return_statement" fun ps => .returnStatement (ps.tree 1)),
   derive .returnStatement [return_, semicolon]
     (make "return_statement" fun _ => .returnStatement absent),
   derive .continueStatement [continue_, name, semicolon]
     (make "continue_statement" fun ps => .jump .continues (ps.name 1)),
   derive .continueStatement [continue_, semicolon]
     (make "continue_statement" fun _ => .jump .continues absent),
   derive .breakStatement [break_, name, semicolon]
     (make "break_statement" fun ps => .jump .breaks (ps.name 1)),
   derive .breakStatement [break_, semicolon]
     (make "break_statement" fun _ => .jump .breaks absent),
   derive .labeledStatement [name, colon, Phrase.statement]
     (make "labeled_statement" fun ps => .labeled (ps.name 0) (ps.tree 2)),
   derive .expressionStatement [Phrase.statementExpr, semicolon]
     (make "expression_statement" fun ps => .expressionStatement (ps.tree 0)),
   isA .statementExpr .statementAssignment,
   derive .statementExpr [Phrase.statementAssignment, Phrase.moreExprs]
     (make "sequence" fun ps => .sequence (.tuple (ps.tree 0 :: ps.trees 1))),
   isA .statementAssignment .conditionalExpr,
   derive .statementAssignment [Phrase.unaryExpr, Phrase.assignOp, Phrase.assignmentExpr]
     (makeChecked "assignment" 0 (fun _ => "assignment") fun ps =>
       .assignment (ps.operator 1) (ps.tree 0) (ps.tree 2)),
   derive .moreExprs [comma, Phrase.assignmentExpr] (gather fun ps => [ps.tree 1]),
   derive .moreExprs [Phrase.moreExprs, comma, Phrase.assignmentExpr]
     (gather fun ps => ps.trees 0 ++ [ps.tree 2])]

/-- A phrase of two operands of binary operators, whose sign is the given symbol. -/
def operands (p q : Phrase) (sign : Symbol) (rule : Rule) : List Production :=
  [isA p q, ⟨p, [p, sign, q], rule⟩]

/-- A binary operator of a fixed sign. -/
def fixedBinary (rule sign : Text) : Rule :=
  make rule fun ps => .binary (.text sign) (ps.tree 0) (ps.tree 2)

/-- A logical operator of a fixed sign. -/
def fixedLogical (rule sign : Text) : Rule :=
  make rule fun ps => .logical (.text sign) (ps.tree 0) (ps.tree 2)

/-- A binary operator whose sign is one of several. -/
def anyBinary : Rule := make "binary" fun ps => .binary (ps.operator 1) (ps.tree 0) (ps.tree 2)

/-- Binary operators from the loosest to the tightest. -/
def binaryProductions : List Production :=
  operands .logicalOrExpr .logicalAndExpr Terminal.barBar (fixedLogical "logical_or" "||") ++
  operands .logicalAndExpr .bitwiseOrExpr Terminal.ampersandAmpersand
    (fixedLogical "logical_and" "&&") ++
  operands .bitwiseOrExpr .bitwiseXorExpr Terminal.bar (fixedBinary "bitwise_or" "|") ++
  operands .bitwiseXorExpr .bitwiseAndExpr Terminal.caret (fixedBinary "bitwise_xor" "^") ++
  operands .bitwiseAndExpr .equalityExpr Terminal.ampersand (fixedBinary "bitwise_and" "&") ++
  operands .equalityExpr .relationalExpr Phrase.equalityOp anyBinary ++
  operands .relationalExpr .shiftExpr Phrase.relationalOp anyBinary ++
  operands .shiftExpr .additiveExpr Phrase.shiftOp anyBinary ++
  operands .additiveExpr .multiplicativeExpr Phrase.additiveOp anyBinary ++
  operands .multiplicativeExpr .unaryExpr Phrase.multiplicativeOp anyBinary

open Terminal in
/-- Expressions other than binary operators. -/
def expressionProductions : List Production :=
  [isA .expression .assignmentExpr,
   derive .expression [Phrase.assignmentExpr, Phrase.moreExprs]
     (make "sequence" fun ps => .sequence (.tuple (ps.tree 0 :: ps.trees 1))),
   isA .assignmentExpr .conditionalExpr,
   isA .assignmentExpr .functionExpression,
   derive .assignmentExpr [Phrase.unaryExpr, Phrase.assignOp, Phrase.assignmentExpr]
     (makeChecked "assignment" 0 (fun _ => "assignment") fun ps =>
       .assignment (ps.operator 1) (ps.tree 0) (ps.tree 2)),
   derive .functionExpression
     [function, name, leftParen, Phrase.params, rightParen, Phrase.block]
     (make "function_expression" fun ps =>
       .function .expression (ps.name 1) (ps.row 3) (ps.tree 5)),
   derive .functionExpression [function, name, leftParen, rightParen, Phrase.block]
     (make "function_expression" fun ps =>
       .function .expression (ps.name 1) emptyRow (ps.tree 4)),
   derive .functionExpression [function, leftParen, Phrase.params, rightParen, Phrase.block]
     (make "function_expression" fun ps =>
       .function .expression absent (ps.row 2) (ps.tree 4)),
   derive .functionExpression [function, leftParen, rightParen, Phrase.block]
     (make "function_expression" fun ps =>
       .function .expression absent emptyRow (ps.tree 3)),
   isA .conditionalExpr .logicalOrExpr,
   derive .conditionalExpr
     [Phrase.logicalOrExpr, question, Phrase.assignmentExpr, colon, Phrase.assignmentExpr]
     (make "conditional" fun ps => .conditional (ps.tree 0) (ps.tree 2) (ps.tree 4)),
   isA .unaryExpr .postfixExpr,
   derive .unaryExpr [Phrase.unaryOp, Phrase.unaryExpr]
     (make "unary" fun ps => .unary (ps.operator 0) (ps.tree 1) (.bool true)),
   derive .unaryExpr [Phrase.updateOp, Phrase.unaryExpr]
     (makeChecked "prefix_update" 1 (fun ps => "'" ++ ps.text 0 ++ "'") fun ps =>
       .update (ps.operator 0) (ps.tree 1) (.bool true)),
   isA .postfixExpr .lhsExpr,
   derive .postfixExpr [Phrase.lhsExpr, Phrase.updateOp]
     (makeChecked "postfix_update" 0 (fun ps => "'" ++ ps.text 1 ++ "'") fun ps =>
       .update (ps.operator 1) (ps.tree 0) (.bool false)),
   isA .lhsExpr .primary,
   derive .lhsExpr [Phrase.lhsExpr, dot, name]
     (make "member" fun ps => .member (ps.tree 0) (ps.name 2) (.bool false)),
   derive .lhsExpr [Phrase.lhsExpr, leftBracket, Phrase.expression, rightBracket]
     (make "computed_member" fun ps => .member (ps.tree 0) (ps.tree 2) (.bool true)),
   derive .lhsExpr [Phrase.lhsExpr, leftParen, Phrase.arguments, rightParen]
     (make "call" fun ps => .call (ps.tree 0) (ps.row 2)),
   derive .lhsExpr [Phrase.lhsExpr, leftParen, rightParen]
     (make "call" fun ps => .call (ps.tree 0) emptyRow),
   derive .arguments [Phrase.assignmentExpr, Phrase.moreExprs]
     (gather fun ps => ps.tree 0 :: ps.trees 1),
   derive .arguments [Phrase.assignmentExpr] (gather fun ps => [ps.tree 0])]

/-- The content of a number token. -/
def numberContent (ps : Parts) : Except Refusal Content :=
  match Literal.number (ps.text 0) with
  | .ok d => .ok (.tree (ps.nodeAt 0 (.literal (.num d))))
  | .error _ => .error .numberTooLarge

open Terminal in
/-- The simplest expressions. -/
def primaryProductions : List Production :=
  [derive .primary [name] (.plain fun ps => .ok (.tree (ps.name 0))),
   derive .primary [number] (.plain numberContent),
   derive .primary [string]
     (.plain fun ps => .ok (.tree (ps.nodeAt 0 (.literal (.text (Literal.unquote (ps.text 0))))))),
   derive .primary [true_] (make "true_literal" fun _ => .literal (.bool true)),
   derive .primary [false_] (make "false_literal" fun _ => .literal (.bool false)),
   derive .primary [null] (make "null_literal" fun _ => .literal absent),
   derive .primary [leftBracket, Phrase.arguments, rightBracket]
     (make "array" fun ps => .array (ps.row 1)),
   derive .primary [leftBracket, rightBracket] (make "array" fun _ => .array emptyRow),
   derive .primary [leftParen, Phrase.expression, rightParen] (.keep 1)]

/-- A phrase that is one of several signs. -/
def oneOf (p : Phrase) (signs : List Terminal) : List Production :=
  signs.map fun sign => ⟨p, [.terminal sign], .keep 0⟩

/-- The signs of operators. -/
def signProductions : List Production :=
  oneOf .assignOp
    [.equal, .plusEqual, .minusEqual, .starEqual, .slashEqual, .percentEqual, .shiftLeftEqual,
     .shiftRightEqual, .shiftRightZeroEqual, .ampersandEqual, .barEqual, .caretEqual] ++
  oneOf .equalityOp [.equalEqualEqual, .bangEqualEqual, .equalEqual, .bangEqual] ++
  oneOf .relationalOp [.lessEqual, .greaterEqual, .less, .greater] ++
  oneOf .shiftOp [.shiftRightZero, .shiftLeft, .shiftRight] ++
  oneOf .additiveOp [.plus, .minus] ++
  oneOf .multiplicativeOp [.star, .slash, .percent] ++
  oneOf .unaryOp [.bang, .tilde, .plus, .minus, .typeof, .void] ++
  oneOf .updateOp [.plusPlus, .minusMinus]

/-- All productions; the first one is that of the root. -/
def productions : List Production :=
  structureProductions ++ statementProductions ++ controlProductions ++ simpleProductions ++
    binaryProductions ++ expressionProductions ++ primaryProductions ++ signProductions

end TailLoop.Grammar
