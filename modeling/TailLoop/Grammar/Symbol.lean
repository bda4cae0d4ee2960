import TailLoop.Text.Basic

/-!
# Grammar symbols

The terminals of the language with the labels that messages give them, and the names of its
phrases.
-/

namespace TailLoop.Grammar

/-- The terminals: names, numbers and strings, the keywords, the signs, and the end of the input. -/
inductive Terminal where
  | name | number | string
  | function | var | if_ | else_ | for_ | in_ | of | while_ | do_ | return_ | continue_ | break_
  | true_ | false_ | null | typeof | void
  | leftParen | rightParen | leftBrace | rightBrace | leftBracket | rightBracket
  | semicolon | comma | colon | question | dot
  | equal | plusEqual | minusEqual | starEqual | slashEqual | percentEqual | shiftLeftEqual
  | shiftRightEqual | shiftRightZeroEqual | ampersandEqual | barEqual | caretEqual
  | barBar | ampersandAmpersand | bar | caret | ampersand
  | equalEqualEqual | bangEqualEqual | equalEqual | bangEqual
  | lessEqual | greaterEqual | less | greater
  | shiftRightZero | shiftLeft | shiftRight
  | plus | minus | star | slash | percent | bang | tilde | plusPlus | minusMinus
  | endOfInput
deriving DecidableEq

namespace Terminal

/-- The terminals that are spelled like names, with their label and spelling. -/
def keywordTable : List (Terminal × Text × Text) :=
  [(.function, "FUNCTION", "function"), (.var, "VAR", "var"), (.if_, "IF", "if"),
   (.else_, "ELSE", "else"), (.for_, "FOR", "for"), (.in_, "IN", "in"), (.of, "OF", "of"),
   (.while_, "WHILE", "while"), (.do_, "DO", "do"), (.return_, "RETURN", "return"),
   (.continue_, "CONTINUE", "continue"), (.break_, "BREAK", "break"), (.true_, "TRUE", "true"),
   (.false_, "FALSE", "false"), (.null, "NULL", "null"), (.typeof, "TYPEOF", "typeof"),
   (.void, "VOID", "void")]

/-- The brackets and separators, with their label and spelling. -/
def separatorTable : List (Terminal × Text × Text) :=
  [(.leftParen, "LPAR", "("), (.rightParen, "RPAR", ")"), (.leftBrace, "LBRACE", "\x7b"),
   (.rightBrace, "RBRACE", "\x7d"), (.leftBracket, "LSQB", "["), (.rightBracket, "RSQB", "]"),
   (.semicolon, "SEMICOLON", ";"), (.comma, "COMMA", ","), (.colon, "COLON", ":"),
   (.question, "QMARK", "?"), (.dot, "DOT", ".")]

/-- The signs of assignment, with their label and spelling. -/
def assignmentTable : List (Terminal × Text × Text) :=
  [(.equal, "EQUAL", "="), (.plusEqual, "__ANON_2", "+="), (.minusEqual, "__ANON_3", "-="),
   (.starEqual, "__ANON_4", "*="), (.slashEqual, "__ANON_5", "/="),
   (.percentEqual, "__ANON_6", "%="), (.shiftLeftEqual, "__ANON_7", "<<="),
   (.shiftRightEqual, "__ANON_8", ">>="), (.shiftRightZeroEqual, "__ANON_9", ">>>="),
   (.ampersandEqual, "__ANON_10", "&="), (.barEqual, "__ANON_11", "|="),
   (.caretEqual, "__ANON_12", "^=")]

/-- The signs of operators, with their label and spelling. -/
def operatorTable : List (Terminal × Text × Text) :=
  [(.barBar, "__ANON_0", "||"), (.ampersandAmpersand, "__ANON_1", "&&"), (.bar, "VBAR", "|"),
   (.caret, "CIRCUMFLEX", "^"), (.ampersand, "AMPERSAND", "&"),
   (.equalEqualEqual, "__ANON_13", "==="), (.bangEqualEqual, "__ANON_14", "!=="),
   (.equalEqual, "__ANON_15", "=="), (.bangEqual, "__ANON_16", "!="),
   (.lessEqual, "__ANON_17", "<="), (.greaterEqual, "__ANON_18", ">="), (.less, "LESSTHAN", "<"),
   (.greater, "MORETHAN", ">"),
   (.shiftRightZero, "__ANON_19", ">>>"), (.shiftLeft, "__ANON_20", "<<"),
   (.shiftRight, "__ANON_21", ">>"),
   (.plus, "PLUS", "+"), (.minus, "MINUS", "-"), (.star, "STAR", "*"), (.slash, "SLASH", "/"),
   (.percent, "PERCENT", "%"), (.bang, "BANG", "!"), (.tilde, "TILDE", "~"),
   (.plusPlus, "__ANON_22", "++"), (.minusMinus, "__ANON_23", "--")]

/-- The terminals that are always spelled the same, with their label and spelling. -/
def fixed : List (Terminal × Text × Text) :=
  keywordTable ++ separatorTable ++ assignmentTable ++ operatorTable

/-- The label of a terminal in messages. -/
def label : Terminal → Text
  | .name => "NAME"
  | .number => "NUMBER"
  | .string => "STRING"
  | .endOfInput => "$END"
  | t => ((fixed.lookup t).map (·.1)).getD []

/-- The spelling of a terminal that has only one. -/
def spelling (t : Terminal) : Text := ((fixed.lookup t).map (·.2)).getD []

/-- The terminals that are spelled like names. -/
def keywords : List Terminal := keywordTable.map (·.1)

/-- All terminals. -/
def all : List Terminal := [.name, .number, .string] ++ fixed.map (·.1) ++ [.endOfInput]

end Terminal

/-- The phrases. -/
inductive Phrase where
  | root | program | statement | functionDeclaration | params | block | variableStatement
  | declaratorList | declarator | emptyStatement | ifStatement | forStatement | forInit
  | forInStatement | forOfStatement | forBinding | whileStatement | doWhileStatement
  | returnStatement | continueStatement | breakStatement | labeledStatement
  | expressionStatement | statementExpr | statementAssignment | expression | assignmentExpr
  | functionExpression | conditionalExpr | logicalOrExpr | logicalAndExpr | bitwiseOrExpr
  | bitwiseXorExpr | bitwiseAndExpr | equalityExpr | relationalExpr | shiftExpr | additiveExpr
  | multiplicativeExpr | unaryExpr | postfixExpr | lhsExpr | arguments | primary
  | assignOp | equalityOp | relationalOp | shiftOp | additiveOp | multiplicativeOp | unaryOp
  | updateOp | statements | moreNames | moreDeclarators | moreExprs
deriving DecidableEq

namespace Phrase

/-- All phrases. -/
def all : List Phrase :=
  [.root, .program, .statement, .functionDeclaration, .params, .block, .variableStatement,
   .declaratorList, .declarator, .emptyStatement, .ifStatement, .forStatement, .forInit,
   .forInStatement, .forOfStatement, .forBinding, .whileStatement, .doWhileStatement,
   .returnStatement, .continueStatement, .breakStatement, .labeledStatement,
   .expressionStatement, .statementExpr, .statementAssignment, .expression, .assignmentExpr,
   .functionExpression, .conditionalExpr, .logicalOrExpr, .logicalAndExpr, .bitwiseOrExpr,
   .bitwiseXorExpr, .bitwiseAndExpr, .equalityExpr, .relationalExpr, .shiftExpr, .additiveExpr,
   .multiplicativeExpr, .unaryExpr, .postfixExpr, .lhsExpr, .arguments, .primary,
   .assignOp, .equalityOp, .relationalOp, .shiftOp, .additiveOp, .multiplicativeOp, .unaryOp,
   .updateOp, .statements, .moreNames, .moreDeclarators, .moreExprs]

end Phrase

/-- A symbol of a production: a terminal or a phrase. -/
inductive Symbol where
  | terminal (t : Terminal)
  | phrase (p : Phrase)
deriving DecidableEq

end TailLoop.Grammar
