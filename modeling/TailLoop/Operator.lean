import TailLoop.Text.Basic

/-!
# Operators

The operators of the language with their spellings. A binary operator also has a precedence, which
the printer needs to place parentheses.
-/

namespace TailLoop

/-- How tightly an expression holds together, from a comma sequence up to a name. -/
abbrev Precedence := Nat

namespace Precedence

def sequence : Precedence := 0
def assignment : Precedence := 1
def conditional : Precedence := 2
def logicalOr : Precedence := 3
def logicalAnd : Precedence := 4
def bitwiseOr : Precedence := 5
def bitwiseXor : Precedence := 6
def bitwiseAnd : Precedence := 7
def equality : Precedence := 8
def relational : Precedence := 9
def shift : Precedence := 10
def additive : Precedence := 11
def multiplicative : Precedence := 12
def unary : Precedence := 13
def update : Precedence := 14
def call : Precedence := 15
def primary : Precedence := 16

end Precedence

/-- The operators that compute a value from the values of both operands. -/
inductive BinaryOperator where
  | looseEqual | looseUnequal | strictEqual | strictUnequal
  | less | lessOrEqual | greater | greaterOrEqual
  | shiftLeft | shiftRight | shiftRightUnsigned
  | add | subtract | multiply | divide | remainder
  | bitOr | bitXor | bitAnd
deriving DecidableEq

namespace BinaryOperator

/-- The binary operators with their spellings and precedences. -/
def table : List (BinaryOperator × Text × Precedence) :=
  [(.looseEqual, "==", .equality), (.looseUnequal, "!=", .equality),
   (.strictEqual, "===", .equality), (.strictUnequal, "!==", .equality),
   (.less, "<", .relational), (.lessOrEqual, "<=", .relational),
   (.greater, ">", .relational), (.greaterOrEqual, ">=", .relational),
   (.shiftLeft, "<<", .shift), (.shiftRight, ">>", .shift),
   (.shiftRightUnsigned, ">>>", .shift), (.add, "+", .additive), (.subtract, "-", .additive),
   (.multiply, "*", .multiplicative), (.divide, "/", .multiplicative),
   (.remainder, "%", .multiplicative), (.bitOr, "|", .bitwiseOr), (.bitXor, "^", .bitwiseXor),
   (.bitAnd, "&", .bitwiseAnd)]

/-- The operator of a spelling. -/
def ofText? (t : Text) : Option BinaryOperator := (table.find? (·.2.1 == t)).map (·.1)

end BinaryOperator

/-- The operators that evaluate the second operand only if the first does not decide. -/
inductive LogicalOperator where
  | or | and
deriving DecidableEq

namespace LogicalOperator

/-- The logical operators with their spellings and precedences. -/
def table : List (LogicalOperator × Text × Precedence) :=
  [(.or, "||", .logicalOr), (.and, "&&", .logicalAnd)]

/-- The operator of a spelling. -/
def ofText? (t : Text) : Option LogicalOperator := (table.find? (·.2.1 == t)).map (·.1)

end LogicalOperator

/-- The operators on one operand that leave it alone. -/
inductive UnaryOperator where
  | negate | plus | not | complement | typeOf | void
deriving DecidableEq

namespace UnaryOperator

/-- The unary operators with their spellings. -/
def table : List (UnaryOperator × Text) :=
  [(.negate, "-"), (.plus, "+"), (.not, "!"), (.complement, "~"), (.typeOf, "typeof"),
   (.void, "void")]

/-- The operator of a spelling. -/
def ofText? (t : Text) : Option UnaryOperator := (table.find? (·.2 == t)).map (·.1)

end UnaryOperator

/-- The operators that change a variable or member by one. -/
inductive UpdateOperator where
  | increment | decrement
deriving DecidableEq

namespace UpdateOperator

/-- The update operators with their spellings. -/
def table : List (UpdateOperator × Text) := [(.increment, "++"), (.decrement, "--")]

/-- The operator of a spelling. -/
def ofText? (t : Text) : Option UpdateOperator := (table.find? (·.2 == t)).map (·.1)

end UpdateOperator

/-- The spelling of plain assignment. -/
def plainAssignment : Text := "="

/-- The operators with which an assignment can be compounded. -/
def compoundOperators : List BinaryOperator :=
  [.add, .subtract, .multiply, .divide, .remainder, .shiftLeft, .shiftRight, .shiftRightUnsigned,
   .bitAnd, .bitOr, .bitXor]

/-- The spellings of all assignments: the plain one, and each compound operator before `=`. -/
def assignmentSpellings : List Text :=
  plainAssignment ::
    (BinaryOperator.table.filter (compoundOperators.contains ·.1)).map (·.2.1 ++ plainAssignment)

/-- The precedence of a binary or logical operator by its spelling. -/
def infixPrecedence? (t : Text) : Option Precedence :=
  ((BinaryOperator.table.map (·.2)) ++ LogicalOperator.table.map (·.2)).lookup t

end TailLoop
