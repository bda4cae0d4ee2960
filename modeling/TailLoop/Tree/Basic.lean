import TailLoop.Double.Basic
import TailLoop.Location

/-!
# Syntax trees

A tree is a syntax node of a JavaScript program or one of the plain values that nodes hold in their
fields. Any field can hold any tree: which trees are programs is a question of validity, not of the
type. The form of a node, `Shape`, is a functor in its fields, so that functions on nodes can be
written once for the trees below and for what has been computed from them.
-/

namespace TailLoop

/-- The two forms of a function node. -/
inductive FunctionForm where
  /-- A statement that binds a name. -/
  | declaration
  /-- An expression, with or without a name. -/
  | expression
deriving DecidableEq

/-- What a loop over a collection takes from it. -/
inductive Domain where
  /-- The keys, as `in` does. -/
  | keys
  /-- The values, as `of` does. -/
  | values
deriving DecidableEq

/-- The two jumps out of a statement. -/
inductive JumpKind where
  /-- Leaves the target. -/
  | breaks
  /-- Goes on with the next pass of the target loop. -/
  | continues
deriving DecidableEq

/-- The form of a node with fields of type `α`, in the order in which they are declared. -/
inductive Shape (α : Type) where
  | program (body : α)
  | function (form : FunctionForm) (id params body : α)
  | returnStatement (argument : α)
  | block (body : α)
  | variableDeclaration (declarations kind : α)
  | variableDeclarator (id init : α)
  | ifStatement (test consequent alternate : α)
  | forStatement (init test step body : α)
  | forEach (domain : Domain) (left right body : α)
  | whileStatement (test body : α)
  | doWhileStatement (body test : α)
  | expressionStatement (expression : α)
  | emptyStatement
  | jump (kind : JumpKind) (label : α)
  | labeled (label body : α)
  | identifier (name : α)
  | literal (value : α)
  | array (elements : α)
  | call (callee arguments : α)
  | member (object property computed : α)
  | conditional (test consequent alternate : α)
  | assignment (operator left right : α)
  | sequence (expressions : α)
  | binary (operator left right : α)
  | logical (operator left right : α)
  | unary (operator argument isPrefix : α)
  | update (operator argument isPrefix : α)
  /-- A kind without a form of its own: its name and its children, each with a name. -/
  | generic (kind : α) (children : List (Text × α))

/-- A syntax tree. -/
inductive Tree where
  /-- The absent value. -/
  | null
  | bool (value : Bool)
  /-- An integer that is no number of a program: one in a table, or a part of a location. -/
  | int (value : Int)
  | num (value : Double)
  | text (value : Text)
  /-- A location, as looking at that of a node gives it. -/
  | place (location : Location)
  /-- A fixed row of trees, as fields that hold several nodes have it. -/
  | tuple (items : List Tree)
  /-- A changeable list, which no field of a valid tree holds. -/
  | list (items : List Tree)
  /-- A table with named entries, which no field of a valid tree holds. -/
  | dict (entries : List (Text × Tree))
  /-- A syntax node and where it was read; generated nodes have no location. -/
  | node (location : Option Location) (shape : Shape Tree)

instance : Inhabited Tree := ⟨.null⟩

/-- The kinds of nodes. -/
inductive Kind where
  | program | functionDeclaration | functionExpression | returnStatement | blockStatement
  | variableDeclaration | variableDeclarator | ifStatement | forStatement | forInStatement
  | forOfStatement | whileStatement | doWhileStatement | expressionStatement | emptyStatement
  | continueStatement | breakStatement | labeledStatement | identifier | literal
  | arrayExpression | callExpression | memberExpression | conditionalExpression
  | assignmentExpression | sequenceExpression | binaryExpression | logicalExpression
  | unaryExpression | updateExpression | generic
deriving DecidableEq

namespace Kind

/-- All kinds with their names. -/
def table : List (Kind × Text) :=
  [(.program, "Program"), (.functionDeclaration, "FunctionDeclaration"),
   (.functionExpression, "FunctionExpression"), (.returnStatement, "ReturnStatement"),
   (.blockStatement, "BlockStatement"), (.variableDeclaration, "VariableDeclaration"),
   (.variableDeclarator, "VariableDeclarator"), (.ifStatement, "IfStatement"),
   (.forStatement, "ForStatement"), (.forInStatement, "ForInStatement"),
   (.forOfStatement, "ForOfStatement"), (.whileStatement, "WhileStatement"),
   (.doWhileStatement, "DoWhileStatement"), (.expressionStatement, "ExpressionStatement"),
   (.emptyStatement, "EmptyStatement"), (.continueStatement, "ContinueStatement"),
   (.breakStatement, "BreakStatement"), (.labeledStatement, "LabeledStatement"),
   (.identifier, "Identifier"), (.literal, "Literal"), (.arrayExpression, "ArrayExpression"),
   (.callExpression, "CallExpression"), (.memberExpression, "MemberExpression"),
   (.conditionalExpression, "ConditionalExpression"),
   (.assignmentExpression, "AssignmentExpression"), (.sequenceExpression, "SequenceExpression"),
   (.binaryExpression, "BinaryExpression"), (.logicalExpression, "LogicalExpression"),
   (.unaryExpression, "UnaryExpression"), (.updateExpression, "UpdateExpression"),
   (.generic, "Generic")]

/-- The name of a kind. -/
def name (k : Kind) : Text := ((table.find? (·.1 == k)).map (·.2)).getD []

/-- The kind of a name. -/
def ofName? (n : Text) : Option Kind := (table.find? (·.2 == n)).map (·.1)

/-- The name that messages give to nodes of a kind. -/
def className (k : Kind) : Text := if k = .generic then "GenericNode" else k.name

/-- The kinds that are expressions. -/
def isExpression : Kind → Bool
  | .identifier | .literal | .arrayExpression | .callExpression | .memberExpression
  | .conditionalExpression | .assignmentExpression | .sequenceExpression | .binaryExpression
  | .logicalExpression | .unaryExpression | .updateExpression | .functionExpression => true
  | _ => false

/-- The kinds that are statements. A program and a declarator are neither statement nor
expression. -/
def isStatement : Kind → Bool
  | .functionDeclaration | .blockStatement | .returnStatement | .variableDeclaration
  | .ifStatement | .forStatement | .forInStatement | .forOfStatement | .whileStatement
  | .doWhileStatement | .expressionStatement | .emptyStatement | .continueStatement
  | .breakStatement | .labeledStatement => true
  | _ => false

/-- The kinds that are loops. -/
def isLoop : Kind → Bool
  | .forStatement | .forInStatement | .forOfStatement | .whileStatement | .doWhileStatement => true
  | _ => false

end Kind

namespace Shape

/-- The kind of a node of this form. -/
def kind {α : Type} : Shape α → Kind
  | .program _ => .program
  | .function .declaration .. => .functionDeclaration
  | .function .expression .. => .functionExpression
  | .returnStatement _ => .returnStatement
  | .block _ => .blockStatement
  | .variableDeclaration .. => .variableDeclaration
  | .variableDeclarator .. => .variableDeclarator
  | .ifStatement .. => .ifStatement
  | .forStatement .. => .forStatement
  | .forEach .keys .. => .forInStatement
  | .forEach .values .. => .forOfStatement
  | .whileStatement .. => .whileStatement
  | .doWhileStatement .. => .doWhileStatement
  | .expressionStatement _ => .expressionStatement
  | .emptyStatement => .emptyStatement
  | .jump .continues _ => .continueStatement
  | .jump .breaks _ => .breakStatement
  | .labeled .. => .labeledStatement
  | .identifier _ => .identifier
  | .literal _ => .literal
  | .array _ => .arrayExpression
  | .call .. => .callExpression
  | .member .. => .memberExpression
  | .conditional .. => .conditionalExpression
  | .assignment .. => .assignmentExpression
  | .sequence _ => .sequenceExpression
  | .binary .. => .binaryExpression
  | .logical .. => .logicalExpression
  | .unary .. => .unaryExpression
  | .update .. => .updateExpression
  | .generic .. => .generic

/-- The children of a node with their names, in order. -/
def children {α : Type} : Shape α → List (Text × α)
  | .program body => [("body", body)]
  | .function _ id params body => [("id", id), ("params", params), ("body", body)]
  | .returnStatement argument => [("argument", argument)]
  | .block body => [("body", body)]
  | .variableDeclaration declarations kind => [("declarations", declarations), ("kind", kind)]
  | .variableDeclarator id init => [("id", id), ("init", init)]
  | .ifStatement test consequent alternate =>
    [("test", test), ("consequent", consequent), ("alternate", alternate)]
  | .forStatement init test step body =>
    [("init", init), ("test", test), ("update", step), ("body", body)]
  | .forEach _ left right body => [("left", left), ("right", right), ("body", body)]
  | .whileStatement test body => [("test", test), ("body", body)]
  | .doWhileStatement body test => [("body", body), ("test", test)]
  | .expressionStatement expression => [("expression", expression)]
  | .emptyStatement => []
  | .jump _ label => [("label", label)]
  | .labeled label body => [("label", label), ("body", body)]
  | .identifier name => [("name", name)]
  | .literal value => [("value", value)]
  | .array elements => [("elements", elements)]
  | .call callee arguments => [("callee", callee), ("arguments", arguments)]
  | .member object property computed =>
    [("object", object), ("property", property), ("computed", computed)]
  | .conditional test consequent alternate =>
    [("test", test), ("consequent", consequent), ("alternate", alternate)]
  | .assignment operator left right => [("operator", operator), ("left", left), ("right", right)]
  | .sequence expressions => [("expressions", expressions)]
  | .binary operator left right => [("operator", operator), ("left", left), ("right", right)]
  | .logical operator left right => [("operator", operator), ("left", left), ("right", right)]
  | .unary operator argument isPrefix =>
    [("operator", operator), ("argument", argument), ("prefix", isPrefix)]
  | .update operator argument isPrefix =>
    [("operator", operator), ("argument", argument), ("prefix", isPrefix)]
  | .generic _ children => children

/-- The form with `f` applied to every field. -/
def map {α β : Type} (f : α → β) : Shape α → Shape β
  | .program body => .program (f body)
  | .function form id params body => .function form (f id) (f params) (f body)
  | .returnStatement argument => .returnStatement (f argument)
  | .block body => .block (f body)
  | .variableDeclaration declarations kind => .variableDeclaration (f declarations) (f kind)
  | .variableDeclarator id init => .variableDeclarator (f id) (f init)
  | .ifStatement test consequent alternate =>
    .ifStatement (f test) (f consequent) (f alternate)
  | .forStatement init test step body => .forStatement (f init) (f test) (f step) (f body)
  | .forEach domain left right body => .forEach domain (f left) (f right) (f body)
  | .whileStatement test body => .whileStatement (f test) (f body)
  | .doWhileStatement body test => .doWhileStatement (f body) (f test)
  | .expressionStatement expression => .expressionStatement (f expression)
  | .emptyStatement => .emptyStatement
  | .jump kind label => .jump kind (f label)
  | .labeled label body => .labeled (f label) (f body)
  | .identifier name => .identifier (f name)
  | .literal value => .literal (f value)
  | .array elements => .array (f elements)
  | .call callee arguments => .call (f callee) (f arguments)
  | .member object property computed => .member (f object) (f property) (f computed)
  | .conditional test consequent alternate =>
    .conditional (f test) (f consequent) (f alternate)
  | .assignment operator left right => .assignment (f operator) (f left) (f right)
  | .sequence expressions => .sequence (f expressions)
  | .binary operator left right => .binary (f operator) (f left) (f right)
  | .logical operator left right => .logical (f operator) (f left) (f right)
  | .unary operator argument isPrefix => .unary (f operator) (f argument) (f isPrefix)
  | .update operator argument isPrefix => .update (f operator) (f argument) (f isPrefix)
  | .generic kind children => .generic (f kind) (children.map fun c => (c.1, f c.2))

end Shape

namespace Tree

/-- The kind of a node; plain values have none. -/
def kind? : Tree → Option Kind
  | .node _ shape => some shape.kind
  | _ => none

/-- The location of a node, if it has one. -/
def location? : Tree → Option Location
  | .node location _ => location
  | _ => none

/-- Whether the tree is a syntax node. -/
def isNode : Tree → Bool
  | .node .. => true
  | _ => false

/-- Whether the tree is a node of the given kind. -/
def hasKind (t : Tree) (k : Kind) : Bool := t.kind? == some k

/-- Whether the tree is an expression node. -/
def isExpression (t : Tree) : Bool := t.kind?.any Kind.isExpression

/-- Whether the tree is a statement node. -/
def isStatement (t : Tree) : Bool := t.kind?.any Kind.isStatement

/-- The word for what a tree is, as messages use it. -/
def typeName : Tree → Text
  | .null => "NoneType"
  | .bool _ => "bool"
  | .int _ => "int"
  | .num _ => "float"
  | .text _ => "str"
  | .place _ => "SourceLocation"
  | .tuple _ => "tuple"
  | .list _ => "list"
  | .dict _ => "dict"
  | .node _ shape => shape.kind.className

end Tree

end TailLoop
