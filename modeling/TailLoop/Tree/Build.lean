import TailLoop.Tree.Access

/-!
# Building trees

The small trees that generated code is made of: identifiers, assignments and declarations, one by
one or for a list of names at once. None of them has a location. A node of any kind is built from
its fields by name.
-/

namespace TailLoop

namespace Tree

/-- The name that stands for the undefined value. -/
def undefinedName : Text := "undefined"

/-- The text of the directive that makes code strict. -/
def strictDirective : Text := "use strict"

/-- The only kind of variable declaration. -/
def varKind : Text := "var"

/-- A node without location. -/
def new (shape : Shape Tree) : Tree := .node none shape

/-- An identifier. -/
def identifier (name : Text) : Tree := new (.identifier (.text name))

/-- The identifier of the undefined value. -/
def undefined : Tree := identifier undefinedName

/-- A block of statements. -/
def block (statements : List Tree) : Tree := new (.block (.tuple statements))

/-- The expression `name = value`. -/
def assign (name : Text) (value : Tree) : Tree :=
  new (.assignment (.text "=") (identifier name) value)

/-- The value at a position, or the undefined value where there is none. -/
def valueAt (values : List Tree) (i : Nat) : Tree :=
  match values[i]? with
  | none | some .null => undefined
  | some v => v

/-- One statement `name = value;` for each name, paired by position; a missing value is the
undefined value. -/
def assignAll (names : List Text) (values : List Tree) : List Tree :=
  names.mapIdx fun i name => new (.expressionStatement (assign name (valueAt values i)))

/-- A declarator of a name with an initial value, or without one when it is absent. -/
def declarator (name : Text) (init : Tree) : Tree :=
  new (.variableDeclarator (identifier name) init)

/-- A declaration of the given declarators. -/
def declaration (declarators : List Tree) : Tree :=
  new (.variableDeclaration (.tuple declarators) (.text varKind))

/-- One declaration for each name, paired by position with its initial value. -/
def declareEach (names : List Text) (values : List Tree) : List Tree :=
  names.mapIdx fun i name => declaration [declarator name (values[i]?.getD .null)]

/-- One declaration of all names, or nothing when there are none. -/
def declareAll (names : List Text) : List Tree :=
  if names.isEmpty then [] else [declaration (names.map (declarator · .null))]

end Tree

/-- The form with another body, where it has one. -/
def Shape.withBody {α : Type} (shape : Shape α) (body : α) : Shape α :=
  match shape with
  | .program _ => .program body
  | .function form id params _ => .function form id params body
  | .block _ => .block body
  | .forStatement init test step _ => .forStatement init test step body
  | .forEach domain left right _ => .forEach domain left right body
  | .whileStatement test _ => .whileStatement test body
  | .doWhileStatement _ test => .doWhileStatement body test
  | .labeled label _ => .labeled label body
  | shape => shape

/-- A node with another body, where it has one. -/
def Tree.withBody (t body : Tree) : Tree :=
  match t with
  | .node location shape => .node location (shape.withBody body)
  | t => t

/-- The form of a node of a kind, from its fields by name. A row that is left out is empty, a
declaration declares variables, a member is plain, an operator stands in front, and any other field
that is left out is absent. -/
def Shape.ofFields (fields children : List (Text × Tree)) : Kind → Shape Tree :=
  let given (name : Text) (usual : Tree) : Tree := (fields.lookup name).getD usual
  let field (name : Text) : Tree := given name .null
  let row (name : Text) : Tree := given name (.tuple [])
  fun
  | .program => .program (row "body")
  | .functionDeclaration => .function .declaration (field "id") (field "params") (field "body")
  | .functionExpression => .function .expression (field "id") (field "params") (field "body")
  | .returnStatement => .returnStatement (field "argument")
  | .blockStatement => .block (row "body")
  | .variableDeclaration =>
    .variableDeclaration (field "declarations") (given "kind" (.text Tree.varKind))
  | .variableDeclarator => .variableDeclarator (field "id") (field "init")
  | .ifStatement => .ifStatement (field "test") (field "consequent") (field "alternate")
  | .forStatement => .forStatement (field "init") (field "test") (field "update") (field "body")
  | .forInStatement => .forEach .keys (field "left") (field "right") (field "body")
  | .forOfStatement => .forEach .values (field "left") (field "right") (field "body")
  | .whileStatement => .whileStatement (field "test") (field "body")
  | .doWhileStatement => .doWhileStatement (field "body") (field "test")
  | .expressionStatement => .expressionStatement (field "expression")
  | .emptyStatement => .emptyStatement
  | .continueStatement => .jump .continues (field "label")
  | .breakStatement => .jump .breaks (field "label")
  | .labeledStatement => .labeled (field "label") (field "body")
  | .identifier => .identifier (field "name")
  | .literal => .literal (field "value")
  | .arrayExpression => .array (row "elements")
  | .callExpression => .call (field "callee") (row "arguments")
  | .memberExpression =>
    .member (field "object") (field "property") (given "computed" (.bool false))
  | .conditionalExpression =>
    .conditional (field "test") (field "consequent") (field "alternate")
  | .assignmentExpression => .assignment (field "operator") (field "left") (field "right")
  | .sequenceExpression => .sequence (field "expressions")
  | .binaryExpression => .binary (field "operator") (field "left") (field "right")
  | .logicalExpression => .logical (field "operator") (field "left") (field "right")
  | .unaryExpression => .unary (field "operator") (field "argument") (given "prefix" (.bool true))
  | .updateExpression => .update (field "operator") (field "argument") (field "prefix")
  | .generic => .generic (field "kind") children

end TailLoop
