import TailLoop.Tree.Basic

/-!
# Folding a tree

`Tree.fold` computes a result bottom up, by one rule for each form of tree. The rules for lists,
tables and nodes also see the tree itself. Functions that treat all kinds of nodes alike are folds.
-/

namespace TailLoop

/-- The rules of a fold with results of type `ρ`. -/
structure Tree.Rules (ρ : Type) where
  /-- The result of an absent value, a flag, a number, a text or a location. -/
  atom : Tree → ρ
  /-- The result of a row, from those of its items. -/
  tuple : List ρ → ρ
  /-- The result of a changeable list. -/
  list : Tree → List ρ → ρ
  /-- The result of a table. -/
  dict : Tree → List (Text × ρ) → ρ
  /-- The result of a node, from those of its fields. -/
  node : Tree → Shape ρ → ρ

namespace Tree

variable {ρ : Type}

mutual

/-- The result of a tree by the given rules. -/
def fold (r : Rules ρ) : Tree → ρ
  | .null => r.atom .null
  | .bool b => r.atom (.bool b)
  | .int n => r.atom (.int n)
  | .num d => r.atom (.num d)
  | .text t => r.atom (.text t)
  | .place l => r.atom (.place l)
  | .tuple items => r.tuple (foldItems r items)
  | .list items => r.list (.list items) (foldItems r items)
  | .dict entries => r.dict (.dict entries) (foldEntries r entries)
  | .node location shape => r.node (.node location shape) (foldShape r shape)

/-- The results of the trees of a list. -/
def foldItems (r : Rules ρ) : List Tree → List ρ
  | [] => []
  | t :: rest => fold r t :: foldItems r rest

/-- The results of named trees, with their names. -/
def foldEntries (r : Rules ρ) : List (Text × Tree) → List (Text × ρ)
  | [] => []
  | (name, t) :: rest => (name, fold r t) :: foldEntries r rest

/-- The results of the fields of a node. -/
def foldShape (r : Rules ρ) : Shape Tree → Shape ρ
  | .program body => .program (fold r body)
  | .function form id params body => .function form (fold r id) (fold r params) (fold r body)
  | .returnStatement argument => .returnStatement (fold r argument)
  | .block body => .block (fold r body)
  | .variableDeclaration declarations kind =>
    .variableDeclaration (fold r declarations) (fold r kind)
  | .variableDeclarator id init => .variableDeclarator (fold r id) (fold r init)
  | .ifStatement test consequent alternate =>
    .ifStatement (fold r test) (fold r consequent) (fold r alternate)
  | .forStatement init test step body =>
    .forStatement (fold r init) (fold r test) (fold r step) (fold r body)
  | .forEach domain left right body =>
    .forEach domain (fold r left) (fold r right) (fold r body)
  | .whileStatement test body => .whileStatement (fold r test) (fold r body)
  | .doWhileStatement body test => .doWhileStatement (fold r body) (fold r test)
  | .expressionStatement expression => .expressionStatement (fold r expression)
  | .emptyStatement => .emptyStatement
  | .jump kind label => .jump kind (fold r label)
  | .labeled label body => .labeled (fold r label) (fold r body)
  | .identifier name => .identifier (fold r name)
  | .literal value => .literal (fold r value)
  | .array elements => .array (fold r elements)
  | .call callee arguments => .call (fold r callee) (fold r arguments)
  | .member object property computed =>
    .member (fold r object) (fold r property) (fold r computed)
  | .conditional test consequent alternate =>
    .conditional (fold r test) (fold r consequent) (fold r alternate)
  | .assignment operator left right =>
    .assignment (fold r operator) (fold r left) (fold r right)
  | .sequence expressions => .sequence (fold r expressions)
  | .binary operator left right => .binary (fold r operator) (fold r left) (fold r right)
  | .logical operator left right => .logical (fold r operator) (fold r left) (fold r right)
  | .unary operator argument isPrefix =>
    .unary (fold r operator) (fold r argument) (fold r isPrefix)
  | .update operator argument isPrefix =>
    .update (fold r operator) (fold r argument) (fold r isPrefix)
  | .generic kind children => .generic (fold r kind) (foldEntries r children)

end

/-- The results of a list are those of its items. -/
@[simp]
theorem foldItems_eq_map (r : Rules ρ) (items : List Tree) :
    foldItems r items = items.map (fold r) := by
  induction items with
  | nil => rfl
  | cons t rest ih => rw [foldItems, ih, List.map_cons]

/-- The results of named trees keep the names. -/
@[simp]
theorem foldEntries_eq_map (r : Rules ρ) (entries : List (Text × Tree)) :
    foldEntries r entries = entries.map fun e => (e.1, fold r e.2) := by
  induction entries with
  | nil => rfl
  | cons e rest ih => rw [foldEntries, ih, List.map_cons]

/-- The results of a form are those of its fields. -/
@[simp]
theorem foldShape_eq_map (r : Rules ρ) (shape : Shape Tree) :
    foldShape r shape = shape.map (fold r) := by
  cases shape <;> simp [foldShape, Shape.map]

/-- A node's result is that of its rule at the results of its fields. -/
theorem fold_node (r : Rules ρ) (location : Option Location) (shape : Shape Tree) :
    fold r (.node location shape) = r.node (.node location shape) (shape.map (fold r)) := by
  rw [fold, foldShape_eq_map]

end Tree

end TailLoop
