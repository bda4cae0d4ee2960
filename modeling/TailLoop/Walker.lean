import TailLoop.Tree.Access
import TailLoop.Tree.Fold

/-!
# Walking with handlers

A walk goes through a tree from the root. At a node whose kind has a handler, the handler decides;
any other node is rebuilt from its walked fields. In a row, a block that comes back takes its place
by its statements, so that one statement can become several.
-/

namespace TailLoop

/-- The form whose fields are the results of the given actions, run in order. -/
def Shape.runFields {m : Type → Type} [Monad m] {α : Type} : Shape (m α) → m (Shape α)
  | .program body => return .program (← body)
  | .function form id params body => return .function form (← id) (← params) (← body)
  | .returnStatement argument => return .returnStatement (← argument)
  | .block body => return .block (← body)
  | .variableDeclaration declarations kind =>
    return .variableDeclaration (← declarations) (← kind)
  | .variableDeclarator id init => return .variableDeclarator (← id) (← init)
  | .ifStatement test consequent alternate =>
    return .ifStatement (← test) (← consequent) (← alternate)
  | .forStatement init test step body =>
    return .forStatement (← init) (← test) (← step) (← body)
  | .forEach domain left right body => return .forEach domain (← left) (← right) (← body)
  | .whileStatement test body => return .whileStatement (← test) (← body)
  | .doWhileStatement body test => return .doWhileStatement (← body) (← test)
  | .expressionStatement expression => return .expressionStatement (← expression)
  | .emptyStatement => return .emptyStatement
  | .jump kind label => return .jump kind (← label)
  | .labeled label body => return .labeled (← label) (← body)
  | .identifier name => return .identifier (← name)
  | .literal value => return .literal (← value)
  | .array elements => return .array (← elements)
  | .call callee arguments => return .call (← callee) (← arguments)
  | .member object property computed => return .member (← object) (← property) (← computed)
  | .conditional test consequent alternate =>
    return .conditional (← test) (← consequent) (← alternate)
  | .assignment operator left right => return .assignment (← operator) (← left) (← right)
  | .sequence expressions => return .sequence (← expressions)
  | .binary operator left right => return .binary (← operator) (← left) (← right)
  | .logical operator left right => return .logical (← operator) (← left) (← right)
  | .unary operator argument isPrefix => return .unary (← operator) (← argument) (← isPrefix)
  | .update operator argument isPrefix => return .update (← operator) (← argument) (← isPrefix)
  | .generic kind children => do
    let kind ← kind
    let children ← children.mapM fun c => do return (c.1, ← c.2)
    return .generic kind children

namespace Walker

variable {m : Type → Type} [Monad m] [MonadExceptOf Fault m]

/-- What is done at a node: it is given the node, and the action that rebuilds it from its walked
fields. -/
abbrev Handler (m : Type → Type) := Tree → m Tree → m Tree

/-- A node with walked fields in place of its own. The kind of a generic node is no child and stays
as it is. -/
def rebuild (node : Tree) (walked : Shape (m Tree)) : m Tree :=
  match node, walked with
  | .node l (.generic kind _), .generic _ children => do
    let children ← children.mapM fun c => do return (c.1, ← c.2)
    return .node l (.generic kind (Tree.lastByName children))
  | .node l _, shape => .node l <$> shape.runFields
  | t, _ => pure t

/-- The trees that take the place of a walked one in its row. -/
def splice (walked : m Tree) : m (List Tree) := do
  match (← walked).spliced with
  | .ok ts => return ts
  | .error fault => throw fault

/-- The rules of a walk with a handler for some of the kinds. -/
def rules (handler? : Kind → Option (Handler m)) : Tree.Rules (m Tree) where
  atom t := pure t
  tuple actions := do
    let parts ← actions.mapM splice
    return .tuple parts.flatten
  list t _ := pure t
  dict t _ := pure t
  node t shape :=
    let children := rebuild t shape
    match handler? shape.kind with
    | some handler => handler t children
    | none => children

end Walker

/-- The tree after a walk with a handler for some of the kinds. -/
def Tree.walk {m : Type → Type} [Monad m] [MonadExceptOf Fault m]
    (handler? : Kind → Option (Walker.Handler m)) (t : Tree) : m Tree :=
  fold (Walker.rules handler?) t

end TailLoop
