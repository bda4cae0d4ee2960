import TailLoop.Tree.Build
import TailLoop.Tree.Equality
import TailLoop.Tree.Key

/-!
# Patterns

A pattern describes nodes by their kind and some of their fields. Beside the general matcher stand
the tests that tail call elimination asks of statements: whether one is the directive that makes
code strict, and whether one only sets names to the undefined value.
-/

namespace TailLoop

/-- A pattern for trees. -/
inductive Pattern where
  /-- Equal to a tree. -/
  | equals (tree : Tree)
  /-- A node of the given kind, if one is given, whose listed fields match. -/
  | fields (kind : Option Kind) (entries : List (Text × Pattern))

namespace Pattern

mutual

/-- Whether a tree matches a pattern. -/
def accepts : Pattern → Tree → Bool
  | .equals tree, t => t.same tree
  | .fields kind entries, t =>
    t.isNode && kind.all (t.hasKind ·) && acceptsFields entries t

/-- Whether all listed fields of a tree match. -/
def acceptsFields : List (Text × Pattern) → Tree → Bool
  | [], _ => true
  | (name, pattern) :: rest, t =>
    (match t.field? name with
      | some child => accepts pattern child
      | none => false) && acceptsFields rest t

end

/-- The calls whose callee is an identifier with the given name. -/
def selfCall (name : Tree) : Pattern :=
  .fields (some .callExpression) [("callee", .fields (some .identifier) [("name", .equals name)])]

end Pattern

namespace Tree

/-- Whether a statement is the given string and nothing else. -/
def isDirective (text : Text) : Tree → Bool
  | .node _ (.expressionStatement (.node _ (.literal (.text t)))) => t == text
  | _ => false

/-- Whether a statement makes the code that it starts strict. -/
def isStrictDirective : Tree → Bool := isDirective strictDirective

/-- Whether the statements of a body start with the directive that makes code strict. -/
def startsStrict (body : Tree) : Except Fault Bool :=
  if body.truthy then (body.item 0).map isStrictDirective else .ok false

/-- Whether an expression is `x = undefined` for one of the names. -/
def isReset (names : List Text) (t : Tree) : Except Fault Bool :=
  match t with
  | .node _ (.assignment operator (.node _ (.identifier name)) value) =>
    if operator.same (.text "=") && value.same undefined then
      name.key.map names.contains
    else .ok false
  | _ => .ok false

/-- Whether all expressions are such; those after the first that is not are not looked at. -/
def areResets (names : List Text) : List Tree → Except Fault Bool
  | [] => .ok true
  | t :: rest => do
    if ← isReset names t then areResets names rest else return false

/-- Whether a statement only sets some of the names to the undefined value. -/
def isResetStatement (names : List Text) : Tree → Except Fault Bool
  | .node _ (.expressionStatement (.node _ (.sequence parts))) => do
    areResets names (← parts.items)
  | .node _ (.expressionStatement e) => isReset names e
  | _ => .ok false

end Tree

end TailLoop
