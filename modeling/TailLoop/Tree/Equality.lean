import TailLoop.Tree.Fold

/-!
# Equality of trees

Two trees are the same when they have the same structure, whatever their locations. Numbers and
flags are compared by value, so that one equals true and zero equals false and negative zero.
-/

namespace TailLoop.Tree

/-- Whether two named rows have the same names and matching values, item by item. -/
def sameRow : List (Text × (Tree → Bool)) → List (Text × Tree) → Bool
  | [], [] => true
  | (name, test) :: rest, (other, t) :: more => name == other && test t && sameRow rest more
  | _, _ => false

/-- Whether each test passes on the tree at its place, with none left over. -/
def sameItems : List (Tree → Bool) → List Tree → Bool
  | [], [] => true
  | test :: rest, t :: more => test t && sameItems rest more
  | _, _ => false

/-- Whether two tables have the same entries in any order. -/
def sameTable (tests : List (Text × (Tree → Bool))) (entries : List (Text × Tree)) : Bool :=
  tests.length == entries.length &&
    tests.all fun (name, test) => (entries.lookup name).any test

/-- Whether the fields of a node are those of another of the same kind. -/
def sameShape (tests : Shape (Tree → Bool)) (shape : Shape Tree) : Bool :=
  tests.kind == shape.kind &&
    (match tests, shape with
      | .generic test _, .generic kind _ => test kind
      | _, _ => true) &&
    sameRow tests.children shape.children

/-- The number that a number or flag stands for. -/
def numeric? : Tree → Option Double
  | .num d => some d
  | .bool b => some (Double.ofNat b.toNat)
  | _ => none

/-- The integer that a number or flag is, if it is one. -/
def integer? : Tree → Option Int
  | .num d => d.integer?
  | .int n => some n
  | .bool b => some b.toNat
  | _ => none

/-- Whether two plain values are the same. Not-a-number is the same as itself only when `nanSame`
says so. -/
def sameAtom (nanSame : Bool) (a b : Tree) : Bool :=
  match a, b with
  | .null, .null => true
  | .text s, .text t => s == t
  | .place l, .place m => l == m
  | .int n, b => integer? b == some n
  | a, .int n => integer? a == some n
  | a, b =>
    match numeric? a, numeric? b with
    | some x, some y => x.eq y || (nanSame && x.isNaN && y.isNaN)
    | _, _ => false

/-- The rules of comparison: each tree becomes a test on another tree. -/
def sameRules (nanSame : Bool) : Rules (Tree → Bool) where
  atom := sameAtom nanSame
  tuple tests := fun
    | .tuple items => sameItems tests items
    | _ => false
  list _ tests := fun
    | .list items => sameItems tests items
    | _ => false
  dict _ tests := fun
    | .dict entries => sameTable tests entries
    | _ => false
  node _ tests := fun
    | .node _ shape => sameShape tests shape
    | _ => false

/-- Equality of trees that were made apart from each other. -/
def same (a b : Tree) : Bool := fold (sameRules false) a b

/-- Equality of a tree with one made from it, where a kept value is the same as itself. -/
def unchanged (a b : Tree) : Bool := fold (sameRules true) a b

end TailLoop.Tree
