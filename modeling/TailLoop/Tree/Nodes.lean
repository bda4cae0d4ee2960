import TailLoop.Tree.Fold

/-!
# The nodes of a tree

All nodes in the order in which they begin, and how many there are.
-/

namespace TailLoop.Tree

/-- The rules that list nodes: a node, then those of its children. -/
def nodeRules : Rules (List Tree) where
  atom _ := []
  tuple := List.flatten
  list _ _ := []
  dict _ _ := []
  node t shape := t :: (shape.children.map (·.2)).flatten

/-- The nodes of a tree, each before the nodes below it, fields in order. -/
def nodes (t : Tree) : List Tree := fold nodeRules t

end TailLoop.Tree
