import TailLoop.Text.Quoted
import TailLoop.Double.Format
import TailLoop.Tree.Fold

/-!
# Trees in messages

Messages show a tree that is out of place in full: a node as its kind with its fields in brackets,
plain values and rows in their usual spelling. Locations are not shown.
-/

namespace TailLoop.Tree

/-- A plain value in a message. -/
def displayAtom : Tree → Text
  | .null => "None"
  | .bool b => if b then "True" else "False"
  | .int n => Text.ofInt n
  | .num d => d.text
  | .text t => t.quoted
  | .place l => l.text
  | _ => []

/-- A row in a message; a row of one item ends in a comma. -/
def displayRow : List Text → Text
  | [item] => "(" ++ item ++ ",)"
  | items => "(" ++ Text.join ", " items ++ ")"

/-- The fields of a node in a message. -/
def displayFields (shape : Shape Text) : List Text :=
  match shape with
  | .generic kind children =>
    ["kind=" ++ kind,
     "children=" ++ displayRow (children.map fun c => displayRow [c.1.quoted, c.2])]
  | shape => shape.children.map fun c => c.1 ++ "=" ++ c.2

/-- The rules by which trees are shown. -/
def displayRules : Rules Text where
  atom := displayAtom
  tuple := displayRow
  list _ items := "[" ++ Text.join ", " items ++ "]"
  dict _ entries :=
    "\x7b" ++ Text.join ", " (entries.map fun e => e.1.quoted ++ ": " ++ e.2) ++ "\x7d"
  node _ shape :=
    shape.kind.className ++ "(" ++ Text.join ", " (displayFields shape) ++ ")"

/-- A tree as messages show it. -/
def display (t : Tree) : Text := fold displayRules t

/-- A tree as it appears inside running text: a text as itself, anything else as it is shown. -/
def inline : Tree → Text
  | .text t => t
  | t => t.display

end TailLoop.Tree
