import TailLoop.Tree.Access
import TailLoop.Tree.Display

/-!
# Trees as keys

A tree can be looked up in a table when no part of it can change. Two such trees are the same key
when they are equal, so that a flag is the same key as the number it stands for.
-/

namespace TailLoop.Tree

/-- The rules that tell whether no part of a tree can change. -/
def fixedRules : Rules Bool where
  atom _ := true
  tuple := (·.all id)
  list _ _ := false
  dict _ _ := false
  node _ shape :=
    (match shape with
      | .generic kind _ => kind
      | _ => true) && shape.children.all (·.2)

/-- Whether no part of a tree can change: it holds no list and no table. -/
def isFixed (t : Tree) : Bool := fold fixedRules t

/-- A plain value in a key, where a flag and a zero are written as the number they equal. -/
def keyAtom : Tree → Text
  | .bool b => (Double.ofNat b.toNat).text
  | .num d => if d.isZero then (Double.zero false).text else d.text
  | t => t.displayAtom

/-- A code point beyond all others, which sets keys that are no texts apart from those that are. -/
def keyMark : Nat := 0x110000

/-- The key that a tree is: a text is one by itself. -/
def key : Tree → Except Fault Text
  | .text t => .ok t
  | t =>
    if t.isFixed then .ok (keyMark :: fold { displayRules with atom := keyAtom } t)
    else .error .wrongType

end TailLoop.Tree
