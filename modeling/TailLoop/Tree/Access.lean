import TailLoop.Tree.Basic

/-!
# Looking into trees

Fields by name, items by position, paths of both, and what a tree counts as when it is used as a
condition. Rows, changeable lists, texts and tables can all be gone through: a text by its
characters, a table by its names. Looking where there is nothing is a fault.
-/

namespace TailLoop

/-- What can go wrong when a tree that is not a valid program is looked into. -/
inductive Fault where
  /-- A field was asked of a tree that has no such field. -/
  | noField
  /-- A tree was used as something that its type is not. -/
  | wrongType
  /-- A table has no entry of that name. -/
  | noEntry
  /-- A row has no item at that position. -/
  | noItem
deriving DecidableEq

/-- The parts of a location with their names. -/
def Location.parts (l : Location) : List (Text × Tree) :=
  [("file", .text l.file), ("line", .int l.line), ("column", .int l.column),
   ("start", .int l.start), ("end", .int l.stop), ("end_line", .int l.endLine),
   ("end_column", .int l.endColumn), ("single_line", .bool l.singleLine)]

namespace Tree

/-- A named child as a row of its name and its value. -/
def childPair (c : Text × Tree) : Tree := .tuple [.text c.1, c.2]

/-- The fields of a node with their names. A generic node has its kind and the row of its
children. -/
def fields : Shape Tree → List (Text × Tree)
  | .generic kind children => [("kind", kind), ("children", .tuple (children.map childPair))]
  | shape => shape.children

/-- The name that a node carries: that of an identifier, and for a function that of the node which
names it. A function without one carries the absent name. -/
def name? : Tree → Option Tree
  | .node _ (.identifier name) => some name
  | .node _ (.function _ .null _ _) => some .null
  | .node _ (.function _ id _ _) => name? id
  | _ => none

/-- The location of a node as a tree. -/
def placeOf : Option Location → Tree
  | some l => .place l
  | none => .null

/-- The value of a field of a node, its location among them, or of a part of a location. -/
def field? (name : Text) (t : Tree) : Option Tree :=
  match t with
  | .node location shape =>
    if name = Text.ofString "location" then some (placeOf location)
    else if name = Text.ofString "name" then t.name?
    else (fields shape).lookup name
  | .place l => l.parts.lookup name
  | _ => none

/-- The value of a field that is needed. -/
def field (name : Text) (t : Tree) : Except Fault Tree :=
  match t.field? name with
  | some u => .ok u
  | none => .error .noField

/-- The name that a node carries, where one is needed. -/
def name (t : Tree) : Except Fault Tree :=
  match t.name? with
  | some u => .ok u
  | none => .error .noField

/-- The name of an identifier. -/
def identifierName? : Tree → Option Text
  | .node _ (.identifier (.text name)) => some name
  | _ => none

/-- What going through a tree comes upon: the items of a row or list, the characters of a text, the
names of a table. -/
def items : Tree → Except Fault (List Tree)
  | .tuple items => .ok items
  | .list items => .ok items
  | .text t => .ok (t.map fun c => .text [c])
  | .dict entries => .ok (entries.map fun e => .text e.1)
  | _ => .error .wrongType

/-- How many items there are. -/
def length (t : Tree) : Except Fault Nat := t.items.map List.length

/-- The position that an index means in a row of a given length; a negative index counts from the
end. -/
def position? (length : Nat) (index : Int) : Option Nat :=
  if 0 ≤ index then if index.toNat < length then some index.toNat else none
  else if (-index).toNat ≤ length then some (length - (-index).toNat)
  else none

/-- The item at an index. A table has none: its entries are known by names. -/
def item (index : Int) (t : Tree) : Except Fault Tree :=
  match t with
  | .dict _ => .error .noEntry
  | t => do
    let items ← t.items
    match (position? items.length index).bind (items[·]?) with
    | some u => return u
    | none => throw .noItem

/-- The trees that take the place of a tree in a row: what a block holds, or itself. -/
def spliced : Tree → Except Fault (List Tree)
  | .node _ (.block body) => body.items
  | t => .ok [t]

/-- Named trees, each with the last one of its name. -/
def lastByName (entries : List (Text × Tree)) : List (Text × Tree) :=
  entries.map fun e => (e.1, (entries.reverse.lookup e.1).getD e.2)

/-- Whether a tree is the absent value. -/
def isNull : Tree → Bool
  | .null => true
  | _ => false

/-- Whether a tree counts as true: not absent, not false, not zero, not empty. -/
def truthy : Tree → Bool
  | .null => false
  | .bool b => b
  | .int n => n != 0
  | .num d => !d.isZero
  | .text t => !t.isEmpty
  | .place _ => true
  | .tuple items => !items.isEmpty
  | .list items => !items.isEmpty
  | .dict entries => !entries.isEmpty
  | .node .. => true

/-- One step of a path: into a field or to an item of a row. -/
inductive Step where
  | field (name : Text)
  | item (index : Int)

/-- The tree at the end of a path. -/
def follow : List Step → Tree → Except Fault Tree
  | [], t => .ok t
  | .field name :: rest, t => do
    let u ← t.field name
    follow rest u
  | .item index :: rest, t => do
    let u ← t.item index
    follow rest u

end Tree

end TailLoop
