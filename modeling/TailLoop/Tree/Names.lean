import TailLoop.Tree.Build
import TailLoop.Tree.Key

/-!
# Declared names

What a function body declares: the names of its `var` declarations and its function declarations,
wherever they stand in it, in source order. A nested function hides what it declares itself. A
declarator without a name is a fault.
-/

namespace TailLoop.Tree

/-- The declarations of a body. -/
structure Declarations where
  /-- The names of `var` declarations, in source order, repetitions kept. -/
  names : List Tree
  /-- The function declarations, in source order. -/
  functions : List Tree

namespace Declarations

/-- No declarations. -/
def empty : Declarations := ⟨[], []⟩

/-- The declarations of one part after those of another. -/
def append (a b : Declarations) : Declarations := ⟨a.names ++ b.names, a.functions ++ b.functions⟩

/-- The declarations of several parts in order. -/
def concat (parts : List Declarations) : Declarations := parts.foldr append empty

end Declarations

/-- The rules that collect declarations. -/
def hoistRules : Rules (Except Fault Declarations) where
  atom _ := .ok .empty
  tuple parts := (parts.mapM id).map .concat
  list _ _ := .ok .empty
  dict _ _ := .ok .empty
  node t shape :=
    let parts : List (Except Fault Declarations) := shape.children.map (·.2)
    let below := (parts.mapM id).map Declarations.concat
    match t with
    | .node _ (.function .declaration ..) => .ok ⟨[], [t]⟩
    | .node _ (.function .expression ..) => .ok .empty
    | .node _ (.variableDeclarator id _) => do
      let name ← id.name
      let more ← below
      return .append ⟨[name], []⟩ more
    | _ => below

/-- The declarations of a body. -/
def hoisted (t : Tree) : Except Fault Declarations := fold hoistRules t

/-- The name that a node declares, if it is a text. Any other has to be a key at least. -/
def declaredName (id : Tree) : Except Fault (List Text) := do
  match ← id.name with
  | .text name => return [name]
  | other =>
    let _ ← other.key
    return []

/-- The rules that collect declared names, those of variables and of functions together. -/
def declaredRules : Rules (Except Fault (List Text)) where
  atom _ := .ok []
  tuple parts := (parts.mapM id).map List.flatten
  list _ _ := .ok []
  dict _ _ := .ok []
  node t shape :=
    let parts : List (Except Fault (List Text)) := shape.children.map (·.2)
    let below := (parts.mapM id).map List.flatten
    match t with
    | .node _ (.function .declaration id _ _) => declaredName id
    | .node _ (.function .expression ..) => .ok []
    | .node _ (.variableDeclarator id _) => do
      let names ← declaredName id
      let more ← below
      return names ++ more
    | _ => below

/-- The names that a body declares, in source order. -/
def declaredNames (t : Tree) : Except Fault (List Text) := fold declaredRules t

end TailLoop.Tree
