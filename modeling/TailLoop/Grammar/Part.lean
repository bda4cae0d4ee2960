import TailLoop.Grammar.Symbol
import TailLoop.Literal
import TailLoop.Tree.Build

/-!
# Parts of a phrase

While a text is read, each symbol found so far is a part: a token, a tree or a row of trees,
together with the stretch of text from its first to its last token. A rule makes the content of a
phrase from its parts.
-/

namespace TailLoop.Grammar

/-- What a part stands for. -/
inductive Content where
  /-- The text of a token. -/
  | token (text : Text)
  | tree (tree : Tree)
  | trees (trees : List Tree)

/-- A part: its content and the stretch of text it was read from, brackets around it included. -/
structure Part where
  /-- What was read. -/
  content : Content
  /-- Where it was read. -/
  location : Location

/-- Why a phrase of the grammar is refused after all. -/
inductive Refusal where
  /-- Something that is no variable and no member access is assigned to; `role` names the kind of
  target. -/
  | invalidTarget (role : Text) (location : Option Location)
  /-- A hexadecimal number is too large. -/
  | numberTooLarge

/-- The parts of a phrase. -/
abbrev Parts := List Part

namespace Parts

/-- The tree at a position. -/
def tree (ps : Parts) (i : Nat) : Tree :=
  match ps[i]? with
  | some ⟨.tree t, _⟩ => t
  | _ => .null

/-- The row of trees at a position. -/
def trees (ps : Parts) (i : Nat) : List Tree :=
  match ps[i]? with
  | some ⟨.trees ts, _⟩ => ts
  | _ => []

/-- The row of trees at a position, as one tree. -/
def row (ps : Parts) (i : Nat) : Tree := .tuple (ps.trees i)

/-- The text of the token at a position. -/
def text (ps : Parts) (i : Nat) : Text :=
  match ps[i]? with
  | some ⟨.token t, _⟩ => t
  | _ => []

/-- The text of the token at a position, as a tree. -/
def operator (ps : Parts) (i : Nat) : Tree := .text (ps.text i)

/-- A node at the place of the part at a position. -/
def nodeAt (ps : Parts) (i : Nat) (shape : Shape Tree) : Tree :=
  .node (ps[i]?.map (·.location)) shape

/-- The identifier that the token at a position is. -/
def name (ps : Parts) (i : Nat) : Tree := ps.nodeAt i (.identifier (.text (ps.text i)))

end Parts

/-- How the content of a phrase comes from its parts. -/
inductive Rule where
  /-- It is that of the part at a position. -/
  | keep (index : Nat)
  /-- It is computed from the parts. -/
  | plain (build : Parts → Except Refusal Content)
  /-- It is computed from the parts and the place of the whole phrase; the rule has a name. -/
  | placed (name : Text) (build : Location → Parts → Except Refusal Content)

namespace Rule

/-- A row of trees. -/
def gather (trees : Parts → List Tree) : Rule := .plain fun ps => .ok (.trees (trees ps))

/-- A node at the place of the phrase. -/
def make (name : Text) (shape : Parts → Shape Tree) : Rule :=
  .placed name fun place ps => .ok (.tree (.node (some place) (shape ps)))

/-- Whether a tree can be assigned to. -/
def isTarget : Tree → Bool
  | .node _ (.identifier _) => true
  | .node _ (.member ..) => true
  | _ => false

/-- A node at the place of the phrase whose part at `target` must be assignable. -/
def makeChecked (name : Text) (target : Nat) (role : Parts → Text) (shape : Parts → Shape Tree) :
    Rule :=
  .placed name fun place ps =>
    if isTarget (ps.tree target) then .ok (.tree (.node (some place) (shape ps)))
    else .error (.invalidTarget (role ps) (ps.tree target).location?)

/-- A loop over a collection. A variable declared in its head needs no check. -/
def makeForEach (name : Text) (domain : Domain) : Rule :=
  .placed name fun place ps =>
    let left := ps.tree 2
    if left.hasKind .variableDeclaration || isTarget left then
      .ok (.tree (.node (some place) (.forEach domain left (ps.tree 4) (ps.tree 6))))
    else .error (.invalidTarget "loop variable" left.location?)

end Rule

end TailLoop.Grammar
