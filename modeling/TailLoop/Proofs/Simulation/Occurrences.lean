import TailLoop.Interpreter.Session
import TailLoop.Proofs.Functions

/-!
# Where names occur

What a node does with the trees below it, as far as it matters which names it uses and how: which of
them it takes the value of (`operands`), and which of them it sets (`targets`). A callee, the name of
a property and a label are neither. `All` lifts a property of single nodes to all nodes of a tree.
`returnedCalls` are the calls whose value a `return` hands on, through conditionals and through
sequences inside these. `valueless` are the variables that are declared without being given a value,
and `settings` tells which trees a node gives values to; a declaration comes early enough
(`declaresFirst`) if nothing up to it gives its variable a value.
-/

namespace TailLoop

/-- Forms of nodes other than the places that give variables their initial values. -/
def Shape.isPlainPart {α : Type} : Shape α → Bool
  | .variableDeclarator .. | .forEach .. => false
  | _ => true

namespace Tree

/-- The items of a row. -/
def row : Tree → List Tree
  | .tuple items => items
  | _ => []

/-- The parts of a node whose value is used, other than to be called. -/
def operands : Tree → List Tree
  | .node _ (.returnStatement argument) => [argument]
  | .node _ (.variableDeclarator _ init) => [init]
  | .node _ (.ifStatement test _ _) => [test]
  | .node _ (.forStatement init test step _) => [init, test, step]
  | .node _ (.forEach _ _ right _) => [right]
  | .node _ (.whileStatement test _) => [test]
  | .node _ (.doWhileStatement _ test) => [test]
  | .node _ (.expressionStatement expression) => [expression]
  | .node _ (.array elements) => elements.row
  | .node _ (.call _ arguments) => arguments.row
  | .node _ (.member object property computed) =>
    if computed.truthy then [object, property] else [object]
  | .node _ (.conditional test consequent alternate) => [test, consequent, alternate]
  | .node _ (.assignment operator left right) =>
    if operator.inline = plainAssignment then [right] else [left, right]
  | .node _ (.sequence expressions) => expressions.row
  | .node _ (.binary _ left right) => [left, right]
  | .node _ (.logical _ left right) => [left, right]
  | .node _ (.unary _ argument _) => [argument]
  | .node _ (.update _ argument _) => [argument]
  | _ => []

/-- The parts of a node that it sets or declares. -/
def targets : Tree → List Tree
  | .node _ (.variableDeclarator id _) => [id]
  | .node _ (.forEach _ left _ _) => [left]
  | .node _ (.assignment _ left _) => [left]
  | .node _ (.update _ argument _) => [argument]
  | _ => []

/-- What the head of a loop over a collection sets: the declared names, or else the head itself. -/
def headTargets : Tree → List Tree
  | .node _ (.variableDeclaration (.tuple declarators) _) => declarators.flatMap targets
  | left => [left]

/-- The parts of a node to which it gives values. A declarator without an initial value gives none. -/
def settings : Tree → List Tree
  | .node _ (.variableDeclarator id init) => if init.isNull then [] else [id]
  | .node _ (.forEach _ left _ _) => left.headTargets
  | .node _ (.assignment _ left _) => [left]
  | .node _ (.update _ argument _) => [argument]
  | _ => []

/-- The names to which the nodes of a tree give values. -/
def setNames (t : Tree) : List Text :=
  t.nodes.flatMap fun u => u.settings.filterMap identifierName?

/-- Whether a tree is a function. -/
def isFunction : Tree → Bool
  | .node _ (.function ..) => true
  | _ => false

/-- Whether a node sets something when it is evaluated. -/
def isAssigning : Tree → Bool
  | .node _ (.assignment ..) => true
  | .node _ (.update ..) => true
  | _ => false

mutual

/-- The calls whose value is the value of an expression. Those at the end of a sequence only count
when the expression is a branch of a conditional. -/
def tailCalls : (isBranch : Bool) → Tree → List Tree
  | _, .node l (.call callee arguments) => [.node l (.call callee arguments)]
  | _, .node _ (.conditional _ consequent alternate) =>
    tailCalls true consequent ++ tailCalls true alternate
  | true, .node _ (.sequence (.tuple items)) => lastTailCalls items
  | _, _ => []

/-- The calls whose value is the value of the last expression. -/
def lastTailCalls : List Tree → List Tree
  | [] => []
  | [t] => tailCalls false t
  | _ :: rest => lastTailCalls rest

end

/-- The calls whose value a `return` hands on. -/
def returnedCalls : Tree → List Tree
  | .node _ (.returnStatement argument) => tailCalls false argument
  | _ => []

/-- The arguments of a call of the name, and nothing for any other tree. -/
def argumentsTo (name : Text) : Tree → List Tree
  | .node _ (.call (.node _ (.identifier (.text callee))) (.tuple arguments)) =>
    if callee = name then arguments else []
  | _ => []

/-- The rules for the variables that are declared without a value. The head of a loop over a
collection gives its variable values itself. -/
def valuelessRules : Rules (List Text) where
  atom _ := []
  tuple := List.flatten
  list _ _ := []
  dict _ _ := []
  node t shape :=
    match t, shape with
    | .node _ (.variableDeclarator id init), _ =>
      if init.isNull then id.identifierName?.toList else []
    | _, .forEach _ _ right body => right ++ body
    | _, shape => shape.children.flatMap (·.2)

/-- The variables that a tree declares without giving them a value there. -/
def valueless (t : Tree) : List Text := fold valuelessRules t

/-- Whether every declared variable is given a value where it is declared. -/
def isInitialised (t : Tree) : Bool := t.valueless.isEmpty

/-- Whether, in statements that follow each other, no variable is declared without a value once
something gave it one. Some variables have values to start with. -/
def declaresFirst (given : List Text) : List Tree → Bool
  | [] => true
  | t :: ts =>
    t.valueless.all (fun x => !(given ++ t.setNames).contains x) &&
      declaresFirst (given ++ t.setNames) ts

/-- A property holds of all nodes of a tree. -/
def All (P : Tree → Prop) (t : Tree) : Prop := ∀ u ∈ t.nodes, P u

instance (P : Tree → Prop) [DecidablePred P] (t : Tree) : Decidable (t.All P) :=
  inferInstanceAs (Decidable (∀ u ∈ t.nodes, P u))

/-- No node of a tree sets anything. -/
def Quiet (t : Tree) : Prop := t.All (·.isAssigning = false)

instance (t : Tree) : Decidable t.Quiet :=
  inferInstanceAs (Decidable (t.All (·.isAssigning = false)))

variable {P : Tree → Prop} {l : Option Location} {shape : Shape Tree}

/-- What holds of all nodes of a node holds of it. -/
theorem All.self (h : (Tree.node l shape).All P) : P (.node l shape) := by
  apply h
  rw [nodes_node]
  exact List.mem_cons_self

/-- It holds of all nodes of its parts. -/
theorem All.child {u : Tree} (h : (Tree.node l shape).All P) (hu : u ∈ shape.parts) : u.All P := by
  intro v hv
  apply h v
  obtain ⟨c, hc, rfl⟩ := List.mem_map.mp hu
  rw [nodes_node, List.mem_cons, List.mem_flatten]
  exact .inr ⟨c.2.nodes, List.mem_map.mpr ⟨c, hc, rfl⟩, hv⟩

/-- What holds of all nodes of a row holds of those of its items. -/
theorem All.item {items : List Tree} {u : Tree} (h : (Tree.tuple items).All P) (hu : u ∈ items) :
    u.All P := by
  intro v hv
  apply h v
  rw [nodes_tuple, List.mem_flatten]
  exact ⟨u.nodes, List.mem_map.mpr ⟨u, hu, rfl⟩, hv⟩

/-- A property holds of all nodes of a node if it holds of it and of those of its children. -/
theorem all_node : (Tree.node l shape).All P ↔
    P (.node l shape) ∧ ∀ c ∈ shape.children, c.2.All P := by
  constructor
  · exact fun h => ⟨h.self, fun c hc => h.child (List.mem_map_of_mem hc)⟩
  · rintro ⟨self, parts⟩ u hu
    rw [nodes_node, List.mem_cons, List.mem_flatten] at hu
    rcases hu with rfl | ⟨_, hl, hu⟩
    · exact self
    · obtain ⟨c, hc, rfl⟩ := List.mem_map.mp hl
      exact parts c hc u hu

/-- It holds of all nodes of a row if it does of those of the items. -/
theorem all_tuple {items : List Tree} : (Tree.tuple items).All P ↔ ∀ t ∈ items, t.All P := by
  constructor
  · exact fun h t ht => h.item ht
  · intro h u hu
    rw [nodes_tuple, List.mem_flatten] at hu
    obtain ⟨_, hl, hu⟩ := hu
    obtain ⟨t, ht, rfl⟩ := List.mem_map.mp hl
    exact h t ht u hu

/-- A plain value has no nodes. -/
theorem all_of_isPlain {t : Tree} (h : t.isPlain = true) : t.All P := by
  cases t with
  | null | bool | int | num | text => exact List.forall_mem_nil _
  | _ => cases h

/-- The nodes of a node in a tree are nodes of the tree. -/
theorem All.nodes {t u : Tree} (h : t.All P) (hu : u ∈ t.nodes) : u.All P := by
  -- By induction on the size of the tree.
  induction size : sizeOf t using Nat.strongRecOn generalizing t with
  | _ size ih =>
  cases t with
  | tuple items =>
    rw [nodes_tuple, List.mem_flatten] at hu
    obtain ⟨_, hl, hu⟩ := hu
    obtain ⟨t, ht, rfl⟩ := List.mem_map.mp hl
    have smaller := List.sizeOf_lt_of_mem ht
    rw [tuple.sizeOf_spec] at size
    exact ih _ (by omega) (h.item ht) hu rfl
  | node l shape =>
    rw [nodes_node, List.mem_cons, List.mem_flatten] at hu
    rcases hu with rfl | ⟨_, hl, hu⟩
    · exact h
    · obtain ⟨c, hc, rfl⟩ := List.mem_map.mp hl
      exact ih _ (size ▸ sizeOf_child_lt hc) (h.child (List.mem_map_of_mem hc)) hu rfl
  | _ => cases hu

/-- A row declares without values what its items do. -/
theorem valueless_tuple (items : List Tree) :
    (Tree.tuple items).valueless = items.flatMap valueless := by
  rw [valueless, fold, foldItems_eq_map]
  exact List.flatMap_def.symm

/-- A declarator with an initial value declares nothing without one. -/
theorem valueless_declarator {id init : Tree} :
    (Tree.node l (.variableDeclarator id init)).valueless =
      if init.isNull then id.identifierName?.toList else [] := by
  rw [valueless, fold_node]
  rfl

/-- A loop over a collection gives its variable values, whatever its head is. -/
theorem valueless_forEach {domain : Domain} {left right body : Tree} :
    (Tree.node l (.forEach domain left right body)).valueless =
      right.valueless ++ body.valueless := by
  rw [valueless, fold_node]
  rfl

/-- A node declares without values what its parts do, if it is no place that gives values itself. -/
theorem valueless_node (plain : shape.isPlainPart = true) :
    (Tree.node l shape).valueless = shape.children.flatMap (·.2.valueless) := by
  rw [valueless, fold_node]
  cases shape with
  | variableDeclarator | forEach => cases plain
  | generic kind children =>
    simp [valuelessRules, Shape.map, Shape.children, valueless, List.flatMap_map]
  | _ => rfl

/-- What a part of such a node declares without values the node does. -/
theorem valueless_part {u : Tree} (hu : u ∈ shape.parts) (plain : shape.isPlainPart = true) :
    u.valueless ⊆ (Tree.node l shape).valueless := by
  obtain ⟨c, hc, rfl⟩ := List.mem_map.mp hu
  rw [valueless_node plain]
  exact fun x hx => List.mem_flatMap.mpr ⟨c, hc, hx⟩

/-- What an item of a row declares without values the row does. -/
theorem valueless_item {items : List Tree} {u : Tree} (hu : u ∈ items) :
    u.valueless ⊆ (Tree.tuple items).valueless := by
  rw [valueless_tuple]
  exact fun x hx => List.mem_flatMap.mpr ⟨u, hu, hx⟩

/-- What a node gives a value to is a target of a node in it. -/
theorem exists_target_of_setting {t u : Tree} (h : u ∈ t.settings) :
    ∃ v ∈ t.nodes, u ∈ v.targets := by
  have inside : t.All (· ∈ t.nodes) := fun v hv => hv
  unfold settings at h
  split at h
  · split at h
    · cases h
    · exact ⟨_, inside.self, h⟩
  · rename_i l domain left right body
    unfold headTargets at h
    split at h
    · -- the head declares names, each of which is the target of its declarator
      rename_i ld declarators kind
      obtain ⟨d, hd, target⟩ := List.mem_flatMap.mp h
      have row := (inside.child (Shape.mem_parts 0 rfl)).child (Shape.mem_parts 0 rfl)
      cases d with
      | node => exact ⟨_, (row.item hd).self, target⟩
      | _ => cases target
    · exact ⟨_, inside.self, h⟩
  · exact ⟨_, inside.self, h⟩
  · exact ⟨_, inside.self, h⟩
  · cases h

end Tree

end TailLoop
