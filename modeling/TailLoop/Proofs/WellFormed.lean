import Mathlib.Tactic.Common
import TailLoop.Tree.Nodes
import TailLoop.Validity

/-!
# The well-formed trees

`WellFormed checked c t` says by rules what the check of `Validity.lean` decides: every field of
every node holds something of its kind, operators are in their tables, rows that need an item have
one, targets can be assigned to, and jumps have a target among those of `c`. With `checked` false
the rules about jumps are left out, so that the judgement also speaks about trees whose jumps have
not been looked at. Unlike the check, the rules fix the flags of members and of operators before and
after their operand to be Booleans.

`wellFormed_of_validate` and `WellFormed.validate` connect the two: on trees with Boolean flags the
check passes exactly on the well-formed trees.
-/

namespace TailLoop

namespace Tree

/-- Whether a tree is a flag. -/
def isFlag : Tree → Bool
  | .bool _ => true
  | _ => false

/-- Whether the flag of a node is a Boolean, if the node has one. -/
def flagIsBoolean : Tree → Bool
  | .node _ (.member _ _ computed) => computed.isFlag
  | .node _ (.unary _ _ isPrefix) => isPrefix.isFlag
  | .node _ (.update _ _ isPrefix) => isPrefix.isFlag
  | _ => true

/-- All flags in a tree are Booleans. -/
def FlagsAreBoolean (t : Tree) : Prop := ∀ u ∈ t.nodes, u.flagIsBoolean = true

instance (t : Tree) : Decidable t.FlagsAreBoolean :=
  inferInstanceAs (Decidable (∀ u ∈ t.nodes, u.flagIsBoolean = true))

/-- Whether a tree is a value that a literal can have. -/
def isPlain : Tree → Bool
  | .null | .bool _ | .int _ | .num _ | .text _ => true
  | _ => false

/-- Whether a tree can be assigned to. -/
def isAssignable (t : Tree) : Bool := t.hasKind .identifier || t.hasKind .memberExpression

end Tree

namespace Validity

/-- What jumps can refer to. -/
structure Targets where
  /-- The labels of the enclosing statements of the same function, the innermost first, and whether
  each is on a loop. -/
  labels : List (Text × Bool) := []
  /-- Whether a loop of the same function surrounds the node. -/
  inLoop : Bool := false

namespace Targets

/-- The targets inside a loop. -/
def inBody (c : Targets) : Targets := { c with inLoop := true }

/-- The targets inside a labeled statement. -/
def labeled (c : Targets) (name : Text) (onLoop : Bool) : Targets :=
  { c with labels := (name, onLoop) :: c.labels }

/-- A jump with a label finds it, and on a loop if it continues one. -/
def Reaches (c : Targets) (kind : JumpKind) (name : Text) : Prop :=
  ∃ onLoop, c.labels.lookup name = some onLoop ∧ (kind = .breaks ∨ onLoop = true)

end Targets

/-- The targets of a context. -/
def Context.targets (c : Context) : Targets := ⟨c.labels, c.inLoop⟩

/-- An identifier that is spelled like a name. -/
inductive IsName : Tree → Prop where
  | mk (l : Option Location) {name : Text} (h : isNameLine name = true) :
    IsName (.node l (.identifier (.text name)))

/-- The well-formed nodes with the given targets around them. -/
inductive WellFormed (checked : Bool) : Targets → Tree → Prop where
  | program {c l ss} (kinds : ∀ s ∈ ss, s.isStatement = true)
      (parts : ∀ s ∈ ss, WellFormed checked c s) :
    WellFormed checked c (.node l (.program (.tuple ss)))
  | function {c l form id ps lb ss} (named : form = .declaration → IsName id)
      (name : id.isNull = false → IsName id) (params : ∀ p ∈ ps, IsName p)
      (kinds : ∀ s ∈ ss, s.isStatement = true) (parts : ∀ s ∈ ss, WellFormed checked {} s) :
    WellFormed checked c
      (.node l (.function form id (.tuple ps) (.node lb (.block (.tuple ss)))))
  | block {c l ss} (kinds : ∀ s ∈ ss, s.isStatement = true)
      (parts : ∀ s ∈ ss, WellFormed checked c s) :
    WellFormed checked c (.node l (.block (.tuple ss)))
  | returnStatement {c l argument} (kind : argument.isNull = false → argument.isExpression = true)
      (part : argument.isNull = false → WellFormed checked c argument) :
    WellFormed checked c (.node l (.returnStatement argument))
  | variableDeclaration {c l ds} (some : ds ≠ [])
      (kinds : ∀ d ∈ ds, d.hasKind .variableDeclarator = true)
      (parts : ∀ d ∈ ds, WellFormed checked c d) :
    WellFormed checked c (.node l (.variableDeclaration (.tuple ds) (.text Tree.varKind)))
  | variableDeclarator {c l id init} (name : IsName id)
      (kind : init.isNull = false → init.isExpression = true)
      (part : init.isNull = false → WellFormed checked c init) :
    WellFormed checked c (.node l (.variableDeclarator id init))
  | ifStatement {c l test consequent alternate} (testKind : test.isExpression = true)
      (testPart : WellFormed checked c test) (kind : consequent.isStatement = true)
      (part : WellFormed checked c consequent)
      (elseKind : alternate.isNull = false → alternate.isStatement = true)
      (elsePart : alternate.isNull = false → WellFormed checked c alternate) :
    WellFormed checked c (.node l (.ifStatement test consequent alternate))
  | forStatement {c l init test step body}
      (initKind : init.isNull = false →
        init.hasKind .variableDeclaration = true ∨ init.isExpression = true)
      (initPart : init.isNull = false → WellFormed checked c init)
      (testKind : test.isNull = false → test.isExpression = true)
      (testPart : test.isNull = false → WellFormed checked c test)
      (stepKind : step.isNull = false → step.isExpression = true)
      (stepPart : step.isNull = false → WellFormed checked c step)
      (kind : body.isStatement = true) (part : WellFormed checked c.inBody body) :
    WellFormed checked c (.node l (.forStatement init test step body))
  | forEachDeclared {c l domain ld le id right body} (name : IsName id)
      (rightKind : right.isExpression = true) (rightPart : WellFormed checked c right)
      (kind : body.isStatement = true) (part : WellFormed checked c.inBody body) :
    WellFormed checked c
      (.node l (.forEach domain
        (.node ld (.variableDeclaration (.tuple [.node le (.variableDeclarator id .null)])
          (.text Tree.varKind))) right body))
  | forEach {c l domain left right body} (target : left.isAssignable = true)
      (leftPart : WellFormed checked c left) (rightKind : right.isExpression = true)
      (rightPart : WellFormed checked c right) (kind : body.isStatement = true)
      (part : WellFormed checked c.inBody body) :
    WellFormed checked c (.node l (.forEach domain left right body))
  | whileStatement {c l test body} (testKind : test.isExpression = true)
      (testPart : WellFormed checked c test) (kind : body.isStatement = true)
      (part : WellFormed checked c.inBody body) :
    WellFormed checked c (.node l (.whileStatement test body))
  | doWhileStatement {c l body test} (testKind : test.isExpression = true)
      (testPart : WellFormed checked c test) (kind : body.isStatement = true)
      (part : WellFormed checked c.inBody body) :
    WellFormed checked c (.node l (.doWhileStatement body test))
  | expressionStatement {c l e} (kind : e.isExpression = true) (part : WellFormed checked c e) :
    WellFormed checked c (.node l (.expressionStatement e))
  | emptyStatement {c l} : WellFormed checked c (.node l .emptyStatement)
  | bareJump {c l kind} (inLoop : checked = true → c.inLoop = true) :
    WellFormed checked c (.node l (.jump kind .null))
  | jump {c l kind ln name} (spelled : isNameLine name = true)
      (reaches : checked = true → c.Reaches kind name) :
    WellFormed checked c (.node l (.jump kind (.node ln (.identifier (.text name)))))
  | labeled {c l ln name body} (spelled : isNameLine name = true)
      (fresh : checked = true → c.labels.lookup name = none) (kind : body.isStatement = true)
      (part : WellFormed checked (c.labeled name (isLoop body)) body) :
    WellFormed checked c (.node l (.labeled (.node ln (.identifier (.text name))) body))
  | identifier {c l name} (spelled : isNameLine name = true) :
    WellFormed checked c (.node l (.identifier (.text name)))
  | literal {c l value} (plain : value.isPlain = true) :
    WellFormed checked c (.node l (.literal value))
  | array {c l es} (kinds : ∀ e ∈ es, e.isExpression = true)
      (parts : ∀ e ∈ es, WellFormed checked c e) :
    WellFormed checked c (.node l (.array (.tuple es)))
  | call {c l callee args} (kind : callee.isExpression = true)
      (part : WellFormed checked c callee) (kinds : ∀ e ∈ args, e.isExpression = true)
      (parts : ∀ e ∈ args, WellFormed checked c e) :
    WellFormed checked c (.node l (.call callee (.tuple args)))
  | member {c l object property} (kind : object.isExpression = true)
      (part : WellFormed checked c object) (name : IsName property) :
    WellFormed checked c (.node l (.member object property (.bool false)))
  | computedMember {c l object property} (kind : object.isExpression = true)
      (part : WellFormed checked c object) (keyKind : property.isExpression = true)
      (keyPart : WellFormed checked c property) :
    WellFormed checked c (.node l (.member object property (.bool true)))
  | conditional {c l test consequent alternate} (testKind : test.isExpression = true)
      (testPart : WellFormed checked c test) (kind : consequent.isExpression = true)
      (part : WellFormed checked c consequent) (elseKind : alternate.isExpression = true)
      (elsePart : WellFormed checked c alternate) :
    WellFormed checked c (.node l (.conditional test consequent alternate))
  | assignment {c l op left right} (known : op ∈ assignmentSpellings)
      (target : left.isAssignable = true) (leftPart : WellFormed checked c left)
      (kind : right.isExpression = true) (part : WellFormed checked c right) :
    WellFormed checked c (.node l (.assignment (.text op) left right))
  | sequence {c l es} (some : es ≠ []) (kinds : ∀ e ∈ es, e.isExpression = true)
      (parts : ∀ e ∈ es, WellFormed checked c e) :
    WellFormed checked c (.node l (.sequence (.tuple es)))
  | binary {c l op left right} (known : op ∈ BinaryOperator.table.map (·.2.1))
      (leftKind : left.isExpression = true) (leftPart : WellFormed checked c left)
      (kind : right.isExpression = true) (part : WellFormed checked c right) :
    WellFormed checked c (.node l (.binary (.text op) left right))
  | logical {c l op left right} (known : op ∈ LogicalOperator.table.map (·.2.1))
      (leftKind : left.isExpression = true) (leftPart : WellFormed checked c left)
      (kind : right.isExpression = true) (part : WellFormed checked c right) :
    WellFormed checked c (.node l (.logical (.text op) left right))
  | unary {c l op argument isPrefix} (known : op ∈ UnaryOperator.table.map (·.2))
      (kind : argument.isExpression = true) (part : WellFormed checked c argument) :
    WellFormed checked c (.node l (.unary (.text op) argument (.bool isPrefix)))
  | update {c l op argument isPrefix} (known : op ∈ UpdateOperator.table.map (·.2))
      (target : argument.isAssignable = true) (part : WellFormed checked c argument) :
    WellFormed checked c (.node l (.update (.text op) argument (.bool isPrefix)))

/-! ## Flags and sizes of parts -/

end Validity

/-- The children of a form after a map are those before it, mapped. -/
theorem Shape.children_map {α β : Type} (f : α → β) (shape : Shape α) :
    (shape.map f).children = shape.children.map fun c => (c.1, f c.2) := by
  cases shape <;> rfl

/-- What stands at a place among the children is a child. -/
theorem Shape.mem_children {α : Type} {shape : Shape α} {c : Text × α} (i : Nat)
    (h : shape.children[i]? = some c) : c ∈ shape.children := List.mem_of_getElem? h

/-- A map keeps the kind of a form. -/
theorem Shape.kind_map {α β : Type} (f : α → β) (shape : Shape α) :
    (shape.map f).kind = shape.kind := by
  cases shape with
  | function form => cases form <;> rfl
  | forEach domain => cases domain <;> rfl
  | jump kind => cases kind <;> rfl
  | _ => rfl

namespace Tree

/-- The nodes of a row are those of its items. -/
theorem nodes_tuple (items : List Tree) :
    (Tree.tuple items).nodes = (items.map nodes).flatten := by
  unfold nodes
  rw [fold, foldItems_eq_map]
  rfl

/-- The nodes of a node are itself and those of its children. -/
theorem nodes_node (l : Option Location) (shape : Shape Tree) :
    (Tree.node l shape).nodes =
      .node l shape :: (shape.children.map fun c => c.2.nodes).flatten := by
  unfold nodes
  rw [fold_node]
  simp only [nodeRules, Shape.children_map, List.map_map]
  rfl

/-- A plain value has no nodes. -/
theorem nodes_of_isPlain {t : Tree} (plain : t.isPlain = true) : t.nodes = [] := by
  cases t with
  | null | bool | int | num | text => rfl
  | _ => cases plain

/-- The nodes of a child are nodes of the tree. -/
theorem mem_nodes_child {l : Option Location} {shape : Shape Tree} {name : Text} {u v : Tree}
    (hu : (name, u) ∈ shape.children) (hv : v ∈ u.nodes) : v ∈ (Tree.node l shape).nodes := by
  rw [nodes_node]
  apply List.mem_cons_of_mem
  rw [List.mem_flatten]
  exact ⟨u.nodes, List.mem_map.mpr ⟨(name, u), hu, rfl⟩, hv⟩

/-- The nodes of an item are nodes of the row. -/
theorem mem_nodes_item {items : List Tree} {u v : Tree} (hu : u ∈ items) (hv : v ∈ u.nodes) :
    v ∈ (Tree.tuple items).nodes := by
  rw [nodes_tuple, List.mem_flatten]
  exact ⟨u.nodes, List.mem_map.mpr ⟨u, hu, rfl⟩, hv⟩

/-- The flags of a child are Booleans if those of the node are. -/
theorem FlagsAreBoolean.child {l : Option Location} {shape : Shape Tree} {name : Text} {u : Tree}
    (h : (Tree.node l shape).FlagsAreBoolean) (hu : (name, u) ∈ shape.children) :
    u.FlagsAreBoolean :=
  fun v hv => h v (mem_nodes_child hu hv)

/-- The flags of an item are Booleans if those of the row are. -/
theorem FlagsAreBoolean.item {items : List Tree} {u : Tree}
    (h : (Tree.tuple items).FlagsAreBoolean) (hu : u ∈ items) : u.FlagsAreBoolean :=
  fun v hv => h v (mem_nodes_item hu hv)

/-- The flag of a node is a Boolean if all its flags are. -/
theorem FlagsAreBoolean.self {l : Option Location} {shape : Shape Tree}
    (h : (Tree.node l shape).FlagsAreBoolean) : (Tree.node l shape).flagIsBoolean = true := by
  apply h
  rw [nodes_node]
  exact List.mem_cons_self ..

/-- A child is smaller than its node. -/
theorem sizeOf_child_lt {l : Option Location} {shape : Shape Tree} {name : Text} {u : Tree}
    (hu : (name, u) ∈ shape.children) : sizeOf u < sizeOf (Tree.node l shape) := by
  cases shape with
  | generic kind children =>
    have h : sizeOf (name, u) < sizeOf children := List.sizeOf_lt_of_mem hu
    simp only [Prod.mk.sizeOf_spec] at h
    simp only [node.sizeOf_spec, Shape.generic.sizeOf_spec]
    omega
  | _ => grind [Shape.children]

end Tree

namespace Validity

/-! ## The outcomes of the check -/

/-- A check that finds no violation. -/
def Passes (o : Outcome) : Prop := ∃ n, o = .ok n

/-- Whether a tree may stand in a place of a role. -/
def Role.allows (role : Role) (t : Tree) : Bool := t.kind?.any role.accepts

/-- A number of nodes passes. -/
theorem passes_ok (n : Nat) : Passes (.ok n) ↔ True := ⟨fun _ => trivial, fun _ => ⟨n, rfl⟩⟩

/-- An error does not pass. -/
theorem passes_error (e : CheckError) : Passes (.error e) ↔ False := by
  constructor
  · rintro ⟨n, hn⟩
    cases hn
  · exact False.elim

/-- A violation does not pass. -/
theorem passes_fail (c : Context) (l : Option Location) (v : Violation) :
    Passes (fail c l v) ↔ False := passes_error _

/-- Two outcomes in sequence pass together. -/
theorem passes_bind (a b : Outcome) :
    Passes (do let n ← a; let m ← b; return n + m) ↔ Passes a ∧ Passes b := by
  cases a with
  | error e => simp [bind, Except.bind, passes_error]
  | ok n =>
    cases b with
    | error e => simp [bind, Except.bind, passes_error]
    | ok m => simp [bind, Except.bind, pure, Except.pure, passes_ok]

/-- A check of nothing passes. -/
theorem passes_counted_nil : Passes (counted []) ↔ True := passes_ok 1

/-- Checks in order pass if each of them does. -/
theorem passes_counted_cons (part : Outcome) (rest : List Outcome) :
    Passes (counted (part :: rest)) ↔ Passes part ∧ Passes (counted rest) := by
  rw [counted, passes_bind]

/-- A place in a row or field passes when it holds a node of its role that passes. -/
theorem passes_required (c : Context) (l : Option Location) (name : Text) (role : Role)
    (value : Tree) (check : Check) :
    Passes (required c l name role value check) ↔
      role.allows value = true ∧ Passes (check (c.field name)) := by
  unfold required Role.allows
  cases hk : value.kind? with
  | none =>
    simp only [Option.any_none, Bool.false_eq_true, false_and, iff_false]
    split_ifs <;> simp [passes_fail]
  | some kind =>
    simp only [Option.any_some]
    split_ifs with h <;> simp [h, passes_fail]

/-- A field that may be empty passes if it is, or if what it holds is of its role and passes. -/
theorem passes_optional (c : Context) (l : Option Location) (name : Text) (role : Role)
    (value : Tree) (check : Check) :
    Passes (optional c l name role value check) ↔
      (value.isNull = false → role.allows value = true) ∧
        (value.isNull = false → Passes (check (c.field name))) := by
  unfold optional
  cases h : value.isNull with
  | true => simp [passes_ok]
  | false => simp [passes_required]

/-- The items of a row pass when each one has its role and passes. What an item needs to pass may
be said by any property `P` that does not depend on where it stands. -/
theorem passes_rowItems (c : Context) (l : Option Location) (name : Text) (role : Role)
    (P : Tree → Prop) (items : List Tree)
    (hP : ∀ t ∈ items, ∀ i, Passes (visit t (c.item name i)) ↔ P t) (index : Nat) :
    Passes (rowItems c l name role index (visitItems items)) ↔
      ∀ t ∈ items, role.allows t = true ∧ P t := by
  -- By induction on the items: each one has a kind for its role, and passes by itself.
  induction items generalizing index with
  | nil => simp [visitItems, rowItems, passes_ok]
  | cons t rest ih =>
    have hrest := ih (fun u hu => hP u (List.mem_cons_of_mem _ hu)) (index + 1)
    have ht := hP t (List.mem_cons_self ..) index
    rw [visitItems, rowItems, List.forall_mem_cons, ← ht, ← hrest]
    unfold Role.allows
    cases hk : t.kind? with
    | none =>
      simp only [Option.any_none, Bool.false_eq_true, false_and, iff_false]
      split_ifs <;> rw [passes_bind, passes_fail, false_and, not_false_iff] <;> trivial
    | some kind =>
      simp only [Option.any_some]
      split_ifs with h <;> rw [passes_bind] <;> simp [h, passes_fail]

/-- A row passes if it is one and all its items are of its role and pass. -/
theorem passes_row (c : Context) (l : Option Location) (name : Text) (role : Role) (value : Tree)
    (P : Tree → Prop)
    (hP : ∀ items, value = .tuple items → ∀ t ∈ items, ∀ i,
      Passes (visit t (c.item name i)) ↔ P t) :
    Passes (row c l name role value (visitRow value)) ↔
      ∃ items, value = .tuple items ∧ ∀ t ∈ items, role.allows t = true ∧ P t := by
  cases value with
  | tuple items =>
    rw [row, visitRow, passes_rowItems c l name role P items (hP items rfl)]
    simp
  | _ => simp [row, passes_fail]

/-- A row that needs an item passes if it has one besides. -/
theorem passes_nonEmptyRow (c : Context) (l : Option Location) (name : Text) (role : Role)
    (value : Tree) (P : Tree → Prop)
    (hP : ∀ items, value = .tuple items → ∀ t ∈ items, ∀ i,
      Passes (visit t (c.item name i)) ↔ P t) :
    Passes (nonEmptyRow c l name role value (visitRow value)) ↔
      ∃ items, value = .tuple items ∧ items ≠ [] ∧ ∀ t ∈ items, role.allows t = true ∧ P t := by
  have hrow := passes_row c l name role value P hP
  unfold nonEmptyRow
  split
  · simp [passes_fail]
  · rename_i hne
    rw [hrow]
    constructor
    · rintro ⟨items, rfl, h⟩
      exact ⟨items, rfl, fun h' => hne (by rw [h']), h⟩
    · rintro ⟨items, h, -, h'⟩
      exact ⟨items, h, h'⟩

/-- An operator passes if it is one of the table. -/
theorem passes_operator (c : Context) (l : Option Location) (table : List Text) (value : Tree) :
    Passes (operator c l table value) ↔ ∃ op, value = .text op ∧ op ∈ table := by
  cases value with
  | text op =>
    simp only [operator, Tree.text.injEq, exists_eq_left']
    split_ifs with h <;> simp_all [passes_ok, passes_fail]
  | _ =>
    simp only [operator]
    split_ifs <;> simp [passes_fail, passes_error]

/-- A target passes if it can be assigned to. -/
theorem passes_assignable (c : Context) (l : Option Location) (name : Text) (value : Tree) :
    Passes (assignable c l name value) ↔ value.isAssignable = true := by
  unfold assignable Tree.isAssignable
  split_ifs with h <;> simp_all [passes_ok, passes_fail]

/-- A kind of declaration passes if it is the one there is. -/
theorem passes_declarationKind (c : Context) (l : Option Location) (kind : Tree) :
    Passes (declarationKind c l kind) ↔ kind = .text Tree.varKind := by
  cases kind with
  | text t =>
    simp only [declarationKind, Tree.text.injEq]
    split_ifs with h <;> simp [h, passes_ok, passes_fail]
  | _ => simp [declarationKind, passes_fail]

/-- A jump without a label passes if a loop is around it. -/
theorem passes_bareJump (c : Context) (l : Option Location) (kind : JumpKind) :
    Passes (bareJump c l kind) ↔ c.inLoop = true := by
  unfold bareJump
  split_ifs with h <;> simp [h, passes_ok, passes_fail]

/-- A jump to a label passes if it reaches its target. -/
theorem passes_jumpTarget (c : Context) (l : Option Location) (kind : JumpKind) (name : Text) :
    Passes (jumpTarget c l kind name) ↔ c.targets.Reaches kind name := by
  unfold jumpTarget Targets.Reaches Context.targets
  cases h : c.labels.lookup name with
  | none => simp [passes_fail]
  | some onLoop =>
    simp only [Option.some.injEq, exists_eq_left']
    split_ifs with h' <;> simp_all [passes_ok, passes_fail]

/-- A label passes if no statement around has it. -/
theorem passes_freshLabel (c : Context) (l : Option Location) (name : Text) :
    Passes (freshLabel c l name) ↔ c.labels.lookup name = none := by
  unfold freshLabel
  cases h : c.labels.lookup name with
  | none => simp [passes_ok]
  | some onLoop => simp [passes_fail]

/-- A name passes if it is spelled like one. -/
theorem passes_identifierName (c : Context) (l : Option Location) (name : Tree) :
    Passes (identifierName c l name) ↔ ∃ t, name = .text t ∧ isNameLine t = true := by
  cases name with
  | text t =>
    simp only [identifierName, Tree.text.injEq, exists_eq_left']
    split_ifs with h <;> simp [h, passes_ok, passes_fail]
  | _ => simp [identifierName, passes_fail]

/-- A value passes if it is plain. -/
theorem passes_literalValue (c : Context) (l : Option Location) (value : Tree) :
    Passes (literalValue c l value) ↔ value.isPlain = true := by
  cases value <;> simp [literalValue, Tree.isPlain, passes_ok, passes_fail]

/-! ## The check decides the judgement -/

/-- A tree is of a kind if its kind is that one. -/
theorem any_kind_eq_hasKind (t : Tree) (k : Kind) : t.kind?.any (· == k) = t.hasKind k := by
  unfold Tree.hasKind
  cases t.kind? <;> rfl

/-- A tree of the kind of identifiers is one. -/
theorem hasKind_identifier {t : Tree} (h : t.hasKind .identifier = true) :
    ∃ l name, t = .node l (.identifier name) := by
  cases t with
  | node l shape =>
    cases shape with
    | identifier name => exact ⟨l, name, rfl⟩
    | function form => cases form <;> cases h
    | forEach domain => cases domain <;> cases h
    | jump kind => cases kind <;> cases h
    | _ => cases h
  | _ => cases h

/-- A tree that is to be an identifier passes when it is one that is spelled like a name. -/
theorem passes_name_iff (t : Tree) (c : Context) :
    t.hasKind .identifier = true ∧ Passes (visit t c) ↔ IsName t := by
  constructor
  · rintro ⟨hk, hp⟩
    obtain ⟨l, name, rfl⟩ := hasKind_identifier hk
    rw [visit, passes_counted_cons, passes_counted_nil, passes_identifierName] at hp
    obtain ⟨⟨t, rfl, ht⟩, -⟩ := hp
    exact .mk l ht
  · rintro ⟨l, h⟩
    refine ⟨rfl, ?_⟩
    rw [visit, passes_counted_cons, passes_counted_nil, passes_identifierName]
    exact ⟨⟨_, rfl, h⟩, trivial⟩

/-- The role of a name allows identifiers. -/
theorem allows_name (what : Text) (t : Tree) :
    Role.allows ⟨(· == .identifier), what⟩ t = t.hasKind .identifier := any_kind_eq_hasKind t _

/-- The start of a loop may be a declaration or an expression. -/
theorem allows_loopStart (t : Tree) :
    Role.loopStart.allows t = (t.hasKind .variableDeclaration || t.isExpression) := by
  unfold Role.allows Tree.hasKind Tree.isExpression
  cases t.kind? <;> rfl

/-- A required name field passes when it holds a name. -/
theorem passes_requiredName (c : Context) (l : Option Location) (field what : Text) (t : Tree) :
    Passes (required c l field ⟨(· == .identifier), what⟩ t (visit t)) ↔ IsName t := by
  rw [passes_required, allows_name, passes_name_iff]

/-- A name that may be absent passes if it is, or if it is a name. -/
theorem passes_optionalName (c : Context) (l : Option Location) (field what : Text) (t : Tree) :
    Passes (optional c l field ⟨(· == .identifier), what⟩ t (visit t)) ↔
      (t.isNull = false → IsName t) := by
  rw [passes_optional, allows_name, ← forall_and, ← forall_congr']
  intro _
  rw [passes_name_iff]

/-- What can be assigned to is an expression. -/
theorem isExpression_of_isAssignable {t : Tree} (h : t.isAssignable = true) :
    t.isExpression = true := by
  unfold Tree.isAssignable Tree.hasKind at h
  unfold Tree.isExpression
  cases hk : t.kind? with
  | none => simp [hk] at h
  | some k => cases k <;> simp_all [Kind.isExpression]

/-- The check of a tree agrees with the judgement, whatever surrounds the tree. -/
def Decides (t : Tree) : Prop := ∀ c, Passes (visit t c) ↔ WellFormed true c.targets t

/-- The well-formed identifiers are the names. -/
theorem isName_iff {checked : Bool} {c : Targets} {t : Tree} :
    t.hasKind .identifier = true ∧ WellFormed checked c t ↔ IsName t := by
  constructor
  · rintro ⟨hk, hw⟩
    obtain ⟨l, name, rfl⟩ := hasKind_identifier hk
    cases hw with
    | identifier spelled => exact .mk l spelled
  · rintro ⟨l, h⟩
    exact ⟨rfl, .identifier h⟩

section Shapes

attribute [local simp] visit

variable {l : Option Location}

/-- A row passes if its items are of its role and well-formed, given that the check decides them. -/
theorem passes_rowOf (c : Context) (field : Text) (role : Role) (value : Tree)
    (hv : ∀ items, value = .tuple items → ∀ u ∈ items, Decides u) :
    Passes (row c l field role value (visitRow value)) ↔
      ∃ items, value = .tuple items ∧
        ∀ u ∈ items, role.allows u = true ∧ WellFormed true c.targets u :=
  passes_row c l field role value (WellFormed true c.targets)
    fun items h u hu i => hv items h u hu (c.item field i)

/-- The same for a row that needs an item. -/
theorem passes_nonEmptyRowOf (c : Context) (field : Text) (role : Role) (value : Tree)
    (hv : ∀ items, value = .tuple items → ∀ u ∈ items, Decides u) :
    Passes (nonEmptyRow c l field role value (visitRow value)) ↔
      ∃ items, value = .tuple items ∧ items ≠ [] ∧
        ∀ u ∈ items, role.allows u = true ∧ WellFormed true c.targets u :=
  passes_nonEmptyRow c l field role value (WellFormed true c.targets)
    fun items h u hu i => hv items h u hu (c.item field i)

/-- A field passes if what it holds is of its role and well-formed, given that the check decides it. -/
theorem passes_requiredOf (c : Context) (field : Text) (role : Role) {value : Tree}
    (hv : Decides value) :
    Passes (required c l field role value (visit value)) ↔
      role.allows value = true ∧ WellFormed true c.targets value := by
  rw [passes_required, hv]
  rfl

/-- The same for a field that may be empty. -/
theorem passes_optionalOf (c : Context) (field : Text) (role : Role) {value : Tree}
    (hv : Decides value) :
    Passes (optional c l field role value (visit value)) ↔
      (value.isNull = false → role.allows value = true) ∧
        (value.isNull = false → WellFormed true c.targets value) := by
  rw [passes_optional, hv]
  rfl

/-- The check of a function body gives its statements. -/
theorem passes_functionBody (c : Context) {body : Tree} (hv : Decides body) :
    Passes (required c.inFunction l "body" .functionBody body (visit body)) ↔
      ∃ lb ss, body = .node lb (.block (.tuple ss)) ∧ (∀ s ∈ ss, s.isStatement = true) ∧
        ∀ s ∈ ss, WellFormed true {} s := by
  rw [passes_requiredOf _ _ _ hv]
  constructor
  · rintro ⟨hk, hw⟩
    cases hw with
    | block kinds parts => exact ⟨_, _, rfl, kinds, parts⟩
    | @function _ _ form => cases form <;> cases hk
    | @forEachDeclared _ _ domain => cases domain <;> cases hk
    | @forEach _ _ domain => cases domain <;> cases hk
    | @bareJump _ _ kind => cases kind <;> cases hk
    | @jump _ _ kind => cases kind <;> cases hk
    | _ => cases hk
  · rintro ⟨lb, ss, rfl, kinds, parts⟩
    exact ⟨rfl, .block kinds parts⟩

/-- A well-formed declarator has a name, and an expression as its initial value if it has one. -/
theorem hasKind_variableDeclarator {checked : Bool} {c : Targets} {t : Tree}
    (hk : t.hasKind .variableDeclarator = true) (hw : WellFormed checked c t) :
    ∃ le id init, t = .node le (.variableDeclarator id init) ∧ IsName id := by
  cases hw with
  | variableDeclarator name kind part => exact ⟨_, _, _, rfl, name⟩
  | @function _ _ form => cases form <;> cases hk
  | @forEachDeclared _ _ domain => cases domain <;> cases hk
  | @forEach _ _ domain => cases domain <;> cases hk
  | @bareJump _ _ kind => cases kind <;> cases hk
  | @jump _ _ kind => cases kind <;> cases hk
  | _ => cases hk

/-- The declaration in the head of a loop over a collection passes when it is one bare name. -/
theorem passes_loopDeclaration (c : Context) {ld : Option Location} {ds kind : Tree} :
    Passes (loopDeclarators c l ds) ∧
        WellFormed true c.targets (.node ld (.variableDeclaration ds kind)) ↔
      ∃ le id, ds = .tuple [.node le (.variableDeclarator id .null)] ∧
        kind = .text Tree.varKind ∧ IsName id := by
  constructor
  -- The declaration has exactly one declarator, which has no value.
  · rintro ⟨hp, hw⟩
    cases hw with
    | variableDeclaration hsome kinds parts =>
      rename_i ds
      match ds, hsome, hp, kinds, parts with
      | [d], _, hp, kinds, parts =>
        have hd := List.mem_cons_self (a := d) (l := [])
        obtain ⟨le, id, init, rfl, name⟩ := hasKind_variableDeclarator (kinds d hd) (parts d hd)
        cases hi : init.isNull with
        | true =>
          cases init <;> cases hi
          exact ⟨le, id, rfl, rfl, name⟩
        | false =>
          have hb : isBareDeclarator (.tuple [.node le (.variableDeclarator id init)]) =
              .ok init.isNull := rfl
          rw [loopDeclarators, hb, hi] at hp
          exact absurd hp (passes_fail _ _ _).mp
      | d :: e :: rest, _, hp, _, _ =>
        have hb : isBareDeclarator (.tuple (d :: e :: rest)) = .ok false := rfl
        -- Several declarators are refused, whatever they are.
        rw [loopDeclarators, hb] at hp
        exact absurd hp (passes_fail _ _ _).mp
  · rintro ⟨le, id, rfl, rfl, name⟩
    refine ⟨⟨0, rfl⟩, .variableDeclaration (by simp) ?_ ?_⟩
    · rintro d (_ | ⟨_, ⟨⟩⟩)
      rfl
    · rintro d (_ | ⟨_, ⟨⟩⟩)
      exact .variableDeclarator name (by simp [Tree.isNull]) (by simp [Tree.isNull])

/-- The check decides every item of a row. -/
def DecidesRow (value : Tree) : Prop := ∀ items, value = .tuple items → ∀ u ∈ items, Decides u

/-- A program: its statements. -/
theorem decides_program {body : Tree} (hb : DecidesRow body) :
    Decides (.node l (.program body)) := by
  intro c
  rw [visit, passes_counted_cons, passes_counted_nil, and_true, passes_rowOf c _ _ body hb]
  constructor
  · rintro ⟨ss, rfl, h⟩
    exact .program (fun s hs => (h s hs).1) fun s hs => (h s hs).2
  · intro h
    cases h with
    | program kinds parts => exact ⟨_, rfl, fun s hs => ⟨kinds s hs, parts s hs⟩⟩

/-- A function: its name, its parameters, and the body, around which there are no targets. -/
theorem decides_function {form : FunctionForm} {id params body : Tree} (hp : DecidesRow params)
    (hb : Decides body) : Decides (.node l (.function form id params body)) := by
  intro c
  -- The parameters are checked alike for both forms.
  have hparams : Passes (row c.inFunction l "params" .parameter params (visitRow params)) ↔
      ∃ ps, params = .tuple ps ∧ ∀ p ∈ ps, IsName p := by
    rw [passes_rowOf _ _ _ params hp]
    simp only [Role.parameter, allows_name, isName_iff]
  -- Only the name depends on the form: a declaration has one.
  cases form with
  | declaration =>
    rw [visit, passes_counted_cons, passes_counted_cons, passes_counted_cons, passes_counted_nil,
      and_true, hparams, passes_functionBody c hb, Role.functionName, passes_requiredName]
    constructor
    · rintro ⟨name, ⟨ps, rfl, params⟩, lb, ss, rfl, kinds, parts⟩
      exact .function (fun _ => name) (fun _ => name) params kinds parts
    · intro h
      cases h with
      | function named name params kinds parts =>
        exact ⟨named rfl, ⟨_, rfl, params⟩, _, _, rfl, kinds, parts⟩
  | expression =>
    rw [visit, passes_counted_cons, passes_counted_cons, passes_counted_cons, passes_counted_nil,
      and_true, hparams, passes_functionBody c hb, Role.functionName, passes_optionalName]
    constructor
    · rintro ⟨name, ⟨ps, rfl, params⟩, lb, ss, rfl, kinds, parts⟩
      exact .function (fun h => FunctionForm.noConfusion h) name params kinds parts
    · intro h
      cases h with
      | function named name params kinds parts =>
        exact ⟨name, ⟨_, rfl, params⟩, _, _, rfl, kinds, parts⟩

/-- A block: its statements. -/
theorem decides_block {body : Tree} (hb : DecidesRow body) : Decides (.node l (.block body)) := by
  intro c
  rw [visit, passes_counted_cons, passes_counted_nil, and_true, passes_rowOf c _ _ body hb]
  constructor
  · rintro ⟨ss, rfl, h⟩
    exact .block (fun s hs => (h s hs).1) fun s hs => (h s hs).2
  · intro h
    cases h with
    | block kinds parts => exact ⟨_, rfl, fun s hs => ⟨kinds s hs, parts s hs⟩⟩

/-- A `return`: its value, if it has one. -/
theorem decides_returnStatement {argument : Tree} (ha : Decides argument) :
    Decides (.node l (.returnStatement argument)) := by
  intro c
  rw [visit, passes_counted_cons, passes_counted_nil, and_true, passes_optionalOf c _ _ ha]
  constructor
  · rintro ⟨kind, part⟩
    exact .returnStatement kind part
  · intro h
    cases h with
    | returnStatement kind part => exact ⟨kind, part⟩

/-- A declaration: its declarators, one at least. -/
theorem decides_variableDeclaration {declarations kind : Tree} (hd : DecidesRow declarations) :
    Decides (.node l (.variableDeclaration declarations kind)) := by
  intro c
  rw [visit, passes_counted_cons, passes_counted_cons, passes_counted_nil, and_true,
    passes_declarationKind, passes_nonEmptyRowOf c _ _ declarations hd]
  simp only [Role.allows, Role.declarator, any_kind_eq_hasKind]
  constructor
  · rintro ⟨rfl, ds, rfl, hne, h⟩
    exact .variableDeclaration hne (fun d hd => (h d hd).1) fun d hd => (h d hd).2
  · intro h
    cases h with
    | variableDeclaration hne kinds parts =>
      exact ⟨rfl, _, rfl, hne, fun d hd => ⟨kinds d hd, parts d hd⟩⟩

/-- A declarator: its name, and its initial value, if it has one. -/
theorem decides_variableDeclarator {id init : Tree} (hi : Decides init) :
    Decides (.node l (.variableDeclarator id init)) := by
  intro c
  rw [visit, passes_counted_cons, passes_counted_cons, passes_counted_nil, and_true,
    Role.identifier, passes_requiredName, passes_optionalOf c _ _ hi]
  constructor
  · rintro ⟨name, kind, part⟩
    exact .variableDeclarator name kind part
  · intro h
    cases h with
    | variableDeclarator name kind part => exact ⟨name, kind, part⟩

/-- An `if`: its test and its branches, of which the second may be absent. -/
theorem decides_ifStatement {test consequent alternate : Tree} (ht : Decides test)
    (hc : Decides consequent) (ha : Decides alternate) :
    Decides (.node l (.ifStatement test consequent alternate)) := by
  intro c
  rw [visit, passes_counted_cons, passes_counted_cons, passes_counted_cons, passes_counted_nil,
    and_true, passes_requiredOf c _ _ ht, passes_requiredOf c _ _ hc, passes_optionalOf c _ _ ha]
  constructor
  · rintro ⟨⟨testKind, testPart⟩, ⟨kind, part⟩, elseKind, elsePart⟩
    exact .ifStatement testKind testPart kind part elseKind elsePart
  · intro h
    cases h with
    | ifStatement testKind testPart kind part elseKind elsePart =>
      exact ⟨⟨testKind, testPart⟩, ⟨kind, part⟩, elseKind, elsePart⟩

/-- A `for`: the parts of its head, which may be absent, and its body, around which there is a loop. -/
theorem decides_forStatement {init test step body : Tree} (hi : Decides init) (ht : Decides test)
    (hs : Decides step) (hb : Decides body) :
    Decides (.node l (.forStatement init test step body)) := by
  intro c
  rw [visit, passes_counted_cons, passes_counted_cons, passes_counted_cons, passes_counted_cons,
    passes_counted_nil, and_true, passes_optionalOf c _ _ hi, passes_optionalOf c _ _ ht,
    passes_optionalOf c _ _ hs, passes_requiredOf c.inBody _ _ hb]
  simp only [allows_loopStart, Bool.or_eq_true]
  constructor
  · rintro ⟨⟨initKind, initPart⟩, ⟨testKind, testPart⟩, ⟨stepKind, stepPart⟩, kind, part⟩
    exact .forStatement initKind initPart testKind testPart stepKind stepPart kind part
  · intro h
    cases h with
    | forStatement initKind initPart testKind testPart stepKind stepPart kind part =>
      exact ⟨⟨initKind, initPart⟩, ⟨testKind, testPart⟩, ⟨stepKind, stepPart⟩, kind, part⟩

/-- A loop over a collection: a target or one declared name, the collection, and the body. -/
theorem decides_forEach {domain : Domain} {left right body : Tree} (hl : Decides left)
    (hr : Decides right) (hb : Decides body) :
    Decides (.node l (.forEach domain left right body)) := by
  intro c
  rw [visit, passes_counted_cons, passes_counted_cons, passes_counted_cons, passes_counted_cons,
    passes_counted_nil, and_true, passes_requiredOf c _ _ hl, passes_requiredOf c _ _ hr,
    passes_requiredOf c.inBody _ _ hb, allows_loopStart]
  constructor
  -- The target is a declaration or assignable; each has a rule of its own.
  · rintro ⟨target, ⟨-, leftPart⟩, ⟨rightKind, rightPart⟩, kind, part⟩
    unfold loopTarget at target
    split at target
    · -- A declaration in the head is one bare name.
      obtain ⟨le, id, rfl, rfl, name⟩ := (passes_loopDeclaration c).mp ⟨target, leftPart⟩
      exact .forEachDeclared name rightKind rightPart kind part
    · rw [passes_assignable] at target
      exact .forEach target leftPart rightKind rightPart kind part
  · intro h
    cases h with
    | forEachDeclared name rightKind rightPart kind part =>
      obtain ⟨target, leftPart⟩ := (passes_loopDeclaration (l := l) c).mpr ⟨_, _, rfl, rfl, name⟩
      exact ⟨target, ⟨rfl, leftPart⟩, ⟨rightKind, rightPart⟩, kind, part⟩
    | forEach target leftPart rightKind rightPart kind part =>
      refine ⟨?_, ⟨?_, leftPart⟩, ⟨rightKind, rightPart⟩, kind, part⟩
      · unfold loopTarget
        split
        · cases target
        · rw [passes_assignable]
          exact target
      · rw [isExpression_of_isAssignable target, Bool.or_true]

/-- A `while`: its test and its body. -/
theorem decides_whileStatement {test body : Tree} (ht : Decides test) (hb : Decides body) :
    Decides (.node l (.whileStatement test body)) := by
  intro c
  rw [visit, passes_counted_cons, passes_counted_cons, passes_counted_nil, and_true,
    passes_requiredOf c _ _ ht, passes_requiredOf c.inBody _ _ hb]
  constructor
  · rintro ⟨⟨testKind, testPart⟩, kind, part⟩
    exact .whileStatement testKind testPart kind part
  · intro h
    cases h with
    | whileStatement testKind testPart kind part => exact ⟨⟨testKind, testPart⟩, kind, part⟩

/-- A `do`: its body and its test. -/
theorem decides_doWhileStatement {body test : Tree} (hb : Decides body) (ht : Decides test) :
    Decides (.node l (.doWhileStatement body test)) := by
  intro c
  rw [visit, passes_counted_cons, passes_counted_cons, passes_counted_nil, and_true,
    passes_requiredOf c _ _ ht, passes_requiredOf c.inBody _ _ hb]
  constructor
  · rintro ⟨⟨kind, part⟩, testKind, testPart⟩
    exact .doWhileStatement testKind testPart kind part
  · intro h
    cases h with
    | doWhileStatement testKind testPart kind part => exact ⟨⟨kind, part⟩, testKind, testPart⟩

/-- A statement of an expression: the expression. -/
theorem decides_expressionStatement {expression : Tree} (he : Decides expression) :
    Decides (.node l (.expressionStatement expression)) := by
  intro c
  rw [visit, passes_counted_cons, passes_counted_nil, and_true, passes_requiredOf c _ _ he]
  constructor
  · rintro ⟨kind, part⟩
    exact .expressionStatement kind part
  · intro h
    cases h with
    | expressionStatement kind part => exact ⟨kind, part⟩

/-- A jump: a loop around it, or the target of its label. -/
theorem decides_jump {kind : JumpKind} {label : Tree} : Decides (.node l (.jump kind label)) := by
  intro c
  rw [visit]
  -- A jump without a label needs a loop or a body around it, and one with a label needs that label.
  cases hl : label.isNull with
  | true =>
    cases label <;> cases hl
    rw [if_pos rfl, passes_counted_cons, passes_counted_nil, and_true, passes_bareJump]
    constructor
    · intro h
      exact .bareJump fun _ => h
    · intro h
      cases h with
      | bareJump inLoop => exact inLoop rfl
  | false =>
    rw [if_neg (by simp), passes_counted_cons, passes_counted_cons, passes_counted_nil,
      and_true, passes_jumpTarget, Role.label, passes_requiredName]
    constructor
    · rintro ⟨⟨ln, spelled⟩, h⟩
      exact .jump spelled fun _ => h
    · intro h
      cases h with
      | bareJump => cases hl
      | jump spelled reaches => exact ⟨.mk _ spelled, reaches rfl⟩

/-- A labeled statement: its label, which is a new one, and its body, around which there is the
label. -/
theorem decides_labeled {label body : Tree} (hb : Decides body) :
    Decides (.node l (.labeled label body)) := by
  intro c
  rw [visit, passes_counted_cons, passes_counted_cons, passes_counted_cons, passes_counted_nil,
    and_true, passes_freshLabel, Role.label, passes_requiredName, passes_requiredOf _ _ _ hb]
  constructor
  · rintro ⟨⟨ln, spelled⟩, fresh, kind, part⟩
    exact .labeled spelled (fun _ => fresh) kind part
  · intro h
    cases h with
    | labeled spelled fresh kind part => exact ⟨.mk _ spelled, fresh rfl, kind, part⟩

/-- An identifier: its name. -/
theorem decides_identifier {name : Tree} : Decides (.node l (.identifier name)) := by
  intro c
  rw [visit, passes_counted_cons, passes_counted_nil, and_true, passes_identifierName]
  constructor
  · rintro ⟨t, rfl, spelled⟩
    exact .identifier spelled
  · intro h
    cases h with
    | identifier spelled => exact ⟨_, rfl, spelled⟩

/-- A literal: its value. -/
theorem decides_literal {value : Tree} : Decides (.node l (.literal value)) := by
  intro c
  rw [visit, passes_counted_cons, passes_counted_nil, and_true, passes_literalValue]
  constructor
  · intro plain
    exact .literal plain
  · intro h
    cases h with
    | literal plain => exact plain

/-- An array: its elements. -/
theorem decides_array {elements : Tree} (he : DecidesRow elements) :
    Decides (.node l (.array elements)) := by
  intro c
  rw [visit, passes_counted_cons, passes_counted_nil, and_true, passes_rowOf c _ _ elements he]
  constructor
  · rintro ⟨es, rfl, h⟩
    exact .array (fun e he => (h e he).1) fun e he => (h e he).2
  · intro h
    cases h with
    | array kinds parts => exact ⟨_, rfl, fun e he => ⟨kinds e he, parts e he⟩⟩

/-- A call: the callee and the arguments. -/
theorem decides_call {callee arguments : Tree} (hc : Decides callee) (ha : DecidesRow arguments) :
    Decides (.node l (.call callee arguments)) := by
  intro c
  rw [visit, passes_counted_cons, passes_counted_cons, passes_counted_nil, and_true,
    passes_requiredOf c _ _ hc, passes_rowOf c _ _ arguments ha]
  constructor
  · rintro ⟨⟨kind, part⟩, es, rfl, h⟩
    exact .call kind part (fun e he => (h e he).1) fun e he => (h e he).2
  · intro h
    cases h with
    | call kind part kinds parts =>
      exact ⟨⟨kind, part⟩, _, rfl, fun e he => ⟨kinds e he, parts e he⟩⟩

/-- A member: the object, and the name of the property or an expression for it. -/
theorem decides_member {object property : Tree} {computed : Bool} (ho : Decides object)
    (hp : Decides property) : Decides (.node l (.member object property (.bool computed))) := by
  intro c
  rw [visit, passes_counted_cons, passes_counted_cons, passes_counted_nil, and_true,
    passes_requiredOf c _ _ ho]
  -- A property that is not computed is a name.
  cases computed with
  | false =>
    rw [if_neg (by simp [Tree.truthy]), Role.property, passes_requiredName]
    constructor
    · rintro ⟨⟨kind, part⟩, name⟩
      exact .member kind part name
    · intro h
      cases h with
      | member kind part name => exact ⟨⟨kind, part⟩, name⟩
  | true =>
    rw [if_pos (by simp [Tree.truthy]), passes_requiredOf c _ _ hp]
    constructor
    · rintro ⟨⟨kind, part⟩, keyKind, keyPart⟩
      exact .computedMember kind part keyKind keyPart
    · intro h
      cases h with
      | computedMember kind part keyKind keyPart => exact ⟨⟨kind, part⟩, keyKind, keyPart⟩

/-- A conditional: its test and its branches. -/
theorem decides_conditional {test consequent alternate : Tree} (ht : Decides test)
    (hc : Decides consequent) (ha : Decides alternate) :
    Decides (.node l (.conditional test consequent alternate)) := by
  intro c
  rw [visit, passes_counted_cons, passes_counted_cons, passes_counted_cons, passes_counted_nil,
    and_true, passes_requiredOf c _ _ ht, passes_requiredOf c _ _ hc, passes_requiredOf c _ _ ha]
  constructor
  · rintro ⟨⟨testKind, testPart⟩, ⟨kind, part⟩, elseKind, elsePart⟩
    exact .conditional testKind testPart kind part elseKind elsePart
  · intro h
    cases h with
    | conditional testKind testPart kind part elseKind elsePart =>
      exact ⟨⟨testKind, testPart⟩, ⟨kind, part⟩, elseKind, elsePart⟩

/-- An assignment: its operator, its target and its value. -/
theorem decides_assignment {op left right : Tree} (hl : Decides left) (hr : Decides right) :
    Decides (.node l (.assignment op left right)) := by
  intro c
  rw [visit, passes_counted_cons, passes_counted_cons, passes_counted_cons, passes_counted_cons,
    passes_counted_nil, and_true, passes_operator, passes_assignable, passes_requiredOf c _ _ hl,
    passes_requiredOf c _ _ hr]
  constructor
  · rintro ⟨⟨op, rfl, known⟩, target, ⟨-, leftPart⟩, kind, part⟩
    exact .assignment known target leftPart kind part
  · intro h
    cases h with
    | assignment known target leftPart kind part =>
      exact ⟨⟨_, rfl, known⟩, target, ⟨isExpression_of_isAssignable target, leftPart⟩, kind, part⟩

/-- A sequence: its expressions, one at least. -/
theorem decides_sequence {expressions : Tree} (he : DecidesRow expressions) :
    Decides (.node l (.sequence expressions)) := by
  intro c
  rw [visit, passes_counted_cons, passes_counted_nil, and_true,
    passes_nonEmptyRowOf c _ _ expressions he]
  constructor
  · rintro ⟨es, rfl, hne, h⟩
    exact .sequence hne (fun e he => (h e he).1) fun e he => (h e he).2
  · intro h
    cases h with
    | sequence hne kinds parts => exact ⟨_, rfl, hne, fun e he => ⟨kinds e he, parts e he⟩⟩

/-- A binary expression: its operator and its operands. -/
theorem decides_binary {op left right : Tree} (hl : Decides left) (hr : Decides right) :
    Decides (.node l (.binary op left right)) := by
  intro c
  rw [visit, passes_counted_cons, passes_counted_cons, passes_counted_cons, passes_counted_nil,
    and_true, passes_operator, passes_requiredOf c _ _ hl, passes_requiredOf c _ _ hr]
  constructor
  · rintro ⟨⟨op, rfl, known⟩, ⟨leftKind, leftPart⟩, kind, part⟩
    exact .binary known leftKind leftPart kind part
  · intro h
    cases h with
    | binary known leftKind leftPart kind part =>
      exact ⟨⟨_, rfl, known⟩, ⟨leftKind, leftPart⟩, kind, part⟩

/-- A logical expression: its operator and its operands. -/
theorem decides_logical {op left right : Tree} (hl : Decides left) (hr : Decides right) :
    Decides (.node l (.logical op left right)) := by
  intro c
  rw [visit, passes_counted_cons, passes_counted_cons, passes_counted_cons, passes_counted_nil,
    and_true, passes_operator, passes_requiredOf c _ _ hl, passes_requiredOf c _ _ hr]
  constructor
  · rintro ⟨⟨op, rfl, known⟩, ⟨leftKind, leftPart⟩, kind, part⟩
    exact .logical known leftKind leftPart kind part
  · intro h
    cases h with
    | logical known leftKind leftPart kind part =>
      exact ⟨⟨_, rfl, known⟩, ⟨leftKind, leftPart⟩, kind, part⟩

/-- A unary expression: its operator and its operand. -/
theorem decides_unary {op argument : Tree} {isPrefix : Bool} (ha : Decides argument) :
    Decides (.node l (.unary op argument (.bool isPrefix))) := by
  intro c
  rw [visit, passes_counted_cons, passes_counted_cons, passes_counted_nil, and_true,
    passes_operator, passes_requiredOf c _ _ ha]
  constructor
  · rintro ⟨⟨op, rfl, known⟩, kind, part⟩
    exact .unary known kind part
  · intro h
    cases h with
    | unary known kind part => exact ⟨⟨_, rfl, known⟩, kind, part⟩

/-- An update: its operator and its target. -/
theorem decides_update {op argument : Tree} {isPrefix : Bool} (ha : Decides argument) :
    Decides (.node l (.update op argument (.bool isPrefix))) := by
  intro c
  rw [visit, passes_counted_cons, passes_counted_cons, passes_counted_cons, passes_counted_nil,
    and_true, passes_operator, passes_assignable, passes_requiredOf c _ _ ha]
  constructor
  · rintro ⟨⟨op, rfl, known⟩, target, -, part⟩
    exact .update known target part
  · intro h
    cases h with
    | update known target part =>
      exact ⟨⟨_, rfl, known⟩, target, isExpression_of_isAssignable target, part⟩

end Shapes

/-- A flag is a Boolean. -/
theorem eq_bool_of_isFlag {t : Tree} (h : t.isFlag = true) : ∃ b, t = .bool b := by
  cases t <;> cases h
  exact ⟨_, rfl⟩

/-- On trees with Boolean flags the check passes exactly on the well-formed ones. -/
theorem decides_of_flagsAreBoolean (t : Tree) (hf : t.FlagsAreBoolean) : Decides t := by
  -- By induction on the size of the tree, by the form of the node.
  induction hn : sizeOf t using Nat.strongRecOn generalizing t with
  | _ n ih =>
    cases t with
    | node l shape =>
      have child {name : Text} {u : Tree} (i : Nat) (here : shape.children[i]? = some (name, u)) :
          Decides u := by
        have hu := Shape.mem_children i here
        exact ih _ (hn ▸ Tree.sizeOf_child_lt hu) u (hf.child hu) rfl
      -- The items of a row are smaller than the node, too.
      have row {name : Text} {u : Tree} (i : Nat) (here : shape.children[i]? = some (name, u)) :
          DecidesRow u := by
        rintro items rfl v hv
        have hu := Shape.mem_children i here
        have h1 := Tree.sizeOf_child_lt (l := l) hu
        have h2 := List.sizeOf_lt_of_mem hv
        refine ih (sizeOf v) ?_ v ((hf.child hu).item hv) rfl
        rw [Tree.tuple.sizeOf_spec] at h1
        omega
      cases shape with
      | program body => exact decides_program (row 0 rfl)
      | function form id params body => exact decides_function (row 1 rfl) (child 2 rfl)
      | returnStatement argument => exact decides_returnStatement (child 0 rfl)
      | block body => exact decides_block (row 0 rfl)
      | variableDeclaration declarations kind => exact decides_variableDeclaration (row 0 rfl)
      | variableDeclarator id init => exact decides_variableDeclarator (child 1 rfl)
      | ifStatement test consequent alternate =>
        exact decides_ifStatement (child 0 rfl) (child 1 rfl) (child 2 rfl)
      | forStatement init test step body =>
        exact decides_forStatement (child 0 rfl) (child 1 rfl) (child 2 rfl) (child 3 rfl)
      | forEach domain left right body =>
        exact decides_forEach (child 0 rfl) (child 1 rfl) (child 2 rfl)
      | whileStatement test body => exact decides_whileStatement (child 0 rfl) (child 1 rfl)
      | doWhileStatement body test => exact decides_doWhileStatement (child 0 rfl) (child 1 rfl)
      | expressionStatement expression => exact decides_expressionStatement (child 0 rfl)
      | emptyStatement =>
        intro c
        rw [visit, passes_counted_nil]
        exact ⟨fun _ => .emptyStatement, fun _ => trivial⟩
      | jump kind label => exact decides_jump
      | labeled label body => exact decides_labeled (child 1 rfl)
      | identifier name => exact decides_identifier
      | literal value => exact decides_literal
      | array elements => exact decides_array (row 0 rfl)
      | call callee arguments => exact decides_call (child 0 rfl) (row 1 rfl)
      | member object property computed =>
        obtain ⟨b, rfl⟩ := eq_bool_of_isFlag hf.self
        exact decides_member (child 0 rfl) (child 1 rfl)
      | conditional test consequent alternate =>
        exact decides_conditional (child 0 rfl) (child 1 rfl) (child 2 rfl)
      | assignment op left right => exact decides_assignment (child 1 rfl) (child 2 rfl)
      | sequence expressions => exact decides_sequence (row 0 rfl)
      | binary op left right => exact decides_binary (child 1 rfl) (child 2 rfl)
      | logical op left right => exact decides_logical (child 1 rfl) (child 2 rfl)
      | unary op argument isPrefix =>
        obtain ⟨b, rfl⟩ := eq_bool_of_isFlag hf.self
        exact decides_unary (child 1 rfl)
      | update op argument isPrefix =>
        obtain ⟨b, rfl⟩ := eq_bool_of_isFlag hf.self
        exact decides_update (child 1 rfl)
      | generic kind children =>
        intro c
        rw [visit, passes_fail, false_iff]
        intro h
        -- No rule is for generic nodes.
        cases h
    | _ =>
      intro c
      rw [visit, passes_fail, false_iff]
      · intro h
        cases h
      all_goals simp

/-- A tree with Boolean flags that passes the check is well-formed. -/
theorem wellFormed_of_validate {t : Tree} {n : Nat} (h : t.validate = .ok n)
    (hf : t.FlagsAreBoolean) : WellFormed true {} t :=
  (decides_of_flagsAreBoolean t hf {}).mp ⟨n, h⟩

/-- The flags of a node are Booleans if its own is and those of its children are. -/
theorem flagsAreBoolean_node {l : Option Location} {shape : Shape Tree}
    (own : (Tree.node l shape).flagIsBoolean = true)
    (parts : ∀ c ∈ shape.children, c.2.FlagsAreBoolean) : (Tree.node l shape).FlagsAreBoolean := by
  intro u hu
  rw [Tree.nodes_node] at hu
  rcases List.mem_cons.mp hu with rfl | hu
  · exact own
  · obtain ⟨nodes, hn, hu⟩ := List.mem_flatten.mp hu
    obtain ⟨c, hc, rfl⟩ := List.mem_map.mp hn
    exact parts c hc u hu

/-- The flags of a row are Booleans if those of its items are. -/
theorem flagsAreBoolean_tuple {items : List Tree} (h : ∀ t ∈ items, t.FlagsAreBoolean) :
    (Tree.tuple items).FlagsAreBoolean := by
  intro u hu
  rw [Tree.nodes_tuple] at hu
  obtain ⟨nodes, hn, hu⟩ := List.mem_flatten.mp hu
  obtain ⟨t, ht, rfl⟩ := List.mem_map.mp hn
  exact h t ht u hu

/-- An absent part has no flags. -/
theorem flagsAreBoolean_optional {t : Tree} (h : t.isNull = false → t.FlagsAreBoolean) :
    t.FlagsAreBoolean := by
  cases t with
  | null =>
    intro u hu
    cases hu
  | _ => exact h rfl

/-- Nor has a text. -/
theorem flagsAreBoolean_text (text : Text) : (Tree.text text).FlagsAreBoolean := by
  intro u hu
  cases hu

/-- Nor has a Boolean by itself. -/
theorem flagsAreBoolean_bool (b : Bool) : (Tree.bool b).FlagsAreBoolean := by
  intro u hu
  cases hu

/-- Nor has an absent value. -/
theorem flagsAreBoolean_null : Tree.null.FlagsAreBoolean := by
  intro u hu
  cases hu

/-- Nor has an identifier. -/
theorem flagsAreBoolean_identifier {l : Option Location} {name : Text} :
    (Tree.node l (.identifier (.text name))).FlagsAreBoolean := by
  apply flagsAreBoolean_node rfl
  intro c hc
  cases List.mem_singleton.mp hc
  exact flagsAreBoolean_text name

/-- Nor has a name. -/
theorem IsName.flagsAreBoolean {t : Tree} (h : IsName t) : t.FlagsAreBoolean := by
  obtain ⟨l, _⟩ := h
  exact flagsAreBoolean_identifier

/-- Nor has a plain value. -/
theorem flagsAreBoolean_of_isPlain {t : Tree} (h : t.isPlain = true) : t.FlagsAreBoolean := by
  cases t with
  | tuple | list | dict | node => cases h
  | _ =>
    intro u hu
    cases hu

/-- The flags of a well-formed tree are Booleans. -/
theorem WellFormed.flagsAreBoolean {checked : Bool} {c : Targets} {t : Tree}
    (h : WellFormed checked c t) : t.FlagsAreBoolean := by
  -- By induction on the judgement: the flags of the node are Boolean, and so are those of its
  -- fields.
  induction h <;> apply flagsAreBoolean_node rfl <;>
    simp only [Shape.children, List.mem_cons, List.not_mem_nil, or_false, forall_eq_or_imp,
      forall_eq, IsEmpty.forall_iff, implies_true]
  case program ih => exact flagsAreBoolean_tuple ih
  case function name params _ _ ih =>
    refine ⟨flagsAreBoolean_optional fun h => (name h).flagsAreBoolean,
      flagsAreBoolean_tuple fun p hp => (params p hp).flagsAreBoolean, flagsAreBoolean_node rfl ?_⟩
    intro c hc
    cases List.mem_singleton.mp hc
    exact flagsAreBoolean_tuple ih
  case block ih => exact flagsAreBoolean_tuple ih
  case returnStatement ih => exact flagsAreBoolean_optional ih
  case variableDeclaration ih => exact ⟨flagsAreBoolean_tuple ih, flagsAreBoolean_text _⟩
  case variableDeclarator name _ _ ih =>
    exact ⟨name.flagsAreBoolean, flagsAreBoolean_optional ih⟩
  case ifStatement test part elsePart =>
    exact ⟨test, part, flagsAreBoolean_optional elsePart⟩
  case forStatement init test step body =>
    exact ⟨flagsAreBoolean_optional init, flagsAreBoolean_optional test,
      flagsAreBoolean_optional step, body⟩
  case forEachDeclared ld le id right body name _ _ _ _ ihRight ihBody =>
    have declarator : (Tree.node le (.variableDeclarator id .null)).FlagsAreBoolean := by
      apply flagsAreBoolean_node rfl
      simp only [Shape.children, List.mem_cons, List.not_mem_nil, or_false, forall_eq_or_imp,
        forall_eq]
      exact ⟨name.flagsAreBoolean, flagsAreBoolean_null⟩
    refine ⟨flagsAreBoolean_node rfl ?_, ihRight, ihBody⟩
    simp only [Shape.children, List.mem_cons, List.not_mem_nil, or_false, forall_eq_or_imp,
      forall_eq]
    refine ⟨flagsAreBoolean_tuple ?_, flagsAreBoolean_text _⟩
    intro d hd
    cases List.mem_singleton.mp hd
    exact declarator
  case forEach left right body => exact ⟨left, right, body⟩
  case whileStatement test body => exact ⟨test, body⟩
  case doWhileStatement test body => exact ⟨body, test⟩
  case expressionStatement part => exact part
  case bareJump => exact flagsAreBoolean_null
  case jump => exact flagsAreBoolean_identifier
  case labeled body => exact ⟨flagsAreBoolean_identifier, body⟩
  case identifier => exact flagsAreBoolean_text _
  case literal plain => exact flagsAreBoolean_of_isPlain plain
  case array ih => exact flagsAreBoolean_tuple ih
  case call callee args => exact ⟨callee, flagsAreBoolean_tuple args⟩
  case member name object => exact ⟨object, name.flagsAreBoolean, flagsAreBoolean_bool _⟩
  case computedMember object property => exact ⟨object, property, flagsAreBoolean_bool _⟩
  case conditional test part elsePart => exact ⟨test, part, elsePart⟩
  case assignment left right => exact ⟨flagsAreBoolean_text _, left, right⟩
  case sequence ih => exact flagsAreBoolean_tuple ih
  case binary left right => exact ⟨flagsAreBoolean_text _, left, right⟩
  case logical left right => exact ⟨flagsAreBoolean_text _, left, right⟩
  case unary argument => exact ⟨flagsAreBoolean_text _, argument, flagsAreBoolean_bool _⟩
  case update argument => exact ⟨flagsAreBoolean_text _, argument, flagsAreBoolean_bool _⟩

/-- A well-formed tree passes the check. -/
theorem WellFormed.validate {t : Tree} (h : WellFormed true {} t) : ∃ n, t.validate = .ok n :=
  (decides_of_flagsAreBoolean t h.flagsAreBoolean {}).mpr h

/-- A well-formed tree stays one when its jumps are not looked at. -/
theorem WellFormed.unchecked {checked : Bool} {c : Targets} {t : Tree} (h : WellFormed checked c t) :
    WellFormed false c t := by
  induction h with
  | bareJump => exact .bareJump nofun
  | jump spelled => exact .jump spelled nofun
  | labeled spelled _ kind _ ih => exact .labeled spelled nofun kind ih
  | _ => constructor <;> assumption

end Validity

end TailLoop
