import TailLoop.Proofs.Elimination.Marks
import TailLoop.Proofs.Nodes

/-!
# What the check of a tree cannot look at

The check of a tree ends with a number of nodes or with a violation, but for two places in which it
looks into a field before it knows what the field holds: an operator is looked up in a table, which
needs a value that cannot change, and the declarators in the head of a loop over a collection are
taken for a row of declarators. A node with such a field trips the check (`Tree.Trips`). If the check
of a tree ends with a fault, some node of the tree trips it; a tree whose root trips it is always left
with the fault, and one with such a node anywhere is not accepted (`validate_malformed`).
-/

namespace TailLoop

namespace Tree

/-- The operator of a node. -/
def operatorField? : Tree → Option Tree
  | .node _ (.assignment op _ _) => some op
  | .node _ (.binary op _ _) => some op
  | .node _ (.logical op _ _) => some op
  | .node _ (.unary op _ _) => some op
  | .node _ (.update op _ _) => some op
  | _ => none

/-- The declarators in the head of a loop over a collection. -/
def headDeclarators? : Tree → Option Tree
  | .node _ (.forEach _ (.node _ (.variableDeclaration declarations _)) _ _) => some declarations
  | _ => none

/-- A node at which the check ends with a fault: its operator can change, or what stands for the
declarators of a loop over a collection has no length, no first item, or one without an initial
value to look at. -/
inductive Trips (u : Tree) : Fault → Prop where
  | operator {op} (field : u.operatorField? = some op) (changes : op.isFixed = false) :
    Trips u .wrongType
  | declarators {ds fault} (head : u.headDeclarators? = some ds)
      (unread : Validity.isBareDeclarator ds = .error fault) : Trips u fault

end Tree

namespace Validity

open Tree

/-! ## Faults of outcomes -/

/-- A fault of an outcome comes from one of some nodes. -/
def TracesTo (us : List Tree) (o : Outcome) : Prop :=
  ∀ fault, o = .error (.malformed fault) → ∃ u ∈ us, u.Trips fault

section Outcomes

variable {us vs : List Tree} {c : Context} {l : Option Location} {field : Text} {role : Role}
  {value : Tree}

/-- Faults that come from some nodes come from more. -/
theorem TracesTo.mono {o : Outcome} (h : TracesTo us o) (sub : us ⊆ vs) : TracesTo vs o := by
  intro fault failed
  obtain ⟨u, hu, trips⟩ := h fault failed
  exact ⟨u, sub hu, trips⟩

theorem tracesTo_ok (n : Nat) : TracesTo us (.ok n) := nofun

theorem tracesTo_fail (c : Context) (l : Option Location) (v : Violation) :
    TracesTo us (fail c l v) := nofun

/-- Two checks in order have the faults of each of them. -/
theorem tracesTo_bind {a b : Outcome} (ha : TracesTo us a) (hb : TracesTo us b) :
    TracesTo us (do let n ← a; let m ← b; return n + m) := by
  cases a with
  | error e =>
    rintro fault ⟨⟩
    exact ha fault rfl
  | ok n =>
    cases b with
    | error e =>
      rintro fault ⟨⟩
      exact hb fault rfl
    | ok m => exact tracesTo_ok _

/-- A check of nothing has no faults. -/
theorem TracesTo.nil : TracesTo us (counted []) := tracesTo_ok 1

/-- Checks in order have the faults of each of them. -/
theorem TracesTo.cons {part : Outcome} {rest : List Outcome} (first : TracesTo us part)
    (others : TracesTo us (counted rest)) : TracesTo us (counted (part :: rest)) :=
  tracesTo_bind first others

/-! Every other rule of the check gives a violation. -/

theorem tracesTo_assignable : TracesTo us (assignable c l field value) := by
  unfold assignable
  split
  · exact tracesTo_ok 0
  · exact tracesTo_fail _ _ _

theorem tracesTo_declarationKind : TracesTo us (declarationKind c l value) := by
  unfold declarationKind
  split
  · split
    · exact tracesTo_ok 0
    · exact tracesTo_fail _ _ _
  · exact tracesTo_fail _ _ _

theorem tracesTo_bareJump (kind : JumpKind) : TracesTo us (bareJump c l kind) := by
  unfold bareJump
  split
  · exact tracesTo_ok 0
  · exact tracesTo_fail _ _ _

theorem tracesTo_jumpTarget (kind : JumpKind) (name : Text) :
    TracesTo us (jumpTarget c l kind name) := by
  unfold jumpTarget
  split
  · exact tracesTo_fail _ _ _
  · split
    · exact tracesTo_ok 0
    · exact tracesTo_fail _ _ _

theorem tracesTo_freshLabel (name : Text) : TracesTo us (freshLabel c l name) := by
  unfold freshLabel
  split
  · exact tracesTo_fail _ _ _
  · exact tracesTo_ok 0

theorem tracesTo_identifierName : TracesTo us (identifierName c l value) := by
  unfold identifierName
  split
  · split
    · exact tracesTo_ok 0
    · exact tracesTo_fail _ _ _
  · exact tracesTo_fail _ _ _

theorem tracesTo_literalValue : TracesTo us (literalValue c l value) := by
  unfold literalValue
  split
  all_goals first | exact tracesTo_ok 0 | exact tracesTo_fail _ _ _

/-! Fields have the faults of the nodes that they hold. -/

/-- A field has the faults of the check of what it holds. -/
theorem tracesTo_required {check : Check} (part : ∀ c, TracesTo us (check c)) :
    TracesTo us (required c l field role value check) := by
  unfold required
  split
  · split
    · exact part _
    · exact tracesTo_fail _ _ _
  · split
    · exact tracesTo_fail _ _ _
    · exact tracesTo_fail _ _ _

/-- So does a field that may be empty. -/
theorem tracesTo_optional {check : Check} (part : ∀ c, TracesTo us (check c)) :
    TracesTo us (optional c l field role value check) := by
  unfold optional
  split
  · exact tracesTo_ok 0
  · exact tracesTo_required part

/-- Items have the faults of their checks. -/
theorem tracesTo_rowItems {checks : List (Tree × Check)}
    (parts : ∀ p ∈ checks, ∀ c, TracesTo us (p.2 c)) (index : Nat) :
    TracesTo us (rowItems c l field role index checks) := by
  induction checks generalizing index with
  | nil => exact tracesTo_ok 0
  | cons p rest ih =>
    rw [List.forall_mem_cons] at parts
    have others := ih parts.2 (index + 1)
    rw [rowItems]
    split
    · split
      · exact tracesTo_bind (parts.1 _) others
      · exact tracesTo_bind (tracesTo_fail _ _ _) others
    · split
      · exact tracesTo_bind (tracesTo_fail _ _ _) others
      · exact tracesTo_bind (tracesTo_fail _ _ _) others

/-- The checks of a row are those of its items. -/
theorem forall_visitItems {P : Check → Prop} {items : List Tree}
    (h : ∀ t ∈ items, P (visit t)) : ∀ p ∈ visitItems items, P p.2 := by
  induction items with
  | nil => exact nofun
  | cons t rest ih =>
    rw [List.forall_mem_cons] at h
    rw [visitItems]
    exact List.forall_mem_cons.mpr ⟨h.1, ih h.2⟩

/-- A row has the faults of its items. -/
theorem tracesTo_row (parts : ∀ p ∈ visitRow value, ∀ c, TracesTo us (p.2 c)) :
    TracesTo us (row c l field role value (visitRow value)) := by
  unfold row
  split
  · exact tracesTo_rowItems parts 0
  · exact tracesTo_fail _ _ _

/-- So does a row that needs an item. -/
theorem tracesTo_nonEmptyRow (parts : ∀ p ∈ visitRow value, ∀ c, TracesTo us (p.2 c)) :
    TracesTo us (nonEmptyRow c l field role value (visitRow value)) := by
  unfold nonEmptyRow
  split
  · exact tracesTo_fail _ _ _
  · exact tracesTo_row parts

/-! ## The two places -/

/-- The operator of a node is looked up before anything else of it. -/
theorem tracesTo_operator {u : Tree} {table : List Text} (found : u.operatorField? = some value)
    (mem : u ∈ us) : TracesTo us (operator c l table value) := by
  unfold operator
  split
  · split
    · exact tracesTo_ok 0
    · exact tracesTo_fail _ _ _
  · split
    · exact tracesTo_fail _ _ _
    · rename_i changes
      rintro fault ⟨⟩
      exact ⟨u, mem, .operator found (by simpa using changes)⟩

/-- The head of a loop is looked into before it is checked. -/
theorem tracesTo_loopTarget {domain : Domain} {left right body : Tree}
    (mem : .node l (.forEach domain left right body) ∈ us) :
    TracesTo us (loopTarget c l left) := by
  unfold loopTarget
  split
  · rename_i l' declarations kind
    unfold loopDeclarators
    split
    · exact tracesTo_ok 0
    · exact tracesTo_fail _ _ _
    · rename_i fault unread
      rintro _ ⟨⟩
      exact ⟨_, mem, .declarators rfl unread⟩
  · exact tracesTo_assignable

end Outcomes

/-! ## Faults of trees -/

/-- What the check finds in the parts of a node, and in the items of those that are rows, comes from
some nodes. -/
structure PartsTrace (us : List Tree) (shape : Shape Tree) : Prop where
  part {u : Tree} : u ∈ shape.parts → ∀ c, TracesTo us (visit u c)
  items {u : Tree} : u ∈ shape.parts → ∀ p ∈ visitRow u, ∀ c, TracesTo us (p.2 c)

namespace PartsTrace

variable {us : List Tree} {shape : Shape Tree} {c : Context} {l : Option Location} {field : Text}
  {role : Role} {u : Tree}

/-- A field that needs a node has the faults of the part in it. -/
theorem required (h : PartsTrace us shape) (i : Nat) (found : shape.parts[i]? = some u) :
    TracesTo us (Validity.required c l field role u (visit u)) :=
  tracesTo_required (h.part (Shape.mem_parts i found))

/-- A field that may be empty has the faults of the part in it. -/
theorem optional (h : PartsTrace us shape) (i : Nat) (found : shape.parts[i]? = some u) :
    TracesTo us (Validity.optional c l field role u (visit u)) :=
  tracesTo_optional (h.part (Shape.mem_parts i found))

/-- A row has the faults of its items. -/
theorem row (h : PartsTrace us shape) (i : Nat) (found : shape.parts[i]? = some u) :
    TracesTo us (Validity.row c l field role u (visitRow u)) :=
  tracesTo_row (h.items (Shape.mem_parts i found))

/-- A row that needs an item has the faults of its items. -/
theorem nonEmptyRow (h : PartsTrace us shape) (i : Nat) (found : shape.parts[i]? = some u) :
    TracesTo us (Validity.nonEmptyRow c l field role u (visitRow u)) :=
  tracesTo_nonEmptyRow (h.items (Shape.mem_parts i found))

end PartsTrace

/-- The check of a node has the faults of its parts, those of its operator and those of the head of a
loop. -/
theorem tracesTo_node {us : List Tree} {l : Option Location} {shape : Shape Tree}
    (parts : PartsTrace us shape) (self : .node l shape ∈ us) (c : Context) :
    TracesTo us (visit (.node l shape) c) := by
  -- By the form of the node: its own checks trace to it, and the checks of its fields to them.
  cases shape with
  | program body =>
    rw [visit]
    exact .cons (parts.row 0 rfl) .nil
  | function form id params body =>
    have inner : TracesTo us (counted
        [row c.inFunction l "params" .parameter params (visitRow params),
          required c.inFunction l "body" .functionBody body (visit body)]) :=
      .cons (parts.row 1 rfl) (.cons (parts.required 2 rfl) .nil)
    cases form with
    | declaration =>
      rw [visit]
      exact .cons (parts.required 0 rfl) inner
    | expression =>
      rw [visit]
      exact .cons (parts.optional 0 rfl) inner
  | returnStatement argument =>
    rw [visit]
    exact .cons (parts.optional 0 rfl) .nil
  | block body =>
    rw [visit]
    exact .cons (parts.row 0 rfl) .nil
  | variableDeclaration declarations kind =>
    rw [visit]
    exact .cons tracesTo_declarationKind
      (.cons (parts.nonEmptyRow 0 rfl) .nil)
  | variableDeclarator id init =>
    rw [visit]
    exact .cons (parts.required 0 rfl)
      (.cons (parts.optional 1 rfl) .nil)
  | ifStatement test consequent alternate =>
    rw [visit]
    exact .cons (parts.required 0 rfl)
      (.cons (parts.required 1 rfl)
        (.cons (parts.optional 2 rfl) .nil))
  | forStatement init test step body =>
    rw [visit]
    exact .cons (parts.optional 0 rfl)
      (.cons (parts.optional 1 rfl)
        (.cons (parts.optional 2 rfl)
          (.cons (parts.required 3 rfl) .nil)))
  | forEach domain left right body =>
    rw [visit]
    exact .cons (tracesTo_loopTarget self)
      (.cons (parts.required 0 rfl)
        (.cons (parts.required 1 rfl)
          (.cons (parts.required 2 rfl) .nil)))
  | whileStatement test body | doWhileStatement body test =>
    rw [visit]
    exact .cons (parts.required 0 rfl)
      (.cons (parts.required 1 rfl) .nil)
  | expressionStatement expression =>
    rw [visit]
    exact .cons (parts.required 0 rfl) .nil
  | emptyStatement =>
    rw [visit]
    exact .nil
  | jump kind label =>
    rw [visit]
    split
    · exact .cons (tracesTo_bareJump kind) .nil
    · exact .cons (parts.required 0 rfl)
        (.cons (tracesTo_jumpTarget kind _) .nil)
  | labeled label body =>
    rw [visit]
    exact .cons (parts.required 0 rfl)
      (.cons (tracesTo_freshLabel _)
        (.cons (parts.required 1 rfl) .nil))
  | identifier name =>
    rw [visit]
    exact .cons tracesTo_identifierName .nil
  | literal value =>
    rw [visit]
    exact .cons tracesTo_literalValue .nil
  | array elements =>
    rw [visit]
    exact .cons (parts.row 0 rfl) .nil
  | call callee arguments =>
    rw [visit]
    exact .cons (parts.required 0 rfl)
      (.cons (parts.row 1 rfl) .nil)
  | member object property computed =>
    rw [visit]
    exact .cons (parts.required 0 rfl)
      (.cons (parts.required 1 rfl) .nil)
  | conditional test consequent alternate =>
    rw [visit]
    exact .cons (parts.required 0 rfl)
      (.cons (parts.required 1 rfl)
        (.cons (parts.required 2 rfl) .nil))
  | assignment op left right =>
    rw [visit]
    exact .cons (tracesTo_operator rfl self) (.cons tracesTo_assignable
      (.cons (parts.required 1 rfl)
        (.cons (parts.required 2 rfl) .nil)))
  | sequence expressions =>
    rw [visit]
    exact .cons (parts.nonEmptyRow 0 rfl) .nil
  | binary op left right | logical op left right =>
    rw [visit]
    exact .cons (tracesTo_operator rfl self)
      (.cons (parts.required 1 rfl)
        (.cons (parts.required 2 rfl) .nil))
  | unary op argument isPrefix =>
    rw [visit]
    exact .cons (tracesTo_operator rfl self)
      (.cons (parts.required 1 rfl) .nil)
  | update op argument isPrefix =>
    rw [visit]
    exact .cons (tracesTo_operator rfl self) (.cons tracesTo_assignable
      (.cons (parts.required 1 rfl) .nil))
  | generic kind children =>
    rw [visit]
    exact tracesTo_fail _ _ _

/-- The parts of a node have the faults of its nodes, if all smaller trees have those of theirs. -/
theorem partsTrace_of_smaller {l : Option Location} {shape : Shape Tree}
    (smaller : ∀ u, sizeOf u < sizeOf (Tree.node l shape) → ∀ c, TracesTo u.nodes (visit u c)) :
    PartsTrace (Tree.node l shape).nodes shape := by
  -- What is below a part is below the node.
  have below {u : Tree} (hu : u ∈ shape.parts) : u.nodes ⊆ (Tree.node l shape).nodes := by
    intro v hv
    rw [nodes_parts]
    exact List.mem_cons_of_mem _ (List.mem_flatMap.mpr ⟨u, hu, hv⟩)
  have less {u : Tree} (hu : u ∈ shape.parts) : sizeOf u < sizeOf (Tree.node l shape) := by
    obtain ⟨_, hc, rfl⟩ := List.mem_map.mp hu
    exact Tree.sizeOf_child_lt hc
  -- A part is checked by itself, and the items of a row one by one.
  refine ⟨fun hu c => (smaller _ (less hu) c).mono (below hu), fun {u} hu => ?_⟩
  cases u with
  | tuple vs =>
    refine forall_visitItems (P := fun check => ∀ c, TracesTo _ (check c)) fun v hv c => ?_
    have row := less hu
    have item := List.sizeOf_lt_of_mem hv
    rw [Tree.tuple.sizeOf_spec] at row
    refine (smaller v (by omega) c).mono fun x hx => below hu ?_
    rw [nodes_tuple, List.mem_flatten]
    exact ⟨v.nodes, List.mem_map.mpr ⟨v, hv, rfl⟩, hx⟩
  | _ => exact nofun

/-- A fault of the check of a tree comes from one of its nodes. -/
theorem tracesTo_visit (t : Tree) : ∀ c, TracesTo t.nodes (visit t c) := by
  -- On the size, as parts may be rows, whose items are looked at as well.
  induction size : sizeOf t using Nat.strongRecOn generalizing t with
  | _ size ih =>
  cases t with
  | node l shape =>
    have parts : PartsTrace (Tree.node l shape).nodes shape :=
      partsTrace_of_smaller fun u hu => ih _ (size ▸ hu) u rfl
    refine tracesTo_node parts ?_
    rw [nodes_node]
    exact List.mem_cons_self
  | _ =>
    intro c
    rw [visit]
    · exact tracesTo_fail _ _ _
    all_goals simp

/-- An operator that can change cannot be looked up. -/
theorem operator_of_changes {op : Tree} (changes : op.isFixed = false) (c : Context)
    (l : Option Location) (table : List Text) :
    operator c l table op = .error (.malformed .wrongType) := by
  unfold operator
  split
  · cases changes
  · rw [changes]
    rfl

/-- The check of a node that trips it ends there. -/
theorem visit_of_trips {t : Tree} {fault : Fault} (h : t.Trips fault) (c : Context) :
    visit t c = .error (.malformed fault) := by
  cases h with
  -- The operator is refused before its operands are looked at.
  | operator field changes =>
    unfold operatorField? at field
    split at field
    case h_6 => cases field
    all_goals
      cases field
      rw [visit, operator_of_changes changes]
      rfl
  | declarators head unread =>
    -- The declarations are read before the kind of the target is checked.
    unfold headDeclarators? at head
    split at head
    · cases head
      rw [visit, loopTarget, loopDeclarators, unread]
      rfl
    · cases head

/-- A well-formed node does not trip the check: its operator is one of a table, and the head of a loop
over a collection declares one variable without an initial value. -/
theorem WellFormed.not_trips {checked : Bool} {c : Targets} {t : Tree} {fault : Fault}
    (wf : WellFormed checked c t) : ¬ t.Trips fault := by
  rintro (⟨field, changes⟩ | ⟨head, unread⟩)
  · cases wf <;> cases field <;> cases changes
  · cases wf with
    | forEachDeclared =>
      cases head
      cases unread
    | @forEach _ _ _ left _ _ target =>
      cases left with
      | node _ shape =>
        cases shape with
        | variableDeclaration => cases target
        | _ => cases head
      | _ => cases head
    | _ => cases head

end Validity

open Validity

/-- If the check of a tree ends with a fault, which is neither a number of nodes nor a violation, then
some node of the tree trips the check, and if the tree itself does, the check ends with the fault. A
tree with Boolean flags is not accepted if any of its nodes trips the check. -/
theorem validate_malformed (t : Tree) (fault : Fault) :
    (t.validate = .error (.malformed fault) → ∃ u ∈ t.nodes, u.Trips fault) ∧
      (t.Trips fault → t.validate = .error (.malformed fault)) ∧
      (t.FlagsAreBoolean → (∃ u ∈ t.nodes, u.Trips fault) → ∀ count, t.validate ≠ .ok count) := by
  refine ⟨tracesTo_visit t {} fault, fun trips => visit_of_trips trips {}, ?_⟩
  rintro flags ⟨u, hu, trips⟩ count accepted
  obtain ⟨_, wf⟩ := (wellFormed_of_validate accepted flags).all u hu
  exact wf.not_trips trips

/-- A loop over the keys of `x` in whose head a declaration without declarators stands. -/
def headless : Tree :=
  Tree.new (.forEach .keys (Tree.new (.variableDeclaration .null (.text Tree.varKind)))
    (.identifier "x") (Tree.new .emptyStatement))

/-- The program of a block with that loop. -/
def headlessWithin : Tree := Tree.new (.program (.tuple [Tree.new (.block (.tuple [headless]))]))

/-- The fault of a loop inside a block ends the check of the program, and comes from the loop. -/
theorem validate_malformed_headlessWithin :
    headlessWithin.validate = .error (.malformed .wrongType) ∧
      (∃ u ∈ headlessWithin.nodes, u.Trips .wrongType) ∧
      ∀ count, headlessWithin.validate ≠ .ok count := by
  obtain ⟨traced, -, refused⟩ := validate_malformed headlessWithin .wrongType
  exact ⟨rfl, traced rfl, refused (by decide) (traced rfl)⟩

/-- Not every node is given a number of nodes or a violation. -/
theorem validate_headless :
    ¬ ∀ t : Tree, t.isNode = true → (∃ count, t.validate = .ok count) ∨
      ∃ violation path location, t.validate = .error (.invalid violation path location) := by
  intro claim
  have stuck : headless.validate = .error (.malformed .wrongType) := rfl
  rcases claim headless rfl with ⟨count, passed⟩ | ⟨violation, path, location, refused⟩
  · cases stuck.symm.trans passed
  · cases stuck.symm.trans refused

end TailLoop
