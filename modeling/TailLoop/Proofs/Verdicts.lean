import Mathlib.Algebra.GroupWithZero.Nat
import TailLoop.Proofs.WellFormed

/-!
# What the check of a tree gives

On trees with Boolean flags the check decides the judgement of `WellFormed.lean`, and this module
says what it gives in both cases. On a well-formed tree it gives the number of the nodes of the tree
(`countsNodes_of_wellFormed`): every part counts the nodes of its field, and the fields that hold no
node count nothing. On any other tree the path of the violation can be followed from the root
(`pointsFrom`): the check is always at the end of the path that it keeps, and reports a field that
the node there has.
-/

namespace TailLoop

/-- Whether a violation is about a node itself and not about one of its fields. -/
def Violation.isOfNode : Violation → Bool
  | .notNode _ | .unknownKind _ | .outsideLoop _ => true
  | _ => false

/-- The nodes of a node are one more than those of its fields together. -/
theorem Tree.length_nodes_node (l : Option Location) (shape : Shape Tree) :
    (Tree.node l shape).nodes.length =
      (shape.children.map fun c => c.2.nodes.length).sum + 1 := by
  rw [nodes_node, List.length_cons, List.length_flatten, List.map_map]
  rfl

/-- The nodes of a row are those of its items together. -/
theorem Tree.length_nodes_tuple (items : List Tree) :
    (Tree.tuple items).nodes.length = (items.map fun t => t.nodes.length).sum := by
  rw [nodes_tuple, List.length_flatten, List.map_map]
  rfl

/-- A path can be followed in two parts. -/
theorem Tree.follow_append (path rest : List Tree.Step) (t : Tree) :
    t.follow (path ++ rest) = t.follow path >>= Tree.follow rest := by
  induction path generalizing t with
  | nil => rfl
  | cons step path ih => cases step <;> simp only [List.cons_append, Tree.follow, ih, bind_assoc]

namespace Validity

/-! ## The number of nodes -/

/-- An outcome that gives no other number than `n`. -/
def Counts (o : Outcome) (n : Nat) : Prop := ∀ k, o = .ok k → k = n

/-- The check of a tree counts its nodes, whatever surrounds the tree. -/
def CountsNodes (t : Tree) : Prop := ∀ c, Counts (visit t c) t.nodes.length

section Counting

variable {c : Context} {l : Option Location} {field : Text} {role : Role} {value : Tree}

/-- A number counts as itself. -/
theorem counts_ok (n : Nat) : Counts (.ok n) n := by
  rintro _ ⟨⟩
  rfl

/-- A violation counts nothing. -/
theorem counts_fail (v : Violation) (n : Nat) : Counts (fail c l v) n := nofun

/-- Two outcomes in sequence give the sum. -/
theorem counts_bind {a b : Outcome} {n m : Nat} (ha : Counts a n) (hb : Counts b m) :
    Counts (do let i ← a; let j ← b; return i + j) (n + m) := by
  intro k hk
  cases a with
  | error e => cases hk
  | ok i =>
    cases b with
    | error e => cases hk
    | ok j =>
      cases hk
      rw [ha i rfl, hb j rfl]

/-- A check of nothing counts its node. -/
theorem counts_nil : Counts (counted []) 1 := counts_ok 1

/-- Checks in order count what each of them counts. -/
theorem counts_cons {part : Outcome} {rest : List Outcome} {n m : Nat} (first : Counts part n)
    (others : Counts (counted rest) m) : Counts (counted (part :: rest)) (n + m) :=
  counts_bind first others

/-- A number may be written in another way. -/
theorem Counts.of_eq {o : Outcome} {n m : Nat} (h : Counts o n) (eq : n = m) : Counts o m :=
  eq ▸ h

/-- A field counts the nodes of the part in it. -/
theorem counts_required (part : CountsNodes value) :
    Counts (required c l field role value (visit value)) value.nodes.length := by
  unfold required
  split
  · split
    · exact part _
    · exact counts_fail _ _
  · split
    · exact counts_fail _ _
    · exact counts_fail _ _

/-- A field that may be empty counts no nodes if it is. -/
theorem counts_optional (part : value.isNull = false → CountsNodes value) :
    Counts (optional c l field role value (visit value)) value.nodes.length := by
  unfold optional
  cases value with
  | null => exact counts_ok 0
  | _ => exact counts_required (part rfl)

/-- Items count their nodes, one after the other. -/
theorem counts_rowItems {items : List Tree} (parts : ∀ t ∈ items, CountsNodes t) (index : Nat) :
    Counts (rowItems c l field role index (visitItems items))
      (items.map fun t => t.nodes.length).sum := by
  induction items generalizing index with
  | nil => exact counts_ok 0
  | cons t rest ih =>
    rw [List.forall_mem_cons] at parts
    rw [visitItems, rowItems, List.map_cons, List.sum_cons]
    have others := ih parts.2 (index + 1)
    split
    · split
      · exact counts_bind (parts.1 _) others
      · exact counts_bind (counts_fail _ _) others
    · split
      · exact counts_bind (counts_fail _ _) others
      · exact counts_bind (counts_fail _ _) others

/-- A row counts the nodes of its items. -/
theorem counts_row {items : List Tree} (parts : ∀ t ∈ items, CountsNodes t) :
    Counts (row c l field role (.tuple items) (visitRow (.tuple items)))
      (Tree.tuple items).nodes.length :=
  (counts_rowItems parts 0).of_eq (Tree.length_nodes_tuple items).symm

/-- So does a row that needs an item. -/
theorem counts_nonEmptyRow {items : List Tree} (parts : ∀ t ∈ items, CountsNodes t) :
    Counts (nonEmptyRow c l field role (.tuple items) (visitRow (.tuple items)))
      (Tree.tuple items).nodes.length := by
  cases items with
  | nil => exact counts_fail _ _
  | cons t rest => exact counts_row parts

/-! Operators, targets, names and values are looked at without counting anything. -/

/-- Operators count nothing. -/
theorem counts_operator (table : List Text) (op : Tree) : Counts (operator c l table op) 0 := by
  unfold operator
  split <;> split <;> first | exact counts_ok 0 | nofun

/-- Nor do targets, which are counted as parts. -/
theorem counts_assignable : Counts (assignable c l field value) 0 := by
  unfold assignable
  split <;> first | exact counts_ok 0 | nofun

/-- Nor do the heads of loops. -/
theorem counts_loopTarget (left : Tree) : Counts (loopTarget c l left) 0 := by
  unfold loopTarget loopDeclarators
  split
  · split <;> first | exact counts_ok 0 | nofun
  · exact counts_assignable

/-- Nor do kinds of declarations. -/
theorem counts_declarationKind (kind : Tree) : Counts (declarationKind c l kind) 0 := by
  unfold declarationKind
  repeat' split
  all_goals first | exact counts_ok 0 | nofun

/-- Nor do jumps without labels, by their rule. -/
theorem counts_bareJump (kind : JumpKind) : Counts (bareJump c l kind) 0 := by
  unfold bareJump
  split <;> first | exact counts_ok 0 | nofun

/-- Nor do the targets of labels. -/
theorem counts_jumpTarget (kind : JumpKind) (name : Text) :
    Counts (jumpTarget c l kind name) 0 := by
  unfold jumpTarget
  repeat' split
  all_goals first | exact counts_ok 0 | nofun

/-- Nor do new labels, by their rule. -/
theorem counts_freshLabel (name : Text) : Counts (freshLabel c l name) 0 := by
  unfold freshLabel
  split <;> first | exact counts_ok 0 | nofun

/-- Nor do the texts of names. -/
theorem counts_identifierName (name : Tree) : Counts (identifierName c l name) 0 := by
  unfold identifierName
  repeat' split
  all_goals first | exact counts_ok 0 | nofun

/-- Nor do the values of literals. -/
theorem counts_literalValue : Counts (literalValue c l value) 0 := by
  unfold literalValue
  split <;> first | exact counts_ok 0 | nofun

end Counting

section CountingNodes

variable {l : Option Location}

-- Plain values have no nodes. The calls of `simp` in this section count names, operators and flags
-- with these three lemmas.
attribute [local simp] Tree.length_nodes_node Tree.length_nodes_tuple Shape.children

@[local simp] theorem nodes_text (text : Text) : (Tree.text text).nodes = [] :=
  Tree.nodes_of_isPlain rfl

@[local simp] theorem nodes_bool (b : Bool) : (Tree.bool b).nodes = [] := Tree.nodes_of_isPlain rfl

@[local simp] theorem nodes_null : Tree.null.nodes = [] := Tree.nodes_of_isPlain rfl

/-- The nodes of a name are counted. -/
theorem countsNodes_of_isName {t : Tree} (name : IsName t) : CountsNodes t := by
  obtain ⟨l, _⟩ := name
  intro c
  rw [visit]
  exact (counts_cons (counts_identifierName _) counts_nil).of_eq (by simp)

/-- The nodes of a block are counted if those of its statements are. -/
theorem countsNodes_block {ss : List Tree} (parts : ∀ s ∈ ss, CountsNodes s) :
    CountsNodes (.node l (.block (.tuple ss))) := by
  intro c
  rw [visit]
  exact (counts_cons (counts_row parts) counts_nil).of_eq (by simp)

/-- The nodes of a declarator are counted if those of its initial value are. -/
theorem countsNodes_declarator {id init : Tree} (name : CountsNodes id)
    (part : init.isNull = false → CountsNodes init) :
    CountsNodes (.node l (.variableDeclarator id init)) := by
  intro c
  rw [visit]
  exact (counts_cons (counts_required name) (counts_cons (counts_optional part)
    counts_nil)).of_eq (by simp +arith)

/-- The nodes of a declaration are counted if those of its declarators are. -/
theorem countsNodes_declaration {ds : List Tree} (parts : ∀ d ∈ ds, CountsNodes d) :
    CountsNodes (.node l (.variableDeclaration (.tuple ds) (.text Tree.varKind))) := by
  intro c
  rw [visit]
  exact (counts_cons (counts_declarationKind _) (counts_cons (counts_nonEmptyRow parts)
    counts_nil)).of_eq (by simp)

/-- The check of a well-formed tree counts its nodes. -/
theorem countsNodes_of_wellFormed {checked : Bool} {targets : Targets} {t : Tree}
    (h : WellFormed checked targets t) : CountsNodes t := by
  -- The fields that hold nodes count them, and the node adds one.
  induction h with
  | program kinds _ ih | array kinds _ ih =>
    intro c
    rw [visit]
    exact (counts_cons (counts_row ih) counts_nil).of_eq (by simp)
  | block _ _ ih => exact countsNodes_block ih
  | @function _ l form _ ps lb ss named name params _ _ ih =>
    intro c
    have row : Counts (row c.inFunction l "params" .parameter (.tuple ps) (visitRow _)) _ :=
      counts_row fun p hp => countsNodes_of_isName (params p hp)
    have body : Counts (required c.inFunction l "body" .functionBody
        (.node lb (.block (.tuple ss))) (visit _)) _ :=
      counts_required (countsNodes_block ih)
    have inner := counts_cons row (counts_cons body counts_nil)
    cases form with
    | declaration =>
      rw [visit]
      exact (counts_cons (counts_required (countsNodes_of_isName (named rfl))) inner).of_eq
        (by simp +arith)
    | expression =>
      rw [visit]
      exact (counts_cons (counts_optional fun h => countsNodes_of_isName (name h)) inner).of_eq
        (by simp +arith)
  | returnStatement _ _ ih =>
    intro c
    rw [visit]
    exact (counts_cons (counts_optional ih) counts_nil).of_eq (by simp)
  | variableDeclaration _ _ _ ih => exact countsNodes_declaration ih
  | variableDeclarator name _ _ ih => exact countsNodes_declarator (countsNodes_of_isName name) ih
  | ifStatement _ _ _ _ _ _ ihTest ih ihElse =>
    intro c
    rw [visit]
    exact (counts_cons (counts_required ihTest) (counts_cons (counts_required ih)
      (counts_cons (counts_optional ihElse) counts_nil))).of_eq (by simp +arith)
  | forStatement _ _ _ _ _ _ _ _ ihInit ihTest ihStep ih =>
    intro c
    rw [visit]
    exact (counts_cons (counts_optional ihInit) (counts_cons (counts_optional ihTest)
      (counts_cons (counts_optional ihStep) (counts_cons (counts_required ih)
        counts_nil)))).of_eq (by simp +arith)
  | @forEachDeclared _ _ _ _ le id _ _ name _ _ _ _ ihRight ih =>
    intro c
    rw [visit]
    have declarator : CountsNodes (.node le (.variableDeclarator id .null)) :=
      countsNodes_declarator (countsNodes_of_isName name) (by simp [Tree.isNull])
    exact (counts_cons (counts_loopTarget _) (counts_cons
      (counts_required (countsNodes_declaration (List.forall_mem_singleton.mpr declarator)))
      (counts_cons (counts_required ihRight) (counts_cons (counts_required ih)
        counts_nil)))).of_eq (by simp +arith)
  | forEach _ _ _ _ _ _ ihLeft ihRight ih =>
    intro c
    rw [visit]
    exact (counts_cons (counts_loopTarget _) (counts_cons (counts_required ihLeft) (counts_cons
      (counts_required ihRight) (counts_cons (counts_required ih) counts_nil)))).of_eq
        (by simp +arith)
  | whileStatement _ _ _ _ ihTest ih =>
    intro c
    rw [visit]
    exact (counts_cons (counts_required ihTest) (counts_cons (counts_required ih)
      counts_nil)).of_eq (by simp +arith)
  | doWhileStatement _ _ _ _ ihTest ih =>
    intro c
    rw [visit]
    exact (counts_cons (counts_required ih) (counts_cons (counts_required ihTest)
      counts_nil)).of_eq (by simp +arith)
  | expressionStatement _ _ ih =>
    intro c
    rw [visit]
    exact (counts_cons (counts_required ih) counts_nil).of_eq (by simp)
  | emptyStatement =>
    intro c
    rw [visit]
    exact counts_nil.of_eq (by simp)
  | bareJump =>
    intro c
    rw [visit]
    exact (counts_cons (counts_bareJump _) counts_nil).of_eq (by simp)
  | jump spelled =>
    intro c
    rw [visit]
    exact (counts_cons (counts_required (countsNodes_of_isName (.mk _ spelled)))
      (counts_cons (counts_jumpTarget _ _) counts_nil)).of_eq (by simp)
  | labeled spelled _ _ _ ih =>
    intro c
    rw [visit]
    exact (counts_cons (counts_required (countsNodes_of_isName (.mk _ spelled)))
      (counts_cons (counts_freshLabel _) (counts_cons (counts_required ih) counts_nil))).of_eq
        (by simp +arith)
  | identifier spelled => exact countsNodes_of_isName (.mk _ spelled)
  | literal plain =>
    intro c
    rw [visit]
    exact (counts_cons counts_literalValue counts_nil).of_eq (by simp [Tree.nodes_of_isPlain plain])
  | call _ _ _ _ ih ihs =>
    intro c
    rw [visit]
    exact (counts_cons (counts_required ih) (counts_cons (counts_row ihs) counts_nil)).of_eq
      (by simp +arith)
  | member _ _ name ih =>
    intro c
    rw [visit]
    exact (counts_cons (counts_required ih) (counts_cons
      (counts_required (countsNodes_of_isName name)) counts_nil)).of_eq (by simp +arith)
  | computedMember _ _ _ _ ih ihKey =>
    intro c
    rw [visit]
    exact (counts_cons (counts_required ih) (counts_cons (counts_required ihKey)
      counts_nil)).of_eq (by simp +arith)
  | conditional _ _ _ _ _ _ ihTest ih ihElse =>
    intro c
    rw [visit]
    exact (counts_cons (counts_required ihTest) (counts_cons (counts_required ih)
      (counts_cons (counts_required ihElse) counts_nil))).of_eq (by simp +arith)
  | assignment _ _ _ _ _ ihLeft ih =>
    intro c
    rw [visit]
    exact (counts_cons (counts_operator _ _) (counts_cons counts_assignable
      (counts_cons (counts_required ihLeft) (counts_cons (counts_required ih)
        counts_nil)))).of_eq (by simp +arith)
  | sequence _ _ _ ih =>
    intro c
    rw [visit]
    exact (counts_cons (counts_nonEmptyRow ih) counts_nil).of_eq (by simp)
  | binary _ _ _ _ _ ihLeft ih | logical _ _ _ _ _ ihLeft ih =>
    intro c
    rw [visit]
    exact (counts_cons (counts_operator _ _) (counts_cons (counts_required ihLeft)
      (counts_cons (counts_required ih) counts_nil))).of_eq (by simp +arith)
  | unary _ _ _ ih =>
    intro c
    rw [visit]
    exact (counts_cons (counts_operator _ _) (counts_cons (counts_required ih)
      counts_nil)).of_eq (by simp)
  | update _ _ _ ih =>
    intro c
    rw [visit]
    exact (counts_cons (counts_operator _ _) (counts_cons counts_assignable
      (counts_cons (counts_required ih) counts_nil))).of_eq (by simp)

end CountingNodes

/-! ## The path of a violation -/

/-- A path, its last step first, leads to a tree. -/
def At (root : Tree) (path : List Tree.Step) (t : Tree) : Prop :=
  root.follow path.reverse = .ok t

/-- A violation in an outcome has a path that can be followed. It is empty only when the violation
is about the root itself. -/
def Points (root : Tree) (o : Outcome) : Prop :=
  ∀ v path l, o = .error (.invalid v path l) →
    (∃ u, root.follow path = .ok u) ∧ (path = [] → v.isOfNode = true)

/-- The check of a tree points into the root wherever the tree stands in it. -/
def PointsFrom (root t : Tree) : Prop := ∀ c : Context, At root c.path t → Points root (visit t c)

/-- A field of the node at a path: it stands below that path, and its check and those of its items
point into the root. -/
structure Holds (root : Tree) (path : List Tree.Step) (name : Text) (value : Tree) : Prop where
  here : At root (.field name :: path) value
  part : PointsFrom root value
  items : ∀ items, value = .tuple items → ∀ t ∈ items, PointsFrom root t

section Pointing

variable {root : Tree} {c : Context} {l : Option Location} {name : Text} {role : Role}
  {value : Tree}

/-- A field lies one step below its node. -/
theorem At.field {path : List Tree.Step} {t u : Tree} (here : At root path t)
    (h : t.field name = .ok u) : At root (.field name :: path) u := by
  unfold At
  rw [List.reverse_cons, Tree.follow_append, here]
  simp only [bind, Except.bind, Tree.follow, h]

/-- An item lies one step below its row. -/
theorem At.item {path : List Tree.Step} {before after : List Tree} {u : Tree}
    (here : At root path (.tuple (before ++ u :: after))) :
    At root (.item before.length :: path) u := by
  unfold At
  rw [List.reverse_cons, Tree.follow_append, here]
  simp [bind, Except.bind, Tree.follow, Tree.item, Tree.items, Tree.position?, pure, Except.pure]

/-- A number points nowhere. -/
theorem points_ok (n : Nat) : Points root (.ok n) := nofun

/-- A fault points nowhere. -/
theorem points_malformed (fault : Fault) : Points root (.error (.malformed fault)) := nofun

/-- A failure points to where it happens. -/
theorem points_fail {v : Violation} (here : At root c.path value)
    (own : c.path = [] → v.isOfNode = true) : Points root (fail c l v) := by
  rintro _ _ _ ⟨⟩
  exact ⟨⟨value, here⟩, fun empty => own (List.reverse_eq_nil_iff.mp empty)⟩

/-- A failure at a field points there. -/
theorem points_failAt {v : Violation} (field : Holds root c.path name value) :
    Points root (fail (c.field name) l v) :=
  points_fail field.here nofun

/-- Of two outcomes in sequence, the first failure counts. -/
theorem points_bind {a b : Outcome} (ha : Points root a) (hb : Points root b) :
    Points root (do let n ← a; let m ← b; return n + m) := by
  intro v path l failed
  cases a with
  | error e =>
    cases failed
    exact ha v path l rfl
  | ok n =>
    cases b with
    | error e =>
      cases failed
      exact hb v path l rfl
    | ok m => cases failed

/-- A check of nothing points nowhere. -/
theorem points_nil : Points root (counted []) := points_ok 1

/-- Checks in order point to places in the tree if each of them does. -/
theorem points_cons {part : Outcome} {rest : List Outcome} (first : Points root part)
    (others : Points root (counted rest)) : Points root (counted (part :: rest)) :=
  points_bind first others

/-- A violation at a field points to the field, if the field is there. -/
theorem points_required (field : Holds root c.path name value) :
    Points root (required c l name role value (visit value)) := by
  unfold required
  split
  · split
    · exact field.part _ field.here
    · exact points_failAt field
  · split
    · exact points_failAt field
    · exact points_failAt field

/-- The same for a field that may be empty. -/
theorem points_optional (field : Holds root c.path name value) :
    Points root (optional c l name role value (visit value)) := by
  unfold optional
  split
  · exact points_ok 0
  · exact points_required field

/-- The items of a row from a position on. -/
theorem points_rowItems (before after : List Tree)
    (here : At root (.field name :: c.path) (.tuple (before ++ after)))
    (parts : ∀ t ∈ after, PointsFrom root t) :
    Points root (rowItems c l name role before.length (visitItems after)) := by
  -- By induction on the items that are left, which are numbered after those before them.
  induction after generalizing before with
  | nil => exact points_ok 0
  | cons t rest ih =>
    rw [List.forall_mem_cons] at parts
    have item : At root (c.item name before.length).path t := here.item
    -- A refused item is named by its index, so that the path is not empty.
    have refused (l : Option Location) (v : Violation) :
        Points root (fail (c.item name before.length) l v) :=
      points_fail item fun empty => absurd empty (List.cons_ne_nil _ _)
    have others : Points root (rowItems c l name role (before.length + 1) (visitItems rest)) := by
      have next := ih (before ++ [t])
      rw [List.append_assoc, List.length_append] at next
      -- The first item is checked for its role, then by itself, and the others follow.
      exact next here parts.2
    rw [visitItems, rowItems]
    split
    · split
      · exact points_bind (parts.1 _ item) others
      · exact points_bind (refused _ _) others
    · split
      · exact points_bind (refused _ _) others
      · exact points_bind (refused _ _) others

/-- A violation in a row points to the row or to one of its items. -/
theorem points_row (field : Holds root c.path name value) :
    Points root (row c l name role value (visitRow value)) := by
  unfold row
  split
  · exact points_rowItems [] _ field.here (field.items _ rfl)
  · exact points_failAt field

/-- The same for a row that needs an item. -/
theorem points_nonEmptyRow (field : Holds root c.path name value) :
    Points root (nonEmptyRow c l name role value (visitRow value)) := by
  unfold nonEmptyRow
  split
  · exact points_failAt field
  · exact points_row field

/-- A violation by an operator points to it. -/
theorem points_operator {table : List Text} (field : Holds root c.path "operator" value) :
    Points root (operator c l table value) := by
  unfold operator
  split
  · split
    · exact points_ok 0
    · exact points_failAt field
  · split
    · exact points_failAt field
    · exact points_malformed _

/-- A violation by a target points to it. -/
theorem points_assignable (field : Holds root c.path name value) :
    Points root (assignable c l name value) := by
  unfold assignable
  split
  · exact points_ok 0
  · exact points_failAt field

/-- A violation by the head of a loop points to it. -/
theorem points_loopTarget (field : Holds root c.path "left" value) :
    Points root (loopTarget c l value) := by
  unfold loopTarget loopDeclarators
  split
  · split
    · exact points_ok 0
    · exact points_failAt field
    · exact points_malformed _
  · exact points_assignable field

/-- A violation by a kind of declaration points to it. -/
theorem points_declarationKind (field : Holds root c.path "kind" value) :
    Points root (declarationKind c l value) := by
  unfold declarationKind
  split
  · split
    · exact points_ok 0
    · exact points_failAt field
  · exact points_failAt field

/-- A jump without label is reported with its own path. -/
theorem points_bareJump (here : At root c.path value) (kind : JumpKind) :
    Points root (bareJump c l kind) := by
  unfold bareJump
  split
  · exact points_ok 0
  · exact points_fail here fun _ => rfl

/-- A violation by a jump points to its label. -/
theorem points_jumpTarget (field : Holds root c.path "label" value) (kind : JumpKind)
    (name : Text) : Points root (jumpTarget c l kind name) := by
  unfold jumpTarget
  split
  · exact points_failAt field
  · split
    · exact points_ok 0
    · exact points_failAt field

/-- A violation by a label points to it. -/
theorem points_freshLabel (field : Holds root c.path "label" value) (name : Text) :
    Points root (freshLabel c l name) := by
  unfold freshLabel
  split
  · exact points_failAt field
  · exact points_ok 0

/-- A violation by a name points to it. -/
theorem points_identifierName (field : Holds root c.path "name" value) :
    Points root (identifierName c l value) := by
  unfold identifierName
  split
  · split
    · exact points_ok 0
    · exact points_failAt field
  · exact points_failAt field

/-- A violation by a value points to it. -/
theorem points_literalValue (field : Holds root c.path "value" value) :
    Points root (literalValue c l value) := by
  unfold literalValue
  split
  case h_6 => exact points_failAt field
  all_goals exact points_ok 0

end Pointing

/-- The check points into the root from every tree in it. -/
theorem pointsFrom (root t : Tree) : PointsFrom root t := by
  -- What the check looks at is always a field of the node at the end of its path.
  induction hn : sizeOf t using Nat.strongRecOn generalizing t with
  | _ n ih =>
    intro c here
    cases t with
    | node l shape =>
      have field : ∀ {name u}, shape.children.lookup name = some u →
          (Tree.node l shape).field name = .ok u → Holds root c.path name u := by
        intro name u child found
        have inChildren : (name, u) ∈ shape.children := by
          obtain ⟨before, after, split, -⟩ := List.lookup_eq_some_iff.mp child
          simp [split]
        have smaller := Tree.sizeOf_child_lt (l := l) inChildren
        refine ⟨here.field found, ih _ (hn ▸ smaller) u rfl, ?_⟩
        rintro items rfl v hv
        have inItems := List.sizeOf_lt_of_mem hv
        refine ih (sizeOf v) ?_ v rfl
        rw [Tree.tuple.sizeOf_spec] at smaller
        omega
      cases shape with
      | program body | block body | array body =>
        rw [visit]
        exact points_cons (points_row (field rfl rfl)) points_nil
      | function form id params body =>
        have name : Holds root c.path "id" id := field rfl rfl
        have row : Points root (row c.inFunction l "params" .parameter params (visitRow params)) :=
          points_row (field rfl rfl)
        have body : Points root (required c.inFunction l "body" .functionBody body (visit body)) :=
          points_required (field rfl rfl)
        have inner := points_cons row (points_cons body points_nil)
        cases form with
        | declaration =>
          rw [visit]
          exact points_cons (points_required name) inner
        | expression =>
          rw [visit]
          exact points_cons (points_optional name) inner
      | returnStatement argument =>
        rw [visit]
        exact points_cons (points_optional (field rfl rfl)) points_nil
      | variableDeclaration declarations kind =>
        rw [visit]
        exact points_cons (points_declarationKind (field rfl rfl))
          (points_cons (points_nonEmptyRow (field rfl rfl)) points_nil)
      | variableDeclarator id init =>
        rw [visit]
        exact points_cons (points_required (field rfl rfl))
          (points_cons (points_optional (field rfl rfl)) points_nil)
      | ifStatement test consequent alternate =>
        rw [visit]
        exact points_cons (points_required (field rfl rfl))
          (points_cons (points_required (field rfl rfl))
          (points_cons (points_optional (field rfl rfl)) points_nil))
      | forStatement init test step body =>
        rw [visit]
        exact points_cons (points_optional (field rfl rfl))
          (points_cons (points_optional (field rfl rfl))
          (points_cons (points_optional (field rfl rfl))
          (points_cons (points_required (field rfl rfl)) points_nil)))
      | forEach domain left right body =>
        rw [visit]
        exact points_cons (points_loopTarget (field rfl rfl))
          (points_cons (points_required (field rfl rfl))
          (points_cons (points_required (field rfl rfl))
          (points_cons (points_required (field rfl rfl)) points_nil)))
      | whileStatement test body | doWhileStatement body test =>
        rw [visit]
        exact points_cons (points_required (field rfl rfl))
          (points_cons (points_required (field rfl rfl)) points_nil)
      | expressionStatement expression =>
        rw [visit]
        exact points_cons (points_required (field rfl rfl)) points_nil
      | emptyStatement =>
        rw [visit]
        exact points_nil
      | jump kind label =>
        have label : Holds root c.path "label" label := field rfl rfl
        rw [visit]
        split
        · exact points_cons (points_bareJump here kind) points_nil
        · exact points_cons (points_required label)
            (points_cons (points_jumpTarget label kind _) points_nil)
      | labeled label body =>
        have label : Holds root c.path "label" label := field rfl rfl
        rw [visit]
        exact points_cons (points_required label) (points_cons (points_freshLabel label _)
          (points_cons (points_required (field rfl rfl)) points_nil))
      | identifier name =>
        rw [visit]
        exact points_cons (points_identifierName (field rfl rfl)) points_nil
      | literal value =>
        rw [visit]
        exact points_cons (points_literalValue (field rfl rfl)) points_nil
      | call callee arguments =>
        rw [visit]
        exact points_cons (points_required (field rfl rfl))
          (points_cons (points_row (field rfl rfl)) points_nil)
      | member object property computed =>
        rw [visit]
        exact points_cons (points_required (field rfl rfl))
          (points_cons (points_required (field rfl rfl)) points_nil)
      | conditional test consequent alternate =>
        rw [visit]
        exact points_cons (points_required (field rfl rfl))
          (points_cons (points_required (field rfl rfl))
          (points_cons (points_required (field rfl rfl)) points_nil))
      | assignment op left right =>
        rw [visit]
        exact points_cons (points_operator (field rfl rfl))
          (points_cons (points_assignable (field rfl rfl))
          (points_cons (points_required (field rfl rfl))
          (points_cons (points_required (field rfl rfl)) points_nil)))
      | sequence expressions =>
        rw [visit]
        exact points_cons (points_nonEmptyRow (field rfl rfl)) points_nil
      | binary op left right | logical op left right =>
        rw [visit]
        exact points_cons (points_operator (field rfl rfl))
          (points_cons (points_required (field rfl rfl))
          (points_cons (points_required (field rfl rfl)) points_nil))
      | unary op argument isPrefix =>
        rw [visit]
        exact points_cons (points_operator (field rfl rfl))
          (points_cons (points_required (field rfl rfl)) points_nil)
      | update op argument isPrefix =>
        rw [visit]
        exact points_cons (points_operator (field rfl rfl))
          (points_cons (points_assignable (field rfl rfl))
          (points_cons (points_required (field rfl rfl)) points_nil))
      | generic kind children =>
        rw [visit]
        exact points_fail here fun _ => rfl
    | _ =>
      rw [visit]
      · exact points_fail here fun _ => rfl
      all_goals simp

end Validity

/-! ## The verdicts -/

open Validity

/-- The check gives a verdict on every tree with Boolean flags. It passes exactly on the well-formed
trees, and then gives the number of their nodes. The problem that it reports on any other tree has
the path of something in the tree, which is not empty unless the root itself is what is wrong: it is
no node, of a kind without rules, or a jump without label. -/
theorem validate_verdict (t : Tree) (flags : t.FlagsAreBoolean) :
    (∀ n, t.validate = .ok n ↔ WellFormed true {} t ∧ n = t.nodes.length) ∧
    ∀ e problem, t.validate = .error e → e.problem? = some problem →
      ∃ violation path location u, e = .invalid violation path location ∧
        problem.category = .schema ∧ problem.path = pathText path ∧ t.follow path = .ok u ∧
        (path = [] → violation.isOfNode = true) := by
  constructor
  · intro n
    constructor
    · intro passed
      have wf := wellFormed_of_validate passed flags
      -- What passes is well-formed, and each node is counted once.
      exact ⟨wf, countsNodes_of_wellFormed wf {} n passed⟩
    · rintro ⟨wf, rfl⟩
      obtain ⟨n, passed⟩ := wf.validate
      rw [passed, countsNodes_of_wellFormed wf {} n passed]
  · intro e problem failed reported
    cases e with
    | malformed fault => cases reported
    | invalid violation path location =>
      cases reported
      -- The path leads to the node that is refused.
      obtain ⟨⟨u, led⟩, own⟩ := pointsFrom t t {} rfl violation path location failed
      exact ⟨violation, path, location, u, rfl, rfl, rfl, led, own⟩

/-- A loop whose body continues a label that is on a block. -/
def strayContinue : Tree :=
  let label (name : Text) := Tree.new (.identifier (.text name))
  Tree.new (.program (.tuple [Tree.new (.labeled (label "outer") (Tree.new (.block (.tuple
    [Tree.new (.whileStatement (Tree.new (.literal (.bool true)))
      (Tree.new (.jump .continues (label "outer"))))]))))]))

/-- Its problem is reported at the label of the jump. -/
theorem validate_verdict_strayContinue : strayContinue.FlagsAreBoolean ∧
    ¬ WellFormed true {} strayContinue ∧
    ∃ e problem u, strayContinue.validate = .error e ∧ e.problem? = some problem ∧
      problem.path = "body[0].body.body[0].body.label" ∧
      strayContinue.follow [.field "body", .item 0, .field "body", .field "body", .item 0,
        .field "body", .field "label"] = .ok u ∧ u.hasKind .identifier = true := by
  have flags : strayContinue.FlagsAreBoolean := by decide
  have passes := (validate_verdict strayContinue flags).1
  refine ⟨flags, fun wf => ?_, _, _, _, rfl, rfl, rfl, rfl, rfl⟩
  have passed := (passes _).mpr ⟨wf, rfl⟩
  cases passed

end TailLoop
