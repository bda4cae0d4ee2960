import Mathlib.Data.List.Forall2
import TailLoop.Proofs.Functions

/-!
# Trees that are the same

Nodes are the same when they are of one kind and their fields are the same, whatever their locations
(`Tree.same_node`). Conversely a kind and its fields make up a node (`Shape.ofKind?`), so that what
is the same as a node is the node of its kind with fields that are the same (`Tree.parts_of_same`).

An integer is the same as the double of its value, and `true` is the same as one. A tree without
integers is told from others by what is left without locations (`Tree.bare`); `Tree.ReadAs` takes
both together, as a reader of the text of a tree gives doubles where the tree may hold integers.
-/

namespace TailLoop

/-! ## Nodes from their fields -/

namespace Shape

variable {α : Type}

/-- The form of a kind with the given fields. -/
def ofKind? : Kind → List α → Option (Shape α)
  | .program, [body] => some (.program body)
  | .functionDeclaration, [id, params, body] => some (.function .declaration id params body)
  | .functionExpression, [id, params, body] => some (.function .expression id params body)
  | .returnStatement, [argument] => some (.returnStatement argument)
  | .blockStatement, [body] => some (.block body)
  | .variableDeclaration, [declarations, kind] => some (.variableDeclaration declarations kind)
  | .variableDeclarator, [id, init] => some (.variableDeclarator id init)
  | .ifStatement, [test, consequent, alternate] => some (.ifStatement test consequent alternate)
  | .forStatement, [init, test, step, body] => some (.forStatement init test step body)
  | .forInStatement, [left, right, body] => some (.forEach .keys left right body)
  | .forOfStatement, [left, right, body] => some (.forEach .values left right body)
  | .whileStatement, [test, body] => some (.whileStatement test body)
  | .doWhileStatement, [body, test] => some (.doWhileStatement body test)
  | .expressionStatement, [expression] => some (.expressionStatement expression)
  | .emptyStatement, [] => some .emptyStatement
  | .continueStatement, [label] => some (.jump .continues label)
  | .breakStatement, [label] => some (.jump .breaks label)
  | .labeledStatement, [label, body] => some (.labeled label body)
  | .identifier, [name] => some (.identifier name)
  | .literal, [value] => some (.literal value)
  | .arrayExpression, [elements] => some (.array elements)
  | .callExpression, [callee, arguments] => some (.call callee arguments)
  | .memberExpression, [object, property, computed] => some (.member object property computed)
  | .conditionalExpression, [test, consequent, alternate] =>
    some (.conditional test consequent alternate)
  | .assignmentExpression, [operator, left, right] => some (.assignment operator left right)
  | .sequenceExpression, [expressions] => some (.sequence expressions)
  | .binaryExpression, [operator, left, right] => some (.binary operator left right)
  | .logicalExpression, [operator, left, right] => some (.logical operator left right)
  | .unaryExpression, [operator, argument, isPrefix] => some (.unary operator argument isPrefix)
  | .updateExpression, [operator, argument, isPrefix] => some (.update operator argument isPrefix)
  | _, _ => none

/-- The kind and the fields of a form make up the form. -/
theorem ofKind?_parts {shape : Shape α} (own : shape.kind ≠ .generic) :
    ofKind? shape.kind shape.parts = some shape := by
  cases shape with
  | generic => exact (own rfl).elim
  | function form => cases form <;> rfl
  | forEach domain => cases domain <;> rfl
  | jump kind => cases kind <;> rfl
  | _ => rfl

/-- A form is determined by its kind and its fields. -/
theorem eq_of_parts {shape shape' : Shape α} (own : shape.kind ≠ .generic)
    (kind : shape.kind = shape'.kind) (parts : shape.parts = shape'.parts) : shape = shape' := by
  have first := ofKind?_parts own
  rw [kind, parts, ofKind?_parts (kind ▸ own)] at first
  exact (Option.some.inj first).symm

end Shape

/-! ## Nodes that are the same -/

namespace Tree

variable {l l' : Option Location} {s s' : Shape Tree} {t u : Tree} {ts us : List Tree}

/-- The fields of a form are those of another one. -/
def SameFields (s s' : Shape Tree) : Prop :=
  List.Forall₂ (fun c d => c.1 = d.1 ∧ c.2.same d.2 = true) s.children s'.children

/-- Rows with the same names and the same fields are the same. -/
theorem sameRow_of_sameFields {cs ds : List (Text × Tree)}
    (h : List.Forall₂ (fun c d => c.1 = d.1 ∧ c.2.same d.2 = true) cs ds) :
    sameRow (cs.map fun c => (c.1, c.2.same)) ds = true := by
  induction h with
  | nil => rfl
  | cons first _ ih =>
    rw [List.map_cons, sameRow, first.1, first.2, ih, beq_self_eq_true]
    rfl

/-- Nodes of one kind with the same fields are the same. -/
theorem same_node (kind : s.kind = s'.kind) (plain : s.kind ≠ .generic) (fields : SameFields s s') :
    (node l s).same (node l' s') = true := by
  have row := sameRow_of_sameFields fields
  change fold (sameRules false) (node l s) (node l' s') = true
  rw [fold_node]
  change sameShape (s.map fun c => c.same) s' = true
  have kinds : (s.map fun c => c.same).kind = s.kind := Shape.kind_map _ s
  unfold sameShape
  rw [kinds, kind, beq_self_eq_true, Bool.true_and, Shape.children_map, row, Bool.and_true]
  split
  · rename_i tests rest kind' children same
    exact (plain (kinds.symm.trans (by rw [same]; rfl))).elim
  · rfl

/-- Tuples are the same when their items are. -/
theorem same_tuple (h : List.Forall₂ (fun t u => t.same u = true) ts us) :
    (tuple ts).same (tuple us) = true := by
  change fold (sameRules false) (tuple ts) (tuple us) = true
  rw [fold, foldItems_eq_map]
  change sameItems (ts.map fun t => t.same) us = true
  induction h with
  | nil => rfl
  | cons first _ ih =>
    rw [List.map_cons, sameItems, first, ih]
    rfl

/-- A text is the same as itself. -/
theorem same_text (x : Text) : (text x).same (text x) = true := beq_self_eq_true x

/-- A flag is the same as itself. -/
theorem same_bool (b : Bool) : (bool b).same (bool b) = true := by cases b <;> decide

/-! ## Trees without locations -/

/-- The rules that take the locations of nodes away. -/
def bareRules : Rules Tree where
  atom t := t
  tuple := .tuple
  list _ items := .list items
  dict _ entries := .dict entries
  node _ shape := .node none shape

/-- The tree without the locations of its nodes. -/
def bare (t : Tree) : Tree := fold bareRules t

/-- A node without locations. -/
theorem bare_node (l : Option Location) (shape : Shape Tree) :
    (Tree.node l shape).bare = .node none (shape.map bare) := fold_node _ _ _

/-- A row without locations. -/
theorem bare_tuple (items : List Tree) : (Tree.tuple items).bare = .tuple (items.map bare) := by
  rw [bare, fold, foldItems_eq_map]
  rfl

/-! ## Trees that are read as others -/

/-- Whether a node is no literal of an integer. -/
def isExact : Tree → Bool
  | .node _ (.literal (.int _)) => false
  | _ => true

/-- There is no literal of an integer in a tree. -/
def Exact (t : Tree) : Prop := ∀ u ∈ t.nodes, u.isExact = true

/-- A tree is read as another one, which is the same, and no other tree but for locations if there
are no integers. -/
structure ReadAs (t u : Tree) : Prop where
  same : t.same u = true
  bare : t.Exact → t.bare = u.bare

/-- A text is read as itself. -/
theorem readAs_text (x : Text) : (text x).ReadAs (text x) := ⟨same_text x, fun _ => rfl⟩

/-- A flag is read as itself. -/
theorem readAs_bool (b : Bool) : (bool b).ReadAs (bool b) := ⟨same_bool b, fun _ => rfl⟩

/-- An absent field is read as itself. -/
theorem readAs_null : null.ReadAs null := ⟨rfl, fun _ => rfl⟩

/-- Trees that are read as others, one by one, are these but for locations if there are no
integers. -/
theorem map_bare_of_readAs (h : List.Forall₂ ReadAs ts us)
    (exact : ∀ t ∈ ts, t.Exact) : ts.map Tree.bare = us.map Tree.bare := by
  induction h with
  | nil => rfl
  | cons first _ ih =>
    rw [List.forall_mem_cons] at exact
    rw [List.map_cons, List.map_cons, first.bare exact.1, ih exact.2]

/-- A row is read item by item. -/
theorem readAs_tuple (h : List.Forall₂ ReadAs ts us) : (tuple ts).ReadAs (tuple us) where
  same := same_tuple (h.imp fun _ _ => ReadAs.same)
  bare exact := by
    rw [bare_tuple, bare_tuple,
      map_bare_of_readAs h fun t ht v hv => exact v (mem_nodes_item ht hv)]

/-- A node is read as one of its kind, field by field. -/
theorem readAs_node (kind : s.kind = s'.kind) (plain : s.kind ≠ .generic)
    (fields : List.Forall₂ (fun c d => c.1 = d.1 ∧ c.2.ReadAs d.2) s.children s'.children) :
    (node l s).ReadAs (node l' s') where
  same := same_node kind plain (fields.imp fun _ _ field => ⟨field.1, field.2.same⟩)
  bare exact := by
    -- A form is known by its kind and its fields, and both agree without locations.
    have parts : List.Forall₂ ReadAs s.parts s'.parts :=
      List.forall₂_map_left_iff.mpr (List.forall₂_map_right_iff.mpr
        (fields.imp fun _ _ => And.right))
    have bares := map_bare_of_readAs parts fun t ht v hv => by
      obtain ⟨c, hc, rfl⟩ := List.mem_map.mp ht
      exact exact v (mem_nodes_child hc hv)
    rw [bare_node, bare_node]
    refine congrArg (node none) (Shape.eq_of_parts ?_ ?_ ?_)
    · rwa [Shape.kind_map]
    · rw [Shape.kind_map, Shape.kind_map, kind]
    · rw [Shape.parts_map, Shape.parts_map, bares]

/-- A literal is read as one of the same value, and as itself unless it is an integer. -/
theorem readAs_literal {v w : Tree} (same : v.same w = true)
    (exact : (node l (.literal v)).isExact = true → v = w) :
    (node l (.literal v)).ReadAs (node l' (.literal w)) where
  same := same_node rfl nofun (.cons ⟨rfl, same⟩ .nil)
  bare all := by
    have self : (node l (.literal v)).isExact = true := by
      apply all
      rw [nodes_node]
      exact List.mem_cons_self
    rw [bare_node, bare_node, exact self]

/-! ## What is the same as a tree of a form -/

/-- What is the same as a node is a node of its kind with the same fields. -/
theorem node_of_same (h : (node l s).same u = true) : ∃ l' s', u = node l' s' ∧ s.kind = s'.kind ∧
    sameRow (s.children.map fun c => (c.1, c.2.same)) s'.children = true := by
  cases u with
  | node l' s' =>
    change fold (sameRules false) (node l s) (node l' s') = true at h
    rw [fold_node] at h
    change sameShape (s.map fun c => c.same) s' = true at h
    unfold sameShape at h
    rw [Shape.kind_map, Shape.children_map, Bool.and_eq_true, Bool.and_eq_true, beq_iff_eq] at h
    exact ⟨l', s', rfl, h.1.1, h.2⟩
  | _ =>
    change fold (sameRules false) (node l s) _ = true at h
    rw [fold_node] at h
    cases h

/-- The items of tuples that are the same are the same, one by one. -/
theorem forall₂_of_sameItems (h : sameItems (ts.map same) us = true) :
    List.Forall₂ (fun t u => t.same u = true) ts us := by
  induction ts generalizing us with
  | nil =>
    cases us with
    | nil => exact .nil
    | cons => cases h
  | cons t rest ih =>
    cases us with
    | nil => cases h
    | cons u more =>
      rw [List.map_cons, sameItems, Bool.and_eq_true] at h
      exact .cons h.1 (ih h.2)

/-- The fields of nodes that are the same are the same, one by one. -/
theorem forall₂_of_sameRow {cs ds : List (Text × Tree)}
    (h : sameRow (cs.map fun c => (c.1, c.2.same)) ds = true) :
    List.Forall₂ (fun t u => t.same u = true) (cs.map (·.2)) (ds.map (·.2)) := by
  induction cs generalizing ds with
  | nil =>
    cases ds with
    | nil => exact .nil
    | cons => cases h
  | cons c rest ih =>
    cases ds with
    | nil => cases h
    | cons d more =>
      rw [List.map_cons, sameRow, Bool.and_eq_true, Bool.and_eq_true] at h
      exact .cons h.1.2 (ih h.2)

/-- What is the same as a node has fields that are the same, which its kind makes a node of. -/
theorem parts_of_same (own : s.kind ≠ .generic) (h : (node l s).same u = true) :
    ∃ l' s' us, u = node l' s' ∧ Shape.ofKind? s.kind us = some s' ∧
      List.Forall₂ (fun t u => t.same u = true) s.parts us := by
  obtain ⟨l', s', rfl, kind, row⟩ := node_of_same h
  refine ⟨l', s', s'.parts, rfl, ?_, forall₂_of_sameRow row⟩
  rw [kind]
  exact Shape.ofKind?_parts (kind ▸ own)

variable {x : Text} {a b e : Tree}

/-- Only a text is the same as one. -/
theorem text_of_same (h : (text x).same u = true) : u = text x := by
  cases u with
  | text y =>
    have equal : (x == y) = true := h
    rw [eq_of_beq equal]
  | _ => cases h

/-- What is the same as a tuple is a tuple of items that are the same. -/
theorem tuple_of_same (h : (tuple ts).same u = true) :
    ∃ us, u = tuple us ∧ List.Forall₂ (fun t u => t.same u = true) ts us := by
  unfold same at h
  rw [fold, foldItems_eq_map] at h
  cases u with
  | tuple us => exact ⟨us, rfl, forall₂_of_sameItems h⟩
  | _ => cases h

/-- What is the same as a program is a program of statements that are the same. -/
theorem program_of_same (h : (node l (.program (.tuple ts))).same u = true) :
    ∃ l' us, u = node l' (.program (.tuple us)) ∧
      List.Forall₂ (fun t u => t.same u = true) ts us := by
  obtain ⟨l', s', us, rfl, made, fields⟩ := parts_of_same (fun other => by cases other) h
  match us, fields with
  | [_], .cons body .nil =>
    obtain ⟨us, rfl, items⟩ := tuple_of_same body
    cases made
    exact ⟨l', us, rfl, items⟩

/-- What is the same as a block is a block of statements that are the same. -/
theorem block_of_same (h : (node l (.block (.tuple ts))).same u = true) :
    ∃ l' us, u = node l' (.block (.tuple us)) ∧
      List.Forall₂ (fun t u => t.same u = true) ts us := by
  obtain ⟨l', s', us, rfl, made, fields⟩ := parts_of_same (fun other => by cases other) h
  match us, fields with
  | [_], .cons body .nil =>
    obtain ⟨us, rfl, items⟩ := tuple_of_same body
    cases made
    exact ⟨l', us, rfl, items⟩

/-- What is the same as a function is one of its form, with a name, parameters and a body that are
the same. -/
theorem function_of_same {form : FunctionForm}
    (h : (node l (.function form a b e)).same u = true) :
    ∃ l' a' b' e', u = node l' (.function form a' b' e') ∧ a.same a' = true ∧ b.same b' = true ∧
      e.same e' = true := by
  obtain ⟨l', s', us, rfl, made, fields⟩ :=
    parts_of_same (fun other => by cases form <;> cases other) h
  match us, fields with
  | [_, _, _], .cons name (.cons params (.cons body .nil)) =>
    cases form <;> cases made <;> exact ⟨l', _, _, _, rfl, name, params, body⟩

/-- What is the same as a `return` is one of a value that is the same. -/
theorem returnStatement_of_same (h : (node l (.returnStatement e)).same u = true) :
    ∃ l' e', u = node l' (.returnStatement e') ∧ e.same e' = true := by
  obtain ⟨l', s', us, rfl, made, fields⟩ := parts_of_same (fun other => by cases other) h
  match us, fields with
  | [_], .cons value .nil =>
    cases made
    exact ⟨l', _, rfl, value⟩

/-- What is the same as a call is one of a function and of arguments that are the same. -/
theorem call_of_same (h : (node l (.call e (.tuple ts))).same u = true) :
    ∃ l' e' us, u = node l' (.call e' (.tuple us)) ∧ e.same e' = true ∧
      List.Forall₂ (fun t u => t.same u = true) ts us := by
  obtain ⟨l', s', us, rfl, made, fields⟩ := parts_of_same (fun other => by cases other) h
  match us, fields with
  | [_, _], .cons callee (.cons arguments .nil) =>
    obtain ⟨us, rfl, items⟩ := tuple_of_same arguments
    cases made
    exact ⟨l', _, us, rfl, callee, items⟩

/-- What is the same as an expression statement is one of an expression that is the same. -/
theorem expressionStatement_of_same (h : (node l (.expressionStatement e)).same u = true) :
    ∃ l' e', u = node l' (.expressionStatement e') ∧ e.same e' = true := by
  obtain ⟨l', s', us, rfl, made, fields⟩ := parts_of_same (fun other => by cases other) h
  match us, fields with
  | [_], .cons inner .nil =>
    cases made
    exact ⟨l', _, rfl, inner⟩

/-- What is the same as an assignment has its operator, and operands that are the same. -/
theorem assignment_of_same (h : (node l (.assignment (.text x) a b)).same u = true) :
    ∃ l' a' b', u = node l' (.assignment (.text x) a' b') ∧ a.same a' = true ∧
      b.same b' = true := by
  obtain ⟨l', s', us, rfl, made, fields⟩ := parts_of_same (fun other => by cases other) h
  match us, fields with
  | [_, _, _], .cons operator (.cons left (.cons right .nil)) =>
    cases text_of_same operator
    cases made
    exact ⟨l', _, _, rfl, left, right⟩

/-- What is the same as a name is that name. -/
theorem identifier_of_same (h : (node l (.identifier (.text x))).same u = true) :
    ∃ l', u = node l' (.identifier (.text x)) := by
  obtain ⟨l', s', us, rfl, made, fields⟩ := parts_of_same (fun other => by cases other) h
  match us, fields with
  | [_], .cons name .nil =>
    cases text_of_same name
    cases made
    exact ⟨l', rfl⟩

end Tree

end TailLoop
