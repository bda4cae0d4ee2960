import Mathlib.Data.List.Basic
import TailLoop.Proofs.Simulation.Occurrences
import TailLoop.Walker

/-!
# What a walk without handlers does

`Tree.flatten` is the tree in which every block in a row has given its place to its statements, and so
on among these; all else stays as it is (`flatten_tuple`, `flatten_node`, `inRow_block`), so that the
nodes other than blocks are still the same ones in the same order (`shells_flatten`). `Tree.unify` is
the tree in which all children of one name in a generic node are the last of them.

A walk without handlers does both (`walk_eq`): it collects the walked children of a node by name, so
that a generic node keeps only the last one of a name. The result is the flattened tree exactly if
nothing is lost in this way, and it does not change any more when it is walked again
(`walk_unhandled`). Flattening and unifying are each done once and for all (`flatten_flatten`,
`unify_unify`) and in either order (`unify_flatten`).
-/

namespace TailLoop

/-! ## Children by name -/

/-- Entries of the same name are the same. -/
def Agreeing (entries : List (Text × Tree)) : Prop :=
  ∀ c ∈ entries, ∀ d ∈ entries, c.1 = d.1 → c.2 = d.2

section Entries

variable {entries : List (Text × Tree)} {c : Text × Tree} {f : Tree → Tree}

/-- Among the entries of a name there is a last one. -/
theorem exists_last (hc : c ∈ entries) :
    ∃ t, entries.reverse.lookup c.1 = some t ∧ (c.1, t) ∈ entries := by
  have some : (entries.reverse.lookup c.1).isSome = true :=
    List.lookup_isSome_iff.2 ⟨c, List.mem_reverse.2 hc, beq_self_eq_true _⟩
  obtain ⟨t, found⟩ := Option.isSome_iff_exists.1 some
  obtain ⟨before, after, same, -⟩ := List.lookup_eq_some_iff.1 found
  refine ⟨t, found, List.mem_reverse.1 ?_⟩
  rw [same]
  exact List.mem_append_right _ (List.mem_cons_self ..)

/-- What is kept is the value of one of the entries. -/
theorem exists_of_mem_lastByName (hc : c ∈ Tree.lastByName entries) : ∃ d ∈ entries, d.2 = c.2 := by
  obtain ⟨e, he, rfl⟩ := List.mem_map.1 hc
  obtain ⟨t, found, ht⟩ := exists_last he
  exact ⟨_, ht, by rw [found]; rfl⟩

/-- By construction, children of one name are the same among the last ones of each name. -/
theorem agreeing_lastByName (entries : List (Text × Tree)) : Agreeing (Tree.lastByName entries) := by
  intro c hc d hd same
  obtain ⟨e, he, rfl⟩ := List.mem_map.1 hc
  obtain ⟨e', he', rfl⟩ := List.mem_map.1 hd
  obtain ⟨t, found, -⟩ := exists_last he
  have same : e.1 = e'.1 := same
  simp only [← same, found, Option.getD_some]

/-- The entries stay as they are exactly if those of the same name are the same. -/
theorem lastByName_eq_self_iff : Tree.lastByName entries = entries ↔ Agreeing entries := by
  constructor
  · intro same
    rw [← same]
    exact agreeing_lastByName entries
  · intro agreeing
    refine (List.map_congr_left fun c hc => ?_).trans (List.map_id entries)
    obtain ⟨t, found, ht⟩ := exists_last hc
    rw [found, Option.getD_some]
    exact Prod.ext rfl (agreeing c hc _ ht rfl).symm

/-- What is looked up among images is the image of what is looked up. -/
theorem lookup_map_snd (entries : List (Text × Tree)) (name : Text) :
    (entries.map fun c => (c.1, f c.2)).lookup name = (entries.lookup name).map f := by
  induction entries with
  | nil => rfl
  | cons c entries ih =>
    rw [List.map_cons, List.lookup_cons, List.lookup_cons, ih]
    cases name == c.1 <;> rfl

/-- The last entry of a name is chosen in the same way before and after a map. -/
theorem lastByName_map (entries : List (Text × Tree)) :
    Tree.lastByName (entries.map fun c => (c.1, f c.2)) =
      (Tree.lastByName entries).map fun c => (c.1, f c.2) := by
  rw [Tree.lastByName, Tree.lastByName, List.map_map, List.map_map]
  refine List.map_congr_left fun c _ => ?_
  simp only [Function.comp_apply, ← List.map_reverse, lookup_map_snd]
  cases entries.reverse.lookup c.1 <;> rfl

end Entries

/-! ## Forms with other children -/

namespace Shape

variable {shape : Shape Tree} {f g : Tree → Tree}

/-- The form with a function applied to its children. The kind of a generic node is no child. -/
def mapChildren (f : Tree → Tree) : Shape Tree → Shape Tree
  | .generic kind children => .generic kind (children.map fun c => (c.1, f c.2))
  | shape => shape.map f

/-- The form with the last of the children of a name in place of each of them. Only the children of a
generic node can share a name. -/
def unify : Shape Tree → Shape Tree
  | .generic kind children => .generic kind (Tree.lastByName children)
  | shape => shape

/-- Children of the same name are the same. Only those of a generic node can share a name. -/
def NamesakesAgree : Shape Tree → Prop
  | .generic _ children => Agreeing children
  | _ => True

/-- The children of the image of a form are the images of its children. -/
theorem children_mapChildren (f : Tree → Tree) (shape : Shape Tree) :
    (shape.mapChildren f).children = shape.children.map fun c => (c.1, f c.2) := by
  cases shape <;> rfl

/-- A map of the children keeps the kind. -/
theorem kind_mapChildren (f : Tree → Tree) (shape : Shape Tree) :
    (shape.mapChildren f).kind = shape.kind := by
  cases shape with
  | function form => cases form <;> rfl
  | forEach domain => cases domain <;> rfl
  | jump kind => cases kind <;> rfl
  | _ => rfl

/-- Two maps that agree on the children give the same form. -/
theorem mapChildren_congr (same : ∀ c ∈ shape.children, f c.2 = g c.2) :
    shape.mapChildren f = shape.mapChildren g := by
  cases shape with
  | generic kind children =>
    exact congrArg _ (List.map_congr_left fun c hc => by rw [same c hc])
  | _ => simp_all [mapChildren, map, children]

/-- A form stays if all its children do. -/
theorem mapChildren_eq_self_iff :
    shape.mapChildren f = shape ↔ ∀ c ∈ shape.children, f c.2 = c.2 := by
  cases shape with
  | generic kind children =>
    calc (generic kind children).mapChildren f = generic kind children
      _ ↔ children.map (fun c => (c.1, f c.2)) = children.map id := by
        rw [mapChildren, generic.injEq, List.map_id, eq_self, true_and]
      _ ↔ ∀ c ∈ children, f c.2 = c.2 := by
        rw [List.map_inj_left]
        exact forall₂_congr fun c _ => ⟨congrArg Prod.snd, fun same => Prod.ext rfl same⟩
  | _ => simp [mapChildren, map, children]

/-- Two maps, one after the other, make one. -/
theorem mapChildren_mapChildren (f g : Tree → Tree) (shape : Shape Tree) :
    (shape.mapChildren f).mapChildren g = shape.mapChildren fun t => g (f t) := by
  cases shape with
  | generic kind children => exact congrArg _ (List.map_map ..)
  | _ => rfl

/-- It does not matter whether children are unified before or after they are mapped. -/
theorem mapChildren_unify (f : Tree → Tree) (shape : Shape Tree) :
    shape.unify.mapChildren f = (shape.mapChildren f).unify := by
  cases shape with
  | generic kind children => exact congrArg _ (lastByName_map children).symm
  | _ => rfl

/-- Unifying children again changes nothing. -/
theorem unify_unify (shape : Shape Tree) : shape.unify.unify = shape.unify := by
  cases shape with
  | generic kind children =>
    exact congrArg (generic kind) (lastByName_eq_self_iff.2 (agreeing_lastByName children))
  | _ => rfl

/-- The form stays as it is exactly if children of the same name are the same. -/
theorem unify_eq_self_iff (shape : Shape Tree) : shape.unify = shape ↔ shape.NamesakesAgree := by
  cases shape with
  | generic kind children =>
    rw [unify, generic.injEq, eq_self, true_and]
    exact lastByName_eq_self_iff
  | _ => exact ⟨fun _ => trivial, fun _ => rfl⟩

/-- What a unified form holds is among the children. -/
theorem exists_of_mem_unify {c : Text × Tree} (hc : c ∈ shape.unify.children) :
    ∃ d ∈ shape.children, d.2 = c.2 := by
  cases shape with
  | generic kind children => exact exists_of_mem_lastByName hc
  | _ => exact ⟨c, hc, rfl⟩

end Shape

namespace Tree

/-! ## Trees by their parts -/

/-- Whether a tree is neither a row nor a node. -/
def isLeaf : Tree → Bool
  | .tuple _ | .node .. => false
  | _ => true

/-- What holds of rows and nodes if it holds of their parts, and of all other trees, holds of all. -/
theorem inductionOn {motive : Tree → Prop} (t : Tree)
    (leaf : ∀ t, t.isLeaf = true → motive t)
    (tuple : ∀ items, (∀ u ∈ items, motive u) → motive (.tuple items))
    (node : ∀ l shape, (∀ c ∈ shape.children, motive c.2) → motive (.node l shape)) : motive t := by
  induction size : sizeOf t using Nat.strongRecOn generalizing t with
  | _ size ih =>
    cases t with
    | tuple items =>
      refine tuple items fun u hu => ih _ ?_ u rfl
      have smaller := List.sizeOf_lt_of_mem hu
      rw [Tree.tuple.sizeOf_spec] at size
      omega
    | node l shape => exact node l shape fun c hc => ih _ (size ▸ sizeOf_child_lt hc) c.2 rfl
    | _ => exact leaf _ rfl

/-! ## Flattening -/

/-- The trees that stand for a tree in a row: the statements that a block holds, or itself. -/
def inRow : Tree → List Tree
  | .node _ (.block (.tuple statements)) => statements
  | t => [t]

/-- A node with other fields. The kind of a generic node is no child and stays as it is. -/
def withFields (t : Tree) (shape : Shape Tree) : Tree :=
  match t, shape with
  | .node l (.generic kind _), .generic _ children => .node l (.generic kind children)
  | .node l _, shape => .node l shape
  | t, _ => t

/-- The rules of flattening: blocks in rows give their place to their statements. -/
def flattenRules : Rules Tree where
  atom t := t
  tuple items := .tuple (items.flatMap inRow)
  list t _ := t
  dict t _ := t
  node t shape := t.withFields shape

/-- The tree without blocks in rows: each of them has given its place to its statements. -/
def flatten (t : Tree) : Tree := fold flattenRules t

/-- The rules of unifying: children of the same name become the last of them. -/
def unifyRules : Rules Tree where
  atom t := t
  tuple items := .tuple items
  list t _ := t
  dict t _ := t
  node t shape := t.withFields shape.unify

/-- The tree in which the children of one name of a generic node are all the last of them. -/
def unify (t : Tree) : Tree := fold unifyRules t

section Equations

variable {l : Option Location} {shape : Shape Tree} {items : List Tree} {t : Tree}

/-- Leaves stay as they are. -/
theorem flatten_of_isLeaf (leaf : t.isLeaf = true) : t.flatten = t := by
  cases t with
  | tuple | node => cases leaf
  | _ => rfl

/-- A row is flattened item by item, with the statements of blocks in the place of the blocks. -/
theorem flatten_tuple (items : List Tree) :
    (Tree.tuple items).flatten = .tuple (items.flatMap fun t => t.flatten.inRow) := by
  rw [flatten, fold, foldItems_eq_map]
  exact congrArg Tree.tuple (List.flatMap_map ..)

/-- A node is flattened child by child. -/
theorem flatten_node (l : Option Location) (shape : Shape Tree) :
    (Tree.node l shape).flatten = .node l (shape.mapChildren flatten) := by
  rw [flatten, fold_node]
  cases shape <;> rfl

/-- A block gives its place in a row to its statements, and these in the same way to theirs. -/
theorem inRow_block (l : Option Location) (items : List Tree) :
    (Tree.node l (.block (.tuple items))).flatten.inRow = items.flatMap fun t => t.flatten.inRow := by
  rw [flatten_node]
  change inRow (.node l (.block (flatten (.tuple items)))) = _
  rw [flatten_tuple, inRow]

/-- Leaves stay as they are. -/
theorem unify_of_isLeaf (leaf : t.isLeaf = true) : t.unify = t := by
  cases t with
  | tuple | node => cases leaf
  | _ => rfl

/-- A row is unified item by item. -/
theorem unify_tuple (items : List Tree) : (Tree.tuple items).unify = .tuple (items.map unify) := by
  rw [unify, fold, foldItems_eq_map]
  rfl

/-- A node is unified child by child, and then its children are. -/
theorem unify_node (l : Option Location) (shape : Shape Tree) :
    (Tree.node l shape).unify = .node l (shape.mapChildren unify).unify := by
  rw [unify, fold_node]
  cases shape <;> rfl

end Equations

/-- A tree is a block of statements, or it stands for itself in a row. -/
theorem inRow_cases (t : Tree) :
    (∃ l statements, t = .node l (.block (.tuple statements))) ∨ t.inRow = [t] := by
  unfold inRow
  split
  · exact .inl ⟨_, _, rfl⟩
  · exact .inr rfl

/-- A flat tree in a row gives its place to flat trees. -/
theorem flatten_inRow {t : Tree} (flat : t.flatten = t) :
    t.inRow.flatMap (fun u => u.flatten.inRow) = t.inRow := by
  rcases inRow_cases t with ⟨l, statements, rfl⟩ | single
  · calc statements.flatMap (fun u => u.flatten.inRow)
      _ = (Tree.node l (.block (.tuple statements))).flatten.inRow := (inRow_block l statements).symm
      _ = (Tree.node l (.block (.tuple statements))).inRow := congrArg inRow flat
  · rw [single, List.flatMap_singleton, flat, single]

/-- Flattening a flattened tree changes nothing. -/
theorem flatten_flatten (t : Tree) : t.flatten.flatten = t.flatten := by
  induction t using inductionOn with
  | leaf t leaf => rw [flatten_of_isLeaf leaf, flatten_of_isLeaf leaf]
  | tuple items ih =>
    rw [flatten_tuple, flatten_tuple, List.flatMap_assoc]
    exact congrArg _ (List.flatMap_congr fun u hu => flatten_inRow (ih u hu))
  | node l shape ih =>
    rw [flatten_node, flatten_node, Shape.mapChildren_mapChildren]
    exact congrArg _ (Shape.mapChildren_congr ih)

/-- Unifying goes through the row that a tree stands for. -/
theorem unify_inRow (t : Tree) : t.unify.inRow = t.inRow.map unify := by
  cases t with
  | tuple items =>
    rw [unify_tuple]
    exact congrArg (fun u => [u]) (unify_tuple items).symm
  | node l shape =>
    cases shape with
    | block body =>
      -- A block stands for statements only if its body is a row, and unifying makes a row of a row
      -- only.
      cases body with
      | tuple statements =>
        rw [unify_node]
        change inRow (.node l (.block (unify (.tuple statements)))) = _
        rw [unify_tuple]
        rfl
      | node l' inner =>
        have whole : (node l (.block (.node l' inner))).unify =
            .node l (.block (.node l' (inner.mapChildren unify).unify)) := by
          rw [unify_node]
          exact congrArg (fun u => node l (.block u)) (unify_node l' inner)
        rw [whole]
        exact congrArg (fun u => [u]) whole.symm
      | _ => rfl
    | _ => rfl
  | _ => rfl

/-- It does not matter whether a tree is flattened or unified first. -/
theorem unify_flatten (t : Tree) : t.flatten.unify = t.unify.flatten := by
  induction t using inductionOn with
  | leaf t leaf =>
    rw [flatten_of_isLeaf leaf, unify_of_isLeaf leaf, flatten_of_isLeaf leaf]
  | tuple items ih =>
    rw [flatten_tuple, unify_tuple, unify_tuple, flatten_tuple, List.map_flatMap, List.flatMap_map]
    refine congrArg _ (List.flatMap_congr fun u hu => ?_)
    rw [← unify_inRow, ih u hu]
  | node l shape ih =>
    rw [flatten_node, unify_node, unify_node, flatten_node, Shape.mapChildren_unify,
      Shape.mapChildren_mapChildren, Shape.mapChildren_mapChildren]
    rw [Shape.mapChildren_congr (g := fun t => t.unify.flatten) ih]

/-- Unifying a tree again changes nothing. -/
theorem unify_unify (t : Tree) : t.unify.unify = t.unify := by
  induction t using inductionOn with
  | leaf t leaf => rw [unify_of_isLeaf leaf, unify_of_isLeaf leaf]
  | tuple items ih =>
    rw [unify_tuple, unify_tuple, List.map_map]
    exact congrArg _ (List.map_congr_left ih)
  | node l shape ih =>
    rw [unify_node, unify_node, Shape.mapChildren_unify, Shape.unify_unify,
      Shape.mapChildren_mapChildren]
    rw [Shape.mapChildren_congr ih]

/-! ## Namesakes -/

/-- Children of one name of a generic node are the same. -/
def ChildrenAgree : Tree → Prop
  | .node _ shape => shape.NamesakesAgree
  | _ => True

/-- In all generic nodes of a tree, children of one name are the same. -/
def NamesakesAgree (t : Tree) : Prop := t.All ChildrenAgree

/-- Unifying changes nothing exactly if children of one name are the same. -/
theorem unify_eq_self_iff (t : Tree) : t.unify = t ↔ t.NamesakesAgree := by
  induction t using inductionOn with
  | leaf t leaf =>
    refine iff_of_true (unify_of_isLeaf leaf) fun u hu => ?_
    cases t with
    | tuple | node => cases leaf
    | _ => cases hu
  | tuple items ih =>
    calc (Tree.tuple items).unify = .tuple items
      _ ↔ items.map unify = items.map id := by rw [unify_tuple, Tree.tuple.injEq, List.map_id]
      _ ↔ ∀ u ∈ items, u.NamesakesAgree := by
        rw [List.map_inj_left]
        exact forall₂_congr ih
      _ ↔ (Tree.tuple items).NamesakesAgree := all_tuple.symm
  | node l shape ih =>
    rw [unify_node, Tree.node.injEq, eq_self, true_and, NamesakesAgree, all_node]
    constructor
    · intro same
      -- The form comes out of unifying, so that it is unified itself, and what is left of the
      -- equation says that its children stay as they are.
      have unified : shape.unify = shape := by rw [← same, Shape.unify_unify]
      rw [← Shape.mapChildren_unify, unified] at same
      exact ⟨(Shape.unify_eq_self_iff shape).1 unified, fun c hc =>
        (ih c hc).1 (Shape.mapChildren_eq_self_iff.1 same c hc)⟩
    · rintro ⟨own, parts⟩
      have same : shape.mapChildren unify = shape :=
        Shape.mapChildren_eq_self_iff.2 fun c hc => (ih c hc).2 (parts c hc)
      rw [same]
      exact (Shape.unify_eq_self_iff shape).2 own

/-! ## What flattening keeps -/

/-- A node with the plain values that it holds itself, and nothing in place of rows and nodes. -/
def shell : Tree → Tree
  | .node l shape => .node l (shape.mapChildren fun t => if t.isLeaf then t else .null)
  | t => t

/-- The nodes of a tree other than blocks, in order, as they are without the trees below them. -/
def shells (t : Tree) : List Tree := (t.nodes.filter fun u => !u.hasKind .blockStatement).map shell

/-- The shells of a row are those of its items. -/
theorem shells_tuple (items : List Tree) : (Tree.tuple items).shells = items.flatMap shells := by
  rw [shells, nodes_tuple, ← List.flatMap_def, List.filter_flatMap, List.map_flatMap]
  rfl

/-- A node has a shell unless it is a block, and those of its children come after it. -/
theorem shells_node (l : Option Location) (shape : Shape Tree) :
    (Tree.node l shape).shells =
      (if shape.kind = .blockStatement then [] else [shell (.node l shape)]) ++
        shape.children.flatMap fun c => c.2.shells := by
  rw [shells, nodes_node, ← List.flatMap_def, List.filter_cons, List.filter_flatMap]
  have own : (!(Tree.node l shape).hasKind .blockStatement) =
    !decide (shape.kind = .blockStatement) :=
    congrArg (!·) (Option.some_beq_some.trans (beq_eq_decide _ _))
  rw [own]
  by_cases block : shape.kind = .blockStatement
  · simp only [block, decide_true, Bool.not_true, Bool.false_eq_true, if_false, if_true,
      List.map_flatMap, List.nil_append]
    rfl
  · simp only [block, decide_false, Bool.not_false, if_true, if_false, List.map_cons,
      List.map_flatMap, List.singleton_append]
    rfl

/-- A tree has the nodes of those that stand for it in a row, other than blocks. -/
theorem shells_inRow (t : Tree) : t.inRow.flatMap shells = t.shells := by
  rcases inRow_cases t with ⟨l, statements, rfl⟩ | single
  · rw [shells_node, inRow, Shape.children, List.flatMap_singleton, shells_tuple]
    rfl
  · rw [single, List.flatMap_singleton]

/-- Leaves are flattened to leaves, and nothing else is. -/
theorem isLeaf_flatten (t : Tree) : t.flatten.isLeaf = t.isLeaf := by
  cases t with
  | tuple items => rw [flatten_tuple]; rfl
  | node l shape => rw [flatten_node]; rfl
  | _ => rfl

/-- The shell of a node does not change when its children are flattened. -/
theorem shell_flatten (l : Option Location) (shape : Shape Tree) :
    shell (.node l (shape.mapChildren flatten)) = shell (.node l shape) := by
  rw [shell, shell, Shape.mapChildren_mapChildren]
  refine congrArg _ (Shape.mapChildren_congr fun c _ => ?_)
  rw [isLeaf_flatten]
  split
  · exact flatten_of_isLeaf ‹_›
  · rfl

/-- Flattening keeps all nodes other than blocks, with their locations and what they hold themselves,
in their order. -/
theorem shells_flatten (t : Tree) : t.flatten.shells = t.shells := by
  induction t using inductionOn with
  | leaf t leaf => rw [flatten_of_isLeaf leaf]
  | tuple items ih =>
    rw [flatten_tuple, shells_tuple, shells_tuple, List.flatMap_assoc]
    exact List.flatMap_congr fun u hu => (shells_inRow _).trans (ih u hu)
  | node l shape ih =>
    rw [flatten_node, shells_node, shells_node, Shape.kind_mapChildren, shell_flatten,
      Shape.children_mapChildren, List.flatMap_map]
    exact congrArg _ (List.flatMap_congr ih)

/-! ## Blocks that hold rows -/

/-- Whether a tree holds a row if it is a block. -/
def holdsRow : Tree → Bool
  | .node _ (.block (.tuple _)) => true
  | .node _ (.block _) => false
  | _ => true

/-- All blocks in a tree hold rows, as blocks are made to. -/
def BlocksHoldRows (t : Tree) : Prop := t.All (·.holdsRow = true)

instance (t : Tree) : Decidable t.BlocksHoldRows :=
  inferInstanceAs (Decidable (t.All (·.holdsRow = true)))

/-- A tree without blocks that hold no row is no such block. -/
theorem BlocksHoldRows.self {t : Tree} (h : t.BlocksHoldRows) : t.holdsRow = true := by
  cases t with
  | node l shape => exact All.self h
  | _ => rfl

/-- What holds of all nodes of a tree holds of those of its items in a row. -/
theorem all_inRow {P : Tree → Prop} {t : Tree} (h : t.All P) : ∀ u ∈ t.inRow, u.All P := by
  rcases inRow_cases t with ⟨l, statements, rfl⟩ | single
  · exact all_tuple.1 ((all_node.1 h).2 _ (List.mem_cons_self ..))
  · rw [single]
    exact List.forall_mem_singleton.2 h

section Nodes

variable {l : Option Location} {shape : Shape Tree}

/-- A node whose rows become rows still holds one if it is a block. -/
theorem holdsRow_mapChildren {f : Tree → Tree}
    (keeps : ∀ items, ∃ items', f (.tuple items) = .tuple items')
    (h : (Tree.node l shape).holdsRow = true) :
    (Tree.node l (shape.mapChildren f)).holdsRow = true := by
  cases shape with
  | block body =>
    cases body with
    | tuple items =>
      obtain ⟨items', same⟩ := keeps items
      change (Tree.node l (.block (f (.tuple items)))).holdsRow = true
      rw [same]
      rfl
    | _ => cases h
  | _ => rfl

/-- Whether a node holds a row does not change when its children are unified. -/
theorem holdsRow_unify (l : Option Location) (shape : Shape Tree) :
    (Tree.node l shape.unify).holdsRow = (Tree.node l shape).holdsRow := by
  cases shape <;> rfl

end Nodes

/-- Blocks hold rows after flattening if they did before. -/
theorem BlocksHoldRows.flatten {t : Tree} (h : t.BlocksHoldRows) : t.flatten.BlocksHoldRows := by
  induction t using inductionOn with
  | leaf t leaf => rwa [flatten_of_isLeaf leaf]
  | tuple items ih =>
    rw [flatten_tuple]
    refine all_tuple.2 fun u hu => ?_
    obtain ⟨t, ht, hu⟩ := List.mem_flatMap.1 hu
    exact all_inRow (ih t ht (all_tuple.1 h t ht)) u hu
  | node l shape ih =>
    have own : (Tree.node l (shape.mapChildren Tree.flatten)).holdsRow = true :=
      holdsRow_mapChildren (fun items => ⟨_, flatten_tuple items⟩) (all_node.1 h).1
    rw [flatten_node]
    refine all_node.2 ⟨own, fun c hc => ?_⟩
    rw [Shape.children_mapChildren] at hc
    obtain ⟨d, hd, rfl⟩ := List.mem_map.1 hc
    exact ih d hd ((all_node.1 h).2 d hd)

/-- Blocks hold rows after unifying if they did before. -/
theorem BlocksHoldRows.unify {t : Tree} (h : t.BlocksHoldRows) : t.unify.BlocksHoldRows := by
  induction t using inductionOn with
  | leaf t leaf => rwa [unify_of_isLeaf leaf]
  | tuple items ih =>
    rw [unify_tuple]
    refine all_tuple.2 fun u hu => ?_
    obtain ⟨t, ht, rfl⟩ := List.mem_map.1 hu
    exact ih t ht (all_tuple.1 h t ht)
  | node l shape ih =>
    -- The node itself keeps its row, as a row stays a row.
    have own : (Tree.node l (shape.mapChildren Tree.unify)).holdsRow = true :=
      holdsRow_mapChildren (fun items => ⟨_, unify_tuple items⟩) (all_node.1 h).1
    rw [unify_node]
    refine all_node.2 ⟨(holdsRow_unify l _).trans own, fun c hc => ?_⟩
    -- A part of the unified node is a part of the node, unified.
    obtain ⟨d, hd, same⟩ := Shape.exists_of_mem_unify hc
    rw [Shape.children_mapChildren] at hd
    obtain ⟨e, he, rfl⟩ := List.mem_map.1 hd
    rw [← same]
    exact ih e he ((all_node.1 h).2 e he)

/-- A tree that holds a row is replaced by its items. -/
theorem spliced_eq {t : Tree} (h : t.holdsRow = true) : t.spliced = .ok t.inRow := by
  cases t with
  | node l shape =>
    cases shape with
    | block body =>
      cases body with
      | tuple => rfl
      | _ => cases h
    | _ => rfl
  | _ => rfl

end Tree

/-! ## The walk -/

section Walk

variable {m : Type → Type} [Monad m] {l : Option Location} {shape : Shape Tree}

section Equations

variable [MonadExceptOf Fault m] {handler? : Kind → Option (Walker.Handler m)}

/-- A row is walked item by item, and blocks are spliced. -/
theorem Tree.walk_tuple (items : List Tree) :
    (Tree.tuple items).walk handler? =
      (items.map (walk handler?)).mapM Walker.splice >>= fun parts =>
        pure (.tuple parts.flatten) := by
  rw [walk, fold, foldItems_eq_map]
  rfl

/-- A node without a handler is rebuilt from its walked children. -/
theorem Tree.walk_node (free : handler? shape.kind = none) :
    (Tree.node l shape).walk handler? =
      Walker.rebuild (.node l shape) (shape.map (walk handler?)) := by
  rw [walk, fold_node]
  unfold Walker.rules
  simp only [Shape.kind_map, free]
  rfl

end Equations

variable [LawfulMonad m]

/-- A list of pure values is gone through purely. -/
theorem mapM_eq_pure {α β : Type} {as : List α} {f : α → m β} {g : α → β}
    (h : ∀ a ∈ as, f a = pure (g a)) : as.mapM f = pure (as.map g) := by
  induction as with
  | nil => exact List.mapM_nil
  | cons a as ih =>
    rw [List.forall_mem_cons] at h
    rw [List.mapM_cons, h.1, pure_bind, ih h.2, pure_bind, List.map_cons]

/-- A node whose children have been walked without an effect is rebuilt from them, with the last one
of each name. -/
theorem Walker.rebuild_pure {f : Tree → Tree} {walk : Tree → m Tree}
    (walked : ∀ c ∈ shape.children, walk c.2 = pure (f c.2)) :
    rebuild (.node l shape) (shape.map walk) = pure (.node l (shape.mapChildren f).unify) := by
  cases shape with
  | generic kind children =>
    -- The walked kind is dropped: nothing is known of it, since the kind is no child.
    rw [Shape.map, rebuild, List.mapM_map]
    rw [mapM_eq_pure (g := fun c => (c.1, f c.2)) fun c hc => ?_, pure_bind]
    · rfl
    · change walk c.2 >>= (fun u => pure (c.1, u)) = _
      rw [walked c hc, pure_bind]
  | _ =>
    simp_all [rebuild, Shape.children, Shape.map, Shape.runFields, Shape.mapChildren, Shape.unify]

variable [MonadExceptOf Fault m]

/-- Splicing a tree that holds a row has no effect. -/
theorem Walker.splice_pure {t : Tree} (h : t.holdsRow = true) :
    splice (pure t : m Tree) = pure t.inRow := by
  rw [splice, pure_bind, Tree.spliced_eq h]

/-- A walk without handlers has no effect. It gives the tree in which children of one name are the
last of them and blocks in rows have given their places to their statements. -/
theorem Tree.walk_eq {t : Tree} (rows : t.BlocksHoldRows) :
    t.walk (fun _ => none) = (pure t.unify.flatten : m Tree) := by
  -- By induction on the tree: the walk flattens the parts and unifies their names.
  induction t using inductionOn with
  | leaf t leaf =>
    cases t with
    | tuple | node => cases leaf
    | _ => rfl
  | tuple items ih =>
    rw [walk_tuple, List.mapM_map]
    rw [mapM_eq_pure (g := fun t => t.unify.flatten.inRow) fun t ht => ?_, pure_bind,
      ← List.flatMap_def, unify_tuple, flatten_tuple, List.flatMap_map]
    -- The parts of a row are spliced into it.
    have part : t.BlocksHoldRows := all_tuple.1 rows t ht
    rw [Function.comp_apply, ih t ht part]
    exact Walker.splice_pure (part.unify.flatten.self)
  | node l shape ih =>
    -- The parts of a node are walked in their order.
    have walked :
        ∀ c ∈ shape.children, c.2.walk (fun _ => none) = (pure c.2.unify.flatten : m Tree) :=
      fun c hc => ih c hc ((all_node.1 rows).2 c hc)
    rw [walk_node rfl, Walker.rebuild_pure (f := fun t => t.unify.flatten) walked, unify_node,
      flatten_node, Shape.mapChildren_unify, Shape.mapChildren_mapChildren]

end Walk

/-- A walk without handlers succeeds, and walking the result again changes nothing. The result is the
flattened tree, which still has all nodes other than blocks, exactly if the children of one name are
the same in that, and so whenever they are in the tree that is walked. -/
theorem Tree.walk_unhandled (t : Tree) (rows : t.BlocksHoldRows) :
    t.walk (fun _ => none) = (.ok t.unify.flatten : Except Fault Tree) ∧
      t.unify.flatten.walk (fun _ => none) = (.ok t.unify.flatten : Except Fault Tree) ∧
      (t.walk (fun _ => none) = (.ok t.flatten : Except Fault Tree) ↔ t.flatten.NamesakesAgree) ∧
      (t.NamesakesAgree → t.walk (fun _ => none) = (.ok t.flatten : Except Fault Tree)) ∧
      t.flatten.shells = t.shells := by
  have walked : t.walk (fun _ => none) = (.ok t.unify.flatten : Except Fault Tree) := walk_eq rows
  refine ⟨walked, ?_, ?_, fun agree => ?_, shells_flatten t⟩
  · have again : t.unify.flatten.unify.flatten = t.unify.flatten := calc
      _ = t.unify.unify.flatten.flatten := by rw [unify_flatten]
      _ = t.unify.flatten := by rw [unify_unify, flatten_flatten]
    exact (walk_eq rows.unify.flatten).trans (congrArg _ again)
  · rw [walked, Except.ok.injEq, ← unify_flatten]
    exact unify_eq_self_iff t.flatten
  · rw [walked, (unify_eq_self_iff t).2 agree]

/-- A block in a block and, in a generic node, a block for a child. -/
def Tree.nestedBlocks : Tree :=
  new (.generic (.text "X") [("a", .tuple [block [block [identifier "x"], identifier "y"]]),
    ("b", block [block [identifier "z"]])])

/-- The blocks in rows give their places to their statements; the one that is a child stays. -/
theorem Tree.walk_unhandled_nestedBlocks :
    nestedBlocks.BlocksHoldRows ∧ nestedBlocks.NamesakesAgree ∧
      nestedBlocks.walk (fun _ => none) =
        (.ok (new (.generic (.text "X") [("a", .tuple [identifier "x", identifier "y"]),
          ("b", block [identifier "z"])])) : Except Fault Tree) := by
  have rows : nestedBlocks.BlocksHoldRows := by decide
  have agree : nestedBlocks.NamesakesAgree := (unify_eq_self_iff _).1 rfl
  obtain ⟨-, -, -, flat, -⟩ := walk_unhandled nestedBlocks rows
  exact ⟨rows, agree, flat agree⟩

/-- A generic node with two children of one name. -/
def Tree.namesakes : Tree :=
  new (.generic (.text "X") [("a", identifier "x"), ("a", identifier "y")])

/-- A walk loses the first of two children of one name: the second one takes its place. There are no
blocks whose statements could do so. -/
theorem Tree.walk_unhandled_namesakes :
    namesakes.BlocksHoldRows ∧ namesakes.flatten = namesakes ∧
      namesakes.walk (fun _ => none) =
        (.ok (new (.generic (.text "X") [("a", identifier "y"), ("a", identifier "y")])) :
          Except Fault Tree) ∧
      namesakes.walk (fun _ => none) ≠ (.ok namesakes.flatten : Except Fault Tree) := by
  refine ⟨by decide, rfl, rfl, fun same => ?_⟩
  cases same

end TailLoop
