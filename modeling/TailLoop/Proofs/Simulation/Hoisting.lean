import TailLoop.Proofs.Elimination.Scopes
import TailLoop.Proofs.Simulation.Statements

/-!
# Variables of a body

A function declares the variables of its body when it is entered. This module says which ones these
are (`varNames`), before and after elimination: afterwards the walked statements of a body declare
nothing (`Inert`), and the variables that the scope has noted are those that the body declared and
that are no parameters.
-/

namespace TailLoop

namespace Tree

/-- The name that a declarator declares. -/
def declaratorName? : Tree → Option Text
  | .node _ (.variableDeclarator id _) => id.identifierName?
  | _ => none

/-- The names that the declarators of a tree declare, in source order. -/
def varNames (t : Tree) : List Text := t.nodes.filterMap declaratorName?

/-- Whether a tree is a declarator. -/
def isDeclarator : Tree → Bool
  | .node _ (.variableDeclarator ..) => true
  | _ => false

/-- A node that declares nothing. -/
def Inert (t : Tree) : Prop := t.isFunction = false ∧ t.isDeclarator = false

/-- A node that is no function, and whose name is a text if it is a declarator. -/
def Declares (t : Tree) : Prop :=
  t.isFunction = false ∧ (t.isDeclarator = true → t.declaratorName?.isSome = true)

/-- A node that declares nothing needs no name to declare. -/
theorem Inert.declares {t : Tree} (h : t.Inert) : t.Declares :=
  ⟨h.1, fun declarator => by rw [h.2] at declarator; cases declarator⟩

/-- It has no declared name. -/
theorem declaratorName?_of_inert {t : Tree} (h : t.Inert) : t.declaratorName? = none := by
  unfold declaratorName?
  split
  · cases h.2
  · rfl

/-- A node that declares a name is a declarator of it. -/
theorem eq_declarator {l : Option Location} {shape : Shape Tree} {x : Text}
    (h : declaratorName? (.node l shape) = some x) :
    ∃ li init, shape = .variableDeclarator (.node li (.identifier (.text x))) init := by
  cases shape with
  | variableDeclarator id init =>
    unfold declaratorName? identifierName? at h
    simp only at h
    split at h
    · cases h
      exact ⟨_, init, rfl⟩
    · cases h
  | _ => cases h

/-- A tree of nodes that declare nothing has no variables. -/
theorem varNames_of_inert {t : Tree} (h : t.All Inert) : t.varNames = [] :=
  List.filterMap_eq_nil_iff.mpr fun u hu => declaratorName?_of_inert (h u hu)

/-- A row declares what its items declare. -/
theorem varNames_tuple (items : List Tree) :
    (Tree.tuple items).varNames = items.flatMap varNames := by
  rw [varNames, nodes_tuple, List.filterMap_flatten, List.map_map]
  rfl

/-- A node declares its own name first, and then what its children declare. -/
theorem varNames_node (l : Option Location) (shape : Shape Tree) :
    (Tree.node l shape).varNames =
      (declaratorName? (.node l shape)).toList ++ shape.children.flatMap (·.2.varNames) := by
  have rest : ((shape.children.map fun c => c.2.nodes).flatten).filterMap declaratorName? =
      shape.children.flatMap (·.2.varNames) := by
    rw [List.filterMap_flatten, List.map_map]
    rfl
  rw [varNames, nodes_node, List.filterMap_cons, rest]
  cases declaratorName? (.node l shape) with
  | none => rfl
  | some x => rfl

/-- A variable that is declared without a value is declared. -/
theorem valueless_subset (t : Tree) : t.valueless ⊆ t.varNames := by
  -- By induction on the size of the tree. Only a declarator has a name of its own.
  induction size : sizeOf t using Nat.strongRecOn generalizing t with
  | _ size ih =>
  intro x hx
  cases t with
  | tuple items =>
    rw [valueless_tuple] at hx
    obtain ⟨u, hu, hx⟩ := List.mem_flatMap.mp hx
    rw [varNames_tuple]
    have smaller := List.sizeOf_lt_of_mem hu
    rw [tuple.sizeOf_spec] at size
    exact List.mem_flatMap.mpr ⟨u, hu, ih _ (by omega) u rfl hx⟩
  | node l shape =>
    rw [varNames_node, List.mem_append]
    have below (c : Text × Tree) (hc : c ∈ shape.children) (hx : x ∈ c.2.valueless) :
        x ∈ shape.children.flatMap (·.2.varNames) :=
      List.mem_flatMap.mpr ⟨c, hc, ih _ (size ▸ sizeOf_child_lt hc) c.2 rfl hx⟩
    cases plain : shape.isPlainPart with
    | true =>
      rw [valueless_node plain] at hx
      obtain ⟨c, hc, hx⟩ := List.mem_flatMap.mp hx
      exact .inr (below c hc hx)
    | false =>
      cases shape with
      | variableDeclarator id init =>
        rw [valueless_declarator] at hx
        split at hx
        · exact .inl hx
        · cases hx
      | forEach domain left right body =>
        rw [valueless_forEach, List.mem_append] at hx
        rcases hx with hx | hx
        · exact .inr (below ("right", right) (Shape.mem_children 1 rfl) hx)
        · exact .inr (below ("body", body) (Shape.mem_children 2 rfl) hx)
      | _ => cases plain
  | _ => cases hx

/-! ## What hoisting finds -/

/-- A row of outcomes with values gives the row of the values. -/
theorem mapM_id_eq {α β : Type} {f : α → Except Fault β} {g : α → β} {l : List α}
    (h : ∀ a ∈ l, f a = .ok (g a)) : (l.map f).mapM id = .ok (l.map g) := by
  induction l with
  | nil => rfl
  | cons a l ih =>
    rw [List.forall_mem_cons] at h
    rw [List.map_cons, List.mapM_cons, ih h.2, id, h.1]
    rfl

/-- Several collections of names make one. -/
theorem concat_names {α : Type} (g : α → List Text) (l : List α) :
    Declarations.concat (l.map fun a => ⟨(g a).map .text, []⟩) = ⟨(l.flatMap g).map .text, []⟩ := by
  induction l with
  | nil => rfl
  | cons a l ih =>
    change Declarations.append _ (Declarations.concat _) = _
    rw [ih]
    simp [Declarations.append]

/-- What hoisting finds below a node. -/
def hoistedBelow (shape : Shape Tree) : Except Fault Declarations :=
  ((shape.children.map fun c : Text × Tree => c.2.hoisted).mapM id).map Declarations.concat

/-- What is hoisted below a node is what is hoisted from its children. -/
theorem hoistedBelow_eq (shape : Shape Tree) :
    (((shape.map hoisted).children.map Prod.snd).mapM id).map Declarations.concat =
      hoistedBelow shape := by
  rw [Shape.children_map, List.map_map]
  rfl

/-- A node that declares nothing itself. -/
theorem hoisted_inert {l : Option Location} {shape : Shape Tree} (h : Inert (.node l shape)) :
    (Tree.node l shape).hoisted = hoistedBelow shape := by
  rw [hoisted, fold_node, ← hoistedBelow_eq]
  cases shape with
  | function => cases h.1
  | variableDeclarator => cases h.2
  | _ => rfl

/-- A declarator hoists its name, and what its initial value hoists. -/
theorem hoisted_declarator (l li : Option Location) (x : Text) (init : Tree) :
    (Tree.node l (.variableDeclarator (.node li (.identifier (.text x))) init)).hoisted =
      (hoistedBelow (.variableDeclarator (.node li (.identifier (.text x))) init)).map
        (.append ⟨[.text x], []⟩) := by
  rw [hoisted, fold_node, ← hoistedBelow_eq]
  simp only [hoistRules, name]
  rfl

/-- Hoisting finds the variables. -/
theorem hoisted_eq {t : Tree} (h : t.All Declares) :
    t.hoisted = .ok ⟨t.varNames.map .text, []⟩ := by
  -- By induction on the size of the tree; a declarator adds its name in front of what its parts
  -- declare.
  induction size : sizeOf t using Nat.strongRecOn generalizing t with
  | _ size ih =>
  cases t with
  | tuple items =>
    have parts : ∀ u ∈ items, u.hoisted = .ok ⟨u.varNames.map .text, []⟩ := by
      intro u hu
      have smaller := List.sizeOf_lt_of_mem hu
      rw [tuple.sizeOf_spec] at size
      exact ih _ (by omega) (h.item hu) rfl
    rw [hoisted, fold, foldItems_eq_map]
    change ((items.map hoisted).mapM id).map Declarations.concat = _
    rw [mapM_id_eq parts, varNames_tuple]
    exact congrArg Except.ok (concat_names varNames items)
  | node l shape =>
    have parts : ∀ c ∈ shape.children, c.2.hoisted = .ok ⟨c.2.varNames.map .text, []⟩ := fun c hc =>
      ih _ (size ▸ sizeOf_child_lt hc) (h.child (List.mem_map_of_mem hc)) rfl
    have below : hoistedBelow shape =
        .ok ⟨(shape.children.flatMap (·.2.varNames)).map .text, []⟩ := by
      rw [hoistedBelow, mapM_id_eq parts]
      exact congrArg Except.ok (concat_names (fun c : Text × Tree => c.2.varNames) shape.children)
    rw [varNames_node]
    by_cases declarator : (Tree.node l shape).isDeclarator = true
    · obtain ⟨x, hx⟩ := Option.isSome_iff_exists.mp (h.self.2 declarator)
      obtain ⟨li, init, rfl⟩ := eq_declarator hx
      rw [hoisted_declarator, below, hx]
      rfl
    · have inert : Inert (.node l shape) := ⟨h.self.1, by simpa using declarator⟩
      rw [hoisted_inert inert, below, declaratorName?_of_inert inert]
      rfl
  | _ => rfl

end Tree

namespace Elimination

open Tree

/-- Trees lose their declarations, and the scope gains what they declare. -/
structure Moves (a b : Scope) (ts ts' : List Tree) : Prop where
  params : b.params = a.params
  declares : ∀ t ∈ ts, t.All Declares
  inert : ∀ t ∈ ts', t.All Inert
  locals : ∀ x, x ∈ b.locals ↔ x ∈ a.locals ∨ x ∈ ts.flatMap varNames ∧ x ∉ a.params

/-- The same, as far as the trees hold no functions. -/
def Sheds (a b : Scope) (ts ts' : List Tree) : Prop :=
  (∀ t ∈ ts, t.All (·.isFunction = false)) → Moves a b ts ts'

namespace Sheds

variable {a b c : Scope} {ts ts' us us' : List Tree} {l l' : Option Location}
  {shape shape' : Shape Tree}

/-- Nothing sheds nothing. -/
theorem nil : Sheds a a [] [] := by
  intro _
  exact ⟨rfl, nofun, nofun, by simp⟩

/-- A tree without nodes. -/
theorem atom {t : Tree} (h : t.nodes = []) : Sheds a a [t] [t] := by
  intro _
  have none (P : Tree → Prop) : ∀ u ∈ [t], u.All P := by
    intro u hu v hv
    rw [List.mem_singleton.mp hu, h] at hv
    cases hv
  exact ⟨rfl, none _, none _, by simp [varNames, h]⟩

/-- One row after another sheds what both of them shed. -/
theorem append (h1 : Sheds a b ts ts') (h2 : Sheds b c us us') :
    Sheds a c (ts ++ us) (ts' ++ us') := by
  intro simple
  rw [List.forall_mem_append] at simple
  have first := h1 simple.1
  have second := h2 simple.2
  refine ⟨second.params.trans first.params, ?_, ?_, fun x => ?_⟩
  · exact List.forall_mem_append.mpr ⟨first.declares, second.declares⟩
  · exact List.forall_mem_append.mpr ⟨first.inert, second.inert⟩
  · rw [second.locals, first.locals, first.params, List.flatMap_append, List.mem_append]
    tauto

/-- A row in a row sheds what its items shed. -/
theorem row (h : Sheds a b ts ts') : Sheds a b [.tuple ts] [.tuple ts'] := by
  intro simple
  have moves := h (all_tuple.mp (simple _ List.mem_cons_self))
  refine ⟨moves.params, ?_, ?_, fun x => ?_⟩
  · exact List.forall_mem_singleton.mpr (all_tuple.mpr moves.declares)
  · exact List.forall_mem_singleton.mpr (all_tuple.mpr moves.inert)
  · rw [moves.locals, List.flatMap_singleton, varNames_tuple]

/-- A scope with the same parameters and variables is as good. -/
theorem rescope (h : Sheds a b ts ts') (params : c.params = b.params)
    (locals : c.locals = b.locals) : Sheds a c ts ts' := by
  intro simple
  have moves := h simple
  exact ⟨params.trans moves.params, moves.declares, moves.inert, locals ▸ moves.locals⟩

/-- What takes the place of trees may be anything that declares nothing. -/
theorem replace (h : Sheds a b ts ts')
    (inert : (∀ t ∈ ts', t.All Inert) → ∀ t ∈ us, t.All Inert) : Sheds a b ts us := by
  intro simple
  have moves := h simple
  exact ⟨moves.params, moves.declares, inert moves.inert, moves.locals⟩

/-- A node that declares nothing itself. -/
theorem source (h : Sheds a b (shape.children.map Prod.snd) ts')
    (here : (Tree.node l shape).isDeclarator = false) : Sheds a b [.node l shape] ts' := by
  intro simple
  have whole := all_node.mp (simple _ List.mem_cons_self)
  have inert : Inert (.node l shape) := ⟨whole.1, here⟩
  have moves := h (List.forall_mem_map.mpr whole.2)
  refine ⟨moves.params, ?_, moves.inert, fun x => ?_⟩
  · refine List.forall_mem_singleton.mpr (all_node.mpr ⟨inert.declares, ?_⟩)
    exact List.forall_mem_map.mp moves.declares
  · rw [moves.locals, List.flatMap_singleton, varNames_node, declaratorName?_of_inert inert,
      List.flatMap_map]
    rfl

/-- A node around what takes the place of trees. -/
theorem result (h : Sheds a b ts (shape.children.map Prod.snd)) (there : Inert (.node l shape)) :
    Sheds a b ts [.node l shape] := by
  refine h.replace fun inert => List.forall_mem_singleton.mpr (all_node.mpr ⟨there, ?_⟩)
  exact List.forall_mem_map.mp inert

/-- A node sheds what its children shed, if neither it nor what takes its place declares a name. -/
theorem node (h : Sheds a b (shape.children.map Prod.snd) (shape'.children.map Prod.snd))
    (here : (Tree.node l shape).isDeclarator = false) (there : Inert (.node l' shape')) :
    Sheds a b [.node l shape] [.node l' shape'] :=
  (h.source here).result there

/-- A declaration, from its declarators. -/
theorem declaration (h : Sheds a b ts ts') (kind : Text) :
    Sheds a b [.node l (.variableDeclaration (.tuple ts) (.text kind))] ts' := by
  have parts : Sheds a b [.tuple ts, .text kind] [.tuple ts', .text kind] := .append h.row (.atom rfl)
  exact (parts.replace fun inert => all_tuple.mp (inert _ List.mem_cons_self)).source rfl

/-- A sequence of what takes the place of trees. -/
theorem sequence (h : Sheds a b ts ts') : Sheds a b ts [Tree.new (.sequence (.tuple ts'))] := by
  refine h.replace fun inert => List.forall_mem_singleton.mpr (all_node.mpr ⟨⟨rfl, rfl⟩, ?_⟩)
  exact List.forall_mem_singleton.mpr (all_tuple.mpr inert)

end Sheds

/-- A declarator with what is assigned in its place. -/
theorem Sheds.declarator {a b : Scope} {l li l' : Option Location} {x : Text} {init init' : Tree}
    {op : Text} (h : Sheds (a.addLocal x) b [init] [init']) :
    Sheds a b [.node l (.variableDeclarator (.node li (.identifier (.text x))) init)]
      [.node l' (.assignment (.text op) (.node li (.identifier (.text x))) init')] := by
  intro simple
  have parts := (all_node.mp (simple _ List.mem_cons_self)).2
  have moves := h (List.forall_mem_singleton.mpr (parts ("init", init) (Shape.mem_children 1 rfl)))
  have initDeclares := moves.declares init List.mem_cons_self
  have initInert := moves.inert init' List.mem_cons_self
  have name : (Tree.node li (.identifier (.text x))).All Inert :=
    all_node.mpr ⟨⟨rfl, rfl⟩, by simp [Shape.children, All, nodes, fold, nodeRules]⟩
  -- The declarator is gone, and its name has become a local unless it was a parameter.
  refine ⟨moves.params.trans (params_addLocal a x), ?_, ?_, fun y => ?_⟩
  · refine List.forall_mem_singleton.mpr (all_node.mpr ⟨⟨rfl, fun _ => rfl⟩, ?_⟩)
    simp only [Shape.children, List.forall_mem_cons]
    exact ⟨fun u hu => (name u hu).declares, initDeclares, List.forall_mem_nil _⟩
  · refine List.forall_mem_singleton.mpr (all_node.mpr ⟨⟨rfl, rfl⟩, ?_⟩)
    simp only [Shape.children, List.forall_mem_cons]
    exact ⟨all_of_isPlain rfl, name, initInert, List.forall_mem_nil _⟩
  · rw [moves.locals, mem_addLocal, params_addLocal, List.flatMap_singleton, List.flatMap_singleton,
      varNames_node]
    simp only [Shape.children, declaratorName?, identifierName?, List.flatMap_cons,
      varNames_of_inert name, List.flatMap_nil, List.append_nil, Option.toList,
      List.nil_append, List.cons_append, List.mem_cons]
    tauto

/-- The head of a loop over a collection that declares its variable. -/
theorem Sheds.loopVariable {a : Scope} {l ld li : Option Location} {x kind : Text} :
    Sheds a (a.addLocal x)
      [.node l (.variableDeclaration
        (.tuple [.node ld (.variableDeclarator (.node li (.identifier (.text x))) .null)])
        (.text kind))]
      [.node li (.identifier (.text x))] := by
  have declarator : Sheds a (a.addLocal x)
      [.node ld (.variableDeclarator (.node li (.identifier (.text x))) .null)]
      [.node ld (.assignment (.text plainAssignment) (.node li (.identifier (.text x))) .null)] :=
    .declarator (.atom rfl)
  refine (declarator.declaration kind).replace fun inert => List.forall_mem_singleton.mpr ?_
  exact (inert _ List.mem_cons_self).child (Shape.mem_parts 1 rfl)

/-! ## Converted calls -/

/-- A name by itself declares nothing. -/
theorem inert_identifier (name : Text) : (Tree.identifier name).All Inert :=
  all_node.mpr ⟨⟨rfl, rfl⟩, by simp [Shape.children, All, nodes, fold, nodeRules]⟩

/-- Nor do the values of a call. -/
theorem inert_valueAt {values : List Tree} (h : ∀ t ∈ values, t.All Inert) (i : Nat) :
    (valueAt values i).All Inert := by
  unfold valueAt
  split
  · exact inert_identifier _
  · exact inert_identifier _
  · rename_i found
    exact h _ (List.mem_of_getElem? found)

/-- Nor do assignments of such values. -/
theorem inert_assignAll (names : List Text) {values : List Tree} (h : ∀ t ∈ values, t.All Inert) :
    ∀ t ∈ assignAll names values, t.All Inert := by
  intro t ht
  obtain ⟨i, hi, rfl⟩ := List.mem_mapIdx.mp ht
  refine all_node.mpr ⟨⟨rfl, rfl⟩, List.forall_mem_singleton.mpr (all_node.mpr ⟨⟨rfl, rfl⟩, ?_⟩)⟩
  simp only [Shape.children, List.forall_mem_cons]
  exact ⟨all_of_isPlain rfl, inert_identifier _, inert_valueAt h i, List.forall_mem_nil _⟩

/-- The new values of parameters declare nothing if the arguments do not. -/
theorem inert_changes (params : List Text) {args : List Tree} (h : ∀ t ∈ args, t.All Inert) :
    ∀ c ∈ changes params args, c.value.All Inert := by
  intro c hc
  rw [(mem_changes hc).2]
  cases found : args[c.index]? with
  | none => exact inert_identifier _
  | some t => exact h t (List.mem_of_getElem? found)

/-- Nor do the statements for a converted call. -/
theorem inert_callAssignments (s : Scope) {args : List Tree} (h : ∀ t ∈ args, t.All Inert) :
    ∀ t ∈ callAssignments s args, t.All Inert := by
  have values := inert_changes s.params h
  unfold callAssignments
  split
  · refine List.forall_mem_append.mpr ⟨inert_assignAll _ ?_, inert_assignAll _ ?_⟩
    · exact List.forall_mem_map.mpr values
    · exact List.forall_mem_map.mpr fun x _ => inert_identifier x
  · exact inert_assignAll _ (List.forall_mem_map.mpr fun c hc => values c (mem_lastFirst hc))

/-- Nor does the jump back. -/
theorem inert_jumpBack (n : Naming) : (jumpBack n).All Inert :=
  all_node.mpr ⟨⟨rfl, rfl⟩, List.forall_mem_singleton.mpr (inert_identifier n.loop)⟩

/-- A block declares what its statements declare. -/
theorem inert_block {l : Option Location} {ts : List Tree} :
    (Tree.node l (.block (.tuple ts))).All Inert ↔ ∀ t ∈ ts, t.All Inert := by
  rw [all_node]
  simp only [Shape.children, List.forall_mem_singleton, all_tuple]
  exact ⟨And.right, fun h => ⟨⟨rfl, rfl⟩, h⟩⟩

/-- A call that is converted. -/
theorem Sheds.converted {n : Naming} {a : Scope} {s s' : State} {args args' : List Tree} {t' : Tree}
    {l lc lf : Option Location} {name : Text} (h : Sheds a s.scope args args')
    (converted : convertCall n l lc args' s = .ok (t', s')) :
    Sheds a s'.scope [.node lc (.call (.node lf (.identifier (.text name))) (.tuple args))] [t'] := by
  -- The call declares what its arguments do, and the block in its place declares nothing.
  obtain ⟨-, rfl, rfl⟩ := convertCall_ok.mp converted
  have callee :
      Sheds a a [.node lf (.identifier (.text name))] [.node lf (.identifier (.text name))] :=
    .node (.atom rfl) rfl ⟨rfl, rfl⟩
  have call : Sheds a s.scope
      [.node lc (.call (.node lf (.identifier (.text name))) (.tuple args))]
      [.node lc (.call (.node lf (.identifier (.text name))) (.tuple args'))] :=
    .node (.append callee h.row) rfl ⟨rfl, rfl⟩
  refine (call.rescope ?_ ?_).replace fun inert => ?_
  · exact (Scope.Leads.useAll _ _).params
  · exact locals_useAll _ _
  · have parts : (Tree.tuple args').All Inert :=
      (inert _ List.mem_cons_self).child (Shape.mem_parts 1 rfl)
    refine List.forall_mem_singleton.mpr (inert_block.mpr (List.forall_mem_append.mpr ⟨?_, ?_⟩))
    · exact inert_callAssignments _ (all_tuple.mp parts)
    · exact List.forall_mem_singleton.mpr (inert_jumpBack n)

/-! ## Whole bodies -/

/-- What takes the place of a returned value or statement in a row declares nothing if it does not
itself. -/
theorem inert_spliced {t' : Tree} {ts : List Tree} (rows : ∀ l body, t' = .node l (.block body) →
      ∃ ss, body = .tuple ss) (spliced : t'.spliced = .ok ts) (inert : t'.All Inert) :
    ∀ t ∈ ts, t.All Inert := by
  by_cases block : t'.hasKind .blockStatement = true
  · obtain ⟨l, body, rfl⟩ := eq_block block
    obtain ⟨ss, rfl⟩ := rows l body rfl
    cases spliced
    exact inert_block.mp inert
  · rw [spliced_of_hasKind (by simpa using block)] at spliced
    cases spliced
    exact List.forall_mem_singleton.mpr inert

/-- A walk takes declared names into the scope: each rule sheds the names of the declarators in it. -/
theorem Walks.sheds {n : Naming} {s s' : State} {edit : Edit} (h : Walks n s edit s') :
    Sheds s.scope s'.scope edit.before edit.after := by
  -- By induction on the walk: only declarators add locals, and only functions are left out.
  induction h with
  | identifier => exact .node (.atom rfl) rfl ⟨rfl, rfl⟩
  | @literal s l value plain =>
    refine .node (.atom ?_) rfl ⟨rfl, rfl⟩
    cases value <;> first | rfl | cases plain
  | array _ ih | sequence _ ih => exact .node ih.row rfl ⟨rfl, rfl⟩
  | function | functionDeclaration =>
    intro simple
    cases (simple _ List.mem_cons_self).self
  | call _ _ ih1 ih2 => exact .node (.append ih1 ih2.row) rfl ⟨rfl, rfl⟩
  | member _ name ih =>
    cases name with
    | mk _ spelled =>
      exact .node (.append ih (.append (.node (.atom rfl) rfl ⟨rfl, rfl⟩) (.atom rfl))) rfl ⟨rfl, rfl⟩
  | computedMember _ _ ih1 ih2 =>
    exact .node (.append ih1 (.append ih2 (.atom rfl))) rfl ⟨rfl, rfl⟩
  | conditional _ _ _ ih1 ih2 ih3 | returnConditional _ _ _ ih1 ih2 ih3
  | ifStatement _ _ _ ih1 ih2 ih3 => exact .node (.append ih1 (.append ih2 ih3)) rfl ⟨rfl, rfl⟩
  | assignment _ _ ih1 ih2 | binary _ _ ih1 ih2 | logical _ _ ih1 ih2 =>
    exact .node (.append (.atom rfl) (.append ih1 ih2)) rfl ⟨rfl, rfl⟩
  | unary _ ih | update _ ih =>
    exact .node (.append (.atom rfl) (.append ih (.atom rfl))) rfl ⟨rfl, rfl⟩
  | absent | noAlternate | noStart => exact .atom rfl
  | present _ ih | branchValue _ _ ih | alternate _ ih | startPlain _ _ ih | startExpression _ ih
  | initial _ ih => exact ih
  | noExpressions | noStatements | noDeclarators | body => exact .nil
  | moreExpressions _ _ ih1 ih2 => exact .append ih1 ih2
  | returnNothing => exact (Sheds.atom rfl).result ⟨rfl, rfl⟩
  | returnCall _ _ converted ih => exact ih.converted converted
  | returnValue _ _ ih => exact ih.result ⟨rfl, rfl⟩
  | branchSequence _ ih => exact .node ih.row rfl ⟨rfl, rfl⟩
  | branchLast part spliced ih =>
    exact ih.replace fun inert => inert_spliced (row_of_returned part) spliced
      (inert _ List.mem_cons_self)
  | @branchMore s s1 s' e e' es ts _ _ _ ih1 ih2 =>
    have first : Sheds s.scope s1.scope [e] [.node e.location? (.expressionStatement e')] :=
      ih1.result ⟨rfl, rfl⟩
    exact first.append ih2
  | block _ ih => exact .node ih.row rfl ⟨rfl, rfl⟩
  | returnStatement _ ih => exact ih.source rfl
  | variableDeclaration _ ih => exact (ih.declaration varKind).sequence.result ⟨rfl, rfl⟩
  | forStatement _ _ _ _ ih1 ih2 ih3 ih4 =>
    exact .node (.append ih1 (.append ih2 (.append ih3 ih4))) rfl ⟨rfl, rfl⟩
  | forEachDeclared _ _ _ ih1 ih2 =>
    exact .node (.append .loopVariable (.append ih1 ih2)) rfl ⟨rfl, rfl⟩
  | forEach _ _ _ _ ih1 ih2 ih3 => exact .node (.append ih1 (.append ih2 ih3)) rfl ⟨rfl, rfl⟩
  | whileStatement _ _ ih1 ih2 | doWhileStatement _ _ ih1 ih2 =>
    exact .node (.append ih1 ih2) rfl ⟨rfl, rfl⟩
  | expressionStatement _ ih => exact .node ih rfl ⟨rfl, rfl⟩
  | emptyStatement => exact .node .nil rfl ⟨rfl, rfl⟩
  | bareJump => exact .node (.atom rfl) rfl ⟨rfl, rfl⟩
  | jump => exact .node (.node (.atom rfl) rfl ⟨rfl, rfl⟩) rfl ⟨rfl, rfl⟩
  | labeled _ _ ih => exact .node (.append (.node (.atom rfl) rfl ⟨rfl, rfl⟩) ih) rfl ⟨rfl, rfl⟩
  | moreStatements part spliced _ ih1 ih2 =>
    refine .append (ih1.replace fun inert => ?_) ih2
    exact inert_spliced (row_of_statement part) spliced (inert _ List.mem_cons_self)
  | @startStrict s s' t ts ts' strict _ ih =>
    obtain ⟨l, le, rfl⟩ := eq_strictDirective strict
    have directive : Sheds s.scope s.scope
        [.node l (.expressionStatement (.node le (.literal (.text strictDirective))))] [] :=
      (Sheds.source (.source (.atom rfl) rfl) rfl).replace fun _ => nofun
    exact (directive.rescope (c := { s.scope with directive := some _ }) rfl rfl).append ih
  | startDeclaration _ ih => exact (ih.declaration varKind).sequence
  | noInitial =>
    exact (Sheds.atom rfl).replace fun _ => List.forall_mem_singleton.mpr (inert_identifier _)
  | moreDeclarators _ _ _ ih1 ih2 => exact .append (.declarator ih1) ih2

end Elimination

end TailLoop
