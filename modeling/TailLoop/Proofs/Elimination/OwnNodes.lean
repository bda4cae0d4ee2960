import TailLoop.Proofs.Elimination.Strictness
import TailLoop.Proofs.Simulation.Hoisting

/-!
# What stands in a scope

The nodes of a program or function that belong to its own scope (`Tree.scopeNodes`): all nodes of its
statements, apart from those inside nested functions. Its variables, its inner functions and the
calls of itself whose value it returns are found among them.

When a function is entered, its body is searched for declarations. Where each of these has a name,
the search finds the variables and functions among the own nodes, in their order (`hoisted_own`), and
so does the search for declared names.
-/

namespace TailLoop

namespace Tree

/-! ## Own nodes -/

/-- The rules that list own nodes: a node, then those of its children, unless it is a function. -/
def ownNodeRules : Rules (List Tree) where
  atom _ := []
  tuple := List.flatten
  list _ _ := []
  dict _ _ := []
  node t shape := if t.isFunction then [t] else t :: shape.parts.flatten

/-- The nodes of a tree in the scope that it stands in, each before the nodes below it. Functions are
among them, but not what is inside of them. -/
def ownNodes (t : Tree) : List Tree := fold ownNodeRules t

/-- The own nodes of a row are those of its items. -/
theorem ownNodes_tuple (ts : List Tree) : (Tree.tuple ts).ownNodes = ts.flatMap ownNodes := by
  rw [ownNodes, fold, foldItems_eq_map, List.flatMap_def]
  rfl

/-- The own nodes of a node are itself and those of its parts, unless it is a function. -/
theorem ownNodes_node {l : Option Location} {shape : Shape Tree}
    (h : (Tree.node l shape).isFunction = false) :
    (Tree.node l shape).ownNodes = .node l shape :: shape.parts.flatMap ownNodes := by
  rw [ownNodes, fold_node, ownNodeRules]
  simp only [h, Bool.false_eq_true, if_false, Shape.parts_map, List.flatMap_def]
  rfl

/-- The own nodes of a function are itself only. -/
theorem ownNodes_function {l : Option Location} {shape : Shape Tree}
    (h : (Tree.node l shape).isFunction = true) :
    (Tree.node l shape).ownNodes = [.node l shape] := by
  rw [ownNodes, fold_node, ownNodeRules]
  simp only [h, if_true]

/-- There are no nodes in plain data. -/
theorem ownNodes_of_isPlain {t : Tree} (h : t.isPlain = true) : t.ownNodes = [] := by
  cases t with
  | null | bool | int | num | text => rfl
  | _ => cases h

/-- What holds of a tree when it holds of its parts, and `P` of each own node, holds of every tree
whose own nodes all satisfy `P`. -/
theorem of_ownNodes {P Q : Tree → Prop}
    (other : ∀ {t : Tree}, t.isNode = false → (∀ items, t ≠ .tuple items) → Q t)
    (tuple : ∀ {items : List Tree}, (∀ u ∈ items, Q u) → Q (.tuple items))
    (function : ∀ {l : Option Location} {shape : Shape Tree},
      (Tree.node l shape).isFunction = true → P (.node l shape) → Q (.node l shape))
    (node : ∀ {l : Option Location} {shape : Shape Tree},
      (Tree.node l shape).isFunction = false → P (.node l shape) → (∀ u ∈ shape.parts, Q u) →
      Q (.node l shape))
    {t : Tree} (h : ∀ u ∈ t.ownNodes, P u) : Q t := by
  -- By induction on the size, where a nested function is not entered.
  induction size : sizeOf t using Nat.strongRecOn generalizing t with
  | _ size ih =>
  cases t with
  | tuple items =>
    rw [ownNodes_tuple] at h
    refine tuple fun u hu => ?_
    have smaller := List.sizeOf_lt_of_mem hu
    rw [Tree.tuple.sizeOf_spec] at size
    exact ih _ (by omega) (fun v hv => h v (List.mem_flatMap.mpr ⟨u, hu, hv⟩)) rfl
  | node l shape =>
    by_cases nested : (Tree.node l shape).isFunction = true
    · rw [ownNodes_function nested, List.forall_mem_singleton] at h
      exact function nested h
    · rw [Bool.not_eq_true] at nested
      rw [ownNodes_node nested, List.forall_mem_cons] at h
      refine node nested h.1 fun u hu => ?_
      obtain ⟨c, hc, rfl⟩ := List.mem_map.mp hu
      exact ih _ (size ▸ sizeOf_child_lt hc)
        (fun v hv => h.2 v (List.mem_flatMap.mpr ⟨c.2, hu, hv⟩)) rfl
  | _ => exact other rfl nofun

/-- The names of the variables that a tree declares in the scope that it stands in, in source
order. -/
def ownVars (t : Tree) : List Text := t.ownNodes.filterMap declaratorName?

/-- The functions that a tree declares in the scope that it stands in, in source order. -/
def ownFunctions (t : Tree) : List Tree := t.ownNodes.filter (·.hasKind .functionDeclaration)

/-! ## What hoisting finds -/

/-- The part of a declarator or of the declaration of a function that carries its name. -/
def declaredId? : Tree → Option Tree
  | .node _ (.variableDeclarator id _) => some id
  | .node _ (.function .declaration id _ _) => some id
  | _ => none

/-- A node that declares a name, if it declares anything. -/
def IsNamed (t : Tree) : Prop := ∀ id ∈ t.declaredId?, ∃ l x, id = .node l (.identifier (.text x))

/-- The declarations of a row, from those of its items. -/
theorem concat_own {α : Type} (g : α → List Text) (f : α → List Tree) (as : List α) :
    Declarations.concat (as.map fun a => ⟨(g a).map .text, f a⟩) =
      ⟨(as.flatMap g).map .text, as.flatMap f⟩ := by
  induction as with
  | nil => rfl
  | cons a as ih =>
    change Declarations.append _ (Declarations.concat _) = _
    rw [ih]
    simp [Declarations.append]

/-- The variables of a row are those of its items. -/
theorem ownVars_tuple (ts : List Tree) : (Tree.tuple ts).ownVars = ts.flatMap ownVars := by
  rw [ownVars, ownNodes_tuple, List.filterMap_flatMap]
  rfl

/-- The functions of a row are those of its items. -/
theorem ownFunctions_tuple (ts : List Tree) :
    (Tree.tuple ts).ownFunctions = ts.flatMap ownFunctions := by
  rw [ownFunctions, ownNodes_tuple, List.filter_flatMap]
  rfl

/-- The variables of a node are its own name and those of its parts. -/
theorem ownVars_node {l : Option Location} {shape : Shape Tree}
    (h : (Tree.node l shape).isFunction = false) :
    (Tree.node l shape).ownVars =
      (declaratorName? (.node l shape)).toList ++ shape.parts.flatMap ownVars := by
  have rest : (shape.parts.flatMap ownNodes).filterMap declaratorName? =
      shape.parts.flatMap ownVars := by
    rw [List.filterMap_flatMap]
    rfl
  rw [ownVars, ownNodes_node h, List.filterMap_cons, rest]
  cases declaratorName? (.node l shape) with
  | none => rfl
  | some x => rfl

/-- The functions of a node that is none are those of its parts. -/
theorem ownFunctions_node {l : Option Location} {shape : Shape Tree}
    (h : (Tree.node l shape).isFunction = false) :
    (Tree.node l shape).ownFunctions = shape.parts.flatMap ownFunctions := by
  have other : (Tree.node l shape).hasKind .functionDeclaration = false := by
    cases shape with
    | function => cases h
    | forEach domain => cases domain <;> rfl
    | jump kind => cases kind <;> rfl
    | _ => rfl
  rw [ownFunctions, ownNodes_node h, List.filter_cons, other, List.filter_flatMap]
  rfl

/-- Where all own declarations have names, hoisting finds the own variables and functions. -/
theorem hoisted_own {t : Tree} (h : ∀ u ∈ t.ownNodes, u.IsNamed) :
    t.hoisted = .ok ⟨t.ownVars.map .text, t.ownFunctions⟩ := by
  refine of_ownNodes (P := IsNamed)
    (Q := fun t => t.hoisted = .ok ⟨t.ownVars.map .text, t.ownFunctions⟩) ?_ ?_ ?_ ?_ h
  · intro t noNode noTuple
    cases t with
    | tuple items => exact (noTuple items rfl).elim
    | node => cases noNode
    | _ => rfl
  · intro items parts
    rw [hoisted, fold, foldItems_eq_map, ownVars_tuple, ownFunctions_tuple]
    change ((items.map hoisted).mapM id).map Declarations.concat = _
    rw [mapM_id_eq parts]
    exact congrArg Except.ok (concat_own ownVars ownFunctions items)
  · intro l shape function _
    rw [ownVars, ownFunctions, ownNodes_function function]
    cases shape with
    | function form id params body => cases form <;> rfl
    | _ => cases function
  · intro l shape function named parts
    have below : hoistedBelow shape = .ok ⟨(shape.parts.flatMap ownVars).map .text,
        shape.parts.flatMap ownFunctions⟩ := by
      have children : ∀ c ∈ shape.children,
          c.2.hoisted = .ok ⟨c.2.ownVars.map .text, c.2.ownFunctions⟩ :=
        fun c hc => parts c.2 (List.mem_map_of_mem hc)
      rw [hoistedBelow, mapM_id_eq children, Shape.parts, List.flatMap_map, List.flatMap_map]
      exact congrArg Except.ok (concat_own (fun c : Text × Tree => c.2.ownVars)
        (fun c : Text × Tree => c.2.ownFunctions) shape.children)
    rw [ownVars_node function, ownFunctions_node function]
    -- A declarator adds its name in front of what is found below, any other node adds nothing.
    by_cases declarator : (Tree.node l shape).isDeclarator = true
    · cases shape with
      | variableDeclarator id init =>
        obtain ⟨li, x, rfl⟩ := named id rfl
        rw [hoisted_declarator, below]
        rfl
      | _ => cases declarator
    · have inert : Inert (.node l shape) := ⟨function, by simpa using declarator⟩
      rw [hoisted_inert inert, below, declaratorName?_of_inert inert]
      rfl

/-- Where all own declarations have names, the search for declared names succeeds. -/
theorem declaredNames_own {t : Tree} (h : ∀ u ∈ t.ownNodes, u.IsNamed) :
    t.declaredNames = .ok t.ownNames := by
  -- Only names that are not spelled out can fail, and these are excluded.
  have found : ∃ names, t.declaredNames = .ok names := by
    refine of_ownNodes (P := IsNamed) (Q := fun t => ∃ names, t.declaredNames = .ok names)
      ?_ ?_ ?_ ?_ h
    · intro t noNode noTuple
      cases t with
      | tuple items => exact (noTuple items rfl).elim
      -- Atoms declare nothing.
      | node => cases noNode
      | _ => exact ⟨_, rfl⟩
    · intro items parts
      obtain ⟨rows, found⟩ := mapM_id_ok parts
      rw [declaredNames_tuple, found]
      exact ⟨_, rfl⟩
    · intro l shape function named
      cases shape with
      -- A function declares its own name, if it is a declaration, and its body is not looked at.
      | function form id params body =>
        cases form with
        | declaration =>
          obtain ⟨li, x, rfl⟩ := named id rfl
          exact ⟨[x], rfl⟩
        | expression => exact ⟨[], rfl⟩
      | _ => cases function
    -- Any other node declares what its parts declare, and a declarator its name as well.
    · intro l shape function named parts
      obtain ⟨rows, found⟩ := mapM_id_ok parts
      have below : namesBelow shape = .ok rows.flatten := by
        rw [namesBelow, found]
        rfl
      cases shape with
      | program body =>
        rw [declaredNames_program]
        exact ⟨_, below⟩
      | variableDeclarator id init =>
        obtain ⟨li, x, rfl⟩ := named id rfl
        rw [declaredNames_declarator, below]
        exact ⟨_, rfl⟩
      | function => cases function
      | _ =>
        rw [declaredNames_inert rfl]
        exact ⟨_, below⟩
  -- Where the names are found, they are those of the total function.
  obtain ⟨names, found⟩ := found
  rw [found, eq_ownNames found]

end Tree

namespace Validity

open Tree

/-- What is looked through is no function. -/
theorem isFunction_of_isInert {l : Option Location} {shape : Shape Tree}
    (h : shape.isInert = true) : (Tree.node l shape).isFunction = false := by
  cases shape with
  | function => cases h
  | _ => rfl

/-- What is looked through declares nothing. -/
theorem isNamed_of_isInert {l : Option Location} {shape : Shape Tree} (h : shape.isInert = true) :
    (Tree.node l shape).IsNamed := by
  cases shape with
  | function | variableDeclarator => cases h
  | _ => exact nofun

/-- That what declares has a name depends on the parts of a tree alone. -/
theorem byParts_isNamed {checked : Bool} :
    ByParts checked fun t => ∀ u ∈ t.ownNodes, u.IsNamed where
  plain h := by
    rw [ownNodes_of_isPlain h]
    exact nofun
  tuple h := by
    rw [ownNodes_tuple]
    exact List.forall_mem_flatMap.mpr h
  inert inert _ h := by
    rw [ownNodes_node (isFunction_of_isInert inert), List.forall_mem_cons]
    exact ⟨isNamed_of_isInert inert, List.forall_mem_flatMap.mpr h⟩
  declarator name h := by
    obtain ⟨li, spelled⟩ := name
    rw [ownNodes_node rfl, List.forall_mem_cons]
    refine ⟨?_, List.forall_mem_flatMap.mpr (forall₂ ?_ h)⟩
    · rintro _ ⟨⟩
      exact ⟨_, _, rfl⟩
    · exact List.forall_mem_singleton.mpr nofun
  program wf h := by
    rw [ownNodes_node rfl, List.forall_mem_cons]
    refine ⟨nofun, List.forall_mem_flatMap.mpr (forall₁ ?_)⟩
    rw [ownNodes_tuple]
    exact List.forall_mem_flatMap.mpr h
  -- A function counts by its name alone, and that of a declaration is an identifier.
  function {_ _ _ form _ _ _} wf h := by
    rw [ownNodes_function rfl, List.forall_mem_singleton]
    cases form with
    | expression => exact nofun
    | declaration =>
      rintro _ ⟨⟩
      cases wf with
      | function named =>
        obtain ⟨li, spelled⟩ := named rfl
        exact ⟨_, _, rfl⟩

/-- All own declarations of a well-formed tree have names. -/
theorem WellFormed.isNamed {checked : Bool} {c : Targets} {t : Tree}
    (wf : WellFormed checked c t) : ∀ u ∈ t.ownNodes, u.IsNamed :=
  wf.byParts byParts_isNamed

end Validity

/-! ## Programs and functions -/

namespace Tree

/-- The nodes in the scope of a program or function. -/
def scopeNodes (f : Tree) : List Tree := f.statements.flatMap ownNodes

/-- The names of the variables of a program or function, in source order, repetitions kept. -/
def scopeVars (f : Tree) : List Text := f.scopeNodes.filterMap declaratorName?

/-- The functions that are declared in the scope of a program or function, in source order. -/
def scopeFunctions (f : Tree) : List Tree := f.scopeNodes.filter (·.hasKind .functionDeclaration)

/-- The name by which a function can be called from its own scope: its name, unless a parameter or a
declaration of the scope has that name as well. -/
def selfName? (f : Tree) : Option Text :=
  match f with
  | .node _ (.function _ id _ body) =>
    id.nameText?.filter fun x => !f.paramNames.contains x && !body.ownNames.contains x
  | _ => none

/-- The arguments of a call of the given name. -/
def argumentsOf? (name : Option Text) : Tree → Option (List Tree)
  | .node _ (.call callee (.tuple arguments)) =>
    if name.any fun x => callee.identifierName? == some x then some arguments else none
  | _ => none

/-- The calls whose value the `return` statements of a tree hand on, nested functions aside. -/
def handedOn (t : Tree) : List Tree := t.ownNodes.flatMap returnedCalls

/-- The arguments of the calls of itself whose value a function returns, in source order. -/
def selfCalls (f : Tree) : List (List Tree) :=
  (f.scopeNodes.flatMap returnedCalls).filterMap (argumentsOf? f.selfName?)

/-- When a program or function is entered, its variables and functions are found. -/
theorem hoisted_statements {f : Tree} (h : ∀ u ∈ f.scopeNodes, u.IsNamed) :
    (Tree.tuple f.statements).hoisted = .ok ⟨f.scopeVars.map .text, f.scopeFunctions⟩ := by
  rw [scopeNodes, ← ownNodes_tuple] at h
  rw [hoisted_own h, ownVars, ownFunctions, ownNodes_tuple]
  rfl

/-- The name that a node declares. -/
def declaredText? (t : Tree) : Option Text := t.declaredId?.bind nameText?

/-- The names that a tree declares are those of its own nodes. -/
theorem ownNames_eq (t : Tree) : t.ownNames = t.ownNodes.filterMap declaredText? := by
  refine of_ownNodes (P := fun _ => True) (Q := fun t => t.ownNames =
    t.ownNodes.filterMap declaredText?)
    ?other ?tuple ?function ?node fun _ _ => trivial
  case other =>
    intro t node row
    cases t with
    | node => cases node
    | tuple items => exact absurd rfl (row items)
    | _ => rfl
  case tuple =>
    intro items ih
    rw [ownNames_tuple, ownNodes_tuple, List.filterMap_flatMap]
    exact List.flatMap_congr ih
  case function =>
    intro l shape function _
    -- A function is asked for its own name only.
    rw [ownNodes_function function]
    cases shape with
    | function form id params body =>
      cases form with
      | declaration =>
        rw [ownNames, fold_node]
        change id.nameText?.toList = _
        cases named : id.nameText? <;> simp [declaredText?, declaredId?, named]
      | expression => rfl
    | _ => cases function
  case node =>
    intro l shape inert _ ih
    have parts : shape.parts.flatMap ownNames =
        (shape.parts.flatMap ownNodes).filterMap declaredText? := by
      rw [List.filterMap_flatMap]
      exact List.flatMap_congr ih
    rw [ownNodes_node inert]
    cases shape with
    | function => cases inert
    | program body =>
      rw [ownNames_program, parts]
      rfl
    -- The name of a declarator is among its parts, so that its own names are counted first.
    | variableDeclarator id init =>
      have fields : id.ownNames ++ init.ownNames =
          (Shape.variableDeclarator id init).parts.flatMap ownNames := by
        simp [Shape.parts, Shape.children]
      rw [ownNames_declarator, fields, parts, List.filterMap_cons]
      cases named : id.nameText? <;> simp [declaredText?, declaredId?, named]
    | _ =>
      rw [ownNames_inert rfl, parts]
      rfl

/-- The names that a call of a function binds: its parameters, its variables and its inner
functions. -/
def boundNames (f : Tree) : List Text :=
  f.paramNames ++ f.scopeVars ++ f.scopeFunctions.filterMap nameText?

/-- The name by which a function can call itself from its own scope is none that its calls bind. -/
theorem notMem_boundNames_of_selfName? {l lb : Option Location} {form : FunctionForm} {id : Tree}
    {ps ss : List Tree} {x : Text}
    (own : (Tree.node l (.function form id (.tuple ps)
      (.node lb (.block (.tuple ss))))).selfName? = some x) :
    x ∉ (Tree.node l (.function form id (.tuple ps)
      (.node lb (.block (.tuple ss))))).boundNames := by
  generalize hf : Tree.node l (.function form id (.tuple ps)
    (.node lb (.block (.tuple ss)))) = f at own ⊢
  have nodes : (Tree.node lb (.block (.tuple ss))).ownNodes =
      .node lb (.block (.tuple ss)) :: f.scopeNodes := by
    subst hf
    rw [ownNodes_node rfl, scopeNodes]
    exact congrArg (_ :: ·) ((List.flatMap_singleton ownNodes _).trans (ownNodes_tuple ss))
  have visible : f.paramNames.contains x = false ∧
      (Tree.node lb (.block (.tuple ss))).ownNames.contains x = false := by
    subst hf
    obtain ⟨-, visible⟩ := Option.filter_eq_some_iff.mp own
    simpa using visible
  obtain ⟨param, body⟩ := visible
  -- What a call binds besides the parameters is declared by nodes of the scope.
  have undeclared : ∀ u ∈ f.scopeNodes, u.declaredText? ≠ some x := by
    intro u hu declared
    have mem : x ∈ (Tree.node lb (.block (.tuple ss))).ownNames := by
      rw [ownNames_eq, nodes]
      exact List.mem_filterMap.mpr ⟨u, List.mem_cons_of_mem _ hu, declared⟩
    rw [List.contains_iff_mem.mpr mem] at body
    cases body
  simp only [boundNames, List.mem_append, not_or]
  refine ⟨⟨?params, ?vars⟩, ?functions⟩
  case params => simpa using param
  case vars =>
    intro mem
    obtain ⟨u, hu, named⟩ := List.mem_filterMap.mp mem
    refine undeclared u hu ?_
    unfold declaratorName? at named
    split at named
    · unfold identifierName? at named
      split at named
      · exact named
      · cases named
    · cases named
  case functions =>
    intro mem
    obtain ⟨g, hg, named⟩ := List.mem_filterMap.mp mem
    obtain ⟨hg, kind⟩ := List.mem_filter.mp hg
    refine undeclared g hg ?_
    cases g with
    | node lg shape =>
      cases shape with
      | function form id params body =>
        cases form with
        | declaration =>
          rw [← named]
          cases id <;> rfl
        | expression => cases kind
      | forEach domain => cases domain <;> cases kind
      | jump kind' => cases kind' <;> cases kind
      | _ => cases kind
    | _ => cases kind

end Tree

end TailLoop
