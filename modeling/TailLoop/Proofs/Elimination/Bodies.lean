import TailLoop.Proofs.Elimination.Alone
import TailLoop.Proofs.Elimination.Captures
import TailLoop.Proofs.Elimination.Idempotence

/-!
# Bodies before and after elimination

What stands in the scope of a program or function after elimination, nested functions aside. The walk
through its statements leaves no declaration behind and no `return` that it could convert, and it
rewrites the inner functions one by one (`Settles`). When the body is finished, the declarations of
its variables and temporaries are put in front, and the loop around the rest
(`Measure.Lists.finishBody`).

`Settled` collects what is known about a rewritten body, and `Rewrites.settled` shows that this holds
of every program and function that elimination rewrites.
-/

namespace TailLoop

namespace Tree

/-! ## Own marks -/

/-- The nodes of a tree that are not quiet, in the scope that the tree stands in. -/
def ownMarks (t : Tree) : List Tree := t.ownNodes.filter fun u => !u.isQuiet

/-- Those of the statements of a program or function. -/
def scopeMarks (f : Tree) : List Tree := f.statements.flatMap ownMarks

/-- The marks of a scope are its nodes that are not quiet. -/
theorem scopeMarks_eq (f : Tree) : f.scopeMarks = f.scopeNodes.filter fun u => !u.isQuiet := by
  rw [scopeMarks, scopeNodes, List.filter_flatMap]
  rfl

/-- The variables of a scope are declared by its statements. -/
theorem scopeVars_eq (f : Tree) : f.scopeVars = f.statements.flatMap ownVars := by
  rw [scopeVars, scopeNodes, List.filterMap_flatMap]
  rfl

/-- Declarations are not quiet. -/
theorem isQuiet_of_hasKind {u : Tree} {k : Kind} (h : u.hasKind k = true)
    (declares : k = .functionDeclaration ∨ k = .variableDeclaration) : u.isQuiet = false := by
  cases u with
  | node l shape =>
    cases shape with
    | function | variableDeclaration | program | returnStatement | variableDeclarator | jump
    | labeled | generic => rfl
    | forEach domain => cases domain <;> rcases declares with rfl | rfl <;> cases h
    | _ => rcases declares with rfl | rfl <;> cases h
  | _ => cases h

/-- A declarator is not quiet. -/
theorem isQuiet_of_isDeclarator {u : Tree} (h : u.isDeclarator = true) : u.isQuiet = false := by
  unfold isDeclarator at h
  split at h
  · rfl
  · cases h

/-- A node that is not quiet is its own mark. -/
theorem mem_ownMarks {u : Tree} (h : u.isQuiet = false) : u ∈ u.ownMarks := by
  refine List.mem_filter.mpr ⟨?_, by rw [h]; rfl⟩
  cases u with
  | node l shape =>
    cases function : (Tree.node l shape).isFunction with
    | true =>
      rw [ownNodes_function function]
      exact List.mem_singleton_self _
    | false =>
      rw [ownNodes_node function]
      exact List.mem_cons_self
  | _ => cases h

/-- To look for nodes that are not quiet, the marks are enough. -/
theorem filter_scopeMarks {p : Tree → Bool} (h : ∀ u, p u = true → u.isQuiet = false) (f : Tree) :
    f.scopeMarks.filter p = f.scopeNodes.filter p := by
  rw [scopeMarks_eq, List.filter_filter]
  refine List.filter_congr fun u _ => ?_
  cases found : p u with
  | false => rfl
  | true => rw [h u found]; rfl

/-- A node that is not quiet is a mark of the scope that holds it. -/
theorem mem_scopeMarks {f u : Tree} (h : u.isQuiet = false) :
    u ∈ f.scopeMarks ↔ u ∈ f.scopeNodes := by
  simp [scopeMarks_eq, h]

/-- What is no declarator declares no name. -/
theorem declaratorName?_of_isDeclarator {u : Tree} (h : u.isDeclarator = false) :
    u.declaratorName? = none := by
  unfold declaratorName?
  split
  · cases h
  · rfl

/-- A quiet node declares no name. -/
theorem declaratorName?_of_isQuiet {u : Tree} (h : u.isQuiet = true) : u.declaratorName? = none := by
  refine declaratorName?_of_isDeclarator (Bool.eq_false_iff.mpr fun declarator => ?_)
  cases (isQuiet_of_isDeclarator declarator).symm.trans h

/-- The variables of a scope are declared by its marks. -/
theorem scopeVars_marks (f : Tree) : f.scopeVars = f.scopeMarks.filterMap declaratorName? := by
  rw [scopeMarks_eq, List.filterMap_filter, scopeVars]
  refine List.filterMap_congr fun u _ => ?_
  cases quiet : u.isQuiet with
  | true => rw [declaratorName?_of_isQuiet quiet]; rfl
  | false => rfl

/-- Own nodes are nodes. -/
theorem nodes_of_ownNodes (t : Tree) : ∀ u ∈ t.ownNodes, u ∈ t.nodes := by
  refine of_ownNodes (P := fun _ => True) (Q := fun t => ∀ u ∈ t.ownNodes, u ∈ t.nodes)
    ?_ ?_ ?_ ?_ fun _ _ => trivial
  -- An atom has no nodes of its own.
  · intro t noNode noTuple
    cases t with
    | tuple items => exact (noTuple items rfl).elim
    | node => cases noNode
    | _ => exact nofun
  · intro items parts u hu
    rw [ownNodes_tuple] at hu
    rw [nodes_row]
    obtain ⟨v, hv, hu⟩ := List.mem_flatMap.mp hu
    exact List.mem_flatMap.mpr ⟨v, hv, parts v hv u hu⟩
  -- A nested function counts as one node, and what it holds is left out.
  · intro l shape function _
    rw [ownNodes_function function, nodes_parts]
    exact List.forall_mem_singleton.mpr List.mem_cons_self
  · intro l shape function _ parts u hu
    rw [ownNodes_node function, List.mem_cons] at hu
    rw [nodes_parts]
    rcases hu with rfl | hu
    · exact List.mem_cons_self
    · obtain ⟨v, hv, hu⟩ := List.mem_flatMap.mp hu
      exact List.mem_cons_of_mem _ (List.mem_flatMap.mpr ⟨v, hv, parts v hv u hu⟩)

end Tree

namespace Elimination

open Tree Validity

/-- The marks of a scope. -/
def ownMarkMeasure : Measure Tree where
  of := ownMarks
  plain h := by rw [ownMarks, ownNodes_of_isPlain h]; rfl
  row ts := by
    rw [ownMarks, ownNodes_tuple, List.filter_flatMap]
    rfl
  quiet {l shape} h := by
    have dropped : (!(Tree.node l shape).isQuiet) = false := by rw [isQuiet, h]; rfl
    rw [ownMarks, ownNodes_node (isFunction_of_isQuiet h), List.filter_cons, dropped,
      List.filter_flatMap]
    rfl

/-- A function marks itself, and nothing within. -/
theorem ownMarks_function (l : Option Location) (form : FunctionForm) (id params body : Tree) :
    (Tree.node l (.function form id params body)).ownMarks =
      [.node l (.function form id params body)] := by
  rw [ownMarks, ownNodes_function rfl]
  rfl

/-- Own marks are listed node by node. -/
theorem lists_ownMarks : ownMarkMeasure.Lists where
  node {l shape} quiet function := by
    have kept : (!(Tree.node l shape).isQuiet) = true := by rw [isQuiet, quiet]; rfl
    change (Tree.node l shape).ownMarks = _
    rw [ownMarks, ownNodes_node function, List.filter_cons, kept, List.filter_flatMap]
    rfl

/-! ## Declarations that are put in front -/

/-- Declarations of groups of variables, one for each group. -/
def declareGroups (groups : List (List Text)) : List Tree :=
  groups.map fun names => Tree.declaration (names.map (Tree.declarator · .null))

/-- The groups of variables that are declared in front of a finished body: its own variables
together, and each temporary by itself. -/
def Scope.groups (a : Scope) : List (List Text) :=
  (if a.locals.isEmpty then [] else [a.locals]) ++ a.used.map fun x => [x]

/-- The groups of declarations declare the locals and the used temporaries. -/
theorem flatten_groups (a : Scope) : a.groups.flatten = a.locals ++ a.used := by
  have own : (if a.locals.isEmpty then [] else [a.locals]).flatten = a.locals := by
    cases a.locals with
    | nil => rfl
    | cons x xs => exact List.append_nil _
  have each : (a.used.map fun x => [x]).flatten = a.used := by
    rw [← List.flatMap_def, List.flatMap_singleton']
  rw [Scope.groups, List.flatten_append, own, each]

/-- What stands in front of a body is one declaration for each group. -/
theorem declareGroups_groups (a : Scope) :
    Tree.declareAll a.locals ++ Tree.declareEach a.used [] = declareGroups a.groups := by
  have own : Tree.declareAll a.locals =
      declareGroups (if a.locals.isEmpty then [] else [a.locals]) := by
    unfold Tree.declareAll
    split <;> rfl
  have each : Tree.declareEach a.used [] = declareGroups (a.used.map fun x => [x]) :=
    List.ext_getElem (by simp [Tree.declareEach, declareGroups])
      (by simp [Tree.declareEach, declareGroups])
  rw [own, each, Scope.groups, declareGroups, declareGroups, declareGroups, List.map_append]

section Groups

variable {μ : Measure Tree} (lists : μ.Lists) (groups : List (List Text))

include lists

/-- What declarations for groups list: each declaration and its declarators. -/
theorem Measure.Lists.declareGroups : (declareGroups groups).flatMap μ.of =
    groups.flatMap fun names =>
      Tree.declaration (names.map (Tree.declarator · .null)) ::
        names.map (Tree.declarator · .null) := by
  -- Declared names have no initial values, and an absent field has no nodes.
  have declarators (names : List Text) :
      (names.map (Tree.declarator · .null)).flatMap μ.of = names.map (Tree.declarator · .null) := by
    rw [List.flatMap_map, ← List.flatMap_pure_eq_map]
    refine List.flatMap_congr fun x _ => ?_
    have absent : μ.of .null = [] := μ.plain rfl
    have one : μ.of (Tree.declarator x .null) = Tree.declarator x .null :: μ.of .null :=
      lists.declarator
    rw [absent] at one
    exact one
  rw [Elimination.declareGroups, List.flatMap_map]
  refine List.flatMap_congr fun names _ => ?_
  have group : μ.of (Tree.declaration (names.map (Tree.declarator · .null))) =
      Tree.declaration (names.map (Tree.declarator · .null)) ::
        (names.map (Tree.declarator · .null)).flatMap μ.of := lists.declaration
  rwa [declarators names] at group

/-- The nodes of declarations are these and their declarators. -/
theorem Measure.Lists.mem_declareGroups {u : Tree}
    (h : u ∈ (Elimination.declareGroups groups).flatMap μ.of) :
    (∃ ds, u = Tree.declaration ds) ∨ ∃ x, u = Tree.declarator x .null := by
  rw [lists.declareGroups] at h
  obtain ⟨names, -, hu⟩ := List.mem_flatMap.mp h
  rcases List.mem_cons.mp hu with rfl | hu
  · exact .inl ⟨_, rfl⟩
  · obtain ⟨x, -, rfl⟩ := List.mem_map.mp hu
    exact .inr ⟨x, rfl⟩

/-- The declarations for groups are the declarations that they list. -/
theorem Measure.Lists.filter_declareGroups :
    ((Elimination.declareGroups groups).flatMap μ.of).filter (·.hasKind .variableDeclaration) =
      Elimination.declareGroups groups := by
  rw [lists.declareGroups, List.filter_flatMap, Elimination.declareGroups,
    ← List.flatMap_pure_eq_map]
  refine List.flatMap_congr fun names _ => ?_
  have none : (names.map (Tree.declarator · .null)).filter (·.hasKind .variableDeclaration) = [] := by
    refine filter_eq_nil fun u hu => ?_
    obtain ⟨x, -, rfl⟩ := List.mem_map.mp hu
    rfl
  rw [List.filter_cons, none]
  rfl

/-- The declarations for groups declare the names of the groups in order. -/
theorem Measure.Lists.names_declareGroups :
    ((Elimination.declareGroups groups).flatMap μ.of).filterMap declaratorName? =
      groups.flatten := by
  rw [lists.declareGroups, List.filterMap_flatMap, ← List.flatMap_id]
  refine List.flatMap_congr fun names _ => ?_
  have each : (names.map (Tree.declarator · .null)).filterMap declaratorName? = names := by
    rw [List.filterMap_map]
    exact List.filterMap_some
  rw [List.filterMap_cons, each]
  rfl

end Groups

/-! ## Finished bodies -/

section Finished

variable {n : Naming} {μ : Measure Tree} (lists : μ.Lists) {a : Scope} {ts ts' : List Tree}

include lists

/-- The loop around a body holds the marks of the body, and maybe a `return` at the end. -/
theorem Measure.Lists.loopAround (n : Naming) (locals : List Text) (ts : List Tree) :
    ∃ ending : List Tree, (∀ y ∈ ending, y = Tree.new (.returnStatement .null)) ∧
      μ.of (Elimination.loopAround n locals ts) =
        Elimination.loopAround n locals ts :: (ts.flatMap μ.of ++ ending) := by
  let body := Tree.assignAll locals [] ++ ts
  let inner := Tree.new
    (.whileStatement (Tree.new (.literal (.bool true))) (.block (endWithReturn body)))
  -- The resets at the head of the loop and the loop's own frame count for nothing.
  have resets : μ.Same body ts :=
    Measure.Same.append (.assignAll locals [] (Nat.zero_le _)) (.refl ts)
  have wrapped : μ.Same [inner] (endWithReturn body) := by
    have block : μ.Same [Tree.block (endWithReturn body)] (endWithReturn body) :=
      (Measure.Same.node rfl).trans (.row _)
    exact (Measure.Same.node rfl).trans (.cons (.literal rfl) block)
  have labeled : μ.of (Elimination.loopAround n locals ts) =
      Elimination.loopAround n locals ts :: μ.of inner := lists.labeled
  rw [← List.flatMap_singleton μ.of inner, wrapped] at labeled
  -- Only the final `return` may be added, and only where the body does not end with one.
  have ended : ∃ ending : List Tree, (∀ y ∈ ending, y = Tree.new (.returnStatement .null)) ∧
      (endWithReturn body).flatMap μ.of = ts.flatMap μ.of ++ ending := by
    unfold endWithReturn
    split
    · exact ⟨[], nofun, by rw [resets, List.append_nil]⟩
    · have last : [Tree.new (.returnStatement .null)].flatMap μ.of =
          [Tree.new (.returnStatement .null)] := by
        have absent : μ.of .null = [] := μ.plain rfl
        have value := lists.returned (l := none) (e := .null)
        rw [absent] at value
        rw [List.flatMap_singleton]
        exact value
      refine ⟨[Tree.new (.returnStatement .null)], List.forall_mem_singleton.mpr rfl, ?_⟩
      rw [List.flatMap_append, last, resets]
  obtain ⟨ending, closes, same⟩ := ended
  rw [same] at labeled
  exact ⟨ending, closes, labeled⟩

/-- A finished body holds the declarations that are put in front, the loop if there is one, the marks
of its statements, and maybe a `return` at the end. -/
theorem Measure.Lists.finishBody (strict : ∀ t ∈ a.directive, t.isStrictDirective = true)
    (plain : ∀ t ∈ ts, PlainStatement t) (idle : a.isTailRecursive = false → a.used = [])
    (finished : Elimination.finishBody n a ts = .ok ts') :
    ∃ ending : List Tree, (∀ y ∈ ending, y = Tree.new (.returnStatement .null)) ∧
      ts'.flatMap μ.of = (Elimination.declareGroups a.groups).flatMap μ.of ++
        ((if a.isTailRecursive then [Elimination.loopAround n a.locals ts] else []) ++
          (ts.flatMap μ.of ++ ending)) := by
  have directive : μ.Same a.directive.toList [] := by
    cases found : a.directive with
    | none => exact .refl _
    | some t =>
      obtain ⟨l, le, rfl⟩ := eq_strictDirective (strict t found)
      exact (Measure.Same.node rfl).trans (.literal rfl)
  have front : a.directive.toList.flatMap μ.of = [] := directive
  rw [← declareGroups_groups]
  cases tail : a.isTailRecursive with
  | true =>
    rw [finishBody_loop tail] at finished
    cases finished
    obtain ⟨ending, closes, looped⟩ := lists.loopAround n a.locals ts
    refine ⟨ending, closes, ?_⟩
    simp only [List.flatMap_append, front, List.nil_append, List.flatMap_singleton, looped, if_true,
      List.append_assoc, List.singleton_append]
  | false =>
    -- Only resets of variables are dropped, and assignments hold no marks.
    obtain ⟨rest, dropped, rfl⟩ := (finishBody_plain tail).mp finished
    have kept : ts.flatMap μ.of = rest.flatMap μ.of := Measure.Same.dropResets plain dropped
    have none : Tree.declareEach a.used [] = [] := by rw [idle tail]; rfl
    refine ⟨[], nofun, ?_⟩
    simp only [List.flatMap_append, front, none, kept, List.nil_append, List.append_nil,
      Bool.false_eq_true, if_false]

/-- To look for nodes in a finished body that are neither declarations nor a `return`, the loop and
the statements are enough. -/
theorem Measure.Lists.filter_finishBody (strict : ∀ t ∈ a.directive, t.isStrictDirective = true)
    (plain : ∀ t ∈ ts, PlainStatement t) (idle : a.isTailRecursive = false → a.used = [])
    (finished : Elimination.finishBody n a ts = .ok ts') {p : Tree → Bool}
    (declaration : ∀ ds, p (Tree.declaration ds) = false)
    (declarator : ∀ x, p (Tree.declarator x .null) = false)
    (returned : p (Tree.new (.returnStatement .null)) = false) :
    (ts'.flatMap μ.of).filter p =
      (if a.isTailRecursive then [Elimination.loopAround n a.locals ts] else []).filter p ++
        (ts.flatMap μ.of).filter p := by
  obtain ⟨ending, closes, marks⟩ := lists.finishBody strict plain idle finished
  -- What is declared in front, and the added `return`, do not satisfy the predicate.
  have front : ((Elimination.declareGroups a.groups).flatMap μ.of).filter p = [] := by
    refine filter_eq_nil fun u hu => ?_
    rcases lists.mem_declareGroups _ hu with ⟨ds, rfl⟩ | ⟨x, rfl⟩
    · exact declaration ds
    · exact declarator x
  have last : ending.filter p = [] := filter_eq_nil fun u hu => by rw [closes u hu, returned]
  rw [marks, List.filter_append, List.filter_append, List.filter_append, front, last,
    List.nil_append, List.append_nil]

end Finished

/-! ## Walks through a body -/

/-- Whether a statement continues the loop that has the given label. -/
def continuesAt (name : Text) : Tree → Bool
  | .node _ (.jump .continues label) => isIdentifier name label
  | _ => false

/-- A jump to a name is not quiet. -/
theorem isQuiet_of_continuesAt {name : Text} {u : Tree} (h : continuesAt name u = true) :
    u.isQuiet = false := by
  unfold continuesAt at h
  split at h
  · rfl
  · cases h

/-- A statement labelled by a name is not quiet. -/
theorem isQuiet_of_isLabeledBy {name : Text} {u : Tree} (h : isLabeledBy name u = true) :
    u.isQuiet = false := by
  unfold isLabeledBy at h
  split at h
  · rfl
  · cases h

/-- Whether a node is a declaration or a declarator. -/
def isDeclaring (t : Tree) : Bool := t.hasKind .variableDeclaration || t.isDeclarator

/-- A `return` holds no value that a scope converts. -/
def Keeps (a : Scope) (t : Tree) : Prop :=
  ∀ l e, t = .node l (.returnStatement e) → a.converts e = false

/-- What stands between two scopes before and after a walk: no declaration is left, no `return` that
could be converted, and no label of a generated loop; inner functions are rewritten one by one; a
converted call adds a jump, and then the scope is tail recursive. -/
structure Settles (n : Naming) (a b : Scope) (xs ys : List Tree) : Prop where
  name : b.name = a.name
  functions : List.Forall₂ (Rewrites n) (xs.filter (·.hasKind .functionDeclaration))
    (ys.filter (·.hasKind .functionDeclaration))
  undeclared : ∀ y ∈ ys, isDeclaring y = false
  keeps : ∀ y ∈ ys, Keeps a y
  unlabeled : ∀ y ∈ ys, isLabeledBy n.loop y = false
  jumps : ∃ count, ys.countP (continuesAt n.loop) = xs.countP (continuesAt n.loop) + count ∧
    b.isTailRecursive = (a.isTailRecursive || decide (0 < count))

/-- What is no `return` keeps to the scope. -/
theorem keeps_of_hasKind {a : Scope} {t : Tree} (h : t.hasKind .returnStatement = false) :
    Keeps a t := by
  rintro l e rfl
  cases h

/-- What is converted depends on the name of the function alone. -/
theorem converts_congr {a b : Scope} (h : b.name = a.name) (e : Tree) :
    b.converts e = a.converts e := by
  unfold Scope.converts
  rw [h]

namespace Settles

variable {n : Naming} {a b c : Scope} {x y : Tree} {xs ys xs' ys' : List Tree}

/-- Nothing is settled in no statements. -/
theorem nil : Settles n a a [] [] where
  name := rfl
  functions := .nil
  undeclared := nofun
  keeps := nofun
  unlabeled := nofun
  jumps := ⟨0, rfl, (Bool.or_false _).symm⟩

/-- Rows are settled one after the other. -/
theorem append (h1 : Settles n a b xs ys) (h2 : Settles n b c xs' ys') :
    Settles n a c (xs ++ xs') (ys ++ ys') where
  name := h2.name.trans h1.name
  functions := by
    -- The flag is set if either count is positive.
    rw [List.filter_append, List.filter_append]
    exact List.rel_append h1.functions h2.functions
  undeclared := List.forall_mem_append.mpr ⟨h1.undeclared, h2.undeclared⟩
  keeps := by
    refine List.forall_mem_append.mpr ⟨h1.keeps, fun y hy l e same => ?_⟩
    rw [← converts_congr h1.name]
    exact h2.keeps y hy l e same
  unlabeled := List.forall_mem_append.mpr ⟨h1.unlabeled, h2.unlabeled⟩
  jumps := by
    obtain ⟨count, counted, tail⟩ := h1.jumps
    obtain ⟨count', counted', tail'⟩ := h2.jumps
    refine ⟨count + count', ?_, ?_⟩
    · rw [List.countP_append, List.countP_append, counted, counted']
      omega
    · rw [tail', tail, Bool.or_assoc]
      congr 1
      rw [← Bool.decide_or]
      exact decide_eq_decide.mpr (by omega)

/-- Where the start of a walk is moved to another scope of the same function. -/
theorem start (h : Settles n b c xs ys) (name : b.name = a.name)
    (tail : b.isTailRecursive = a.isTailRecursive) : Settles n a c xs ys where
  name := h.name.trans name
  functions := h.functions
  undeclared := h.undeclared
  keeps y hy l e same := by
    rw [← converts_congr name]
    exact h.keeps y hy l e same
  unlabeled := h.unlabeled
  jumps := by
    rw [← tail]
    exact h.jumps

/-- A node that goes. -/
theorem gone (function : x.hasKind .functionDeclaration = false)
    (jump : continuesAt n.loop x = false) : Settles n a a [x] [] :=
  { nil with
    functions := by
      rw [List.filter_cons, function]
      exact .nil
    jumps := ⟨0, by rw [List.countP_singleton, jump]; rfl, (Bool.or_false _).symm⟩ }

/-- A `return` that comes, whose value is not converted. -/
theorem returned {l : Option Location} {e : Tree} (kept : a.converts e = false) :
    Settles n a a [] [.node l (.returnStatement e)] where
  name := rfl
  functions := .nil
  undeclared := List.forall_mem_singleton.mpr rfl
  keeps := List.forall_mem_singleton.mpr (by rintro _ _ ⟨⟩; exact kept)
  unlabeled := List.forall_mem_singleton.mpr rfl
  jumps := ⟨0, rfl, (Bool.or_false _).symm⟩

/-- A jump that comes for a converted call. -/
theorem jumpBack {args : List Tree} : Settles n a
    ((callTemporaries a args).foldl Scope.use a.markTailRecursive) [] [Elimination.jumpBack n] where
  name := (Scope.Leads.useAll _ a.markTailRecursive).name
  functions := .nil
  undeclared := List.forall_mem_singleton.mpr rfl
  keeps := List.forall_mem_singleton.mpr (keeps_of_hasKind rfl)
  unlabeled := List.forall_mem_singleton.mpr rfl
  jumps := by
    have jump : continuesAt n.loop (Elimination.jumpBack n) = true := beq_self_eq_true (some n.loop)
    refine ⟨1, by rw [List.countP_singleton, jump]; rfl, ?_⟩
    rw [(Scope.Leads.useAll _ a.markTailRecursive).tail rfl]
    exact (Bool.or_true _).symm

/-- A node that takes the place of another. -/
theorem replaced
    (functions : List.Forall₂ (Rewrites n) ([x].filter (·.hasKind .functionDeclaration))
      ([y].filter (·.hasKind .functionDeclaration)))
    (undeclared : isDeclaring y = false) (keeps : Keeps a y)
    (unlabeled : isLabeledBy n.loop y = false)
    (jump : continuesAt n.loop y = continuesAt n.loop x) : Settles n a a [x] [y] where
  name := rfl
  functions := functions
  undeclared := List.forall_mem_singleton.mpr undeclared
  keeps := List.forall_mem_singleton.mpr keeps
  unlabeled := List.forall_mem_singleton.mpr unlabeled
  jumps := ⟨0, by rw [List.countP_singleton, List.countP_singleton, jump]; rfl,
    (Bool.or_false _).symm⟩

/-- A jump that stays. -/
theorem jump {l : Option Location} {kind : JumpKind} {label : Tree} :
    Settles n a a [.node l (.jump kind label)] [.node l (.jump kind label)] := by
  cases kind <;> exact replaced .nil rfl (keeps_of_hasKind rfl) rfl rfl

end Settles

/-- A label that is not reserved is not the one of generated loops. -/
theorem isLabeledBy_loop {n : Naming} {l ln : Option Location} {x : Text} {body : Tree}
    (free : n.reserves x = false) :
    isLabeledBy n.loop (.node l (.labeled (.node ln (.identifier (.text x))) body)) = false := by
  rw [Naming.reserves, Bool.or_eq_false_iff] at free
  have other : x ≠ n.loop := by simpa using free.2
  exact beq_false_of_ne fun same => other (Option.some.inj same)

/-- A walk settles what it goes through. -/
theorem transports_settles {n : Naming} : Transports n ownMarkMeasure ownMarkMeasure
    fun s s' xs ys => Settles n s.scope s'.scope xs ys where
  nil := .nil
  append h1 h2 := h1.append h2
  addVars _ h := h
  addTernary h := h
  directive := Settles.nil.start rfl rfl
  declaration h := by
    rw [lists_ownMarks.declaration]
    exact (Settles.gone rfl rfl).append h
  declarator {s s' l li x init ys} _ h := by
    rw [lists_ownMarks.declarator]
    have noted : (s.scope.addLocal x).isTailRecursive = s.scope.isTailRecursive := by
      unfold Scope.addLocal
      split <;> rfl
    exact (Settles.gone rfl rfl).append (h.start (Scope.Leads.addLocal _ _).name noted)
  returned h := by
    rw [lists_ownMarks.returned]
    exact (Settles.gone rfl rfl).append h
  returnNothing {s l} := by
    have absent : ownMarkMeasure.of .null = [] := rfl
    rw [lists_ownMarks.returned, absent]
    exact .returned rfl
  returnValue kept part h := by
    -- The value stays one that the scope does not convert.
    rw [lists_ownMarks.returned]
    exact (Settles.returned (converts_again part (fun _ => id) kept)).append h
  converted _ _ := by
    have jump : ownMarkMeasure.of (jumpBack n) = [jumpBack n] := lists_ownMarks.jump
    rw [jump]
    exact .jumpBack
  bareJump {s l kind} := by
    rw [lists_ownMarks.bareJump]
    exact .jump
  jump {s l kind ln x} := by
    rw [lists_ownMarks.jump]
    exact .jump
  labeled {s s' l ln x body body'} free h := by
    have label : Settles n s.scope s.scope
        [.node l (.labeled (.node ln (.identifier (.text x))) body)]
        [.node l (.labeled (.node ln (.identifier (.text x))) body')] :=
      .replaced .nil rfl (keeps_of_hasKind rfl) (isLabeledBy_loop free) rfl
    rw [lists_ownMarks.labeled, lists_ownMarks.labeled]
    exact label.append h
  function {s s1 l form id ps lb ss ss1 ss' scope} starts walked _ finished := by
    have rewritten : Rewrites n (functionOf l form id ps lb ss) (functionOf l form id ps lb ss') :=
      ⟨.function, .function starts, walked, finished⟩
    change Settles n s.scope s.scope (functionOf l form id ps lb ss).ownMarks
      (functionOf l form id ps lb ss').ownMarks
    rw [functionOf, functionOf, ownMarks_function, ownMarks_function]
    cases form with
    | declaration => exact .replaced (.cons rewritten .nil) rfl (keeps_of_hasKind rfl) rfl rfl
    | expression => exact .replaced .nil rfl (keeps_of_hasKind rfl) rfl rfl

/-! ## Rewritten bodies -/

/-- The temporaries that stage the arguments of the calls of itself that a program or function
returns, in the order of first use. -/
def usedTemporaries (n : Naming) (f : Tree) : List Text :=
  (f.selfCalls.flatMap (callTemporaries (scopeOf n f))).eraseDups

/-- A program or function that was rewritten, with the scope at the end of the walk through its body
and the statements that the walk has left. -/
structure Settled (n : Naming) (f f' : Tree) (a : Scope) (ts : List Tree) : Prop where
  head : SameHead f f'
  free : ∀ x ∈ f.paramNames, n.reserves x = false
  locals : a.locals = freshNames f.paramNames f.scopeVars
  declarable : Declarable n f.paramNames a.locals
  used : a.used = usedTemporaries n f
  staged : ∀ x ∈ a.used, x ∈ f.paramNames.map (n.temporary ++ ·)
  tail : a.isTailRecursive = !f.selfCalls.isEmpty
  idle : a.isTailRecursive = false → a.used = []
  strict : ∀ t ∈ a.directive, t.isStrictDirective = true
  plain : ∀ t ∈ ts, PlainStatement t
  settles : Settles n (scopeOf n f) a f.scopeMarks (ts.flatMap ownMarks)
  names : ∀ x, x ∈ a.locals ∨ x ∈ ts.flatMap ownNames ∨ x ∈ f.paramNames ↔
    x ∈ f.statements.flatMap ownNames ∨ x ∈ f.paramNames
  finished : finishBody n a ts = .ok f'.statements

/-- The temporaries of calls are those that the function tells. -/
theorem Scope.Describes.callTemporaries {n : Naming} {f : Tree} {a : Scope} (h : a.Describes n f) :
    Elimination.callTemporaries a = Elimination.callTemporaries (scopeOf n f) := by
  funext args
  unfold Elimination.callTemporaries temporariesOf
  rw [h.params, h.temporaries]
  rfl

/-- The parameters of a program or function that was entered are not reserved. -/
theorem Scope.Enters.free {n : Naming} {checked : Bool} {c : Targets} {f : Tree} {a : Scope}
    (wf : WellFormed checked c f) (h : a.Enters n f) :
    ∀ x ∈ f.paramNames, n.reserves x = false := by
  cases h with
  | program => exact nofun
  | function starts =>
    cases wf with
    | function _ _ params => exact free_of_declaredNames params (starts_ofFunction starts).params

/-- Whatever elimination rewrites is settled. -/
theorem Rewrites.settled {n : Naming} {checked : Bool} {c : Targets} {f f' : Tree}
    (wf : WellFormed checked c f) (h : Rewrites n f f') : ∃ a ts, Settled n f f' a ts := by
  obtain @⟨a, stats, ts, s, head, enters, walked, finished⟩ := h
  -- Each field is a fact about the start, the walk or the end of the body, proved for all
  -- functions.
  have describes := enters.describes wf
  obtain ⟨ps, starts⟩ := enters.starts
  have ends := ends_of_start starts walked
  have declarable := declarable_of_start walked starts.locals
  have paired : a.temporaries.length = a.params.length := by
    rw [starts.temporaries, List.length_map]
  have staged := staged_of_start walked paired ⟨rfl, rfl, by rw [starts.used]; exact nofun⟩
  have tracks := walked.tracked (R := fun _ _ => True) fun _ _ => trivial
  have settles := walked.transported_start transports_settles
  exact ⟨s.scope, ts,
    { head
      free := enters.free wf
      locals := by rw [ends.locals, describes.params, scopeVars_eq]
      declarable := by
        rw [← describes.params]
        exact declarable
      used := by rw [ends.used, describes.ownCalls, describes.callTemporaries]; rfl
      staged := by
        rw [← describes.temporaries]
        exact staged.used
      tail := by rw [ends.tail, describes.ownCalls]
      idle := ends.idle
      strict := strict_of_start walked starts.directive
      plain := walked.plain
      settles := settles.start describes.name starts.tail
      names x := by
        have names := tracks.names x
        rw [describes.params, starts.locals] at names
        exact names.trans (or_iff_right List.not_mem_nil)
      finished }⟩

namespace Settled

variable {n : Naming} {f f' : Tree} {a : Scope} {ts : List Tree}

/-- What stands in the scope of a rewritten program or function. -/
theorem marks (h : Settled n f f' a ts) :
    ∃ ending : List Tree, (∀ y ∈ ending, y = Tree.new (.returnStatement .null)) ∧
      f'.scopeMarks = (declareGroups a.groups).flatMap ownMarks ++
        ((if a.isTailRecursive then [loopAround n a.locals ts] else []) ++
          (ts.flatMap ownMarks ++ ending)) :=
  lists_ownMarks.finishBody h.strict h.plain h.idle h.finished

/-- Each node in the scope of a rewritten program or function stands in the walked statements, or is
a declaration or declarator that was put in front, the loop, or a `return` without value. -/
theorem mem_marks (h : Settled n f f' a ts) {u : Tree} (hu : u ∈ f'.scopeMarks) :
    u ∈ ts.flatMap ownMarks ∨ (∃ ds, u = Tree.declaration ds) ∨
      (∃ x, u = Tree.declarator x .null) ∨ u = loopAround n a.locals ts ∨
        u = Tree.new (.returnStatement .null) := by
  obtain ⟨ending, closes, marks⟩ := h.marks
  rw [marks, List.mem_append, List.mem_append, List.mem_append] at hu
  rcases hu with hu | hu | hu | hu
  · rcases lists_ownMarks.mem_declareGroups _ hu with declares | declares
    · exact .inr (.inl declares)
    · exact .inr (.inr (.inl declares))
  · split at hu
    · exact .inr (.inr (.inr (.inl (List.mem_singleton.mp hu))))
    · cases hu
  · exact .inl hu
  · exact .inr (.inr (.inr (.inr (closes u hu))))

/-- To look for nodes that elimination does not add, the walked statements are enough. -/
theorem filter_marks (h : Settled n f f' a ts) {p : Tree → Bool}
    (declaration : ∀ ds, p (Tree.declaration ds) = false)
    (declarator : ∀ x, p (Tree.declarator x .null) = false)
    (loop : p (loopAround n a.locals ts) = false)
    (returned : p (Tree.new (.returnStatement .null)) = false) :
    f'.scopeMarks.filter p = (ts.flatMap ownMarks).filter p := by
  have around : (if a.isTailRecursive then [loopAround n a.locals ts] else []).filter p = [] := by
    split
    · rw [List.filter_cons, loop]
      rfl
    · rfl
  have found := lists_ownMarks.filter_finishBody h.strict h.plain h.idle h.finished declaration
    declarator returned
  rw [around] at found
  exact found

/-- The inner functions are rewritten in order. -/
theorem functions (h : Settled n f f' a ts) :
    List.Forall₂ (Rewrites n) f.scopeFunctions f'.scopeFunctions := by
  have loud (u : Tree) (kind : u.hasKind .functionDeclaration = true) : u.isQuiet = false :=
    isQuiet_of_hasKind kind (.inl rfl)
  rw [scopeFunctions, scopeFunctions, ← filter_scopeMarks loud, ← filter_scopeMarks loud,
    h.filter_marks (fun _ => rfl) (fun _ => rfl) rfl rfl]
  exact h.settles.functions

end Settled

end Elimination

end TailLoop
