import TailLoop.Proofs.Elimination.Strictness
import TailLoop.Proofs.Simulation.Sessions

/-!
# Programs of functions

A program that only declares functions, which are not used but to call them (`FirstOrder`), and the
program that takes its place when tail calls are eliminated. Running either of them declares its
functions and does nothing else (`run_declarations`), so that the two start alike, and a function of
the one is a function of the other rewritten (`Replaces.rewrites`). From there sessions go on alike.

Main statements: `eliminateTailCalls_session` for programs of which functions may become loops
(`Loopable`), as long as calls are not nested too deeply, and
`eliminateTailCalls_session_unlooped` for programs of which no function becomes a loop. Neither
extends to programs whose functions make functions, nor to functions that declare, without a value,
a parameter or a variable that has a value by then: the declaration becomes a reset.
-/

namespace TailLoop

namespace Tree

/-- The name of a function. -/
def functionName : Tree → Text
  | .node _ (.function _ id _ _) => id.identifierName?.getD []
  | _ => []

/-- The function that a program which is not strict makes of a declaration. -/
def closure : Tree → Closure
  | .node l (.function form id params body) =>
    ⟨id, params, body, 0, (Tree.node l (.function form id params body)).isStrict⟩
  | _ => ⟨.null, .null, .null, 0, false⟩

/-- A program of function declarations hoists them all, and no names. -/
theorem hoisted_declarations {fs : List Tree} (h : ∀ f ∈ fs, f.IsDeclaration) :
    (Tree.tuple fs).hoisted = .ok ⟨[], fs⟩ := by
  have each : ∀ f ∈ fs, f.hoisted = .ok ⟨[], [f]⟩ := by
    intro f hf
    obtain ⟨x, ps, ss, ⟨⟩⟩ := h f hf
    rw [hoisted, fold_node]
    rfl
  have row : Declarations.concat (fs.map fun f => ⟨[], [f]⟩) = ⟨[], fs⟩ := by
    -- One declaration is hoisted after the other.
    clear each h
    induction fs with
    | nil => rfl
    | cons f fs ih =>
      change Declarations.append _ (Declarations.concat _) = _
      rw [ih]
      rfl
  rw [hoisted, fold, foldItems_eq_map]
  change ((fs.map hoisted).mapM id).map Declarations.concat = _
  rw [mapM_id_eq each]
  exact congrArg Except.ok row

end Tree

namespace Simulation

open Eval Validity Elimination Tree

/-! ## The start of a program -/

/-- The store with these functions and global variables, in which nothing else was done. -/
def startStore (closures : Array Closure) (g : Bindings) : Store :=
  { Store.initial with environments := #[⟨none, g⟩], closures }

/-- The global variables for functions, of which the first one has the given number. -/
def functionEntries (fs : List Tree) (first : Nat) : Bindings :=
  ((fs.map functionName).zipIdx first).map fun p => (p.1, .function p.2)

/-- The store after a program has declared functions. -/
def started (fs : List Tree) : Store :=
  startStore (fs.map closure).toArray (putAll (functionEntries fs 0) Store.builtins)

/-- Declaring a function binds its name to a new function. -/
theorem declareFunction_startStore {f : Tree} {x : Text} {ps ss : List Tree}
    (h : f.Declaration x ps ss) (closures : Array Closure) (g : Bindings) (depth : Nat) :
    declareFunction 0 f ⟨startStore closures g, depth, false⟩ =
      .ok () ⟨startStore (closures.push f.closure)
        (putEntry x (.function closures.size) g), depth, false⟩ := by
  obtain ⟨l, li, lb⟩ := h
  have body : Eval.attempt ((Tree.node lb (.block (.tuple ss))).field "body") =
      pure (.tuple ss) := rfl
  have strict : Eval.attempt (Tree.tuple ss).startsStrict = pure (startStrict ss) := by
    rw [startsStrict_tuple]
    rfl
  simp only [declareFunction, makeFunction, body, strict, pure_bind]
  rfl

/-- Declaring the functions of a program binds all their names. -/
theorem declareFunctions_startStore {fs : List Tree} (h : ∀ f ∈ fs, f.IsDeclaration)
    (closures : Array Closure) (g : Bindings) (depth : Nat) :
    fs.forM (declareFunction 0) ⟨startStore closures g, depth, false⟩ =
      .ok () ⟨startStore (closures ++ (fs.map closure).toArray)
        (putAll (functionEntries fs closures.size) g), depth, false⟩ := by
  induction fs generalizing closures g with
  | nil => simp [List.forM, functionEntries, putAll, pure, EStateM.pure]
  | cons f fs ih =>
    rw [List.forall_mem_cons] at h
    obtain ⟨x, ps, ss, declaration⟩ := h.1
    have name : f.functionName = x := by
      obtain ⟨l, li, lb⟩ := declaration
      rfl
    simp only [List.forM]
    rw [bind_of_ok (declareFunction_startStore declaration closures g depth), ih h.2]
    simp [functionEntries, name, putAll]

/-- A statement that declares a function does nothing when it is reached. -/
theorem runStatement_declaration {f : Tree} (h : f.IsDeclaration) (limit fuel : Nat) (v : Value) :
    runStatement limit fuel v f = if fuel = 0 then throw .exhausted else pure v := by
  obtain ⟨x, ps, ss, ⟨⟩⟩ := h
  cases fuel with
  | zero =>
    simp only [runStatement, execute]
    rfl
  | succ fuel =>
    simp only [runStatement, execute]
    rfl

/-- Running function declarations does nothing more. -/
theorem foldlM_declarations {fs : List Tree} (h : ∀ f ∈ fs, f.IsDeclaration) (limit fuel : Nat)
    (v : Value) : fs.foldlM (runStatement limit fuel) v =
      if fuel = 0 ∧ fs ≠ [] then throw .exhausted else pure v := by
  induction fs with
  | nil => simp
  | cons f fs ih =>
    rw [List.forall_mem_cons] at h
    rw [List.foldlM_cons, runStatement_declaration h.1]
    by_cases empty : fuel = 0
    · rw [if_pos empty, if_pos ⟨empty, List.cons_ne_nil f fs⟩]
      rfl
    · rw [if_neg empty, pure_bind, ih h.2, if_neg fun none => empty none.1,
        if_neg fun none => empty none.1]

/-- A program of functions declares them, and that is all. -/
theorem runProgram_declarations {fs : List Tree} (h : ∀ f ∈ fs, f.IsDeclaration)
    (l : Option Location) (limit fuel : Nat) :
    runProgram limit fuel (.node l (.program (.tuple fs))) ⟨.initial, 0, false⟩ =
      -- Without statements the body of the program takes no fuel.
      if fuel = 0 ∧ fs ≠ [] then .error .exhausted ⟨started fs, 0, false⟩
      else .ok .undefined ⟨started fs, 0, false⟩ := by
  have body : Eval.attempt ((Tree.node l (.program (.tuple fs))).field "body") =
      pure (.tuple fs) := rfl
  have strict : Eval.attempt (Tree.tuple fs).startsStrict = pure false := by
    rw [startsStrict_tuple]
    cases fs with
    | nil => rfl
    | cons f fs =>
      obtain ⟨x, ps, ss, ⟨⟩⟩ := h f List.mem_cons_self
      rfl
  have row : Eval.attempt (Tree.tuple fs).items = pure fs := rfl
  have hoisted : hoist 0 (.tuple fs) ⟨.initial, 0, false⟩ = .ok () ⟨started fs, 0, false⟩ := by
    have found : Eval.attempt (Tree.tuple fs).hoisted = pure ⟨[], fs⟩ := by
      rw [hoisted_declarations h]
      rfl
    have declared := declareFunctions_startStore h #[] Store.builtins 0
    rw [Array.empty_append] at declared
    rw [hoist, found, pure_bind]
    exact declared
  simp only [runProgram, body, strict, row, pure_bind]
  change (hoist 0 (.tuple fs) >>= fun _ => _) _ = _
  rw [bind_of_ok hoisted, foldlM_declarations h]
  split <;> rfl

/-! ## Elimination in a program of functions -/

/-- A function that a program declares, and what takes its place. If it became a loop, `loops` is
set. -/
inductive Replaces (n : Naming) (loops : Bool) : Tree → Tree → Prop where
  | mk {l li lb : Option Location} {x : Text} {ps ss ss1 ss' : List Tree} {scope : Scope}
      {stats : Stats} {s1 : State}
      (starts : Scope.ofFunction n (.node li (.identifier (.text x))) (.tuple ps)
        (.node lb (.block (.tuple ss))) = .ok scope)
      (walks : Walks n ⟨scope, stats⟩ (.start ss ss1) s1)
      (finished : finishBody n s1.scope ss1 = .ok ss')
      (loop : s1.scope.isTailRecursive = true → loops = true) :
    Replaces n loops
      (.node l (.function .declaration (.node li (.identifier (.text x))) (.tuple ps)
        (.node lb (.block (.tuple ss)))))
      (.node l (.function .declaration (.node li (.identifier (.text x))) (.tuple ps)
        (.node lb (.block (.tuple ss')))))

/-- A program of function declarations leaves an interpreter with these functions. -/
theorem run_declarations {fs : List Tree} (h : ∀ f ∈ fs, f.IsDeclaration) (l : Option Location)
    (limit fuel : Nat) :
    (Interpreter.new limit).run (.node l (.program (.tuple fs))) fuel =
      (if fuel = 0 ∧ fs ≠ [] then .error .exhausted else .ok .undefined,
        ⟨limit, ⟨started fs, 0, false⟩⟩) := by
  simp only [Interpreter.run, Interpreter.perform, Interpreter.new, runProgram_declarations h]
  by_cases empty : fuel = 0 ∧ fs ≠ []
  · simp only [if_pos empty]
  · simp only [if_neg empty]

variable {n : Naming} {loops : Bool}

/-- The statements of a program of functions are replaced one by one. -/
theorem replaces_of_walks {s s' : State} {fs fs' : List Tree}
    (h : Walks n s (.statements fs fs') s') (declared : ∀ f ∈ fs, f.IsDeclaration)
    (none : loops = false → s'.stats.functions = []) :
    s'.scope = s.scope ∧ List.Forall₂ (Replaces n loops) fs fs' := by
  induction fs generalizing s fs' with
  | nil =>
    cases h with
    | noStatements => exact ⟨rfl, .nil⟩
  | cons f fs ih =>
    rw [List.forall_mem_cons] at declared
    cases h with
    | moreStatements part spliced parts =>
      obtain ⟨x, ps, ss, ⟨⟩⟩ := declared.1
      obtain ⟨scope, replaced⟩ := ih parts declared.2
      cases part with
      | functionDeclaration starts inner =>
        cases inner with
        | @body _ s1 _ _ _ _ walks finished =>
          cases spliced
          refine ⟨scope, .cons (.mk starts walks finished fun tail => ?_) replaced⟩
          -- a function that became a loop is listed, and stays so
          by_contra off
          have named : s1.scope.name ≠ Option.none := by
            rw [walks.leads.name]
            refine (walks.leads.own tail).resolve_left ?_
            rw [(starts_ofFunction starts).tail]
            exact nofun
          have listed := parts.functions
          rw [none (by simpa using off), List.prefix_nil] at listed
          obtain ⟨name, isName⟩ := Option.ne_none_iff_exists'.mp named
          simp [Stats.addFunction, tail, isName] at listed

/-- No function declaration is a reset. -/
theorem dropResets_declarations {fs fs' : List Tree} (h : ∀ f ∈ fs, f.IsDeclaration)
    (dropped : dropResets [] fs = .ok fs') : fs' = fs := by
  cases fs with
  | nil =>
    cases dropped
    rfl
  | cons f fs =>
    obtain ⟨x, ps, ss, ⟨⟩⟩ := h f List.mem_cons_self
    rw [dropResets] at dropped
    cases dropped
    rfl

/-- What takes the place of a function declaration is one of the same name. -/
theorem Replaces.declaration {f f' : Tree} (h : Replaces n loops f f') :
    f'.IsDeclaration ∧ f'.functionName = f.functionName := by
  obtain ⟨starts, walks, finished, loop⟩ := h
  exact ⟨⟨_, _, _, .mk ..⟩, rfl⟩

/-- So it is for the whole program. -/
theorem declarations_of_replaces {fs fs' : List Tree} (h : List.Forall₂ (Replaces n loops) fs fs') :
    (∀ f ∈ fs', f.IsDeclaration) ∧ fs'.map functionName = fs.map functionName := by
  induction h with
  | nil => exact ⟨nofun, rfl⟩
  | cons first _ ih =>
    refine ⟨List.forall_mem_cons.mpr ⟨first.declaration.1, ih.1⟩, ?_⟩
    rw [List.map_cons, List.map_cons, first.declaration.2, ih.2]

/-- What takes the place of a program of functions is a program of functions. -/
theorem replaces_of_eliminates {l : Option Location} {fs : List Tree} {t' : Tree} {stats : Stats}
    (h : Eliminates n (.node l (.program (.tuple fs))) t' stats)
    (declared : ∀ f ∈ fs, f.IsDeclaration) (none : loops = false → stats.functions = []) :
    ∃ fs', t' = .node l (.program (.tuple fs')) ∧ List.Forall₂ (Replaces n loops) fs fs' := by
  -- A program of declarations starts with no directive, has no locals and is no loop.
  cases h with
  | expression kind => cases kind
  | statement kind => cases kind
  | @program _ _ fs1 fs' startsStrict s' starts finished =>
    cases starts with
    | startStrict strict =>
      obtain ⟨x, ps, ss, ⟨⟩⟩ := declared _ List.mem_cons_self
      cases strict
    | startPlain plain parts =>
      obtain ⟨scope, replaced⟩ := replaces_of_walks parts declared none
      have plain : s'.scope.isTailRecursive = false := by rw [scope]
      obtain ⟨rest, dropped, same⟩ := (finishBody_plain plain).mp finished
      rw [scope] at dropped same
      rw [dropResets_declarations (declarations_of_replaces replaced).1 dropped] at same
      exact ⟨fs', rfl, same ▸ replaced⟩

/-! ## Programs whose functions are no values -/

/-- What a node in the body of a function has to satisfy: it is no function, it uses functions of the
program only to call them, and it sets neither these nor the name of the undefined value. -/
structure Tame (functions : List Text) (t : Tree) : Prop where
  simple : t.isFunction = false
  operands : ∀ u ∈ t.operands, ∀ x ∈ u.identifierName?, x ∉ functions
  targets : ∀ u ∈ t.targets, ∀ x ∈ u.identifierName?, x ∉ functions ∧ x ≠ Tree.undefinedName

instance (functions : List Text) (t : Tree) : Decidable (Tame functions t) :=
  decidable_of_iff (t.isFunction = false ∧
      (∀ u ∈ t.operands, ∀ x ∈ u.identifierName?, x ∉ functions) ∧
      ∀ u ∈ t.targets, ∀ x ∈ u.identifierName?, x ∉ functions ∧ x ≠ Tree.undefinedName)
    ⟨fun h => ⟨h.1, h.2.1, h.2.2⟩, fun h => ⟨h.simple, h.operands, h.targets⟩⟩

/-- A program of functions that are only called. A variable that is declared without a value is no
parameter, nothing up to that statement of the body gives it a value, and no block at the start of a
body holds the directive. -/
structure FirstOrder (fs : List Tree) : Prop where
  distinct : (fs.map functionName).Nodup
  foreign : ∀ f ∈ fs, (Store.builtins.lookup f.functionName).isNone = true
  params : ∀ f ∈ fs, Tree.undefinedName ∉ f.paramNames
  tame : ∀ f ∈ fs, ∀ s ∈ f.statements, s.All (Tame (fs.map functionName))
  early : ∀ f ∈ fs, declaresFirst f.paramNames f.statements = true
  directive : ∀ f ∈ fs, f.hidesDirective = false

instance (fs : List Tree) : Decidable (FirstOrder fs) :=
  decidable_of_iff ((fs.map functionName).Nodup ∧
      (∀ f ∈ fs, (Store.builtins.lookup f.functionName).isNone = true) ∧
      (∀ f ∈ fs, Tree.undefinedName ∉ f.paramNames) ∧
      (∀ f ∈ fs, ∀ s ∈ f.statements, s.All (Tame (fs.map functionName))) ∧
      (∀ f ∈ fs, declaresFirst f.paramNames f.statements = true) ∧
      ∀ f ∈ fs, f.hidesDirective = false)
    ⟨fun h => ⟨h.1, h.2.1, h.2.2.1, h.2.2.2.1, h.2.2.2.2.1, h.2.2.2.2.2⟩,
      fun h => ⟨h.distinct, h.foreign, h.params, h.tame, h.early, h.directive⟩⟩

/-- What functions that become loops have to satisfy besides: their parameters are distinct, their
variables have initial values, no name starts like a temporary, and the arguments of tail calls set
nothing. -/
structure Loopable (n : Naming) (fs : List Tree) : Prop where
  distinct : ∀ f ∈ fs, f.paramNames.Nodup
  initialised : ∀ f ∈ fs, ∀ s ∈ f.statements, s.isInitialised = true
  names : ∀ f ∈ fs, f.All fun u => ∀ x ∈ u.identifierName?, x.startsWith n.temporary = false
  undefined : Text.startsWith Tree.undefinedName n.temporary = false
  calm : ∀ f ∈ fs, ∀ s ∈ f.statements, s.All fun u =>
    ∀ c ∈ u.returnedCalls, ∀ a ∈ c.argumentsTo f.functionName, a.Quiet

instance (n : Naming) (fs : List Tree) : Decidable (Loopable n fs) :=
  decidable_of_iff ((∀ f ∈ fs, f.paramNames.Nodup) ∧
      (∀ f ∈ fs, ∀ s ∈ f.statements, s.isInitialised = true) ∧
      (∀ f ∈ fs, f.All fun u => ∀ x ∈ u.identifierName?, x.startsWith n.temporary = false) ∧
      Text.startsWith Tree.undefinedName n.temporary = false ∧
      ∀ f ∈ fs, ∀ s ∈ f.statements, s.All fun u =>
        ∀ c ∈ u.returnedCalls, ∀ a ∈ c.argumentsTo f.functionName, a.Quiet)
    ⟨fun h => ⟨h.1, h.2.1, h.2.2.1, h.2.2.2.1, h.2.2.2.2⟩,
      fun h => ⟨h.distinct, h.initialised, h.names, h.undefined, h.calm⟩⟩

/-- The world of a program and what takes its place. -/
def worldOf (n : Naming) (limit : Nat) (loops : Bool) (fs fs' : List Tree) : World where
  naming := n
  limit := limit
  source := (fs.map closure).toArray
  target := (fs'.map closure).toArray
  functions := (fs.map functionName).zipIdx
  loops := loops

section World

variable {limit : Nat} {fs fs' : List Tree}

/-- The names of functions are those that the program declares. -/
theorem isFunction_worldOf {x : Text} :
    (worldOf n limit loops fs fs').IsFunction x ↔ x ∈ fs.map functionName := by
  rw [World.IsFunction, worldOf, List.zipIdx_map_fst]

/-- Parameters are the names that they are read as. -/
theorem parameters_of_names {ps : List Tree} (h : ∀ p ∈ ps, IsName p) :
    List.Forall₂ IsParameter ps (ps.filterMap identifierName?) := by
  induction ps with
  | nil => exact .nil
  | cons p ps ih =>
    rw [List.forall_mem_cons] at h
    obtain ⟨⟨l, spelled⟩, rest⟩ := h
    exact .cons ⟨l, rfl⟩ (ih rest)

/-- A variable of statements is the target of a node in them. -/
theorem exists_target {P : Tree → Prop} {ss : List Tree} (all : ∀ s ∈ ss, s.All P) {x : Text}
    (h : x ∈ (Tree.tuple ss).varNames) :
    ∃ u v, P u ∧ P v ∧ v ∈ u.targets ∧ v.identifierName? = some x := by
  obtain ⟨u, hu, name⟩ := List.mem_filterMap.mp h
  have inside : u.All P := (all_tuple.mpr all).nodes hu
  cases u with
  | node l shape =>
    obtain ⟨li, init, rfl⟩ := eq_declarator name
    have id := inside.child (u := .node li (.identifier (.text x))) List.mem_cons_self
    exact ⟨_, _, inside.self, id.self, List.mem_cons_self, rfl⟩
  | _ => cases name

/-- The nodes of a statement of the program can be followed in an activation in which the variables
that nothing may set are none of those that the statement sets. -/
theorem fits_of_tame {f t u : Tree} {frame : Frame} (tame : t.All (Tame (fs.map functionName)))
    (hu : u ∈ t.nodes) (settled : ∀ x ∈ t.setNames, x ∉ frame.unset)
    (visible : loops = true → ∀ x, u.identifierName? = some x → x.startsWith n.temporary = false)
    (calm : loops = true → ∀ c ∈ u.returnedCalls, ∀ a ∈ c.argumentsTo f.functionName, a.Quiet)
    (own : ∀ x ∈ frame.own, loops = true ∧ x = f.functionName) :
    Fits (worldOf n limit loops fs fs') frame u where
  simple := (tame u hu).simple
  named x hx := by
    cases on : loops with
    | false => rfl
    | true => exact visible on x hx
  operands v hv x hx :=
    .inr fun isFunction => (tame u hu).operands v hv x hx (isFunction_worldOf.mp isFunction)
  settings v hv x hx := by
    -- What is set is a target below, so that it is no function and not the undefined value.
    obtain ⟨owner, below, target⟩ := exists_target_of_setting hv
    obtain ⟨free, defined⟩ := (tame.nodes hu owner below).targets v target x hx
    constructor
    · refine .inr ?_
      rintro (undefined | isFunction)
      · exact defined undefined
      · exact free (isFunction_worldOf.mp isFunction)
    · exact settled x (List.mem_flatMap.mpr ⟨u, hu, List.mem_filterMap.mpr ⟨v, hv, hx⟩⟩)
  calm x hx := by
    obtain ⟨on, rfl⟩ := own x hx
    exact calm on

/-- Statements in which variables are declared early enough follow each other in an activation in
which the variables that are declared without values start undefined. -/
theorem sequence_of_declaresFirst {w : World} {frame : Frame} {c : Targets} {ss : List Tree}
    {given xs : List Text} (early : declaresFirst given ss = true)
    (valueless : ∀ t ∈ ss, ∀ x ∈ t.valueless, x ∉ given → x ∈ xs)
    (statement : ∀ t ∈ ss, ∀ ys, t.valueless ⊆ ys → (∀ x ∈ t.setNames, x ∉ ys) →
      Statement w (frame.leaving ys) c t) : Sequence w frame c xs ss := by
  induction ss generalizing given xs with
  | nil => exact .nil
  | cons t ts ih =>
    rw [List.forall_mem_cons] at valueless statement
    rw [declaresFirst, Bool.and_eq_true, List.all_eq_true] at early
    obtain ⟨first, later⟩ := early
    have unset (x : Text) (hx : x ∈ t.valueless) : x ∉ given ++ t.setNames := by
      simpa using first x hx
    -- From here on nothing is known of what has been set so far.
    have fewer : xs.filter (· ∉ given ++ t.setNames) ⊆ xs := List.filter_subset_self xs
    refine .cons fewer (statement.1 _ (fun x hx => ?_) fun x hx => ?_)
      (ih later (fun u hu x hx free => ?_) statement.2)
    · have free := unset x hx
      exact List.mem_filter.mpr
        ⟨valueless.1 x hx fun here => free (List.mem_append_left _ here), decide_eq_true free⟩
    · intro kept
      exact of_decide_eq_true (List.mem_filter.mp kept).2 (List.mem_append_right _ hx)
    · exact List.mem_filter.mpr
        ⟨valueless.2 u hu x hx fun here => free (List.mem_append_left _ here), decide_eq_true free⟩

/-- What takes the place of a function is as strict as the function. -/
theorem Replaces.isStrict {f f' : Tree} {checked : Bool} {c : Targets} (h : Replaces n loops f f')
    (wf : WellFormed checked c f) (open_ : f.hidesDirective = false) : f'.isStrict = f.isStrict := by
  obtain ⟨starts, walks, finished, -⟩ := h
  exact keepsStrictness_functions (starts_ofFunction starts)
    (.mk walks (walks.tracked keepsStrictness_functions) finished) ⟨checked, c, wf⟩ open_

/-- The name by which a function calls itself is its name, and no parameter has it. -/
theorem own_of_ofFunction {li : Option Location} {x y : Text} {body : Tree} {ps : List Tree}
    {scope : Scope}
    (h : Scope.ofFunction n (.node li (.identifier (.text x))) (.tuple ps) body = .ok scope)
    (own : scope.name = some y) : y = x ∧ y ∉ scope.params := by
  -- The scope is computed step by step; only its name matters here.
  obtain ⟨names, -, hrest⟩ := bind_ok.mp h
  obtain ⟨name, hname, hrest⟩ := bind_ok.mp hrest
  obtain ⟨called, hown, hrest⟩ := bind_ok.mp hrest
  obtain ⟨statements, -, hrest⟩ := bind_ok.mp hrest
  obtain ⟨startsStrict, -, hrest⟩ := bind_ok.mp hrest
  cases hrest
  obtain rfl : called = some y := own
  obtain rfl : name = some x := by
    change (declaredName n _).map some = .ok name at hname
    cases declared : declaredName n (.node li (.identifier (.text x))) with
    | error e => rw [declared] at hname; cases hname
    | ok z =>
      rw [declared, (declaredName_ok.mp declared).2] at hname
      exact (Except.ok.inj hname).symm
  rw [refuseFault_ok, ownName?] at hown
  split at hown
  · cases hown
  · rename_i free
    obtain ⟨declared, -, hown⟩ := bind_ok.mp hown
    split at hown
    · cases hown
    · cases hown
      exact ⟨rfl, by simpa using free⟩

/-- The statements of a function are parts of it. -/
theorem All.statements {P : Tree → Prop} {f : Tree} {x : Text} {ps ss : List Tree}
    (h : f.All P) (declaration : f.Declaration x ps ss) : ∀ s ∈ ss, s.All P := by
  obtain ⟨l, li, lb⟩ := declaration
  have body : (Tree.node lb (.block (.tuple ss))).All P :=
    h.child (Shape.mem_parts 2 rfl)
  exact fun s hs => (body.child List.mem_cons_self).item hs

/-- The names that a function declares: those of its parameters and of its variables. -/
abbrev declared (ps ss : List Tree) : List Text :=
  ps.filterMap identifierName? ++ (Tree.tuple ss).varNames

section Declared

variable {f : Tree} {x : Text} {ps ss : List Tree}

/-- Functions of a first-order program bind no `undefined`. -/
theorem FirstOrder.undefined_notMem (h : FirstOrder fs) (member : f ∈ fs)
    (declaration : f.Declaration x ps ss) : Tree.undefinedName ∉ declared ps ss := by
  obtain ⟨l, li, lb⟩ := declaration
  rw [List.mem_append]
  rintro (param | variable_)
  · exact h.params _ member param
  · obtain ⟨u, v, tame, -, target, isName⟩ := exists_target (h.tame _ member) variable_
    exact (tame.targets v target _ isName).2 rfl

/-- Functions of a first-order program declare no variable of their own name. -/
theorem FirstOrder.functionName_notMem (h : FirstOrder fs) (member : f ∈ fs)
    (declaration : f.Declaration x ps ss) : x ∉ (Tree.tuple ss).varNames := by
  obtain ⟨l, li, lb⟩ := declaration
  intro variable_
  obtain ⟨u, v, tame, -, target, isName⟩ := exists_target (h.tame _ member) variable_
  exact (tame.targets v target _ isName).1 (List.mem_map_of_mem member)

/-- No name that a function declares can be taken for a temporary. -/
theorem Loopable.visible (h : Loopable n fs) (member : f ∈ fs) (declaration : f.Declaration x ps ss)
    (params : ∀ p ∈ ps, IsName p) : ∀ y ∈ declared ps ss, y.startsWith n.temporary = false := by
  have all := h.names f member
  intro y hy
  rcases List.mem_append.mp hy with param | variable_
  · obtain ⟨l, li, lb⟩ := declaration
    obtain ⟨p, hp, isName⟩ := List.mem_filterMap.mp param
    obtain ⟨lp, spelled⟩ := params p hp
    have row : (Tree.tuple ps).All _ := all.child (Shape.mem_parts 1 rfl)
    exact (row.item hp).self y isName
  · obtain ⟨u, v, -, visible, -, isName⟩ := exists_target (All.statements all declaration) variable_
    exact visible y isName

/-- Neither can the name of the function. -/
theorem Loopable.functionName_visible (h : Loopable n fs) (member : f ∈ fs)
    (declaration : f.Declaration x ps ss) : x.startsWith n.temporary = false := by
  have all := h.names f member
  obtain ⟨l, li, lb⟩ := declaration
  have id : (Tree.node li (.identifier (.text x))).All _ :=
    all.child (Shape.mem_parts 0 rfl)
  exact id.self x rfl

end Declared

/-- What takes the place of a function of the program is that function rewritten. -/
theorem Replaces.rewrites {f f' : Tree} {ref : Nat} {c : Targets} (h : Replaces n loops f f')
    (wf : WellFormed loops c f) (here : fs[ref]? = some f) (firstOrder : FirstOrder fs)
    (loopable : loops = true → Loopable n fs) :
    ∃ b : Body, b.Rewrites (worldOf n limit loops fs fs') ref f.closure f'.closure := by
  have member : f ∈ fs := List.mem_of_getElem? here
  have strict := h.isStrict wf (firstOrder.directive f member)
  obtain @⟨l, li, lb, x, ps, ss, ss1, ss', scope, stats, s1, starts, walks, finished, loop⟩ := h
  have declaration : Declaration _ x ps ss := .mk l li lb x ps ss
  have start := starts_ofFunction starts
  cases wf with
  | function _ _ params kinds parts =>
  have paramNames : scope.params = _ := eq_of_declaredNames params start.params
  have hides {y : Text} (h : loops = true → y.startsWith n.temporary = false) :
      (worldOf n limit loops fs fs').hides y = false := by
    cases on : loops with
    | false => rfl
    | true => exact h on
  -- A function that can call itself does so by the name with which it is declared.
  have own {y : Text} (isName : s1.scope.name = some y) : y = x ∧ y ∉ scope.params := by
    rw [walks.leads.name] at isName
    exact own_of_ofFunction starts isName
  refine ⟨{ params := scope.params, before := ss, walked := ss1, after := ss', scope := s1.scope,
            strict := startStrict ss }, ?_⟩
  exact {
    params := ⟨ps, rfl, rfl, by rw [paramNames]; exact parameters_of_names params⟩
    before := ⟨lb, rfl⟩
    after := ⟨lb, rfl⟩
    environment := ⟨rfl, rfl⟩
    strict := ⟨rfl, strict⟩
    walks := ⟨_, s1, walks, rfl, start.locals, start.directive, start.temporaries, rfl,
      by rw [start.used]; exact List.nil_subset _⟩
    finished := finished
    statements := by
      intro i j
      refine sequence_of_declaresFirst (firstOrder.early _ member) (fun t ht y hy free => ?_)
        fun t ht ys valueless settled => ?_
      · cases tail : s1.scope.isTailRecursive with
        | true =>
          -- In a function that became a loop, every variable has an initial value.
          have initialised := (loopable (loop tail)).initialised _ member t ht
          rw [isInitialised, List.isEmpty_iff] at initialised
          rw [initialised] at hy
          cases hy
        | false =>
          have moves := walks.sheds fun t ht u hu => (firstOrder.tame _ member t ht u hu).simple
          rw [Body.unset, if_neg (by simp [tail]), moves.locals]
          exact .inr ⟨List.mem_flatMap.mpr ⟨t, ht, valueless_subset t hy⟩, paramNames ▸ free⟩
      refine ⟨parts t ht, kinds t ht, fun u hu => ?_, valueless⟩
      refine fits_of_tame (firstOrder.tame _ member t ht) hu settled
        (fun on => All.statements ((loopable on).names _ member) declaration t ht u hu)
        (fun on => (loopable on).calm _ member t ht u hu) fun y hy => ?_
      cases tail : s1.scope.isTailRecursive with
      | false => simp [Body.frame, Frame.leaving, Body.own, tail] at hy
      | true =>
        have isName : s1.scope.name = some y := by
          simpa [Body.frame, Frame.leaving, Body.own, tail] using hy
        exact ⟨loop tail, (own isName).1⟩
    visible := by
      rw [Body.names, paramNames]
      exact fun y hy => hides fun on => (loopable on).visible member declaration params y hy
    undefined := by
      rw [Body.names, paramNames]
      exact ⟨firstOrder.undefined_notMem member declaration, hides fun on => (loopable on).undefined⟩
    loop := by
      intro tail
      -- A call has been converted, so that there is a name for it.
      have on := loop tail
      have named : s1.scope.name ≠ none := by
        rw [walks.leads.name]
        refine (walks.leads.own tail).resolve_left ?_
        rw [start.tail]
        exact Bool.noConfusion
      obtain ⟨y, isName⟩ := Option.ne_none_iff_exists'.mp named
      obtain ⟨rfl, free⟩ := own isName
      refine ⟨on, ?_, y, isName, ?_, ?_, hides fun on => ?_⟩
      · rw [paramNames]
        exact (loopable on).distinct _ member
      · refine List.mk_mem_zipIdx_iff_getElem?.mpr ?_
        rw [List.getElem?_map, here]
        rfl
      · exact List.mem_append.not.mpr
          (not_or.mpr ⟨free, firstOrder.functionName_notMem member declaration⟩)
      · exact (loopable on).functionName_visible member declaration }

/-- The functions of a program are rewritten one by one. -/
theorem rewritten_worldOf (replaced : List.Forall₂ (Replaces n loops) fs fs')
    (wf : ∀ f ∈ fs, ∃ c, WellFormed loops c f) (firstOrder : FirstOrder fs)
    (loopable : loops = true → Loopable n fs) : (worldOf n limit loops fs fs').Rewritten := by
  constructor
  · simp [worldOf, replaced.length_eq]
  · intro ref c c' here there
    simp only [worldOf, List.getElem?_toArray, List.getElem?_map,
      Option.map_eq_some_iff] at here there
    obtain ⟨f, here, rfl⟩ := here
    obtain ⟨f', there, rfl⟩ := there
    obtain ⟨hr, rfl⟩ := List.getElem?_eq_some_iff.mp here
    obtain ⟨hr', rfl⟩ := List.getElem?_eq_some_iff.mp there
    obtain ⟨c, wf⟩ := wf _ (List.getElem_mem hr)
    exact (replaced.get hr hr').rewrites wf here firstOrder loopable

/-- The functions of a program are bound to their names in order. -/
theorem keys_functionEntries : (functionEntries fs 0).map (·.1) = fs.map functionName := by
  rw [functionEntries, List.map_map]
  exact List.zipIdx_map_fst 0 _

/-- The global variables of a program of functions. -/
theorem globalsAlike_started (firstOrder : FirstOrder fs) :
    GlobalsAlike (worldOf n limit loops fs fs') (putAll (functionEntries fs 0) Store.builtins) where
  data x v found free := by
    -- What is global beside the functions is built in.
    have other : x ∉ (functionEntries fs 0).map (·.1) := by
      rw [keys_functionEntries]
      exact fun isFunction => free (isFunction_worldOf.mpr isFunction)
    rw [lookup_putAll_of_notMem other] at found
    obtain ⟨before, after, same, -⟩ := List.lookup_eq_some_iff.mp found
    have member : (x, v) ∈ Store.builtins := by simp [same]
    have data : ∀ p ∈ Store.builtins, p.2.isData = true := by decide
    exact data _ member
  functions p hp := by
    have entry : (p.1, Value.function p.2) ∈ functionEntries fs 0 := List.mem_map_of_mem hp
    exact lookup_putAll_of_mem (by rw [keys_functionEntries]; exact firstOrder.distinct) entry _
  undefined := by
    rw [lookup_putAll_of_notMem]
    · rfl
    · rw [keys_functionEntries]
      intro isFunction
      obtain ⟨f, hf, same⟩ := List.mem_map.mp isFunction
      have := firstOrder.foreign f hf
      rw [same] at this
      cases this

/-- Both programs start alike. -/
theorem together_started (replaced : List.Forall₂ (Replaces n loops) fs fs')
    (firstOrder : FirstOrder fs) :
    Together (worldOf n limit loops fs fs') ⟨limit, ⟨started fs, 0, false⟩⟩
      ⟨limit, ⟨started fs', 0, false⟩⟩ := by
  have names := (declarations_of_replaces replaced).2
  refine ⟨rfl, rfl, ⟨?_, rfl, nofun, Nat.le_refl _, fun _ => rfl⟩⟩
  -- At the start nothing but the functions and what is built in is in the store.
  constructor
  · have data : ∀ p ∈ Store.mathProperties, p.2.isData = true := by decide
    refine ⟨rfl, rfl, rfl, rfl, rfl, nofun, fun ps hps => ?_⟩
    obtain rfl : ps = Store.mathProperties := by simpa [started, startStore, Store.initial] using hps
    exact data
  · rfl
  · rfl
  · refine ⟨_, rfl, ?_, globalsAlike_started firstOrder⟩
    simp only [started, startStore, functionEntries, names]
    rfl
  · exact nofun
  · exact .nil

/-- A program of functions and what takes its place answer requests alike. -/
theorem session_eq {l : Option Location} {t' : Tree} {stats : Stats} {c : Targets}
    (wf : WellFormed loops c (.node l (.program (.tuple fs))))
    (declared : ∀ f ∈ fs, f.hasKind .functionDeclaration = true)
    (firstOrder : FirstOrder fs) (loopable : loops = true → Loopable n fs)
    (eliminated : (Tree.node l (.program (.tuple fs))).eliminateTailCalls n = .ok (t', stats))
    (none : loops = false → stats.functions = []) {fuel : Nat} {requests : List Request}
    (data : ∀ r ∈ requests, ∀ v ∈ r.values, v.isData = true)
    (compared : ∀ o ∈ Interpreter.session limit fuel (.node l (.program (.tuple fs))) requests,
      o.finishes = true ∧ (loops = true → o.overflows = false)) :
    ∃ enough, ∀ k, enough ≤ k → Interpreter.session limit k t' requests =
      Interpreter.session limit fuel (.node l (.program (.tuple fs))) requests := by
  -- The program declares functions only, so that each is replaced by the one at its place.
  have eliminates := eliminates_of_ok wf eliminated
  cases wf with
  | program kinds parts =>
  have declarations (f : Tree) (hf : f ∈ fs) : f.IsDeclaration :=
    (parts f hf).isDeclaration (declared f hf)
  obtain ⟨fs', rfl, replaced⟩ := replaces_of_eliminates eliminates declarations none
  have declarations' := (declarations_of_replaces replaced).1
  let w := worldOf n limit loops fs fs'
  have rewritten : w.Rewritten :=
    rewritten_worldOf replaced (fun f hf => ⟨c, parts f hf⟩) firstOrder loopable
  rw [Interpreter.session, List.forall_mem_cons, run_declarations declarations] at compared
  obtain ⟨start, answered⟩ := compared
  -- The first answer was compared, so that the fuel was enough to start.
  have fueled : ¬(fuel = 0 ∧ fs ≠ []) := by
    intro empty
    rw [Outcome.finishes, Interpreter.outcome, if_pos empty] at start
    cases start.1
  obtain ⟨enough, same⟩ := answers_eq rewritten data (together_started replaced firstOrder)
    fun o ho => compared_of_finishes (answered o ho).1 (answered o ho).2
  refine ⟨enough + 1, fun k hk => ?_⟩
  rw [Interpreter.session, Interpreter.session, run_declarations declarations,
    run_declarations declarations', if_neg fueled, if_neg (by omega)]
  exact congrArg (_ :: ·) (same k (by omega))

end World

end Simulation

namespace Elimination

open Simulation Validity

/-- Elimination keeps what a program of functions does, as long as calls are not nested too deeply. -/
theorem eliminateTailCalls_session {n : Naming} {l : Option Location} {fs : List Tree} {t' : Tree}
    {stats : Stats} (wf : WellFormed true {} (.node l (.program (.tuple fs))))
    (declared : ∀ f ∈ fs, f.hasKind .functionDeclaration = true) (firstOrder : FirstOrder fs)
    (loopable : Loopable n fs)
    (eliminated : (Tree.node l (.program (.tuple fs))).eliminateTailCalls n = .ok (t', stats))
    (limit fuel : Nat) (requests : List Request)
    (data : ∀ r ∈ requests, ∀ v ∈ r.values, v.isData = true)
    (finishes : ∀ o ∈ Interpreter.session limit fuel (.node l (.program (.tuple fs))) requests,
      o.finishes = true ∧ o.overflows = false) :
    ∃ enough, ∀ k, enough ≤ k → Interpreter.session limit k t' requests =
      Interpreter.session limit fuel (.node l (.program (.tuple fs))) requests :=
  session_eq wf declared firstOrder (fun _ => loopable) eliminated nofun data
    fun o ho => ⟨(finishes o ho).1, fun _ => (finishes o ho).2⟩

/-- The functions `step` and `sum`. The second one gives `acc` and the numbers from `n` down together
by calling itself in tail position. -/
def summing : List Tree :=
  [Tree.new (.function .declaration (.identifier "step") (.tuple [.identifier "n"])
    (.block [Tree.new (.returnStatement (Tree.new (.binary (.text "-") (.identifier "n")
      (Tree.new (.literal (.num .one))))))])),
   Tree.new (.function .declaration (.identifier "sum")
    (.tuple [.identifier "n", .identifier "acc"])
    (.block [
      Tree.new (.variableDeclaration (.tuple [Tree.new (.variableDeclarator (.identifier "next")
        (Tree.new (.call (.identifier "step") (.tuple [.identifier "n"]))))])
        (.text Tree.varKind)),
      Tree.new (.returnStatement (Tree.new (.conditional (.identifier "n")
        (Tree.new (.call (.identifier "sum") (.tuple [.identifier "next",
          Tree.new (.binary (.text "+") (.identifier "acc") (.identifier "n"))])))
        (.identifier "acc"))))]))]

/-- The sum from two down, and the sum of an array from nothing. -/
def sums : List Request :=
  [.call "sum" [.number (.ofNat 2), .number .one], .array [.number .one],
   .call "sum" [.null, .array 0]]

/-- Sums are the same after elimination, which makes a loop with a temporary of `sum`. -/
theorem eliminateTailCalls_session_summing :
    ∃ t' stats, (Tree.node none (.program (.tuple summing))).eliminateTailCalls {} =
        .ok (t', stats) ∧ stats.calls = 1 ∧
      ∃ enough, ∀ k, enough ≤ k → Interpreter.session 5 k t' sums =
        Interpreter.session 5 40 (.node none (.program (.tuple summing))) sums := by
  refine ⟨_, _, rfl, rfl, ?_⟩
  exact eliminateTailCalls_session (n := {}) (wellFormed_of_validate rfl (by decide)) (by decide)
    (by decide +kernel) (by decide +kernel) rfl 5 40 sums (by decide +kernel) (by decide +kernel)

/-- The function `f` has a parameter named `undefined`, which it hands over as `b` in the call in
which it also sets it. -/
def shadowing : Tree :=
  Tree.new (.function .declaration (.identifier "f")
    (.tuple [.identifier "undefined", .identifier "b", .identifier "c"])
    (.block [
      Tree.new (.ifStatement (.identifier "c") (Tree.new (.returnStatement (.identifier "b"))) .null),
      Tree.new (.returnStatement (Tree.new (.call (.identifier "f") (.tuple [
        Tree.new (.literal (.bool true)), .identifier "undefined",
        Tree.new (.literal (.bool true))]))))]))

/-- A parameter named `undefined` is the one condition that is missing here. Its name as an argument
is taken for a constant and read after the parameter has been set, so that `b` becomes true and not
the null that the caller gave. -/
theorem eliminateTailCalls_session_undefinedParameter :
    WellFormed true {} (.node none (.program (.tuple [shadowing]))) ∧ Loopable {} [shadowing] ∧
      (Store.builtins.lookup shadowing.functionName).isNone = true ∧
      (∀ s ∈ shadowing.statements, s.All (Tame ["f"])) ∧
      Tree.declaresFirst shadowing.paramNames shadowing.statements = true ∧
      shadowing.hidesDirective = false ∧
      ∃ t' stats, (Tree.node none (.program (.tuple [shadowing]))).eliminateTailCalls {} =
          .ok (t', stats) ∧ stats.functions = ["f"] ∧
        (Interpreter.session 3 Interpreter.defaultFuel (.node none (.program (.tuple [shadowing])))
          [.call "f" [.null]]).map (·.result.toOption.map Value.truthy) =
            [some false, some false] ∧
        (Interpreter.session 3 Interpreter.defaultFuel t' [.call "f" [.null]]).map
          (·.result.toOption.map Value.truthy) = [some false, some true] := by
  refine ⟨wellFormed_of_validate rfl (by decide), by decide +kernel, by decide +kernel,
    by decide +kernel, by decide +kernel, by decide +kernel, _, _, rfl, rfl, ?_, ?_⟩
  · decide +kernel
  · decide +kernel

/-- The function `f` hands a function that gives its parameter `n` over to another call of itself, and
that call asks it. -/
def asking : Tree :=
  Tree.new (.function .declaration (.identifier "f") (.tuple [.identifier "n", .identifier "k"])
    (.block [
      Tree.new (.ifStatement (.identifier "n")
        (Tree.new (.returnStatement (Tree.new (.call (.identifier "f") (.tuple [
          Tree.new (.literal .null),
          Tree.new (.function .expression .null (.tuple [])
            (.block [Tree.new (.returnStatement (.identifier "n"))]))])))))
        .null),
      Tree.new (.returnStatement (Tree.new (.call (.identifier "k") (.tuple []))))]))

/-- A function made in one pass of the loop sees the parameters of a later one: what is handed over
is still true before elimination, and not any more after it. -/
theorem eliminateTailCalls_session_sharesVariables :
    ∃ t' stats, (Tree.node none (.program (.tuple [asking]))).eliminateTailCalls {} =
        .ok (t', stats) ∧ stats.functions = ["f"] ∧
      (Interpreter.session 3 Interpreter.defaultFuel (.node none (.program (.tuple [asking])))
        [.call "f" [.bool true]]).map (·.result.toOption.map Value.truthy) =
          [some false, some true] ∧
      (Interpreter.session 3 Interpreter.defaultFuel t'
        [.call "f" [.bool true]]).map (·.result.toOption.map Value.truthy) =
          [some false, some false] := by
  refine ⟨_, _, rfl, rfl, ?_, ?_⟩
  · decide +kernel
  · decide +kernel

/-- Elimination keeps what a program of functions does of which none becomes a loop, also where calls
are nested too deeply. -/
theorem eliminateTailCalls_session_unlooped {n : Naming} {l : Option Location} {fs : List Tree}
    {t' : Tree} {stats : Stats} (wf : WellFormed false {} (.node l (.program (.tuple fs))))
    (declared : ∀ f ∈ fs, f.hasKind .functionDeclaration = true) (firstOrder : FirstOrder fs)
    (eliminated : (Tree.node l (.program (.tuple fs))).eliminateTailCalls n = .ok (t', stats))
    (unlooped : stats.functions = []) (limit fuel : Nat) (requests : List Request)
    (data : ∀ r ∈ requests, ∀ v ∈ r.values, v.isData = true)
    (finishes : ∀ o ∈ Interpreter.session limit fuel (.node l (.program (.tuple fs))) requests,
      o.finishes = true) :
    ∃ enough, ∀ k, enough ≤ k → Interpreter.session limit k t' requests =
      Interpreter.session limit fuel (.node l (.program (.tuple fs))) requests :=
  session_eq wf declared firstOrder nofun eliminated (fun _ => unlooped) data
    fun o ho => ⟨finishes o ho, nofun⟩

/-- The function `f` that adds the numbers from `n` down by calls of itself that are not in tail
position. One of its variables is for the sum of the others, and has no value to start with. -/
def adding : List Tree :=
  [Tree.new (.function .declaration (.identifier "f") (.tuple [.identifier "n"])
    (.block [
      Tree.new (.variableDeclaration (.tuple [
        Tree.new (.variableDeclarator (.identifier "sum") .null),
        Tree.new (.variableDeclarator (.identifier "m")
          (Tree.new (.binary (.text "-") (.identifier "n") (Tree.new (.literal (.num .one))))))])
        (.text Tree.varKind)),
      Tree.new (.ifStatement (.identifier "m")
        (.block [
          Tree.new (.expressionStatement (Tree.new (.assignment (.text "=") (.identifier "sum")
            (Tree.new (.call (.identifier "f") (.tuple [.identifier "m"])))))),
          Tree.new (.returnStatement
            (Tree.new (.binary (.text "+") (.identifier "n") (.identifier "sum"))))])
        .null),
      Tree.new (.returnStatement (.identifier "n"))]))]

/-- The variables are hoisted, and the results are the same, of which one is that calls are nested
too deeply. -/
theorem eliminateTailCalls_session_unlooped_adding :
    ∃ t' stats, (Tree.node none (.program (.tuple adding))).eliminateTailCalls {} =
        .ok (t', stats) ∧ stats.vars = 2 ∧
      ∃ enough, ∀ k, enough ≤ k →
        Interpreter.session 2 k t'
          [.call "f" [.number (.ofNat 2)], .call "f" [.number (.ofNat 3)]] =
        Interpreter.session 2 40 (.node none (.program (.tuple adding)))
          [.call "f" [.number (.ofNat 2)], .call "f" [.number (.ofNat 3)]] := by
  refine ⟨_, _, rfl, rfl, ?_⟩
  exact eliminateTailCalls_session_unlooped (n := {})
    (wellFormed_of_validate rfl (by decide)).unchecked
    (by decide) (by decide +kernel) rfl rfl 2 40
    [.call "f" [.number (.ofNat 2)], .call "f" [.number (.ofNat 3)]] (by decide +kernel)
    (by decide +kernel)

/-- A function that declares its parameter again, without an initial value, loses the argument. -/
theorem eliminateTailCalls_session_redeclares :
    ¬ ∀ (n : Naming) (f t' : Tree) (stats : Stats),
      WellFormed true {} (.node none (.program (.tuple [f]))) →
      f.hasKind .functionDeclaration = true → (∀ s ∈ f.statements, s.All (·.isFunction = false)) →
      (Tree.node none (.program (.tuple [f]))).eliminateTailCalls n = .ok (t', stats) →
      stats.functions = [] → ∀ (limit : Nat) (args : List Value),
        (Interpreter.session limit Interpreter.defaultFuel t' [.call f.functionName args]) =
          Interpreter.session limit Interpreter.defaultFuel (.node none (.program (.tuple [f])))
            [.call f.functionName args] := by
  intro claim
  -- The parameter `a` is declared again. This resets it, and the reset is not taken away.
  let f := Tree.new (.function .declaration (.identifier "f") (.tuple [.identifier "a"])
    (.block [
      Tree.new (.variableDeclaration (.tuple [Tree.new (.variableDeclarator (.identifier "a") .null)])
        (.text Tree.varKind)),
      Tree.new (.returnStatement (.identifier "a"))]))
  have same :=
    claim {} f _ _ (wellFormed_of_validate rfl (by decide)) rfl (by decide +kernel) rfl rfl 1
    [.bool true]
  have shown := congrArg (List.map fun o => (o.result.toOption.map Value.isNullish)) same
  exact absurd shown (by decide +kernel)

end Elimination

end TailLoop
