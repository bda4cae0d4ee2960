import TailLoop.Proofs.Elimination.Refusals

/-!
# Accepted trees

Which trees elimination accepts can be said without running it: those in which no declared name is
reserved and no function returns a call of itself with too many arguments
(`eliminateTailCalls_refused`). A walk that succeeds has checked every declared name and every such
call on its way (`transports_fine`), and one that fails has met one that is at fault
(`failsWithin`).
-/

namespace TailLoop

namespace Tree

/-- The nodes whose names are checked: all, but a declarator that is the whole tree. -/
def declaringNodes : Tree → List Tree
  | .node _ (.variableDeclarator _ init) => init.nodes
  | t => t.nodes

/-- What is no declarator is searched itself for declarations. -/
theorem declaringNodes_eq {t : Tree} (h : ∀ l id init, t ≠ .node l (.variableDeclarator id init)) :
    t.declaringNodes = t.nodes := by
  unfold declaringNodes
  split
  · exact (h _ _ _ rfl).elim
  · rfl

/-- Some function, parameter, variable or label of a tree has a reserved name. -/
def DeclaresReserved (n : Elimination.Naming) (t : Tree) : Prop :=
  ∃ u ∈ t.declaringNodes, ∃ x ∈ u.bindingNames, n.reserves x = true

/-- Some function of a tree returns a call of itself with more arguments than it has parameters. -/
def PassesTooMany (t : Tree) : Prop :=
  ∃ f ∈ t.nodes, ∃ args ∈ f.selfCalls, f.paramNames.length < args.length

instance (n : Elimination.Naming) (t : Tree) : Decidable (t.DeclaresReserved n) :=
  inferInstanceAs (Decidable (∃ u ∈ t.declaringNodes, ∃ x ∈ u.bindingNames, n.reserves x = true))

instance (t : Tree) : Decidable t.PassesTooMany :=
  inferInstanceAs (Decidable
    (∃ f ∈ t.nodes, ∃ args ∈ f.selfCalls, f.paramNames.length < args.length))

/-- A node whose names are not reserved, and whose calls of itself pass few arguments enough. -/
structure Fine (n : Elimination.Naming) (u : Tree) : Prop where
  names : ∀ x ∈ u.bindingNames, n.reserves x = false
  calls : ∀ args ∈ u.selfCalls, args.length ≤ u.paramNames.length

end Tree

namespace Elimination

open Tree Validity

variable {n : Naming}

/-! ## What a successful walk has checked -/

/-- What is no function has no calls of itself. -/
theorem selfCalls_other {u : Tree} (h : u.isFunction = false) : u.selfCalls = [] := by
  have none : u.selfName? = none := by
    unfold selfName?
    split
    · cases h
    · rfl
  rw [selfCalls, none, List.filterMap_eq_nil_iff]
  exact fun v _ => argumentsOf?_none v

/-- What is no function is fine if it binds no reserved name. -/
theorem fine_other {u : Tree} (function : u.isFunction = false)
    (names : ∀ x ∈ u.bindingNames, n.reserves x = false) : u.Fine n where
  names := names
  calls := by
    rw [selfCalls_other function]
    exact nofun

/-- What is quiet is fine. -/
theorem fine_of_isQuiet {u : Tree} (h : u.isQuiet = true) : u.Fine n := by
  have other : u.isFunction = false ∧ u.bindingNames = [] := by
    cases u with
    | node l shape =>
      cases shape with
      | function | variableDeclarator | labeled => cases h
      | _ => exact ⟨rfl, rfl⟩
    | _ => exact ⟨rfl, rfl⟩
  refine fine_other other.1 ?_
  rw [other.2]
  exact nofun

/-- Parameters that could be declared are not reserved. -/
theorem free_of_declaredNames {ps : List Tree} {names : List Text} (named : ∀ p ∈ ps, IsName p)
    (h : ps.mapM (declaredName n) = .ok names) :
    ∀ x ∈ ps.filterMap identifierName?, n.reserves x = false := by
  induction ps generalizing names with
  | nil => exact nofun
  | cons p ps ih =>
    rw [List.forall_mem_cons] at named
    obtain ⟨@⟨l, x, spelled⟩, rest⟩ := named
    rw [List.mapM_cons] at h
    obtain ⟨y, first, h⟩ := bind_ok.mp h
    obtain ⟨ys, others, -⟩ := bind_ok.mp h
    exact List.forall_mem_cons.mpr ⟨(declaredName_ok.mp first).1, ih rest others⟩

/-- The names of a function that was entered are not reserved. -/
theorem free_of_ofFunction {checked : Bool} {c : Targets} {l lb : Option Location}
    {form : FunctionForm} {id : Tree} {ps ss : List Tree} {a : Scope}
    (wf : WellFormed checked c (functionOf l form id ps lb ss))
    (starts : Scope.ofFunction n id (.tuple ps) (.node lb (.block (.tuple ss))) = .ok a) :
    ∀ x ∈ (functionOf l form id ps lb ss).bindingNames, n.reserves x = false := by
  cases wf with
  | function _ known params kinds parts =>
    -- The name is read before the parameters, and neither may be reserved.
    refine List.forall_mem_append.mpr ⟨fun x hx => ?_, ?_⟩
    · obtain ⟨names, -, rest⟩ := bind_ok.mp starts
      obtain ⟨name, hname, -⟩ := bind_ok.mp rest
      unfold functionName? at hname
      split at hname
      -- An expression need not have a name.
      · rename_i absent
        cases id <;> first | cases hx | cases absent
      · rename_i present
        obtain @⟨li, y, spelled⟩ := known (by simpa using present)
        obtain ⟨z, declared, -⟩ := map_ok.mp hname
        rw [List.mem_singleton.mp hx]
        exact (declaredName_ok.mp declared).1
    · exact free_of_declaredNames params (starts_ofFunction starts).params

/-- A function that was walked is fine. -/
theorem fine_function {checked : Bool} {c : Targets} {l lb : Option Location} {form : FunctionForm}
    {id : Tree} {ps ss ss1 : List Tree} {a : Scope} {stats : Stats} {s1 : State}
    (wf : WellFormed checked c (functionOf l form id ps lb ss))
    (starts : Scope.ofFunction n id (.tuple ps) (.node lb (.block (.tuple ss))) = .ok a)
    (walked : Walks n ⟨a, stats⟩ (.start ss ss1) s1) : (functionOf l form id ps lb ss).Fine n where
  names := free_of_ofFunction wf starts
  calls := by
    have describes : a.Describes n (functionOf l form id ps lb ss) :=
      (Scope.Enters.function starts).describes wf
    have own : ownCalls a ss = (functionOf l form id ps lb ss).selfCalls := describes.ownCalls
    have ends := ends_of_start (starts_ofFunction starts) walked
    rw [← own, ← describes.params]
    exact ends.few

/-- The nodes of a list are fine, functions as far as they are well-formed. -/
def AllFine (n : Naming) (us : List Tree) : Prop :=
  ∀ u ∈ us, (u.isFunction = true → ∃ checked c, WellFormed checked c u) → u.Fine n

/-- A fine node in front of fine ones. -/
theorem AllFine.cons {u : Tree} {us : List Tree} (function : u.isFunction = false)
    (names : ∀ x ∈ u.bindingNames, n.reserves x = false) (h : AllFine n us) : AllFine n (u :: us) :=
  List.forall_mem_cons.mpr ⟨fun _ => fine_other function names, h⟩

/-- A walk has checked what it went through. -/
theorem transports_fine :
    Transports n markMeasure markMeasure fun _ _ us _ => AllFine n us where
  nil := nofun
  append h1 h2 := List.forall_mem_append.mpr ⟨h1, h2⟩
  addVars _ h := h
  addTernary h := h
  -- Only declarations, labels and functions can break the conditions.
  directive := nofun
  declaration h := by
    rw [lists_marks.declaration]
    exact .cons rfl nofun h
  declarator free h := by
    rw [lists_marks.declarator]
    exact .cons rfl (List.forall_mem_singleton.mpr free) h
  returned h := by
    rw [lists_marks.returned]
    exact .cons rfl nofun h
  returnNothing := nofun
  returnValue _ _ h := h
  converted _ _ := nofun
  bareJump {s l kind} := by
    rw [lists_marks.bareJump]
    exact .cons rfl nofun nofun
  jump {s l kind ln x} := by
    rw [lists_marks.jump]
    exact .cons rfl nofun nofun
  labeled free h := by
    rw [lists_marks.labeled]
    exact .cons rfl (List.forall_mem_singleton.mpr free) h
  function starts walked h _ := by
    rw [markMeasure_of, marks_function]
    refine List.forall_mem_cons.mpr ⟨?_, h⟩
    -- The head of the function was checked before its body was walked.
    intro valid
    obtain ⟨checked, c, wf⟩ := valid rfl
    exact fine_function wf starts walked

section WellFormed

variable {checked : Bool} {c : Targets} {t t' : Tree} {stats : Stats}

/-- In a well-formed tree whose marks are fine, all nodes are. -/
theorem AllFine.nodes (h : AllFine n t.marks) (wf : WellFormed checked c t) :
    ∀ u ∈ t.nodes, u.Fine n := by
  intro u hu
  cases quiet : u.isQuiet with
  | true => exact fine_of_isQuiet quiet
  | false =>
    exact h u (mem_marks wf.filter_nodes hu quiet) fun function =>
      ⟨checked, wf.function_node hu function⟩

/-- In a well-formed tree that is eliminated, all nodes are fine, but a declarator that is the whole
tree. -/
theorem Eliminates.fine (wf : WellFormed checked c t) (h : Eliminates n t t' stats) :
    ∀ u ∈ t.declaringNodes, u.Fine n := by
  cases h with
  | expression kind part =>
    have marks : AllFine n t.marks := part.transported_expression transports_fine
    -- Only a declarator at the root is read differently by the measure.
    rw [declaringNodes_eq (by rintro _ _ _ rfl; cases kind)]
    exact marks.nodes wf
  | statement kind part =>
    have marks : AllFine n t.marks := part.transported_statement transports_fine
    rw [declaringNodes_eq (by rintro _ _ _ rfl; cases kind)]
    exact marks.nodes wf
  | @declarator _ _ init init' _ part =>
    have marks : AllFine n init.marks := part.transported_optional transports_fine
    cases wf with
    | variableDeclarator name kind valid =>
      cases absent : init.isNull with
      | true =>
        have none : init.nodes = [] := by cases init <;> first | rfl | cases absent
        rw [declaringNodes, none]
        exact nofun
      | false => exact marks.nodes (valid absent)
  | @program l ss ss1 ss' _ _ starts finished =>
    have inner : AllFine n (ss.flatMap marks) := starts.transported_start transports_fine
    have marks : AllFine n (Tree.node l (.program (.tuple ss))).marks := by
      rw [← markMeasure_of, lists_marks.program]
      exact .cons rfl nofun inner
    exact marks.nodes wf

/-- A function is no declarator. -/
theorem mem_declaringNodes (wf : WellFormed checked c t) {f : Tree} (hf : f ∈ t.nodes)
    (function : f.isFunction = true) : f ∈ t.declaringNodes := by
  unfold declaringNodes
  split
  · rename_i l id init
    cases wf with
    | variableDeclarator name =>
      have fields : (Shape.variableDeclarator id init).parts = [id, init] := rfl
      rw [nodes_parts, fields, List.flatMap_cons, List.flatMap_singleton, List.mem_cons,
        List.mem_append, nodes_of_isName name, List.mem_singleton] at hf
      rcases hf with rfl | rfl | hf
      · cases function
      · cases (isFunction_of_isName name).symm.trans function
      · exact hf
  · exact hf

end WellFormed

/-! ## Refusals -/

/-- A refusal that names what is at fault in a tree. -/
inductive Refusal.Blames (n : Naming) (t : Tree) : Refusal → Prop where
  | reservedName {u x l} (mem : u ∈ t.declaringNodes) (name : x ∈ u.bindingNames)
      (reserved : n.reserves x = true) : Blames n t (.reservedName n x l)
  | tooManyArguments {f args l} (mem : f ∈ t.nodes) (call : args ∈ f.selfCalls)
      (many : f.paramNames.length < args.length) :
    Blames n t (.tooManyArguments (f.selfName?.getD []) args.length f.paramNames.length l)

section Blames

variable {checked : Bool} {c : Targets} {t u : Tree}

/-- Every node of a tree grants what can be blamed on it. -/
theorem grants_blames (names : ∀ v ∈ u.nodes, v ∈ t.declaringNodes)
    (nodes : ∀ v ∈ u.nodes, v ∈ t.nodes) : Grants n (Refusal.Blames n t) {} u where
  nodes v hv :=
    { names := fun _ hx reserved _ => .reservedName (names v hv) hx reserved
      calls := fun _ hargs many _ => .tooManyArguments (nodes v hv) hargs many }
  calls args hargs := by
    obtain ⟨v, -, found⟩ := List.mem_filterMap.mp hargs
    cases (argumentsOf?_none v).symm.trans found

/-- The walk of a whole tree fails in ways that can be blamed on the tree. -/
theorem failsOnly_blames (wf : WellFormed checked c t) :
    FailsOnly {} (Refusal.Blames n t) (walk n .inside t) := by
  by_cases declarator : t.hasKind .variableDeclarator = true
  · -- The name of the declarator is not checked, so that only its initial value counts.
    obtain ⟨l, id, init, rfl⟩ := eq_variableDeclarator declarator
    cases wf with
    | variableDeclarator name kind valid =>
      refine failsOnly_fieldwise rfl (forall₂ (failsOnly_name name)
        (failsOnly_optional fun some => ?_))
      refine (failsWithin (valid some)).inside (grants_blames (fun v hv => hv) fun v hv => ?_)
      rw [nodes_parts]
      have field : init ∈ (Shape.variableDeclarator id init).parts :=
        List.mem_cons_of_mem _ List.mem_cons_self
      exact List.mem_cons_of_mem _ (List.mem_flatMap.mpr ⟨init, field, hv⟩)
  · have same : t.declaringNodes = t.nodes :=
      declaringNodes_eq (by rintro _ _ _ rfl; exact declarator rfl)
    refine (failsWithin wf).inside (grants_blames (fun v hv => ?_) fun v hv => hv)
    rw [same]
    exact hv

/-- Elimination of a well-formed tree is refused for what is at fault in it. -/
theorem blames_of_refused {e : Refusal} (wf : WellFormed checked c t)
    (refused : t.eliminateTailCalls n = .error e) : e.Blames n t := by
  refine (failsOnly_blames wf {} ⟨rfl, rfl⟩).1 e ?_
  change (walk n .inside t {}).map _ = .error e at refused
  cases walked : walk n .inside t {} with
  | error e' =>
    rw [walked] at refused
    cases refused
    rfl
  | ok r =>
    rw [walked] at refused
    cases refused

end Blames

/-- Elimination of a valid tree is refused if and only if it declares a reserved name, a declarator
that is the whole tree aside, or a function in it returns a call of itself with too many arguments;
the refusal tells which, and there is no other. -/
theorem eliminateTailCalls_refused {t : Tree} {count : Nat} (valid : t.validate = .ok count)
    (flags : t.FlagsAreBoolean) :
    ((∃ e, t.eliminateTailCalls n = .error e) ↔ t.DeclaresReserved n ∨ t.PassesTooMany) ∧
      ∀ e, t.eliminateTailCalls n = .error e →
        (∃ x l, e = .reservedName n x l ∧ t.DeclaresReserved n) ∨
          ∃ f passed declared l, e = .tooManyArguments f passed declared l ∧ t.PassesTooMany := by
  have wf := wellFormed_of_validate valid flags
  have tells (e : Refusal) (refused : t.eliminateTailCalls n = .error e) :
      (∃ x l, e = .reservedName n x l ∧ t.DeclaresReserved n) ∨
        ∃ f passed declared l, e = .tooManyArguments f passed declared l ∧ t.PassesTooMany := by
    cases blames_of_refused wf refused with
    | reservedName mem name reserved => exact .inl ⟨_, _, rfl, _, mem, _, name, reserved⟩
    | tooManyArguments mem call many => exact .inr ⟨_, _, _, _, rfl, _, mem, _, call, many⟩
  refine ⟨⟨?_, fun fault => ?_⟩, tells⟩
  · rintro ⟨e, refused⟩
    rcases tells e refused with ⟨_, _, -, reserved⟩ | ⟨_, _, _, _, -, many⟩
    · exact .inl reserved
    · exact .inr many
  · cases result : t.eliminateTailCalls n with
    | error e => exact ⟨e, rfl⟩
    | ok r =>
      -- All nodes of an accepted tree are fine, which leaves no room for a fault.
      have fine := (eliminates_of_ok wf result).fine wf
      rcases fault with ⟨u, hu, x, hx, reserved⟩ | ⟨f, hf, args, hargs, many⟩
      · cases ((fine u hu).names x hx).symm.trans reserved
      · have function : f.isFunction = true := by
          rw [← Bool.not_eq_false]
          intro other
          rw [selfCalls_other other] at hargs
          cases hargs
        have few := (fine f (mem_declaringNodes wf hf function)).calls args hargs
        omega

/-- A loop whose label is the one of generated loops, around a function that passes itself one
argument too many. -/
def faulty : Tree :=
  Tree.new (.program (.tuple [
    Tree.new (.labeled (.identifier "_tailCall_") (Tree.new (.whileStatement (.identifier "x")
      (Tree.new .emptyStatement)))),
    Tree.new (.function .declaration (.identifier "f") (.tuple [.identifier "x"]) (.block [
      Tree.new (.returnStatement (Tree.new (.call (.identifier "f")
        (.tuple [.identifier "x", .identifier "x"]))))]))]))

/-- A tree with both faults is refused, here for the reserved label, which is met first. -/
theorem eliminateTailCalls_refused_faulty :
    faulty.DeclaresReserved {} ∧ faulty.PassesTooMany ∧
      ∃ x l, faulty.eliminateTailCalls {} = .error (.reservedName {} x l) := by
  have reserved : faulty.DeclaresReserved {} := by decide
  have many : faulty.PassesTooMany := by decide
  obtain ⟨refused, tells⟩ :=
    eliminateTailCalls_refused (n := {}) (t := faulty) rfl (by decide)
  obtain ⟨e, failed⟩ := refused.mpr (.inl reserved)
  rcases tells e failed with ⟨x, l, rfl, -⟩ | ⟨_, _, _, _, rfl, -⟩
  · exact ⟨reserved, many, x, l, failed⟩
  · cases failed

/-- A declarator that is the whole tree may have a reserved name. -/
theorem eliminateTailCalls_refused_declarator :
    ¬ ∀ (n : Naming) (t : Tree) (count : Nat), t.validate = .ok count → t.FlagsAreBoolean →
      ((∃ e, t.eliminateTailCalls n = .error e) ↔
        (∃ u ∈ t.nodes, ∃ x ∈ u.bindingNames, n.reserves x = true) ∨ t.PassesTooMany) := by
  intro claim
  have reserved : ∃ u ∈ (Tree.declarator "_tco_temp_x" .null).nodes,
      ∃ x ∈ u.bindingNames, ({} : Naming).reserves x = true := by decide
  obtain ⟨e, refused⟩ := (claim {} (Tree.declarator "_tco_temp_x" .null) _ rfl (by decide)).mpr
    (.inl reserved)
  cases refused

end Elimination

end TailLoop
