import TailLoop.Proofs.Elimination.Marks
import TailLoop.Proofs.Elimination.Idempotence

/-!
# When elimination is refused

A tree is refused for two reasons: it declares a reserved name, or a function returns a call of
itself with too many arguments. On well-formed trees there are no others (`refuses_of_wellFormed`),
and both of them always lead to a refusal (`fine_of_eliminates`).

The first part goes through the walk of a well-formed tree, position by position, with a condition
`C` on refusals that the tree grants (`Grants`): every step fails in ways that satisfy `C` only
(`FailsOnly`). The faults that `walk` could run into elsewhere, such as a block without a row, are
excluded by what is known about the trees that earlier steps gave.
-/

namespace TailLoop

namespace Tree

/-- The names that a node declares: a function its own and those of its parameters, a declarator and
a label theirs. -/
def bindingNames (u : Tree) : List Text :=
  match u with
  | .node _ (.function _ id _ _) => id.identifierName?.toList ++ u.paramNames
  | .node _ (.variableDeclarator id _) => id.identifierName?.toList
  | .node _ (.labeled label _) => label.identifierName?.toList
  | _ => []

end Tree

namespace Elimination

open Tree Validity

variable {n : Naming}

/-! ## Steps that fail in certain ways only -/

/-- Scopes in which the same calls are converted. -/
structure Scope.Akin (a b : Scope) : Prop where
  name : b.name = a.name
  params : b.params = a.params

/-- In scopes like the given one, a step fails in ways that satisfy the condition only, and ends in
such a scope again. -/
def FailsOnly {α : Type} (a : Scope) (C : Refusal → Prop) (x : Walk α) : Prop :=
  ∀ s : State, a.Akin s.scope →
    (∀ e, x s = .error e → C e) ∧ ∀ r s', x s = .ok (r, s') → a.Akin s'.scope

namespace FailsOnly

variable {α β : Type} {a : Scope} {C : Refusal → Prop}

/-- A computed value refuses nothing. -/
theorem pure {r : α} : FailsOnly a C (Pure.pure r : Walk α) := by
  intro s akin
  refine ⟨nofun, fun r' s' h => ?_⟩
  obtain ⟨-, rfl⟩ := walk_pure.mp h
  exact akin

/-- The second of two steps may use that the first one gave its result somewhere. -/
theorem bind {x : Walk α} {f : α → Walk β} (hx : FailsOnly a C x)
    (hf : ∀ r s s', x s = .ok (r, s') → FailsOnly a C (f r)) : FailsOnly a C (x >>= f) := by
  intro s akin
  constructor
  · intro e failed
    change (x s >>= fun p => f p.1 p.2) = .error e at failed
    cases first : x s with
    | error e' =>
      rw [first] at failed
      cases failed
      exact (hx s akin).1 e first
    | ok p =>
      rw [first] at failed
      exact (hf p.1 s p.2 first p.2 ((hx s akin).2 p.1 p.2 first)).1 e failed
  · intro r s' done
    obtain ⟨r1, s1, first, rest⟩ := walk_bind.mp done
    exact (hf r1 s s1 first s1 ((hx s akin).2 r1 s1 first)).2 r s' rest

/-- A refusable computation may refuse what is allowed. -/
theorem lift {e : Except Refusal α} (allowed : ∀ refusal, e = .error refusal → C refusal) :
    FailsOnly a C (liftM e : Walk α) := by
  intro s akin
  cases e with
  | error refusal =>
    refine ⟨fun e h => ?_, nofun⟩
    cases h
    exact allowed _ rfl
  | ok r =>
    refine ⟨nofun, fun r' s' h => ?_⟩
    obtain ⟨-, rfl⟩ := walk_lift.mp h
    exact akin

/-- A computation that succeeds refuses nothing. -/
theorem attempt {e : Except Fault α} {r : α} (ok : e = .ok r) : FailsOnly a C (attempt e) := by
  rw [ok]
  exact lift nofun

/-- A change of the scope refuses nothing, if what calls are converted is left as it is. -/
theorem modifyScope {f : Scope → Scope} (same : ∀ b : Scope, b.Akin (f b)) :
    FailsOnly a C (Elimination.modifyScope f) := by
  intro s akin
  refine ⟨nofun, fun r s' h => ?_⟩
  obtain rfl := walk_modifyScope.mp h
  exact ⟨(same s.scope).name.trans akin.name, (same s.scope).params.trans akin.params⟩

/-- Counting refuses nothing. -/
theorem modifyStats {f : Stats → Stats} : FailsOnly a C (Elimination.modifyStats f) := by
  intro s akin
  refine ⟨nofun, fun r s' h => ?_⟩
  obtain rfl := walk_modifyStats.mp h
  exact akin

/-- A step that reads the scope reads one in which the same calls are converted. -/
theorem getScope {f : State → Walk β} (h : ∀ s, a.Akin s.scope → FailsOnly a C (f s)) :
    FailsOnly a C ((get : Walk State) >>= f) := by
  intro s akin
  exact h s akin s akin

/-- What happens in a scope of its own does not touch the one around it. -/
theorem inScope {x : Walk α} {b : Scope} (h : FailsOnly b C x) :
    FailsOnly a C (Elimination.inScope b x) := by
  intro s akin
  have inner := h ⟨b, s.stats⟩ ⟨rfl, rfl⟩
  constructor
  -- What fails inside fails as a whole, for the same reason.
  · intro e failed
    refine inner.1 e ?_
    change (x ⟨b, s.stats⟩ >>= _) = .error e at failed
    cases ran : x ⟨b, s.stats⟩ with
    | error e' =>
      rw [ran] at failed
      cases failed
      rfl
    | ok p =>
      rw [ran] at failed
      cases failed
  -- Afterwards the outer scope is back, with other counters.
  · intro r s' done
    obtain ⟨s1, -, -, rfl⟩ := walk_inScope.mp done
    exact akin

/-- A choice refuses what its ends do. -/
theorem ite {c : Prop} [Decidable c] {x y : Walk α} (hx : c → FailsOnly a C x)
    (hy : ¬ c → FailsOnly a C y) : FailsOnly a C (if c then x else y) := by
  split
  · exact hx ‹c›
  · exact hy ‹¬ c›

end FailsOnly

/-! ## Trees that grant refusals -/

/-- Calls that may be refused if they pass too many arguments to the function of the scope. -/
def GrantsCalls (C : Refusal → Prop) (a : Scope) (calls : List Tree) : Prop :=
  ∀ args ∈ calls.filterMap (argumentsOf? a.name), a.params.length < args.length →
    ∀ l, C (.tooManyArguments (a.name.getD []) args.length a.params.length l)

/-- A node whose names may be refused if they are reserved, and whose calls of itself if they pass
too many arguments. -/
structure GrantsNode (n : Naming) (C : Refusal → Prop) (u : Tree) : Prop where
  names : ∀ x ∈ u.bindingNames, n.reserves x = true → ∀ l, C (.reservedName n x l)
  calls : ∀ args ∈ u.selfCalls, u.paramNames.length < args.length →
    ∀ l, C (.tooManyArguments (u.selfName?.getD []) args.length u.paramNames.length l)

/-- All nodes of a tree, and the calls that it returns in the scope that it stands in. -/
structure Grants (n : Naming) (C : Refusal → Prop) (a : Scope) (t : Tree) : Prop where
  nodes : t.All (GrantsNode n C)
  calls : GrantsCalls C a t.handedOn

section Grants

variable {C : Refusal → Prop} {a b : Scope} {l : Option Location} {shape : Shape Tree} {t u : Tree}

/-- Fewer calls need fewer refusals granted. -/
theorem GrantsCalls.mono {calls calls' : List Tree} (h : GrantsCalls C a calls)
    (sub : calls' ⊆ calls) : GrantsCalls C a calls' := by
  intro args hargs
  obtain ⟨u, hu, found⟩ := List.mem_filterMap.mp hargs
  exact h args (List.mem_filterMap.mpr ⟨u, sub hu, found⟩)

/-- What is granted for a node is granted for its parts, unless it is a function. -/
theorem Grants.part (h : Grants n C a (.node l shape))
    (function : (Tree.node l shape).isFunction = false) (hu : u ∈ shape.parts) :
    Grants n C a u where
  nodes := h.nodes.child hu
  calls := by
    refine h.calls.mono fun v hv => ?_
    rw [handedOn_node function]
    exact List.mem_append_right _ (List.mem_flatMap.mpr ⟨u, hu, hv⟩)

/-- A node with one part. -/
theorem Grants.one (h : Grants n C a (.node l shape))
    (function : (Tree.node l shape).isFunction = false) (parts : shape.parts = [t]) :
    Grants n C a t :=
  h.part function (by simp [parts])

/-- A node with two parts. -/
theorem Grants.two (h : Grants n C a (.node l shape))
    (function : (Tree.node l shape).isFunction = false) (parts : shape.parts = [t, u]) :
    Grants n C a t ∧ Grants n C a u :=
  ⟨h.part function (by simp [parts]), h.part function (by simp [parts])⟩

/-- A node with three parts. -/
theorem Grants.three {v : Tree} (h : Grants n C a (.node l shape))
    (function : (Tree.node l shape).isFunction = false) (parts : shape.parts = [t, u, v]) :
    Grants n C a t ∧ Grants n C a u ∧ Grants n C a v :=
  ⟨h.part function (by simp [parts]), h.part function (by simp [parts]),
    h.part function (by simp [parts])⟩

/-- A node with four parts. -/
theorem Grants.four {v w : Tree} (h : Grants n C a (.node l shape))
    (function : (Tree.node l shape).isFunction = false) (parts : shape.parts = [t, u, v, w]) :
    Grants n C a t ∧ Grants n C a u ∧ Grants n C a v ∧ Grants n C a w :=
  ⟨h.part function (by simp [parts]), h.part function (by simp [parts]),
    h.part function (by simp [parts]), h.part function (by simp [parts])⟩

/-- What is granted for a row is granted for its items. -/
theorem Grants.item {ts : List Tree} (h : Grants n C a (.tuple ts)) (u : Tree) (hu : u ∈ ts) :
    Grants n C a u where
  nodes := h.nodes.item hu
  calls := by
    refine h.calls.mono fun v hv => ?_
    rw [handedOn_tuple]
    exact List.mem_flatMap.mpr ⟨u, hu, hv⟩

end Grants

/-! ## Rows and fields -/

section Parts

variable {C : Refusal → Prop} {a : Scope} {l : Option Location} {t : Tree}

/-- Plain data is never refused. -/
theorem failsOnly_atom {p : Position} (h : t.isPlain = true) : FailsOnly a C (walk n p t) := by
  cases t with
  | null | bool | int | num | text =>
    simp only [walk]
    exact .pure
  | _ => cases h

/-- The forms whose fields are walked one after the other wherever they stand. -/
def isFieldwise : Shape Tree → Bool
  | .ifStatement .. | .expressionStatement _ | .emptyStatement | .jump .. | .identifier _
  | .literal _ | .array _ | .member .. | .assignment .. | .binary .. | .logical .. | .unary ..
  | .update .. | .variableDeclarator .. => true
  | _ => false

/-- A node that is walked field by field is refused as its parts are. -/
theorem failsOnly_fieldwise {p : Position} {shape : Shape Tree} (fieldwise : isFieldwise shape = true)
    (parts : ∀ u ∈ shape.parts, FailsOnly a C (walk n .inside u)) :
    FailsOnly a C (walk n p (.node l shape)) := by
  have done {α : Type} {r : α} : FailsOnly a C (pure r : Walk α) := .pure
  -- All fields are walked in their order, and the node is built again.
  cases shape with
  | emptyStatement =>
    simp only [walk, walkShape]
    exact .bind done fun _ _ _ _ => done
  | expressionStatement e | jump kind e | identifier e | literal e | array e =>
    simp only [walk, walkShape]
    have field := parts e List.mem_cons_self
    exact .bind (.bind field fun _ _ _ _ => done) fun _ _ _ _ => done
  | variableDeclarator x y =>
    simp only [walk, walkShape]
    have first := parts x (Shape.mem_parts 0 rfl)
    have second := parts y (Shape.mem_parts 1 rfl)
    exact .bind (.bind first fun _ _ _ _ => .bind second fun _ _ _ _ => done) fun _ _ _ _ => done
  | ifStatement x y z | member x y z | assignment x y z | binary x y z | logical x y z
  | unary x y z | update x y z =>
    simp only [walk, walkShape]
    have first := parts x (Shape.mem_parts 0 rfl)
    have second := parts y (Shape.mem_parts 1 rfl)
    have third := parts z (Shape.mem_parts 2 rfl)
    exact .bind (.bind first fun _ _ _ _ => .bind second fun _ _ _ _ =>
      .bind third fun _ _ _ _ => done) fun _ _ _ _ => done
  | _ => cases fieldwise

/-- A row fails where an item does, if the walked items can be put into a row. -/
theorem failsOnly_items {ts : List Tree} (items : ∀ t ∈ ts, FailsOnly a C (walk n .inside t))
    (opens : ∀ t ∈ ts, ∀ {s t' s'}, walk n .inside t s = .ok (t', s') → ∃ us, t'.spliced = .ok us) :
    FailsOnly a C (walkItems n ts) := by
  induction ts with
  | nil =>
    rw [walkItems]
    exact .pure
  | cons t ts ih =>
    rw [List.forall_mem_cons] at items opens
    rw [walkItems]
    refine .bind items.1 fun t' s s' walked => ?_
    obtain ⟨us, spliced⟩ := opens.1 walked
    exact .bind (.attempt spliced) fun _ _ _ _ => .bind (ih items.2 opens.2) fun _ _ _ _ => .pure

/-- A row is refused as its items are. -/
theorem failsOnly_row {ts : List Tree} (h : FailsOnly a C (walkItems n ts)) :
    FailsOnly a C (walk n .inside (.tuple ts)) := by
  rw [walk]
  exact .bind h fun _ _ _ _ => .pure

/-- The start of a body is refused as its statements are. -/
theorem failsOnly_start {ts : List Tree} (items : ∀ t ∈ ts, FailsOnly a C (walk n .inside t))
    (opens : ∀ t ∈ ts, ∀ {s t' s'}, walk n .inside t s = .ok (t', s') → ∃ us, t'.spliced = .ok us) :
    FailsOnly a C (walkStart n (.tuple ts)) := by
  cases ts with
  | nil =>
    rw [walkStart]
    exact .pure
  | cons t ts =>
    have whole := failsOnly_items items opens
    rw [List.forall_mem_cons] at items opens
    rw [walkStart]
    -- The first statement is put aside if it is the directive; otherwise it is walked like the
    -- others.
    refine .ite (fun _ => ?_) (fun _ => ?_)
    · refine .bind (.modifyScope fun b => ⟨rfl, rfl⟩) fun _ _ _ _ => ?_
      exact .bind (failsOnly_items items.2 opens.2) fun _ _ _ _ => .pure
    · refine .bind items.1 fun t' s s' walked => ?_
      obtain ⟨us, spliced⟩ := opens.1 walked
      exact .bind (.attempt spliced) fun _ _ _ _ =>
        .bind (failsOnly_items items.2 opens.2) fun _ _ _ _ => .pure

/-- Expressions in a row are refused as each of them is. -/
theorem failsOnly_each {ts : List Tree} (items : ∀ t ∈ ts, FailsOnly a C (walk n .inside t)) :
    FailsOnly a C (walkEach n ts) := by
  induction ts with
  | nil =>
    rw [walkEach]
    exact .pure
  | cons t ts ih =>
    rw [List.forall_mem_cons] at items
    rw [walkEach]
    exact .bind items.1 fun _ _ _ _ => .bind (ih items.2) fun _ _ _ _ => .pure

end Parts

/-! ## Names -/

section Names

variable {C : Refusal → Prop} {a : Scope} {l : Option Location} {x : Text} {e : Refusal}

/-- A declaration is refused for a reserved name, and the refusal says which and where. -/
theorem declaredName_refused (h : declaredName n (.node l (.identifier (.text x))) = .error e) :
    n.reserves x = true ∧ e = .reservedName n x l := by
  have checked : declaredName n (.node l (.identifier (.text x))) =
      (checkName n x l >>= fun _ => .ok x) := rfl
  rw [checked, checkName] at h
  cases reserved : n.reserves x with
  | false =>
    rw [reserved] at h
    cases h
  | true =>
    rw [reserved] at h
    cases h
    exact ⟨rfl, rfl⟩

/-- A local is refused only if its name is reserved. -/
theorem failsOnly_declareLocal (granted : n.reserves x = true → ∀ l, C (.reservedName n x l)) :
    FailsOnly a C (declareLocal n (.node l (.identifier (.text x)))) := by
  refine .bind (.lift fun e refused => ?_) fun y _ _ _ => .modifyScope fun b => ?_
  · obtain ⟨reserved, rfl⟩ := declaredName_refused refused
    exact granted reserved l
  · have leads := Scope.Leads.addLocal b y
    exact ⟨leads.name, leads.params⟩

/-- One of the parameters is refused. -/
theorem declaredNames_refused {ps : List Tree} (named : ∀ p ∈ ps, IsName p)
    (h : ps.mapM (declaredName n) = .error e) :
    ∃ x ∈ ps.filterMap identifierName?, n.reserves x = true ∧ ∃ l, e = .reservedName n x l := by
  -- By induction on the parameters: the first one that is refused is reserved.
  induction ps with
  | nil => cases h
  | cons p ps ih =>
    rw [List.forall_mem_cons] at named
    obtain ⟨@⟨l, x, spelled⟩, rest⟩ := named
    rw [List.mapM_cons] at h
    cases first : declaredName n (.node l (.identifier (.text x))) with
    | error e' =>
      rw [first] at h
      cases h
      obtain ⟨reserved, rfl⟩ := declaredName_refused first
      exact ⟨x, List.mem_cons_self, reserved, l, rfl⟩
    | ok y =>
      rw [first] at h
      cases others : ps.mapM (declaredName n) with
      | error e' =>
        rw [others] at h
        cases h
        obtain ⟨z, hz, found⟩ := ih rest others
        exact ⟨z, List.mem_cons_of_mem _ hz, found⟩
      | ok ys =>
        rw [others] at h
        cases h

/-- The names of parameters that are names are known. -/
theorem names_of_isName {ps : List Tree} (named : ∀ p ∈ ps, IsName p) :
    ∃ names, ps.mapM Tree.name = .ok names := by
  induction ps with
  | nil => exact ⟨[], rfl⟩
  | cons p ps ih =>
    rw [List.forall_mem_cons] at named
    obtain ⟨@⟨l, x, spelled⟩, rest⟩ := named
    obtain ⟨names, found⟩ := ih rest
    refine ⟨.text x :: names, ?_⟩
    rw [List.mapM_cons, found]
    rfl

/-- The names of the parameters, as they are declared. -/
theorem parameterNames_tuple {ps : List Tree} (named : ∀ p ∈ ps, IsName p) :
    parameterNames n (.tuple ps) = ps.mapM (declaredName n) := by
  obtain ⟨names, found⟩ := names_of_isName named
  have items : (Tree.tuple ps).items = .ok ps := rfl
  unfold parameterNames
  rw [items]
  change (refuseFault (ps.mapM Tree.name) >>= _) = _
  rw [found]
  rfl

/-- A refusal comes from the first step or from what follows it. -/
theorem bind_error {α β : Type} {x : Except Refusal α} {f : α → Except Refusal β} :
    x >>= f = .error e ↔ x = .error e ∨ ∃ r, x = .ok r ∧ f r = .error e := by
  -- Either the first step fails, or the second one does with its result.
  cases x with
  | error e' =>
    constructor
    · intro h
      cases h
      exact .inl rfl
    · rintro (h | ⟨_, h, _⟩)
      · cases h
        rfl
      · cases h
  | ok r =>
    constructor
    · exact fun h => .inr ⟨r, rfl, h⟩
    · rintro (h | ⟨_, h, rest⟩)
      · cases h
      · cases h
        exact rest

/-- A function that cannot be entered declares a reserved name. -/
theorem ofFunction_refused {checked : Bool} {c : Targets} {lb : Option Location} {form : FunctionForm}
    {id : Tree} {ps ss : List Tree} (wf : WellFormed checked c (functionOf l form id ps lb ss))
    (h : Scope.ofFunction n id (.tuple ps) (.node lb (.block (.tuple ss))) = .error e) :
    ∃ x ∈ (functionOf l form id ps lb ss).bindingNames, n.reserves x = true ∧
      ∃ l, e = .reservedName n x l := by
  cases wf with
  | function _ known params kinds parts =>
    have block : WellFormed checked {} (.node lb (.block (.tuple ss))) := .block kinds parts
    obtain ⟨startsStrict, strict⟩ := exists_startsStrict ss
    rw [Scope.ofFunction, parameterNames_tuple params] at h
    -- First the parameters are read, all of which are identifiers.
    rcases bind_error.mp h with refused | ⟨names, -, h⟩
    · obtain ⟨x, hx, found⟩ := declaredNames_refused params refused
      exact ⟨x, List.mem_append_right _ hx, found⟩
    -- Then the name, if there is one.
    rcases bind_error.mp h with refused | ⟨name, -, h⟩
    · unfold functionName? at refused
      split at refused
      · cases refused
      · rename_i present
        obtain @⟨li, x, spelled⟩ := known (by simpa using present)
        cases checked : declaredName n (.node li (.identifier (.text x))) with
        | ok y =>
          rw [checked] at refused
          cases refused
        | error e' =>
          rw [checked] at refused
          cases refused
          obtain ⟨reserved, rfl⟩ := declaredName_refused checked
          exact ⟨x, List.mem_cons_self, reserved, li, rfl⟩
    -- What follows reads the body, which does not fail.
    · rw [ownName?_eq block.declaredNames] at h
      have body : (Tree.node lb (.block (.tuple ss))).field "body" = .ok (.tuple ss) := rfl
      rw [body] at h
      change (refuseFault (Tree.startsStrict (.tuple ss)) >>= _) = _ at h
      rw [strict] at h
      cases h

end Names

/-! ## Well-formed trees -/

/-- Every position at which a tree can stand fails in ways that the tree grants. -/
structure FailsWithin (n : Naming) (C : Refusal → Prop) (t : Tree) : Prop where
  inside : ∀ {a}, Grants n C a t → FailsOnly a C (walk n .inside t)
  returned : t.isExpression = true → ∀ {a l}, Grants n C a t → GrantsCalls C a (t.tailCalls false) →
    FailsOnly a C (walk n (.returned l) t)
  branch : t.isExpression = true → ∀ {a}, Grants n C a t → GrantsCalls C a (t.tailCalls true) →
    FailsOnly a C (walk n .branch t)
  declarator : ∀ {l id init}, t = .node l (.variableDeclarator id init) → IsName id ∧
    ∀ {a}, Grants n C a init → FailsOnly a C (walk n .inside init)

section WellFormed

variable {checked : Bool} {c : Targets} {C : Refusal → Prop} {a : Scope} {l : Option Location}
  {t : Tree} {ts : List Tree}

/-- What comes of an expression can be put in a row. -/
theorem opens_expression (wf : WellFormed checked c t) (kind : t.isExpression = true) {s s' : State}
    {t' : Tree} (h : walk n .inside t s = .ok (t', s')) : ∃ us, t'.spliced = .ok us := by
  have walked : Walks n s (.expression t t') s' := (follows_of_wellFormed wf).expression kind h
  exact ⟨_, spliced_of_hasKind (hasKind_of_isExpression walked.flat)⟩

/-- What comes of a statement can be put in a row. -/
theorem opens_statement (wf : WellFormed checked c t) (kind : t.isStatement = true) {s s' : State}
    {t' : Tree} (h : walk n .inside t s = .ok (t', s')) : ∃ us, t'.spliced = .ok us := by
  have walked : Walks n s (.statement t t') s' := (follows_of_wellFormed wf).statement kind h
  by_cases block : t'.hasKind .blockStatement = true
  · obtain ⟨lb, body, rfl⟩ := eq_block block
    obtain ⟨ss, rfl⟩ := row_of_statement walked lb body rfl
    exact ⟨ss, rfl⟩
  · exact ⟨_, spliced_of_hasKind (by simpa using block)⟩

/-- A row of expressions, as a field that holds one. -/
theorem failsOnly_expressions (kinds : ∀ t ∈ ts, t.isExpression = true)
    (parts : ∀ t ∈ ts, WellFormed checked c t) (ih : ∀ t ∈ ts, FailsWithin n C t)
    (grants : ∀ t ∈ ts, Grants n C a t) : FailsOnly a C (walk n .inside (.tuple ts)) :=
  failsOnly_row (failsOnly_items (fun t ht => (ih t ht).inside (grants t ht))
    fun t ht _ _ _ walked => opens_expression (parts t ht) (kinds t ht) walked)

/-- A row of statements. -/
theorem failsOnly_statements (kinds : ∀ t ∈ ts, t.isStatement = true)
    (parts : ∀ t ∈ ts, WellFormed checked c t) (ih : ∀ t ∈ ts, FailsWithin n C t)
    (grants : ∀ t ∈ ts, Grants n C a t) : FailsOnly a C (walk n .inside (.tuple ts)) :=
  failsOnly_row (failsOnly_items (fun t ht => (ih t ht).inside (grants t ht))
    fun t ht _ _ _ walked => opens_statement (parts t ht) (kinds t ht) walked)

/-- A name that is no expression of its own is not refused. -/
theorem failsOnly_name (name : IsName t) : FailsOnly a C (walk n .inside t) := by
  obtain ⟨l, spelled⟩ := name
  exact failsOnly_fieldwise rfl (forall₁ (failsOnly_atom rfl))

/-- A field that may be empty is refused as what it holds. -/
theorem failsOnly_optional (part : t.isNull = false → FailsOnly a C (walk n .inside t)) :
    FailsOnly a C (walk n .inside t) := by
  cases t with
  | null => exact failsOnly_atom rfl
  | _ => exact part rfl

/-- An expression whose fields are walked alike wherever it stands. -/
theorem FailsWithin.fieldwise {shape : Shape Tree} (fieldwise : isFieldwise shape = true)
    (kind : (Tree.node l shape).isExpression = true)
    (parts : ∀ {a}, Grants n C a (.node l shape) →
      ∀ u ∈ shape.parts, FailsOnly a C (walk n .inside u)) : FailsWithin n C (.node l shape) where
  inside grants := failsOnly_fieldwise fieldwise (parts grants)
  returned _ _ _ grants _ := failsOnly_fieldwise fieldwise (parts grants)
  branch _ _ grants _ := failsOnly_fieldwise fieldwise (parts grants)
  declarator h := by
    cases h
    cases kind

/-- A statement only stands inside something else. -/
theorem FailsWithin.statement (kind : t.isExpression = false)
    (other : t.hasKind .variableDeclarator = false)
    (inside : ∀ {a}, Grants n C a t → FailsOnly a C (walk n .inside t)) : FailsWithin n C t where
  inside := inside
  returned h := by
    rw [kind] at h
    cases h
  branch h := by
    rw [kind] at h
    cases h
  declarator h := by
    subst h
    cases other

/-- A block is refused as its statements are. -/
theorem failsOnly_block (kinds : ∀ t ∈ ts, t.isStatement = true)
    (parts : ∀ t ∈ ts, WellFormed checked c t) (ih : ∀ t ∈ ts, FailsWithin n C t)
    (grants : Grants n C a (.node l (.block (.tuple ts)))) :
    FailsOnly a C (walk n .inside (.node l (.block (.tuple ts)))) := by
  have row := failsOnly_statements kinds parts ih (grants.one rfl rfl).item
  rw [walk, if_neg (by exact Bool.false_ne_true)]
  refine .bind row fun body s s' walked => ?_
  obtain ⟨ts', rows, rfl⟩ := walk_tuple.mp walked
  have flat := (walkItems_statements kinds (fun t ht => follows_of_wellFormed (parts t ht)) rows).flat
  exact .bind (.attempt (unwrapBlock_tuple flat)) fun _ _ _ _ => .pure

/-- Declarators are refused for their names and for their initial values. -/
theorem failsOnly_declarators (kinds : ∀ d ∈ ts, d.hasKind .variableDeclarator = true)
    (ih : ∀ d ∈ ts, FailsWithin n C d) (grants : ∀ d ∈ ts, Grants n C a d) :
    FailsOnly a C (walkDeclaratorItems n ts) := by
  -- By induction on the declarators: a name can be refused, and otherwise the initial value.
  induction ts with
  | nil =>
    rw [walkDeclaratorItems]
    exact .pure
  | cons d ds ihds =>
    rw [List.forall_mem_cons] at kinds ih grants
    obtain ⟨l, id, init, rfl⟩ := eq_variableDeclarator kinds.1
    obtain ⟨@⟨li, x, spelled⟩, initial⟩ := ih.1.declarator rfl
    have names := grants.1.nodes.self.names x (List.mem_singleton_self x)
    obtain ⟨-, initGrants⟩ := grants.1.two rfl rfl
    have more : FailsOnly a C (walkDeclaratorItems n ds) := ihds kinds.2 ih.2 grants.2
    rw [walkDeclaratorItems]
    refine .bind (failsOnly_declareLocal names) fun _ _ _ _ => .ite (fun _ => ?_) fun _ => ?_
    · exact .bind .pure fun _ _ _ _ => .bind more fun _ _ _ _ => .pure
    · exact .bind (initial initGrants) fun _ _ _ _ => .bind more fun _ _ _ _ => .pure

/-- The expressions of a sequence that is a branch: the last one is returned. -/
theorem failsOnly_branchItems (kinds : ∀ e ∈ ts, e.isExpression = true)
    (parts : ∀ e ∈ ts, WellFormed checked c e) (ih : ∀ e ∈ ts, FailsWithin n C e)
    (grants : ∀ e ∈ ts, Grants n C a e) (calls : GrantsCalls C a (lastTailCalls ts)) :
    FailsOnly a C (walkBranchItems n ts) := by
  -- By induction on the list: only the last expression is in the place of a returned value.
  induction ts with
  | nil =>
    rw [walkBranchItems]
    exact .pure
  | cons e es ihes =>
    rw [List.forall_mem_cons] at kinds parts ih grants
    cases es with
    | nil =>
      rw [walkBranchItems]
      refine .bind (ih.1.returned kinds.1 grants.1 (by simpa [lastTailCalls] using calls))
        fun t' s s' walked => ?_
      -- The result is spliced, which works for blocks and for single statements.
      have follows : Follows n e := follows_of_wellFormed parts.1
      have returned := follows.returned kinds.1 walked
      by_cases block : t'.hasKind .blockStatement = true
      · obtain ⟨lb, body, rfl⟩ := eq_block block
        obtain ⟨ss, rfl⟩ := row_of_returned returned lb body rfl
        exact .attempt rfl
      · exact .attempt (spliced_of_hasKind (by simpa using block))
    | cons e2 es =>
      rw [Simulation.lastTailCalls_cons (List.cons_ne_nil e2 es)] at calls
      rw [walkBranchItems]
      · exact .bind (ih.1.inside grants.1) fun _ _ _ _ =>
          .bind (ihes kinds.2 parts.2 ih.2 grants.2 calls) fun _ _ _ _ => .pure
      · exact List.cons_ne_nil e2 es

/-- A call that is converted if it passes few arguments enough. -/
theorem failsOnly_convert {lc : Option Location} {args args' : List Tree}
    (length : args'.length = args.length)
    (granted : a.params.length < args.length →
      ∀ l, C (.tooManyArguments (a.name.getD []) args.length a.params.length l)) :
    FailsOnly a C (convertCall n l lc args') := by
  refine .getScope fun s akin => .ite (fun many => ?_) fun _ => ?_
  · refine .bind (.lift fun e h => ?_) fun _ _ _ thrown => (walk_throw.mp thrown).elim
    cases h
    rw [akin.name, akin.params, length]
    rw [akin.params, length] at many
    exact granted many lc
  · refine .bind (.modifyScope fun b => ?_) fun _ _ _ _ =>
      .bind .modifyStats fun _ _ _ _ => .pure
    exact ⟨(Scope.Leads.useAll _ _).name, (Scope.Leads.useAll _ _).params⟩

/-- Whether a plain target is reset is always known. -/
theorem exists_isReset {e : Tree} (plain : PlainTarget e) (names : List Text) :
    ∃ b, e.isReset names = .ok b := by
  unfold Tree.isReset
  split
  · obtain ⟨x, rfl⟩ := plain
    split <;> exact ⟨_, rfl⟩
  · exact ⟨_, rfl⟩

/-- Whether all the items of a sequence are resets is always known. -/
theorem exists_areResets {es : List Tree} (plain : ∀ e ∈ es, PlainTarget e) (names : List Text) :
    ∃ b, Tree.areResets names es = .ok b := by
  induction es with
  | nil => exact ⟨_, rfl⟩
  | cons e es ih =>
    rw [List.forall_mem_cons] at plain
    obtain ⟨reset, first⟩ := exists_isReset plain.1 names
    rw [Tree.areResets, first]
    cases reset with
    | false => exact ⟨false, rfl⟩
    | true => exact ih plain.2

/-- Whether a plain statement is a reset is always known. -/
theorem exists_isResetStatement {t : Tree} (plain : PlainStatement t) (names : List Text) :
    ∃ b, t.isResetStatement names = .ok b := by
  unfold Tree.isResetStatement
  split
  -- A single statement is a reset only if it is an expression statement.
  · obtain ⟨es, rfl, targets⟩ := plain
    exact exists_areResets targets names
  · rename_i single
    unfold PlainStatement at plain
    split at plain
    · rename_i same
      cases same
      exact (single _ _ rfl).elim
    · rename_i same
      cases same
      exact exists_isReset plain names
    · rename_i other
      exact (other _ _ rfl).elim
  · exact ⟨_, rfl⟩

/-- Walked statements can be put together to a body. -/
theorem exists_finishBody {b : Scope} (plain : ∀ t ∈ ts, PlainStatement t) :
    ∃ ts', finishBody n b ts = .ok ts' := by
  cases tail : b.isTailRecursive with
  | true => exact ⟨_, finishBody_loop tail ts⟩
  | false =>
    have dropped : ∃ rest, dropResets b.locals ts = .ok rest := by
      induction ts with
      | nil => exact ⟨[], rfl⟩
      | cons t ts ih =>
        rw [List.forall_mem_cons] at plain
        obtain ⟨reset, first⟩ := exists_isResetStatement plain.1 b.locals
        rw [dropResets, first]
        cases reset with
        | false => exact ⟨t :: ts, rfl⟩
        | true => exact ih plain.2
    obtain ⟨rest, dropped⟩ := dropped
    exact ⟨_, (finishBody_plain tail).mpr ⟨rest, dropped, rfl⟩⟩

/-- The statements of a function, in the scope that it is entered with. -/
theorem Grants.statements {form : FunctionForm} {id : Tree} {lb : Option Location} {ps : List Tree}
    {b : Scope} (wf : WellFormed checked c (functionOf l form id ps lb ts))
    (enters : b.Enters n (functionOf l form id ps lb ts))
    (grants : Grants n C a (functionOf l form id ps lb ts)) : ∀ t ∈ ts, Grants n C b t := by
  have describes := enters.describes wf
  have self := grants.nodes.self.calls
  rw [← functionOf] at self
  have block : (Tree.node lb (.block (.tuple ts))).All (GrantsNode n C) :=
    grants.nodes.child (Shape.mem_parts 2 rfl)
  have row : (Tree.tuple ts).All (GrantsNode n C) := block.child List.mem_cons_self
  have calls : GrantsCalls C b (ts.flatMap handedOn) := by
    have own : ownCalls b ts = (functionOf l form id ps lb ts).selfCalls := describes.ownCalls
    unfold GrantsCalls
    rw [← ownCalls, own, describes.name, describes.params]
    exact self
  intro t ht
  exact ⟨row.item ht, calls.mono fun u hu => List.mem_flatMap.mpr ⟨t, ht, hu⟩⟩

/-- A function is refused for its parameters, and for what its body is refused for. -/
theorem failsOnly_function {p : Position} {form : FunctionForm} {id : Tree} {lb : Option Location}
    {ps : List Tree} (wf : WellFormed checked c (functionOf l form id ps lb ts))
    (kinds : ∀ t ∈ ts, t.isStatement = true) (parts : ∀ t ∈ ts, WellFormed checked {} t)
    (ih : ∀ t ∈ ts, FailsWithin n C t) (grants : Grants n C a (functionOf l form id ps lb ts)) :
    FailsOnly a C (walk n p (functionOf l form id ps lb ts)) := by
  have names := grants.nodes.self.names
  rw [← functionOf] at names
  have follows : ∀ t ∈ ts, Follows n t := fun t ht => follows_of_wellFormed (parts t ht)
  rw [functionOf, walk]
  -- The head is refused only for a reserved name.
  refine .bind (.lift fun e refused => ?_) fun b s s' entered => ?_
  · obtain ⟨x, hx, reserved, l', rfl⟩ := ofFunction_refused wf refused
    exact names x hx reserved l'
  obtain ⟨starts, rfl⟩ := walk_lift.mp entered
  -- The body is walked in a scope that the function starts, with what is granted to it.
  have inner := grants.statements wf (.function starts)
  have start : FailsOnly b C (walkStart n (.tuple ts)) :=
    failsOnly_start (fun t ht => (ih t ht).inside (inner t ht))
      fun t ht _ _ _ walked => opens_statement (parts t ht) (kinds t ht) walked
  have body : FailsOnly b C (walk n .functionBody (.node lb (.block (.tuple ts)))) := by
    rw [walk, if_pos (by rfl)]
    refine .bind start fun row s s' walked => ?_
    obtain ⟨ts1, rfl, started⟩ := walkStart_sound kinds follows walked
    exact .bind (.attempt (unwrapBlock_tuple (noBlocks_of_start started))) fun _ _ _ _ => .pure
  refine .bind (.inScope body) fun r s s' ran => ?_
  obtain ⟨body', b'⟩ := r
  -- The end of the body cannot fail, as it consists of plain statements.
  obtain ⟨s1, walked, rfl, -⟩ := walk_inScope.mp ran
  obtain ⟨ts1, rfl, started⟩ := walk_functionBody kinds follows walked
  obtain ⟨ts', finished⟩ := exists_finishBody (b := s1.scope) started.plain
  refine .bind (.attempt rfl) fun statements s s' found => ?_
  obtain ⟨same, -⟩ := walk_attempt.mp found
  cases same
  refine .bind (.attempt finished) fun _ _ _ _ => ?_
  exact .ite (fun _ => .bind .modifyStats fun _ _ _ _ => .pure) fun _ => .pure

/-- A call, at any position: as the value of a `return` it is converted if it calls the function of
the scope. -/
theorem failsOnly_call {p : Position} {callee : Tree} (calleePart : FailsWithin n C callee)
    (kinds : ∀ e ∈ ts, e.isExpression = true) (parts : ∀ e ∈ ts, WellFormed checked c e)
    (ih : ∀ e ∈ ts, FailsWithin n C e) (grants : Grants n C a (.node l (.call callee (.tuple ts))))
    (calls : p.returnLocation? l ≠ none → GrantsCalls C a [.node l (.call callee (.tuple ts))]) :
    FailsOnly a C (walk n p (.node l (.call callee (.tuple ts)))) := by
  obtain ⟨calleeGrants, rowGrants⟩ := grants.two rfl rfl
  have follows : ∀ e ∈ ts, Follows n e := fun e he => follows_of_wellFormed (parts e he)
  rw [walk]
  refine .getScope fun s akin => ?_
  dsimp only
  -- A call of the function itself has as many arguments as are granted.
  split
  · rename_i location own place
    have called : argumentsOf? a.name (.node l (.call callee (.tuple ts))) = some ts := by
      rw [akin.name] at own
      exact if_pos own
    have granted := calls (by rw [place]; exact Option.some_ne_none _) ts
      (List.mem_filterMap.mpr ⟨_, List.mem_singleton_self _, called⟩)
    rw [walkArguments]
    refine .bind (failsOnly_each fun e he => (ih e he).inside (rowGrants.item e he))
      fun args' s s' walked => ?_
    -- The walked arguments are as many as before.
    have length := (alike_of_expressions (walkEach_sound kinds follows walked)).length_eq
    exact failsOnly_convert length.symm granted
  -- Any other call is walked like an expression.
  · exact .bind (calleePart.inside calleeGrants) fun _ _ _ _ =>
      .bind (failsOnly_expressions kinds parts ih rowGrants.item) fun _ _ _ _ => .pure

/-- No expression is refused as a branch. -/
theorem checkBranch_ok {e : Tree} (wf : WellFormed checked c e) (kind : e.isExpression = true) :
    checkBranch e = .ok () := by
  cases wf with
  | @sequence _ l es some kinds parts =>
    have nodes : es.all Tree.isNode = true := by
      rw [List.all_eq_true]
      intro e he
      cases e with
      | node => rfl
      | _ => cases kinds _ he
    have nonempty : es.isEmpty = false := by simpa using some
    change (if es.isEmpty then _ else if es.all Tree.isNode then _ else _) = _
    rw [nonempty, nodes]
    rfl
  | program | block | returnStatement => cases kind
  | _ => rfl

/-- A conditional as the value of a `return`, whose branches are returned in its place. -/
theorem failsOnly_split {p : Position} {location : Option Location} {test x y : Tree}
    (place : p.returnLocation? l = some location) (testPart : FailsOnly a C (walk n .inside test))
    (checkX : checkBranch x = .ok ()) (checkY : checkBranch y = .ok ())
    (partX : FailsOnly a C (walk n .branch x)) (partY : FailsOnly a C (walk n .branch y)) :
    FailsOnly a C (walk n p (.node l (.conditional test x y))) := by
  simp only [walk, place]
  refine .bind .modifyStats fun _ _ _ _ => ?_
  refine .bind (.lift (by rw [checkX]; exact nofun)) fun _ _ _ _ => ?_
  refine .bind (.lift (by rw [checkY]; exact nofun)) fun _ _ _ _ => ?_
  exact .bind testPart fun _ _ _ _ => .bind partX fun _ _ _ _ => .bind partY fun _ _ _ _ => .pure

/-- A sequence that is no branch. -/
theorem failsOnly_kept {p : Position} {row : Tree} (place : p ≠ .branch)
    (h : FailsOnly a C (walk n .inside row)) :
    FailsOnly a C (walk n p (.node l (.sequence row))) := by
  cases p with
  | branch => exact (place rfl).elim
  | inside | returned | functionBody =>
    simp only [walk, walkShape]
    exact .bind (.bind h fun _ _ _ _ => .pure) fun _ _ _ _ => .pure

/-- A sequence that is a branch, of which the last expression is returned. -/
theorem failsOnly_sequence (some : ts ≠ []) (kinds : ∀ e ∈ ts, e.isExpression = true)
    (parts : ∀ e ∈ ts, WellFormed checked c e) (ih : ∀ e ∈ ts, FailsWithin n C e)
    (grants : Grants n C a (.node l (.sequence (.tuple ts))))
    (calls : GrantsCalls C a (lastTailCalls ts)) :
    FailsOnly a C (walk n .branch (.node l (.sequence (.tuple ts)))) := by
  have follows : ∀ e ∈ ts, Follows n e := fun e he => follows_of_wellFormed (parts e he)
  have rows := failsOnly_branchItems kinds parts ih (grants.one rfl rfl).item calls
  rw [walk, walkBranch]
  refine .bind rows fun us s s' walked => ?_
  have flat := (walkBranchItems_sound some kinds follows walked).flat
  exact .bind (.attempt (unwrapBlock_tuple flat)) fun _ _ _ _ => .pure

/-- Where no function has a name, no call is one of it. -/
theorem argumentsOf?_none (u : Tree) : argumentsOf? none u = none := by
  unfold argumentsOf?
  split <;> rfl

end WellFormed

-- There is one lemma for each kind of node that has a walk of its own.
namespace FailsWithin

variable {checked : Bool} {C : Refusal → Prop} {c : Targets} {l ld le lb ln : Option Location}
  {id init test step consequent alternate argument left right body callee : Tree}
  {ss ds ps es args : List Tree} {name : Text} {domain : Domain} {form : FunctionForm}

theorem ifStatement (ih1 : FailsWithin n C test) (ih2 : FailsWithin n C consequent)
    (ih3 : alternate.isNull = false → FailsWithin n C alternate) :
    FailsWithin n C (.node l (.ifStatement test consequent alternate)) := by
  refine .statement rfl rfl fun grants => failsOnly_fieldwise rfl ?_
  obtain ⟨testGrants, thenGrants, elseGrants⟩ := grants.three rfl rfl
  exact forall₃ (ih1.inside testGrants) (ih2.inside thenGrants)
    (failsOnly_optional fun some => (ih3 some).inside elseGrants)

theorem variableDeclarator (name : IsName id) (ih : init.isNull = false → FailsWithin n C init) :
    FailsWithin n C (.node l (.variableDeclarator id init)) := by
  refine ⟨fun grants => ?_, fun h => (by cases h), fun h => (by cases h), ?_⟩
  · obtain ⟨-, initGrants⟩ := grants.two rfl rfl
    exact failsOnly_fieldwise rfl (forall₂ (failsOnly_name name)
      (failsOnly_optional fun some => (ih some).inside initGrants))
  · rintro _ _ _ ⟨⟩
    exact ⟨name, fun grants => failsOnly_optional fun some => (ih some).inside grants⟩

/-- A `return` is refused as the value it returns, converted or not. -/
theorem returnStatement (kind : argument.isNull = false → argument.isExpression = true)
    (ih : argument.isNull = false → FailsWithin n C argument) :
    FailsWithin n C (.node l (.returnStatement argument)) := by
  refine .statement rfl rfl fun grants => ?_
  rw [walk]
  refine .bind ?_ fun _ _ _ _ => .pure
  cases argument with
  | null => exact failsOnly_atom rfl
  | node le shape =>
    refine (ih rfl).returned (kind rfl) (grants.one rfl rfl) (grants.calls.mono fun u hu => ?_)
    rw [handedOn_node rfl]
    exact List.mem_append_left _ hu
  | _ => cases kind rfl

/-- A declaration is refused as its declarators are. -/
theorem variableDeclaration (kinds : ∀ d ∈ ds, d.hasKind .variableDeclarator = true)
    (ih : ∀ d ∈ ds, FailsWithin n C d) :
    FailsWithin n C (.node l (.variableDeclaration (.tuple ds) (.text Tree.varKind))) := by
  refine .statement rfl rfl fun grants => ?_
  obtain ⟨rowGrants, -⟩ := grants.two rfl rfl
  rw [walk, walkDeclarators]
  exact .bind (failsOnly_declarators kinds ih rowGrants.item) fun _ _ _ _ =>
    .bind .modifyStats fun _ _ _ _ => .pure

theorem forStatement (ih1 : init.isNull = false → FailsWithin n C init)
    (ih2 : test.isNull = false → FailsWithin n C test)
    (ih3 : step.isNull = false → FailsWithin n C step) (ih4 : FailsWithin n C body) :
    FailsWithin n C (.node l (.forStatement init test step body)) := by
  refine .statement rfl rfl fun grants => ?_
  obtain ⟨initGrants, testGrants, stepGrants, bodyGrants⟩ := grants.four rfl rfl
  rw [walk]
  exact .bind (failsOnly_optional fun some => (ih1 some).inside initGrants) fun _ _ _ _ =>
    .bind (failsOnly_optional fun some => (ih2 some).inside testGrants) fun _ _ _ _ =>
    .bind (failsOnly_optional fun some => (ih3 some).inside stepGrants) fun _ _ _ _ =>
    .bind (ih4.inside bodyGrants) fun _ _ _ _ => .pure

/-- A loop that declares its variable is refused if the name is reserved. -/
theorem forEachDeclared (name : IsName id) (ih1 : FailsWithin n C right)
    (ih2 : FailsWithin n C body) :
    FailsWithin n C (.node l (.forEach domain (.node ld (.variableDeclaration (.tuple [.node le
      (.variableDeclarator id .null)]) (.text Tree.varKind))) right body)) := by
  obtain @⟨li, x, spelled⟩ := name
  refine .statement (by cases domain <;> rfl) (by cases domain <;> rfl) fun grants => ?_
  obtain ⟨leftGrants, rightGrants, bodyGrants⟩ := grants.three rfl rfl
  obtain ⟨rowGrants, -⟩ := leftGrants.two rfl rfl
  -- The head is not walked: its name is taken out of the one declarator and declared.
  have names := (rowGrants.item _ (List.mem_singleton_self _)).nodes.self.names x
    (List.mem_singleton_self x)
  have declared {a : Scope} : FailsOnly a C (declareLoopVariable n (.node ld (.variableDeclaration
      (.tuple [.node le (.variableDeclarator (.node li (.identifier (.text x))) .null)])
      (.text varKind)))) := by
    rw [declareLoopVariable]
    refine .bind (.attempt rfl) fun id s s' found => ?_
    obtain ⟨same, -⟩ := walk_attempt.mp found
    cases same
    exact .bind (failsOnly_declareLocal names) fun _ _ _ _ => .bind .modifyStats fun _ _ _ _ => .pure
  rw [walk, if_pos hasKind_variableDeclaration]
  exact .bind declared fun _ _ _ _ => .bind (ih1.inside rightGrants) fun _ _ _ _ =>
    .bind (ih2.inside bodyGrants) fun _ _ _ _ => .pure

theorem forEach (target : left.isAssignable = true) (ih1 : FailsWithin n C left)
    (ih2 : FailsWithin n C right) (ih3 : FailsWithin n C body) :
    FailsWithin n C (.node l (.forEach domain left right body)) := by
  refine .statement (by cases domain <;> rfl) (by cases domain <;> rfl) fun grants => ?_
  obtain ⟨leftGrants, rightGrants, bodyGrants⟩ := grants.three rfl rfl
  rw [walk, if_neg (by simp [hasKind_of_isAssignable target])]
  exact .bind (ih1.inside leftGrants) fun _ _ _ _ => .bind (ih2.inside rightGrants) fun _ _ _ _ =>
    .bind (ih3.inside bodyGrants) fun _ _ _ _ => .pure

theorem whileStatement (ih1 : FailsWithin n C test) (ih2 : FailsWithin n C body) :
    FailsWithin n C (.node l (.whileStatement test body)) := by
  refine .statement rfl rfl fun grants => ?_
  obtain ⟨testGrants, bodyGrants⟩ := grants.two rfl rfl
  simp only [walk]
  exact .bind (ih1.inside testGrants) fun _ _ _ _ =>
    .bind (ih2.inside bodyGrants) fun _ _ _ _ => .pure

theorem doWhileStatement (ih1 : FailsWithin n C test) (ih2 : FailsWithin n C body) :
    FailsWithin n C (.node l (.doWhileStatement body test)) := by
  refine .statement rfl rfl fun grants => ?_
  obtain ⟨bodyGrants, testGrants⟩ := grants.two rfl rfl
  simp only [walk]
  exact .bind (ih2.inside bodyGrants) fun _ _ _ _ =>
    .bind (ih1.inside testGrants) fun _ _ _ _ => .pure

/-- A label is refused if it is reserved. -/
theorem labeled (spelled : isNameLine name = true) (ih : FailsWithin n C body) :
    FailsWithin n C (.node l (.labeled (.node ln (.identifier (.text name))) body)) := by
  refine .statement rfl rfl fun grants => ?_
  obtain ⟨-, bodyGrants⟩ := grants.two rfl rfl
  rw [walk]
  refine .bind (.lift fun e refused => ?_) fun _ _ _ _ => ?_
  · obtain ⟨reserved, rfl⟩ := declaredName_refused refused
    exact grants.nodes.self.names _ List.mem_cons_self reserved _
  · exact .bind (failsOnly_name (.mk _ spelled)) fun _ _ _ _ =>
      .bind (ih.inside bodyGrants) fun _ _ _ _ => .pure

/-- A call is refused as its parts are, or for the arguments it spreads where it is converted. -/
theorem call (ih : FailsWithin n C callee) (kinds : ∀ e ∈ args, e.isExpression = true)
    (parts : ∀ e ∈ args, WellFormed checked c e) (ihs : ∀ e ∈ args, FailsWithin n C e) :
    FailsWithin n C (.node l (.call callee (.tuple args))) := by
  exact {
    inside := fun grants => failsOnly_call ih kinds parts ihs grants fun h => (h rfl).elim
    returned := fun _ _ _ grants calls => failsOnly_call ih kinds parts ihs grants fun _ => calls
    branch := fun _ _ grants calls => failsOnly_call ih kinds parts ihs grants fun _ => calls
    declarator := fun h => by cases h }

/-- A conditional is refused as its parts are, also where its branches are returned. -/
theorem conditional (ih1 : FailsWithin n C test) (kind : consequent.isExpression = true)
    (part : WellFormed checked c consequent) (ih2 : FailsWithin n C consequent)
    (elseKind : alternate.isExpression = true) (elsePart : WellFormed checked c alternate)
    (ih3 : FailsWithin n C alternate) :
    FailsWithin n C (.node l (.conditional test consequent alternate)) := by
  -- As a value that is returned, both branches are in the place of returned values.
  have returned {a : Scope} {p : Position} {l l' : Option Location}
      (grants : Grants n C a (.node l (.conditional test consequent alternate))) (place :
        p.returnLocation? l = some l')
      (calls : GrantsCalls C a (tailCalls true consequent ++ tailCalls true alternate)) :
      FailsOnly a C (walk n p (.node l (.conditional test consequent alternate))) := by
    obtain ⟨testGrants, thenGrants, elseGrants⟩ := grants.three rfl rfl
    exact failsOnly_split place (ih1.inside testGrants) (checkBranch_ok part kind)
      (checkBranch_ok elsePart elseKind)
      (ih2.branch kind thenGrants (calls.mono (List.subset_append_left _ _)))
      (ih3.branch elseKind elseGrants (calls.mono (List.subset_append_right _ _)))
  -- Elsewhere it is an expression with three parts.
  exact {
    inside := by
      intro a grants
      obtain ⟨testGrants, thenGrants, elseGrants⟩ := grants.three rfl rfl
      rw [walk]
      exact .bind (ih1.inside testGrants) fun _ _ _ _ =>
        .bind (ih2.inside thenGrants) fun _ _ _ _ =>
        .bind (ih3.inside elseGrants) fun _ _ _ _ => .pure
    returned := fun _ _ _ grants calls => returned grants rfl (by simpa [tailCalls] using calls)
    branch := fun _ _ grants calls => returned grants rfl (by simpa [tailCalls] using calls)
    declarator := fun h => by cases h }

/-- A sequence is refused as its items are, also where the last of them is returned. -/
theorem sequence (some : es ≠ []) (kinds : ∀ e ∈ es, e.isExpression = true)
    (parts : ∀ e ∈ es, WellFormed checked c e) (ih : ∀ e ∈ es, FailsWithin n C e) :
    FailsWithin n C (.node l (.sequence (.tuple es))) := by
  have row {a : Scope} (grants : Grants n C a (.node l (.sequence (.tuple es)))) :
      FailsOnly a C (walk n .inside (.tuple es)) :=
    failsOnly_expressions kinds parts ih (grants.one rfl rfl).item
  exact {
    inside := fun grants => failsOnly_kept (fun h => by cases h) (row grants)
    returned := fun _ _ _ grants _ => failsOnly_kept (fun h => by cases h) (row grants)
    branch := fun _ _ grants calls =>
      failsOnly_sequence some kinds parts ih grants (by simpa [tailCalls] using calls)
    declarator := fun h => by cases h }

/-- A function, in whose body no refusal is granted that the function did not grant. -/
theorem function (named : form = .declaration → IsName id) (name : id.isNull = false → IsName id)
    (params : ∀ p ∈ ps, IsName p) (kinds : ∀ s ∈ ss, s.isStatement = true)
    (parts : ∀ s ∈ ss, WellFormed checked {} s) (ih : ∀ s ∈ ss, FailsWithin n C s) :
    FailsWithin n C (.node l (.function form id (.tuple ps) (.node lb (.block (.tuple ss))))) := by
  have every {a : Scope} (p : Position)
      (grants : Grants n C a (functionOf l form id ps lb ss)) :
      FailsOnly a C (walk n p (functionOf l form id ps lb ss)) :=
    failsOnly_function (.function (c := {}) named name params kinds parts) kinds parts ih grants
  exact {
    inside := every .inside
    returned := fun _ _ l grants _ => every (.returned l) grants
    branch := fun _ _ grants _ => every .branch grants
    declarator := fun h => by cases h }

/-- A program is refused as its statements are. -/
theorem program (kinds : ∀ s ∈ ss, s.isStatement = true) (parts : ∀ s ∈ ss, WellFormed checked c s)
    (ih : ∀ s ∈ ss, FailsWithin n C s) :
    FailsWithin n C (.node l (.program (.tuple ss))) := by
  refine .statement rfl rfl fun grants => ?_
  have follows : ∀ t ∈ ss, Follows n t := fun t ht => follows_of_wellFormed (parts t ht)
  obtain ⟨startsStrict, strict⟩ := exists_startsStrict ss
  -- A program has no name, so that no call in it is one of itself.
  have inner : ∀ t ∈ ss, Grants n C { startsStrict } t := by
    intro t ht
    refine ⟨((grants.one rfl rfl).item t ht).nodes, fun args hargs => ?_⟩
    obtain ⟨u, -, found⟩ := List.mem_filterMap.mp hargs
    cases (argumentsOf?_none u).symm.trans found
  have start : FailsOnly { startsStrict } C (walkStart n (.tuple ss)) :=
    failsOnly_start (fun t ht => (ih t ht).inside (inner t ht))
      fun t ht _ _ _ walked => opens_statement (parts t ht) (kinds t ht) walked
  rw [walk]
  refine .bind (.attempt strict) fun strict' s s' found => ?_
  obtain ⟨same, -⟩ := walk_attempt.mp found
  rw [strict] at same
  cases same
  refine .bind (.inScope start) fun r s s' ran => ?_
  obtain ⟨row, b⟩ := r
  obtain ⟨s1, walked, rfl, -⟩ := walk_inScope.mp ran
  obtain ⟨ss1, rfl, started⟩ := walkStart_sound kinds follows walked
  obtain ⟨ss', finished⟩ := exists_finishBody (b := s1.scope) started.plain
  exact .bind (.attempt finished) fun _ _ _ _ => .pure

end FailsWithin

/-- On a well-formed tree, a walk fails in ways that the tree grants. -/
theorem failsWithin {checked : Bool} {C : Refusal → Prop} {c : Targets} {t : Tree}
    (wf : WellFormed checked c t) : FailsWithin n C t := by
  -- The names of declarations and the calls that are returned are what can be refused. The other
  -- steps fail where their fields do.
  induction wf with
  | identifier spelled => exact .fieldwise rfl rfl fun _ => forall₁ (failsOnly_atom rfl)
  | literal plain => exact .fieldwise rfl rfl fun _ => forall₁ (failsOnly_atom plain)
  | array kinds parts ih =>
    refine .fieldwise rfl rfl fun grants => forall₁ ?_
    exact failsOnly_expressions kinds parts ih (grants.one rfl rfl).item
  | member kind part name ih =>
    refine .fieldwise rfl rfl fun grants => ?_
    obtain ⟨objectGrants, -, -⟩ := grants.three rfl rfl
    exact forall₃ (ih.inside objectGrants) (failsOnly_name name) (failsOnly_atom rfl)
  | computedMember kind part keyKind keyPart ih1 ih2 =>
    refine .fieldwise rfl rfl fun grants => ?_
    obtain ⟨objectGrants, keyGrants, -⟩ := grants.three rfl rfl
    exact forall₃ (ih1.inside objectGrants) (ih2.inside keyGrants) (failsOnly_atom rfl)
  | assignment known target leftPart kind part ih1 ih2
  | binary known leftKind leftPart kind part ih1 ih2
  | logical known leftKind leftPart kind part ih1 ih2 =>
    refine .fieldwise rfl rfl fun grants => ?_
    obtain ⟨-, leftGrants, rightGrants⟩ := grants.three rfl rfl
    exact forall₃ (failsOnly_atom rfl) (ih1.inside leftGrants) (ih2.inside rightGrants)
  | unary known kind part ih | update known target part ih =>
    refine .fieldwise rfl rfl fun grants => ?_
    obtain ⟨-, argumentGrants, -⟩ := grants.three rfl rfl
    exact forall₃ (failsOnly_atom rfl) (ih.inside argumentGrants) (failsOnly_atom rfl)
  | ifStatement _ _ _ _ _ _ ih1 ih2 ih3 => exact .ifStatement ih1 ih2 ih3
  | expressionStatement kind part ih =>
    refine .statement rfl rfl fun grants => failsOnly_fieldwise rfl (forall₁ ?_)
    exact ih.inside (grants.one rfl rfl)
  | emptyStatement => exact .statement rfl rfl fun grants =>
    failsOnly_fieldwise rfl (List.forall_mem_nil _)
  | @bareJump _ _ kind =>
    refine .statement ?_ ?_ fun grants => failsOnly_fieldwise rfl (forall₁ (failsOnly_atom rfl))
    all_goals cases kind <;> rfl
  | @jump _ _ kind _ _ spelled =>
    refine .statement ?_ ?_ fun grants =>
      failsOnly_fieldwise rfl (forall₁ (failsOnly_name (.mk _ spelled)))
    all_goals cases kind <;> rfl
  | variableDeclarator name _ _ ih => exact .variableDeclarator name ih
  | block kinds parts ih => exact .statement rfl rfl (failsOnly_block kinds parts ih)
  | returnStatement kind _ ih => exact .returnStatement kind ih
  | variableDeclaration _ kinds _ ih => exact .variableDeclaration kinds ih
  | forStatement _ _ _ _ _ _ _ _ ih1 ih2 ih3 ih4 => exact .forStatement ih1 ih2 ih3 ih4
  | forEachDeclared name _ _ _ _ ih1 ih2 => exact .forEachDeclared name ih1 ih2
  | forEach target _ _ _ _ _ ih1 ih2 ih3 => exact .forEach target ih1 ih2 ih3
  | whileStatement _ _ _ _ ih1 ih2 => exact .whileStatement ih1 ih2
  | doWhileStatement _ _ _ _ ih1 ih2 => exact .doWhileStatement ih1 ih2
  | labeled spelled _ _ _ ih => exact .labeled spelled ih
  | call _ _ kinds parts ih ihs => exact .call ih kinds parts ihs
  | conditional _ _ kind part elseKind elsePart ih1 ih2 ih3 =>
    exact .conditional ih1 kind part ih2 elseKind elsePart ih3
  | sequence some kinds parts ih => exact .sequence some kinds parts ih
  | function named name params kinds parts ih => exact .function named name params kinds parts ih
  | program kinds parts ih => exact .program kinds parts ih

end Elimination

end TailLoop
