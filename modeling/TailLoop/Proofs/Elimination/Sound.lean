import TailLoop.Proofs.Elimination.Walks

/-!
# Elimination follows the rules

`follows_of_wellFormed` derives the rules of `Walks.lean` from the function `walk`, for every
position at which a well-formed tree can stand. It goes by induction on the judgement that the tree
is well-formed: the walk of a node is read step by step as the walks of its fields. Except for
conditionals, calls and sequences, an expression is walked alike at all positions and then put back
into its `return` (`walk_restore`). A block that holds nothing but a block is unwrapped by `walk`;
this never shows in the rules, because a walked row of statements holds no block
(`unwrapBlock_tuple`).

`eliminates_of_ok` is the outcome for a whole tree.
-/

namespace TailLoop.Elimination

open Validity

attribute [local simp] walk walkShape walkItems walkEach walkStart walkBranchItems
  walkDeclaratorItems

variable {n : Naming}

/-- A call that is not converted is walked part by part, and put back where it stood. -/
theorem walk_call {p : Position} {s s' : State} {l : Option Location} {callee args t' : Tree}
    (h : s.scope.name.any (isIdentifier · callee) = false ∨ p.returnLocation? l = none) :
    walk n p (.node l (.call callee args)) s = .ok (t', s') ↔
      ∃ callee' s1 args', walk n .inside callee s = .ok (callee', s1) ∧
        walk n .inside args s1 = .ok (args', s') ∧
        t' = p.restore l (.node l (.call callee' args')) := by
  -- The call is not converted, so that it is walked by its fields.
  have split : ∀ r,
      walk n p (.node l (.call callee args)) s = .ok r ↔
        (walk n .inside callee >>= fun callee' => walk n .inside args >>= fun args' =>
          pure (p.restore l (.node l (.call callee' args')))) s = .ok r := by
    intro r
    rw [walk, walk_bind]
    simp only [walk_get]
    cases own : s.scope.name.any (isIdentifier · callee) <;>
      cases place : p.returnLocation? l <;> simp_all
  rw [split]
  simp only [walk_bind, walk_pure]
  grind

/-- A function is walked in the scope that its parameters start, and its body is finished there. -/
theorem walk_function {p : Position} {s s' : State} {l : Option Location} {form : FunctionForm}
    {id params body t' : Tree} :
    walk n p (.node l (.function form id params body)) s = .ok (t', s') ↔
      ∃ scope body' s1 ss1 ss', Scope.ofFunction n id params body = .ok scope ∧
        walk n .functionBody body ⟨scope, s.stats⟩ = .ok (body', s1) ∧
        (body'.field "body" >>= Tree.items) = .ok ss1 ∧ finishBody n s1.scope ss1 = .ok ss' ∧
        t' = p.restore l (.node l (.function form id params (body'.withBody (.tuple ss')))) ∧
        s' = ⟨s.scope, s1.stats.addFunction s1.scope⟩ := by
  simp only [walk, walk_bind, walk_lift, walk_attempt, Prod.exists, walk_inScope]
  -- The steps are taken apart in their order, up to the note of the function.
  constructor
  · rintro ⟨scope, _, ⟨hs, rfl⟩, body', inner, _, ⟨s1, hb, rfl, rfl⟩, ss1, _, ⟨hi, rfl⟩, ss', _,
      ⟨hf, rfl⟩, h⟩
    refine ⟨scope, body', s1, ss1, ss', hs, hb, hi, hf, ?_⟩
    split at h
    · rename_i tail
      simp only [walk_bind, walk_modifyStats, walk_pure] at h
      obtain ⟨_, _, rfl, rfl, rfl⟩ := h
      exact ⟨rfl, by simp [State.tally, Stats.addFunction, tail]⟩
    · rename_i tail
      obtain ⟨rfl, rfl⟩ := walk_pure.mp h
      exact ⟨rfl, by simp [Stats.addFunction, tail]⟩
  -- With the same steps the function is walked; it is noted only if it was converted.
  · rintro ⟨scope, body', s1, ss1, ss', hs, hb, hi, hf, rfl, rfl⟩
    refine ⟨scope, s, ⟨hs, rfl⟩, body', s1.scope, _, ⟨s1, hb, rfl, rfl⟩, ss1, _, ⟨hi, rfl⟩, ss', _,
      ⟨hf, rfl⟩, ?_⟩
    split
    · rename_i tail
      simp only [walk_bind, walk_modifyStats, walk_pure]
      exact ⟨(), _, rfl, trivial, by simp [State.tally, Stats.addFunction, tail]⟩
    · rename_i tail
      exact walk_pure.mpr ⟨rfl, by simp [Stats.addFunction, tail]⟩

/-- Whether a returned value, or a branch of one, is walked in a way of its own. -/
def Position.reshapes (p : Position) (s : Scope) (t : Tree) : Bool :=
  match p with
  | .inside => false
  | .returned _ => s.converts t
  | .branch => s.converts t || t.hasKind .sequenceExpression
  | .functionBody => true

/-- An expression that is not reshaped at its position is walked as inside something else, and put
back into its `return`. -/
theorem walk_restore {p : Position} {s : State} {l : Option Location} {shape : Shape Tree}
    (h : p.reshapes s.scope (.node l shape) = false)
    (he : (Tree.node l shape).isExpression = true) {t' : Tree} {s' : State} :
    walk n p (.node l shape) s = .ok (t', s') ↔
      ∃ u, walk n .inside (.node l shape) s = .ok (u, s') ∧ t' = p.restore l u := by
  -- Only conditionals, calls and sequences are walked differently as returned values.
  cases shape with
  | conditional test consequent alternate =>
    cases p with
    | inside => simp [Position.restore]
    | _ => cases h
  -- A call is converted only if it names the function and its value is returned.
  | call callee arguments =>
    have hp : s.scope.name.any (isIdentifier · callee) = false ∨ p.returnLocation? l = none := by
      cases p with
      | inside => exact .inr rfl
      | returned => exact .inl h
      | branch => exact .inl (Bool.or_eq_false_iff.mp h).1
      | functionBody => cases h
    rw [walk_call hp]
    constructor
    · rintro ⟨callee', s1, args', hc, ha, rfl⟩
      exact ⟨_, (walk_call (.inr rfl)).mpr ⟨callee', s1, args', hc, ha, rfl⟩, rfl⟩
    · rintro ⟨u, hu, rfl⟩
      obtain ⟨callee', s1, args', hc, ha, rfl⟩ := (walk_call (.inr rfl)).mp hu
      exact ⟨callee', s1, args', hc, ha, rfl⟩
  | sequence es =>
    cases p with
    | branch => simp [Position.reshapes, Tree.hasKind, Tree.kind?, Shape.kind] at h
    | functionBody => cases h
    | _ =>
      simp only [walk, walk_bind, walk_pure, Position.restore]
      grind
  | function form id params body =>
    simp only [walk_function, Position.restore]
    grind
  | identifier | literal | array | member | assignment | binary | logical | unary | update =>
    simp only [walk, walk_bind, walk_pure, Position.restore]
    grind
  | jump kind _ => cases kind <;> cases he
  | forEach domain _ _ _ => cases domain <;> cases he
  | _ => cases he

/-- Plain data is put back where it stood. -/
theorem walk_atom {p : Position} {t t' : Tree} {s s' : State} (h : t.isPlain = true) :
    walk n p t s = .ok (t', s') ↔ t' = p.restore none t ∧ s' = s := by
  cases t with
  | null | bool | int | num | text =>
    simp only [walk]
    exact walk_pure
  | _ => cases h

/-- A name is left alone. -/
theorem walk_identifier {l : Option Location} {name : Text} {t' : Tree} {s s' : State} :
    walk n .inside (.node l (.identifier (.text name))) s = .ok (t', s') ↔
      t' = .node l (.identifier (.text name)) ∧ s' = s := by
  simp only [walk, walkShape, walk_bind, walk_pure, Position.restore]
  grind

/-- A name may be declared if it is not reserved. -/
theorem declaredName_ok {l : Option Location} {name x : Text} :
    declaredName n (.node l (.identifier (.text name))) = .ok x ↔
      n.reserves name = false ∧ x = name := by
  have h : declaredName n (.node l (.identifier (.text name))) =
      (checkName n name l >>= fun _ => .ok name) := rfl
  rw [h, checkName]
  cases n.reserves name with
  | false => exact ⟨fun h => ⟨rfl, by cases h; rfl⟩, fun h => by rw [h.2]; rfl⟩
  | true => exact ⟨nofun, nofun⟩

/-- What is declared becomes a local of the scope. -/
theorem declareLocal_ok {l : Option Location} {name : Text} {s s' : State} {u : Unit} :
    declareLocal n (.node l (.identifier (.text name))) s = .ok (u, s') ↔
      n.reserves name = false ∧ s' = s.rescope (·.addLocal name) := by
  simp only [declareLocal, walk_bind, walk_lift, declaredName_ok, walk_modifyScope]
  grind

/-- What soundness says about a tree, at each position where it can stand. -/
structure Follows (n : Naming) (t : Tree) : Prop where
  expression : t.isExpression = true → ∀ {s t' s'}, walk n .inside t s = .ok (t', s') →
    Walks n s (.expression t t') s'
  returned : t.isExpression = true → ∀ {l s t' s'}, walk n (.returned l) t s = .ok (t', s') →
    Walks n s (.returned l t t') s'
  branch : t.isExpression = true → ∀ {s t' s'}, walk n .branch t s = .ok (t', s') →
    Walks n s (.branch t t') s'
  statement : t.isStatement = true → ∀ {s t' s'}, walk n .inside t s = .ok (t', s') →
    Walks n s (.statement t t') s'
  declarator : ∀ {l id init}, t = .node l (.variableDeclarator id init) →
    IsName id ∧ ∀ {s t' s'},
      (if init.isNull then pure .undefined else walk n .inside init : Walk Tree) s = .ok (t', s') →
      Walks n s (.initial init t') s'

/-- A node that is neither an expression nor a declarator follows the rules by its one walk as a
statement. -/
theorem follows_statement {t : Tree} (he : t.isExpression = false)
    (hd : t.hasKind .variableDeclarator = false)
    (h : ∀ {s t' s'}, walk n .inside t s = .ok (t', s') → Walks n s (.statement t t') s') :
    Follows n t where
  expression hk := by rw [he] at hk; cases hk
  returned hk := by rw [he] at hk; cases hk
  branch hk := by rw [he] at hk; cases hk
  statement _ := h
  declarator ht := by subst ht; cases hd

/-- An expression whose form is walked alike at all positions. -/
theorem follows_expression {l : Option Location} {shape : Shape Tree}
    (he : (Tree.node l shape).isExpression = true) (hs : (Tree.node l shape).isStatement = false)
    (kept : ∀ s : Scope, s.converts (.node l shape) = false)
    (single : (Tree.node l shape).hasKind .sequenceExpression = false)
    (h : ∀ {s t' s'}, walk n .inside (.node l shape) s = .ok (t', s') →
      Walks n s (.expression (.node l shape) t') s') :
    Follows n (.node l shape) where
  expression _ := h
  returned _ := by
    -- The value is returned as it is, since it is no call of the function.
    intro l' s t' s' hw
    obtain ⟨u, hu, rfl⟩ := (walk_restore (p := .returned l') (kept s.scope) he).mp hw
    exact .returnValue (kept _) (h hu)
  branch _ := by
    intro s t' s' hw
    have same : Position.branch.reshapes s.scope (.node l shape) = false :=
      Bool.or_eq_false_iff.mpr ⟨kept s.scope, single⟩
    obtain ⟨u, hu, rfl⟩ := (walk_restore same he).mp hw
    exact .branchValue single (.returnValue (kept _) (h hu))
  statement hk := by rw [hs] at hk; cases hk
  declarator ht := by cases ht; cases he

/-- Expressions walked one after the other. -/
theorem walkEach_sound {es es' : List Tree} {s s' : State} (kinds : ∀ e ∈ es, e.isExpression = true)
    (parts : ∀ e ∈ es, Follows n e) (h : walkEach n es s = .ok (es', s')) :
    Walks n s (.expressions es es') s' := by
  induction es generalizing s es' with
  | nil =>
    rw [walkEach, walk_pure] at h
    obtain ⟨rfl, rfl⟩ := h
    exact .noExpressions
  | cons e es ih =>
    simp only [walkEach, walk_bind, walk_pure] at h
    obtain ⟨e', s1, he, more, _, hm, rfl, rfl⟩ := h
    rw [List.forall_mem_cons] at kinds parts
    exact .moreExpressions (parts.1.expression kinds.1 he) (ih kinds.2 parts.2 hm)

/-- An expression is no block. -/
theorem hasKind_of_isExpression {t : Tree} (h : t.isExpression = true) :
    t.hasKind .blockStatement = false := by
  cases t with
  | node l shape =>
    cases shape with
    | block => cases h
    | function form => cases form <;> rfl
    | jump kind => cases kind <;> rfl
    | forEach domain => cases domain <;> rfl
    | _ => rfl
  | _ => cases h

/-- A row of expressions, in which nothing is spliced. -/
theorem walkItems_expressions {es es' : List Tree} {s s' : State}
    (kinds : ∀ e ∈ es, e.isExpression = true) (parts : ∀ e ∈ es, Follows n e)
    (h : walkItems n es s = .ok (es', s')) : Walks n s (.expressions es es') s' := by
  induction es generalizing s es' with
  | nil =>
    rw [walkItems, walk_pure] at h
    obtain ⟨rfl, rfl⟩ := h
    exact .noExpressions
  | cons e es ih =>
    simp only [walkItems, walk_bind, walk_pure, walk_attempt] at h
    obtain ⟨e', s1, he, first, _, ⟨hf, rfl⟩, more, _, hm, rfl, rfl⟩ := h
    rw [List.forall_mem_cons] at kinds parts
    have part := parts.1.expression kinds.1 he
    rw [spliced_of_hasKind (hasKind_of_isExpression part.flat)] at hf
    cases hf
    exact .moreExpressions part (ih kinds.2 parts.2 hm)

/-- A row of statements, in which blocks are spliced. -/
theorem walkItems_statements {ts ts' : List Tree} {s s' : State}
    (kinds : ∀ t ∈ ts, t.isStatement = true) (parts : ∀ t ∈ ts, Follows n t)
    (h : walkItems n ts s = .ok (ts', s')) : Walks n s (.statements ts ts') s' := by
  induction ts generalizing s ts' with
  | nil =>
    rw [walkItems, walk_pure] at h
    obtain ⟨rfl, rfl⟩ := h
    exact .noStatements
  | cons t ts ih =>
    simp only [walkItems, walk_bind, walk_pure, walk_attempt] at h
    obtain ⟨t', s1, ht, first, _, ⟨hf, rfl⟩, more, _, hm, rfl, rfl⟩ := h
    rw [List.forall_mem_cons] at kinds parts
    exact .moreStatements (parts.1.statement kinds.1 ht) hf (ih kinds.2 parts.2 hm)

/-- The start of a body, with a directive or without. -/
theorem walkStart_sound {ts : List Tree} {t' : Tree} {s s' : State}
    (kinds : ∀ t ∈ ts, t.isStatement = true) (parts : ∀ t ∈ ts, Follows n t)
    (h : walkStart n (.tuple ts) s = .ok (t', s')) :
    ∃ ts', t' = .tuple ts' ∧ Walks n s (.start ts ts') s' := by
  -- The first statement alone can be the directive.
  match ts with
  | [] =>
    rw [walkStart, walk_pure] at h
    obtain ⟨rfl, rfl⟩ := h
    exact ⟨[], rfl, .startPlain nofun .noStatements⟩
  | t :: ts =>
    rw [walkStart] at h
    rw [List.forall_mem_cons] at kinds parts
    split at h
    · rename_i strict
      simp only [walk_bind, walk_modifyScope, walk_pure] at h
      obtain ⟨_, _, rfl, ts', _, hi, rfl, rfl⟩ := h
      exact ⟨ts', rfl, .startStrict strict (walkItems_statements kinds.2 parts.2 hi)⟩
    · rename_i plain
      -- Otherwise it is walked like the others, and spliced.
      simp only [walk_bind, walk_attempt, walk_pure] at h
      obtain ⟨u, s1, ht, first, _, ⟨hf, rfl⟩, more, _, hm, rfl, rfl⟩ := h
      refine ⟨first ++ more, rfl, .startPlain ?_ ?_⟩
      · intro v hv
        cases hv
        simpa using plain
      · exact .moreStatements (parts.1.statement kinds.1 ht) hf
          (walkItems_statements kinds.2 parts.2 hm)

/-- The items of a sequence that is returned: all but the last become statements. -/
theorem walkBranchItems_sound {es ts : List Tree} {s s' : State} (some : es ≠ [])
    (kinds : ∀ e ∈ es, e.isExpression = true) (parts : ∀ e ∈ es, Follows n e)
    (h : walkBranchItems n es s = .ok (ts, s')) : Walks n s (.branchItems es ts) s' := by
  -- By induction on the list: only the last expression is walked as a returned value.
  induction es generalizing s ts with
  | nil => exact (some rfl).elim
  | cons e es ih =>
    rw [List.forall_mem_cons] at kinds parts
    cases es with
    | nil =>
      simp only [walkBranchItems, walk_bind, walk_attempt] at h
      obtain ⟨t', _, he, hs, rfl⟩ := h
      exact .branchLast (parts.1.returned kinds.1 he) hs
    | cons e2 es =>
      rw [walkBranchItems] at h
      · simp only [walk_bind, walk_pure] at h
        obtain ⟨e', s1, he, more, _, hm, rfl, rfl⟩ := h
        exact .branchMore nofun (parts.1.expression kinds.1 he) (ih nofun kinds.2 parts.2 hm)
      · nofun

/-- A declarator has a name and an initial value. -/
theorem eq_variableDeclarator {t : Tree} (h : t.hasKind .variableDeclarator = true) :
    ∃ l id init, t = .node l (.variableDeclarator id init) := by
  cases t with
  | node l shape =>
    cases shape with
    | variableDeclarator id init => exact ⟨l, id, init, rfl⟩
    | function form => cases form <;> cases h
    | jump kind => cases kind <;> cases h
    | forEach domain => cases domain <;> cases h
    | _ => cases h
  | _ => cases h

/-- A declaration is recognised by its kind. -/
theorem hasKind_variableDeclaration {l : Option Location} {ds kind : Tree} :
    (Tree.node l (.variableDeclaration ds kind)).hasKind .variableDeclaration = true := rfl

/-- A declaration has declarators and a kind. -/
theorem eq_variableDeclaration {t : Tree} (h : t.hasKind .variableDeclaration = true) :
    ∃ l ds kind, t = .node l (.variableDeclaration ds kind) := by
  cases t with
  | node l shape =>
    cases shape with
    | variableDeclaration ds kind => exact ⟨l, ds, kind, rfl⟩
    | function form => cases form <;> cases h
    | jump kind => cases kind <;> cases h
    | forEach domain => cases domain <;> cases h
    | _ => cases h
  | _ => cases h

/-- A step after a choice is a step after each of its ends. -/
theorem walk_ite_bind {c : Prop} [Decidable c] {α β : Type} {x y : Walk α} {f : α → Walk β} :
    (if c then x else y) >>= f = if c then x >>= f else y >>= f := by
  split <;> rfl

/-- Declarators in a row: each name is declared before its initial value is walked. -/
theorem walkDeclaratorItems_sound {ds es : List Tree} {s s' : State}
    (kinds : ∀ d ∈ ds, d.hasKind .variableDeclarator = true) (parts : ∀ d ∈ ds, Follows n d)
    (h : walkDeclaratorItems n ds s = .ok (es, s')) : Walks n s (.declarators ds es) s' := by
  induction ds generalizing s es with
  | nil =>
    rw [walkDeclaratorItems, walk_pure] at h
    obtain ⟨rfl, rfl⟩ := h
    exact .noDeclarators
  | cons d ds ih =>
    rw [List.forall_mem_cons] at kinds parts
    obtain ⟨l, id, init, rfl⟩ := eq_variableDeclarator kinds.1
    obtain ⟨⟨li, spelled⟩, initial⟩ := parts.1.declarator rfl
    rw [walkDeclaratorItems] at h
    simp only [walk_bind, declareLocal_ok] at h
    -- The initial value is optional; both forms are walked alike.
    obtain ⟨_, _, ⟨free, rfl⟩, h⟩ := h
    rw [← walk_ite_bind] at h
    simp only [walk_bind, walk_pure] at h
    obtain ⟨init', s1, hi, more, _, hm, rfl, rfl⟩ := h
    exact .moreDeclarators free (initial hi) (ih kinds.2 parts.2 hm)


/-- A row is walked item by item. -/
theorem walk_tuple {p : Position} {items : List Tree} {t' : Tree} {s s' : State} :
    walk n p (.tuple items) s = .ok (t', s') ↔
      ∃ items', walkItems n items s = .ok (items', s') ∧ t' = p.restore none (.tuple items') := by
  simp only [walk, walk_bind, walk_pure]
  grind

/-- A row of expressions, as a field that holds one is walked. -/
theorem walk_expressions {es : List Tree} {t' : Tree} {s s' : State}
    (kinds : ∀ e ∈ es, e.isExpression = true) (parts : ∀ e ∈ es, Follows n e)
    (h : walk n .inside (.tuple es) s = .ok (t', s')) :
    ∃ es', t' = .tuple es' ∧ Walks n s (.expressions es es') s' := by
  obtain ⟨es', hi, rfl⟩ := walk_tuple.mp h
  exact ⟨es', rfl, walkItems_expressions kinds parts hi⟩

/-- A field that may hold an expression. -/
theorem walk_optional {e t' : Tree} {s s' : State} (kind : e.isNull = false → e.isExpression = true)
    (part : e.isNull = false → Follows n e) (h : walk n .inside e s = .ok (t', s')) :
    Walks n s (.optional e t') s' := by
  cases hn : e.isNull with
  | true =>
    cases e <;> cases hn
    obtain ⟨rfl, rfl⟩ := (walk_atom rfl).mp h
    exact .absent
  | false => exact .present ((part hn).expression (kind hn) h)

/-- A field that may hold a statement. -/
theorem walk_optionalStatement {t t' : Tree} {s s' : State}
    (kind : t.isNull = false → t.isStatement = true) (part : t.isNull = false → Follows n t)
    (h : walk n .inside t s = .ok (t', s')) : Walks n s (.optionalStatement t t') s' := by
  cases hn : t.isNull with
  | true =>
    cases t <;> cases hn
    obtain ⟨rfl, rfl⟩ := (walk_atom rfl).mp h
    exact .noAlternate
  | false => exact .alternate ((part hn).statement (kind hn) h)

/-- The body of a function, where the start of the row is watched for a directive. -/
theorem walk_functionBody {lb : Option Location} {ss : List Tree} {t' : Tree} {s s' : State}
    (kinds : ∀ t ∈ ss, t.isStatement = true) (parts : ∀ t ∈ ss, Follows n t)
    (h : walk n .functionBody (.node lb (.block (.tuple ss))) s = .ok (t', s')) :
    ∃ ss', t' = .node lb (.block (.tuple ss')) ∧ Walks n s (.start ss ss') s' := by
  simp only [walk, Position.isBody, if_true, walk_bind, walk_attempt, walk_pure,
    Position.restore] at h
  obtain ⟨row, s1, hw, body, _, ⟨hu, rfl⟩, rfl, rfl⟩ := h
  obtain ⟨ss', rfl, hs⟩ := walkStart_sound kinds parts hw
  have flat : NoBlocks ss' := by
    cases hs with
    | startStrict _ parts => exact parts.flat
    | startPlain _ parts => exact parts.flat
  rw [unwrapBlock_tuple flat] at hu
  cases hu
  exact ⟨ss', rfl, hs⟩

/-- A whole function, from its scope to its finished body. -/
theorem walk_body {l : Option Location} {form : FunctionForm} {id : Tree} {ps : List Tree}
    {lb : Option Location} {ss : List Tree} {t' : Tree} {s s' : State}
    (kinds : ∀ t ∈ ss, t.isStatement = true) (parts : ∀ t ∈ ss, Follows n t)
    (h : walk n .inside (.node l (.function form id (.tuple ps) (.node lb (.block (.tuple ss))))) s =
      .ok (t', s')) :
    ∃ scope ss', Scope.ofFunction n id (.tuple ps) (.node lb (.block (.tuple ss))) = .ok scope ∧
      t' = .node l (.function form id (.tuple ps) (.node lb (.block (.tuple ss')))) ∧
      Walks n s (.body scope ss ss') s' := by
  obtain ⟨scope, body', s1, ss1, ss', hscope, hb, hi, hf, rfl, rfl⟩ := walk_function.mp h
  obtain ⟨ss2, rfl, hs⟩ := walk_functionBody kinds parts hb
  cases hi
  exact ⟨scope, ss', hscope, rfl, .body hs hf⟩

/-- Being the given name is being a name node with it. -/
theorem isIdentifier_iff {name : Text} {t : Tree} :
    isIdentifier name t = true ↔ ∃ l, t = .node l (.identifier (.text name)) := by
  constructor
  · intro h
    unfold isIdentifier Tree.identifierName? at h
    split at h
    · rename_i l x
      cases (by simpa using h : x = name)
      exact ⟨l, rfl⟩
    · cases h
  · rintro ⟨l, rfl⟩
    simp [isIdentifier, Tree.identifierName?]

/-- A call, which is converted where the function itself is called at a `return`. -/
theorem follows_call {l : Option Location} {callee : Tree} {args : List Tree}
    (kind : callee.isExpression = true) (part : Follows n callee)
    (kinds : ∀ e ∈ args, e.isExpression = true) (parts : ∀ e ∈ args, Follows n e) :
    Follows n (.node l (.call callee (.tuple args))) := by
  -- Inside of other expressions the call is not converted.
  have inside : ∀ {s t' s'}, walk n .inside (.node l (.call callee (.tuple args))) s = .ok (t', s') →
      Walks n s (.expression (.node l (.call callee (.tuple args))) t') s' := by
    intro s t' s' h
    obtain ⟨callee', s1, row, hc, ha, rfl⟩ := (walk_call (.inr rfl)).mp h
    obtain ⟨args', rfl, hargs⟩ := walk_expressions kinds parts ha
    exact .call (part.expression kind hc) hargs
  have returned : ∀ p l' {s t' s'}, p.returnLocation? l = some l' →
      walk n p (.node l (.call callee (.tuple args))) s = .ok (t', s') →
      (∀ u, p.restore l u = .node l' (.returnStatement u)) →
      Walks n s (.returned l' (.node l (.call callee (.tuple args))) t') s' := by
    intro p l' s t' s' place h back
    -- As a returned value it is converted if its callee is the name of the function.
    cases own : s.scope.name.any (isIdentifier · callee) with
    | false =>
      obtain ⟨callee', s1, row, hc, ha, rfl⟩ := (walk_call (.inl own)).mp h
      obtain ⟨args', rfl, hargs⟩ := walk_expressions kinds parts ha
      rw [back]
      exact .returnValue own (.call (part.expression kind hc) hargs)
    | true =>
      simp only [walk, walk_bind, walk_get] at h
      obtain ⟨_, _, ⟨rfl, rfl⟩, h⟩ := h
      simp only [own, place, walk_bind, walkArguments] at h
      obtain ⟨args', s1, ha, hc⟩ := h
      obtain ⟨name, hn, hid⟩ : ∃ name, _ = some name ∧ isIdentifier name callee = true := by
        simpa [Option.any_eq_true] using own
      obtain ⟨lf, rfl⟩ := isIdentifier_iff.mp hid
      exact .returnCall hn (walkEach_sound kinds parts ha) hc
  exact {
    expression := fun _ => inside
    returned := fun _ {l' s t' s'} h => returned (.returned l') l' rfl h fun _ => rfl
    branch := fun _ {s t' s'} h => .branchValue rfl (returned .branch l rfl h fun _ => rfl)
    statement := nofun
    declarator := nofun }

/-- A conditional, which becomes an `if` statement at a `return`. -/
theorem follows_conditional {l : Option Location} {test consequent alternate : Tree}
    (testKind : test.isExpression = true) (testPart : Follows n test)
    (kind : consequent.isExpression = true) (part : Follows n consequent)
    (elseKind : alternate.isExpression = true) (elsePart : Follows n alternate) :
    Follows n (.node l (.conditional test consequent alternate)) := by
  -- As a returned value the conditional becomes a statement with two branches.
  have returned : ∀ p l' {s t' s'}, p.returnLocation? l = some l' →
      walk n p (.node l (.conditional test consequent alternate)) s = .ok (t', s') →
      Walks n s (.returned l' (.node l (.conditional test consequent alternate)) t') s' := by
    intro p l' s t' s' place h
    simp only [walk, place, walk_bind, walk_modifyStats, walk_lift, walk_pure] at h
    obtain ⟨_, _, rfl, _, _, ⟨-, rfl⟩, _, _, ⟨-, rfl⟩, test', s1, ht, a, s2, ha, b, _, hb, rfl,
      rfl⟩ := h
    exact .returnConditional (testPart.expression testKind ht) (part.branch kind ha)
      (elsePart.branch elseKind hb)
  exact {
    expression := by
      intro _ s t' s' h
      simp only [walk, Position.returnLocation?, walk_bind, walk_pure] at h
      obtain ⟨test', s1, ht, a, s2, ha, b, _, hb, rfl, rfl⟩ := h
      exact .conditional (testPart.expression testKind ht) (part.expression kind ha)
        (elsePart.expression elseKind hb)
    returned := fun _ {l' s t' s'} h => returned (.returned l') l' rfl h
    branch := fun _ {s t' s'} h => .branchValue rfl (returned .branch l rfl h)
    statement := nofun
    declarator := nofun }

/-- A sequence, whose last item is what is returned at a `return`. -/
theorem follows_sequence {l : Option Location} {es : List Tree} (some : es ≠ [])
    (kinds : ∀ e ∈ es, e.isExpression = true) (parts : ∀ e ∈ es, Follows n e) :
    Follows n (.node l (.sequence (.tuple es))) := by
  -- Inside of other expressions the parts stay in a sequence.
  have inside : ∀ {s t' s'}, walk n .inside (.node l (.sequence (.tuple es))) s = .ok (t', s') →
      Walks n s (.expression (.node l (.sequence (.tuple es))) t') s' := by
    intro s t' s' h
    simp only [walk, walkShape, walk_bind, walk_pure, Position.restore] at h
    obtain ⟨_, _, ⟨row, _, ⟨es', _, hi, rfl, rfl⟩, rfl, rfl⟩, rfl, rfl⟩ := h
    exact .sequence (walkItems_expressions kinds parts hi)
  exact {
    expression := fun _ => inside
    returned := by
      intro _ l' s t' s' h
      obtain ⟨u, hu, rfl⟩ := (walk_restore rfl rfl).mp h
      exact .returnValue rfl (inside hu)
    branch := by
      intro _ s t' s' h
      -- As a branch they become the statements of a block.
      simp only [walk, walkBranch, walk_bind, walk_pure, walk_attempt] at h
      obtain ⟨ts, s1, hi, body, _, ⟨hu, rfl⟩, rfl, rfl⟩ := h
      have hs := walkBranchItems_sound some kinds parts hi
      rw [unwrapBlock_tuple hs.flat] at hu
      cases hu
      exact .branchSequence hs
    statement := nofun
    declarator := nofun }


/-- What can be assigned to is no declaration. -/
theorem hasKind_of_isAssignable {t : Tree} (h : t.isAssignable = true) :
    t.hasKind .variableDeclaration = false := by
  cases hk : t.hasKind .variableDeclaration with
  | false => rfl
  | true =>
    obtain ⟨l, ds, kind, rfl⟩ := eq_variableDeclaration hk
    cases h

/-- A name that is no expression of its own is left alone. -/
theorem walk_name {t t' : Tree} {s s' : State} (h : IsName t) :
    walk n .inside t s = .ok (t', s') ↔ t' = t ∧ s' = s := by
  obtain ⟨l, _⟩ := h
  exact walk_identifier

/-- The argument of a `return`, which may be missing. -/
theorem walk_returned {l : Option Location} {e t' : Tree} {s s' : State}
    (kind : e.isNull = false → e.isExpression = true) (part : e.isNull = false → Follows n e)
    (h : walk n (.returned l) e s = .ok (t', s')) : Walks n s (.returned l e t') s' := by
  cases hn : e.isNull with
  | true =>
    cases e <;> cases hn
    obtain ⟨rfl, rfl⟩ := (walk_atom rfl).mp h
    exact .returnNothing
  | false => exact (part hn).returned (kind hn) h

/-- A loop that starts with an expression keeps its start. -/
theorem loopStart_of_isExpression {e : Tree} (h : e.isExpression = true) : loopStart e = e := by
  cases e with
  | node l shape =>
    cases shape with
    | expressionStatement => cases h
    | _ => rfl
  | _ => rfl

/-- The start of a `for` loop: a declaration, an expression or nothing. -/
theorem walk_loopStart {init t' : Tree} {s s' : State}
    (kind : init.isNull = false →
      init.hasKind .variableDeclaration = true ∨ init.isExpression = true)
    (part : init.isNull = false → Follows n init) (h : walk n .inside init s = .ok (t', s')) :
    Walks n s (.loopStart init (loopStart t')) s' := by
  -- The start of the loop is absent, a declaration or an expression.
  cases hn : init.isNull with
  | true =>
    cases init <;> cases hn
    obtain ⟨rfl, rfl⟩ := (walk_atom rfl).mp h
    exact .noStart
  | false =>
    rcases kind hn with hk | hk
    · have hs : init.isStatement = true := by
        simp only [Tree.hasKind, beq_iff_eq] at hk
        simp [Tree.isStatement, hk, Kind.isStatement]
      obtain ⟨l, ds, k, rfl⟩ := eq_variableDeclaration hk
      -- Its declaration becomes an expression, which stands in the head of the loop.
      cases (part hn).statement hs h with
      | variableDeclaration parts => exact .startDeclaration parts
    · have he := (part hn).expression hk h
      rw [loopStart_of_isExpression he.flat]
      exact .startExpression he

-- There is one lemma for each kind of node whose walk goes through its parts.
namespace Follows

variable {l ld le lb ln : Option Location} {id init test step consequent alternate argument left right
    body e object property value : Tree} {ss ds ps es args : List Tree} {op name : Text}
  {domain : Domain} {form : FunctionForm} {kind : JumpKind} {isPrefix : Bool}

/-- A declarator: its name is declared, and its initial value walked if it has one. -/
theorem variableDeclarator (name : IsName id) (kind : init.isNull = false → init.isExpression = true)
    (ih : init.isNull = false → Follows n init) :
    Follows n (.node l (.variableDeclarator id init)) := by
  refine ⟨nofun, nofun, nofun, nofun, ?_⟩
  rintro _ _ _ ⟨⟩
  refine ⟨name, ?_⟩
  intro s t' s' h
  cases hn : init.isNull with
  | true =>
    rw [if_pos hn, walk_pure] at h
    obtain ⟨rfl, rfl⟩ := h
    cases init <;> cases hn
    exact .noInitial
  | false =>
    rw [if_neg (by simp [hn])] at h
    exact .initial ((ih hn).expression (kind hn) h)

theorem function (kinds : ∀ s ∈ ss, s.isStatement = true) (ih : ∀ s ∈ ss, Follows n s) :
    Follows n (.node l (.function form id (.tuple ps) (.node lb (.block (.tuple ss))))) := by
  cases form with
  | declaration =>
    refine follows_statement rfl rfl ?_
    intro s t' s' h
    obtain ⟨scope, ss', starts, rfl, inner⟩ := walk_body kinds ih h
    exact .functionDeclaration starts inner
  | expression =>
    refine follows_expression rfl rfl (fun _ => rfl) rfl ?_
    intro s t' s' h
    obtain ⟨scope, ss', starts, rfl, inner⟩ := walk_body kinds ih h
    exact .function starts inner

theorem block (kinds : ∀ s ∈ ss, s.isStatement = true) (ih : ∀ s ∈ ss, Follows n s) :
    Follows n (.node l (.block (.tuple ss))) := by
  refine follows_statement rfl rfl ?_
  intro s t' s' h
  simp only [walk, Position.isBody, Bool.false_eq_true, if_false, walk_bind, walk_attempt,
    walk_pure, Position.restore] at h
  obtain ⟨_, s1, ⟨ss', _, hi, rfl, rfl⟩, body, _, ⟨hu, rfl⟩, rfl, rfl⟩ := h
  have hs := walkItems_statements kinds ih hi
  rw [unwrapBlock_tuple hs.flat] at hu
  cases hu
  exact .block hs

theorem returnStatement (kind : argument.isNull = false → argument.isExpression = true)
    (ih : argument.isNull = false → Follows n argument) :
    Follows n (.node l (.returnStatement argument)) := by
  refine follows_statement rfl rfl ?_
  intro s t' s' h
  simp only [walk, walk_bind, walk_pure, Position.restore] at h
  obtain ⟨u, _, hw, rfl, rfl⟩ := h
  exact .returnStatement (walk_returned kind ih hw)

theorem variableDeclaration (kinds : ∀ d ∈ ds, d.hasKind .variableDeclarator = true)
    (ih : ∀ d ∈ ds, Follows n d) :
    Follows n (.node l (.variableDeclaration (.tuple ds) (.text Tree.varKind))) := by
  refine follows_statement rfl rfl ?_
  intro s t' s' h
  simp only [walk, walkDeclarators, walk_bind, walk_modifyStats, walk_pure, Position.restore] at h
  obtain ⟨es, s1, hd, _, _, rfl, rfl, rfl⟩ := h
  exact .variableDeclaration (walkDeclaratorItems_sound kinds ih hd)

theorem ifStatement (testKind : test.isExpression = true) (ihTest : Follows n test)
    (kind : consequent.isStatement = true) (ih : Follows n consequent)
    (elseKind : alternate.isNull = false → alternate.isStatement = true)
    (ihElse : alternate.isNull = false → Follows n alternate) :
    Follows n (.node l (.ifStatement test consequent alternate)) := by
  refine follows_statement rfl rfl ?_
  intro s t' s' h
  simp only [walk, walkShape, walk_bind, walk_pure, Position.restore] at h
  obtain ⟨_, _, ⟨test', s1, ht, a, s2, ha, b, _, hb, rfl, rfl⟩, rfl, rfl⟩ := h
  exact .ifStatement (ihTest.expression testKind ht) (ih.statement kind ha)
    (walk_optionalStatement elseKind ihElse hb)

theorem forStatement
    (initKind : init.isNull = false → init.hasKind .variableDeclaration =
    true ∨ init.isExpression = true)
    (ihInit : init.isNull = false → Follows n init)
    (testKind : test.isNull = false → test.isExpression = true)
    (ihTest : test.isNull = false → Follows n test)
    (stepKind : step.isNull = false → step.isExpression = true)
    (ihStep : step.isNull = false → Follows n step) (kind : body.isStatement = true)
    (ih : Follows n body) :
    Follows n (.node l (.forStatement init test step body)) := by
  refine follows_statement rfl rfl ?_
  intro s t' s' h
  simp only [walk, Position.isBody, Bool.false_eq_true, if_false, walk_bind, walk_pure,
    Position.restore] at h
  obtain ⟨init', s1, hi, test', s2, ht, step', s3, hs, body', _, hb, rfl, rfl⟩ := h
  exact .forStatement (walk_loopStart initKind ihInit hi) (walk_optional testKind ihTest ht)
    (walk_optional stepKind ihStep hs) (ih.statement kind hb)

theorem forEachDeclared (name : IsName id) (rightKind : right.isExpression = true)
    (ihRight : Follows n right) (kind : body.isStatement = true) (ih : Follows n body) :
    Follows n (.node l (.forEach domain (.node ld (.variableDeclaration (.tuple [.node le
      (.variableDeclarator id .null)]) (.text Tree.varKind))) right body)) := by
  obtain ⟨li, spelled⟩ := name
  refine follows_statement (by cases domain <;> rfl) (by cases domain <;> rfl) ?_
  intro s t' s' h
  rw [walk, if_pos hasKind_variableDeclaration] at h
  simp only [declareLoopVariable, Position.isBody, Bool.false_eq_true, if_false, walk_bind,
    walk_pure, walk_attempt, walk_modifyStats, Position.restore] at h
  obtain ⟨_, _, ⟨_, _, ⟨found, rfl⟩, _, _, hd, _, _, rfl, rfl, rfl⟩, right', s1, hr, body', _, hb,
    rfl, rfl⟩ := h
  cases found
  obtain ⟨free, rfl⟩ := declareLocal_ok.mp hd
  exact .forEachDeclared free (ihRight.expression rightKind hr) (ih.statement kind hb)

theorem forEach (target : left.isAssignable = true) (ihLeft : Follows n left)
    (rightKind : right.isExpression = true) (ihRight : Follows n right)
    (kind : body.isStatement = true)
    (ih : Follows n body) :
    Follows n (.node l (.forEach domain left right body)) := by
  refine follows_statement (by cases domain <;> rfl) (by cases domain <;> rfl) ?_
  intro s t' s' h
  rw [walk, if_neg (by simp [hasKind_of_isAssignable target])] at h
  simp only [Position.isBody, Bool.false_eq_true, if_false, walk_bind, walk_pure,
    Position.restore] at h
  obtain ⟨left', s1, hl, right', s2, hr, body', _, hb, rfl, rfl⟩ := h
  exact .forEach target (ihLeft.expression (isExpression_of_isAssignable target) hl)
    (ihRight.expression rightKind hr) (ih.statement kind hb)

theorem whileStatement (testKind : test.isExpression = true) (ihTest : Follows n test)
    (kind : body.isStatement = true) (ih : Follows n body) :
    Follows n (.node l (.whileStatement test body)) := by
  refine follows_statement rfl rfl ?_
  intro s t' s' h
  simp only [walk, Position.isBody, Bool.false_eq_true, if_false, walk_bind, walk_pure,
    Position.restore] at h
  obtain ⟨test', s1, ht, body', _, hb, rfl, rfl⟩ := h
  exact .whileStatement (ihTest.expression testKind ht) (ih.statement kind hb)

theorem doWhileStatement (testKind : test.isExpression = true) (ihTest : Follows n test)
    (kind : body.isStatement = true) (ih : Follows n body) :
    Follows n (.node l (.doWhileStatement body test)) := by
  refine follows_statement rfl rfl ?_
  intro s t' s' h
  simp only [walk, Position.isBody, Bool.false_eq_true, if_false, walk_bind, walk_pure,
    Position.restore] at h
  obtain ⟨body', s1, hb, test', _, ht, rfl, rfl⟩ := h
  exact .doWhileStatement (ih.statement kind hb) (ihTest.expression testKind ht)

theorem expressionStatement (kind : e.isExpression = true) (ih : Follows n e) :
    Follows n (.node l (.expressionStatement e)) := by
  refine follows_statement rfl rfl ?_
  intro s t' s' h
  simp only [walk, walkShape, walk_bind, walk_pure, Position.restore] at h
  obtain ⟨_, _, ⟨e', _, he, rfl, rfl⟩, rfl, rfl⟩ := h
  exact .expressionStatement (ih.expression kind he)

theorem emptyStatement : Follows n (.node l .emptyStatement) := by
  refine follows_statement rfl rfl ?_
  intro s t' s' h
  simp only [walk, walkShape, walk_bind, walk_pure, Position.restore] at h
  obtain ⟨_, _, ⟨rfl, rfl⟩, rfl, rfl⟩ := h
  exact .emptyStatement

theorem bareJump : Follows n (.node l (.jump kind .null)) := by
  refine follows_statement (by cases kind <;> rfl) (by cases kind <;> rfl) ?_
  intro s t' s' h
  simp only [walk, walkShape, walk_bind, walk_pure, Position.restore] at h
  obtain ⟨_, _, ⟨_, _, ⟨rfl, rfl⟩, rfl, rfl⟩, rfl, rfl⟩ := h
  exact .bareJump

theorem jump : Follows n (.node l (.jump kind (.node ln (.identifier (.text name))))) := by
  refine follows_statement (by cases kind <;> rfl) (by cases kind <;> rfl) ?_
  intro s t' s' h
  rw [walk] at h
  · simp only [walkShape, walk_bind, walk_pure, walk_identifier, Position.restore] at h
    obtain ⟨_, _, ⟨_, _, ⟨rfl, rfl⟩, rfl, rfl⟩, rfl, rfl⟩ := h
    exact .jump
  all_goals nofun

theorem labeled (kind : body.isStatement = true) (ih : Follows n body) :
    Follows n (.node l (.labeled (.node ln (.identifier (.text name))) body)) := by
  refine follows_statement rfl rfl ?_
  intro s t' s' h
  rw [walk] at h
  simp only [Position.isBody, Bool.false_eq_true, if_false, walk_bind, walk_pure, walk_lift,
    declaredName_ok, walk_identifier, Position.restore] at h
  obtain ⟨_, _, ⟨⟨free, -⟩, rfl⟩, _, _, ⟨rfl, rfl⟩, body', _, hb, rfl, rfl⟩ := h
  exact .labeled free (ih.statement kind hb)

theorem identifier : Follows n (.node l (.identifier (.text name))) := by
  refine follows_expression rfl rfl (fun _ => rfl) rfl ?_
  intro s t' s' h
  obtain ⟨rfl, rfl⟩ := walk_identifier.mp h
  exact .identifier

theorem literal (plain : value.isPlain = true) : Follows n (.node l (.literal value)) := by
  refine follows_expression rfl rfl (fun _ => rfl) rfl ?_
  intro s t' s' h
  simp only [walk, walkShape, walk_bind, walk_pure, walk_atom plain, Position.restore] at h
  obtain ⟨_, _, ⟨_, _, ⟨rfl, rfl⟩, rfl, rfl⟩, rfl, rfl⟩ := h
  exact .literal plain

theorem array (kinds : ∀ e ∈ es, e.isExpression = true) (ih : ∀ e ∈ es, Follows n e) :
    Follows n (.node l (.array (.tuple es))) := by
  refine follows_expression rfl rfl (fun _ => rfl) rfl ?_
  intro s t' s' h
  simp only [walk, walkShape, walk_bind, walk_pure, Position.restore] at h
  obtain ⟨_, _, ⟨_, _, ⟨es', _, hi, rfl, rfl⟩, rfl, rfl⟩, rfl, rfl⟩ := h
  exact .array (walkItems_expressions kinds ih hi)

theorem member (kind : object.isExpression = true) (ih : Follows n object) (name : IsName property) :
    Follows n (.node l (.member object property (.bool false))) := by
  refine follows_expression rfl rfl (fun _ => rfl) rfl ?_
  intro s t' s' h
  simp only [walk, walkShape, walk_bind, walk_pure, walk_name name, Position.restore] at h
  obtain ⟨_, _, ⟨object', s1, ho, _, _, ⟨rfl, rfl⟩, _, _, ⟨rfl, rfl⟩, rfl, rfl⟩, rfl, rfl⟩ := h
  exact .member (ih.expression kind ho) name

theorem computedMember (kind : object.isExpression = true) (ih : Follows n object)
    (keyKind : property.isExpression = true) (ihKey : Follows n property) :
    Follows n (.node l (.member object property (.bool true))) := by
  refine follows_expression rfl rfl (fun _ => rfl) rfl ?_
  intro s t' s' h
  simp only [walk, walkShape, walk_bind, walk_pure, Position.restore] at h
  obtain ⟨_, _, ⟨object', s1, ho, key', _, hk, _, _, ⟨rfl, rfl⟩, rfl, rfl⟩, rfl, rfl⟩ := h
  exact .computedMember (ih.expression kind ho) (ihKey.expression keyKind hk)

theorem assignment (target : left.isAssignable = true) (ihLeft : Follows n left)
    (kind : right.isExpression = true) (ih : Follows n right) :
    Follows n (.node l (.assignment (.text op) left right)) := by
  refine follows_expression rfl rfl (fun _ => rfl) rfl ?_
  intro s t' s' h
  simp only [walk, walkShape, walk_bind, walk_pure, Position.restore] at h
  obtain ⟨_, _, ⟨_, _, ⟨rfl, rfl⟩, left', s1, hl, right', _, hr, rfl, rfl⟩, rfl, rfl⟩ := h
  exact .assignment (ihLeft.expression (isExpression_of_isAssignable target) hl)
    (ih.expression kind hr)

theorem binary (leftKind : left.isExpression = true) (ihLeft : Follows n left)
    (kind : right.isExpression = true) (ih : Follows n right) :
    Follows n (.node l (.binary (.text op) left right)) := by
  refine follows_expression rfl rfl (fun _ => rfl) rfl ?_
  intro s t' s' h
  simp only [walk, walkShape, walk_bind, walk_pure, Position.restore] at h
  obtain ⟨_, _, ⟨_, _, ⟨rfl, rfl⟩, left', s1, hl, right', _, hr, rfl, rfl⟩, rfl, rfl⟩ := h
  exact .binary (ihLeft.expression leftKind hl) (ih.expression kind hr)

theorem logical (leftKind : left.isExpression = true) (ihLeft : Follows n left)
    (kind : right.isExpression = true) (ih : Follows n right) :
    Follows n (.node l (.logical (.text op) left right)) := by
  refine follows_expression rfl rfl (fun _ => rfl) rfl ?_
  intro s t' s' h
  simp only [walk, walkShape, walk_bind, walk_pure, Position.restore] at h
  obtain ⟨_, _, ⟨_, _, ⟨rfl, rfl⟩, left', s1, hl, right', _, hr, rfl, rfl⟩, rfl, rfl⟩ := h
  exact .logical (ihLeft.expression leftKind hl) (ih.expression kind hr)

theorem unary (kind : argument.isExpression = true) (ih : Follows n argument) :
    Follows n (.node l (.unary (.text op) argument (.bool isPrefix))) := by
  refine follows_expression rfl rfl (fun _ => rfl) rfl ?_
  intro s t' s' h
  simp only [walk, walkShape, walk_bind, walk_pure, Position.restore] at h
  obtain ⟨_, _, ⟨_, _, ⟨rfl, rfl⟩, argument', _, ha, _, _, ⟨rfl, rfl⟩, rfl, rfl⟩, rfl, rfl⟩ := h
  exact .unary (ih.expression kind ha)

theorem update (target : argument.isAssignable = true) (ih : Follows n argument) :
    Follows n (.node l (.update (.text op) argument (.bool isPrefix))) := by
  refine follows_expression rfl rfl (fun _ => rfl) rfl ?_
  intro s t' s' h
  simp only [walk, walkShape, walk_bind, walk_pure, Position.restore] at h
  obtain ⟨_, _, ⟨_, _, ⟨rfl, rfl⟩, argument', _, ha, _, _, ⟨rfl, rfl⟩, rfl, rfl⟩, rfl, rfl⟩ := h
  exact .update (ih.expression (isExpression_of_isAssignable target) ha)

end Follows

/-- The walk of a well-formed tree follows the rules. -/
theorem follows_of_wellFormed {checked : Bool} {c : Targets} {t : Tree}
    (h : WellFormed checked c t) : Follows n t := by
  -- By induction on the judgement, one form after the other.
  induction h with
  | program => exact ⟨nofun, nofun, nofun, nofun, nofun⟩
  | variableDeclarator name kind _ ih => exact .variableDeclarator name kind ih
  | function _ _ _ kinds _ ih => exact .function kinds ih
  | block kinds _ ih => exact .block kinds ih
  | returnStatement kind _ ih => exact .returnStatement kind ih
  | variableDeclaration _ kinds _ ih => exact .variableDeclaration kinds ih
  | ifStatement testKind _ kind _ elseKind _ ihTest ih ihElse =>
    exact .ifStatement testKind ihTest kind ih elseKind ihElse
  | forStatement initKind _ testKind _ stepKind _ kind _ ihInit ihTest ihStep ih =>
    exact .forStatement initKind ihInit testKind ihTest stepKind ihStep kind ih
  | forEachDeclared name rightKind _ kind _ ihRight ih =>
    exact .forEachDeclared name rightKind ihRight kind ih
  | forEach target _ rightKind _ kind _ ihLeft ihRight ih =>
    exact .forEach target ihLeft rightKind ihRight kind ih
  | whileStatement testKind _ kind _ ihTest ih => exact .whileStatement testKind ihTest kind ih
  | doWhileStatement testKind _ kind _ ihTest ih => exact .doWhileStatement testKind ihTest kind ih
  | expressionStatement kind _ ih => exact .expressionStatement kind ih
  | emptyStatement => exact .emptyStatement
  | bareJump _ => exact .bareJump
  | jump _ _ => exact .jump
  | labeled _ _ kind _ ih => exact .labeled kind ih
  | identifier _ => exact .identifier
  | literal plain => exact .literal plain
  | array kinds _ ih => exact .array kinds ih
  | call kind _ kinds _ ih ihs => exact follows_call kind ih kinds ihs
  | member kind _ name ih => exact .member kind ih name
  | computedMember kind _ keyKind _ ih ihKey => exact .computedMember kind ih keyKind ihKey
  | conditional testKind _ kind _ elseKind _ ihTest ih ihElse =>
    exact follows_conditional testKind ihTest kind ih elseKind ihElse
  | assignment _ target _ kind _ ihLeft ih => exact .assignment target ihLeft kind ih
  | sequence some kinds _ ih => exact follows_sequence some kinds ih
  | binary _ leftKind _ kind _ ihLeft ih => exact .binary leftKind ihLeft kind ih
  | logical _ leftKind _ kind _ ihLeft ih => exact .logical leftKind ihLeft kind ih
  | unary _ kind _ ih => exact .unary kind ih
  | update _ target _ ih => exact .update target ih

/-! ## The tree as a whole -/

/-- A whole program is walked in a scope of its own. -/
theorem run_ok {stats stats' : Stats} {t t' : Tree} :
    run n stats t = .ok (t', stats') ↔
      ∃ s', walk n .inside t { stats } = .ok (t', s') ∧ stats' = s'.stats := by
  unfold run
  cases walk n .inside t { stats } with
  | error e => exact ⟨nofun, nofun⟩
  | ok r =>
    obtain ⟨u, s'⟩ := r
    simp only [Except.map, Except.ok.injEq, Prod.mk.injEq]
    grind

/-- What elimination makes of a whole tree: an expression, a statement, a declarator or a
program. -/
inductive Eliminates (n : Naming) : Tree → Tree → Stats → Prop where
  | expression {t t' s'} (kind : t.isExpression = true)
      (part : Walks n {} (.expression t t') s') : Eliminates n t t' s'.stats
  | statement {t t' s'} (kind : t.isStatement = true) (part : Walks n {} (.statement t t') s') :
    Eliminates n t t' s'.stats
  | declarator {l id init init' s'} (part : Walks n {} (.optional init init') s') :
    Eliminates n (.node l (.variableDeclarator id init)) (.node l (.variableDeclarator id init'))
      s'.stats
  | program {l ss ss1 ss' startsStrict s'}
      (starts : Walks n { scope := { startsStrict } } (.start ss ss1) s')
      (finished : finishBody n s'.scope ss1 = .ok ss') :
    Eliminates n (.node l (.program (.tuple ss))) (.node l (.program (.tuple ss'))) s'.stats

/-- Elimination of a well-formed tree follows the rules. -/
theorem eliminates_of_ok {checked : Bool} {c : Targets} {t t' : Tree} {stats : Stats}
    (h : WellFormed checked c t) (hr : t.eliminateTailCalls n = .ok (t', stats)) :
    Eliminates n t t' stats := by
  obtain ⟨s', hw, rfl⟩ := run_ok.mp hr
  have follows : Follows n t := follows_of_wellFormed h
  -- Programs and declarators are walked by themselves; all other nodes as a statement or an
  -- expression.
  cases h with
  | @program _ l ss kinds parts =>
    simp only [walk, walk_bind, walk_attempt, walk_pure, Position.restore, Prod.exists,
      walk_inScope] at hw
    obtain ⟨strict, _, ⟨-, rfl⟩, row, inner, _, ⟨s1, hs, rfl, rfl⟩, ss', _, ⟨hf, rfl⟩, rfl, rfl⟩ := hw
    -- The statements follow the walk, so that their start does.
    have parts' : ∀ t ∈ ss, Follows n t := fun t ht => follows_of_wellFormed (parts t ht)
    obtain ⟨ss1, rfl, starts⟩ := walkStart_sound kinds parts' hs
    exact (Eliminates.program starts hf : Eliminates n _ _ s1.stats)
  | @variableDeclarator _ l id init name kind part =>
    simp only [walk, walkShape, walk_bind, walk_pure, walk_name name, Position.restore] at hw
    obtain ⟨_, _, ⟨_, _, ⟨rfl, rfl⟩, init', _, hi, rfl, rfl⟩, rfl, rfl⟩ := hw
    exact .declarator (walk_optional kind (fun hn => follows_of_wellFormed (part hn)) hi)
  | @function _ _ form =>
    cases form with
    | declaration => exact .statement rfl (follows.statement rfl hw)
    | expression => exact .expression rfl (follows.expression rfl hw)
  | @forEach _ _ domain => cases domain <;> exact .statement rfl (follows.statement rfl hw)
  | @forEachDeclared _ _ domain => cases domain <;> exact .statement rfl (follows.statement rfl hw)
  | @jump _ _ kind => cases kind <;> exact .statement rfl (follows.statement rfl hw)
  | @bareJump _ _ kind => cases kind <;> exact .statement rfl (follows.statement rfl hw)
  | block | returnStatement | variableDeclaration | ifStatement | forStatement | whileStatement
  | doWhileStatement | expressionStatement | emptyStatement | labeled =>
    exact .statement rfl (follows.statement rfl hw)
  | identifier | literal | array | call | member | computedMember | conditional | assignment
  | sequence | binary | logical | unary | update =>
    exact .expression rfl (follows.expression rfl hw)

end TailLoop.Elimination
