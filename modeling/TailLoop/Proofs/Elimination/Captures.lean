import TailLoop.Proofs.Elimination.Functions

/-!
# Jumps that generated loops take up

Elimination puts the body of a function into a loop, and the check looks at the result. A jump of the
function that had no target may have one afterwards: a bare `break` or `continue` outside of a loop,
or a jump to the label of generated loops. So the check accepts results of programs that it rejects
(`eliminateTailCalls_captures`).

This is the only way in which it does. `lands t c` is the part of the check that is about the jumps
of one function; a tree is well-formed with its jumps if it is so without them and the jumps of all
its functions land (`WellFormed.checked`). A walk keeps jumps and what they refer to, so that they
land in the original when they land in the result (`Walks.reflects`). What remains is the loop that
a finished body may have got around it (`lands_of_finishBody`).
-/

namespace TailLoop

namespace Validity

open Tree

/-! ## Where jumps land -/

/-- Whether a jump finds its target. -/
def Targets.takes (c : Targets) (kind : JumpKind) (label : Tree) : Bool :=
  if label.isNull then c.inLoop
  else (c.labels.lookup (labelName label)).any fun onLoop => decide (kind = .breaks) || onLoop

/-- The rules that tell whether jumps find their targets and labels are not declared inside of
themselves. Expressions and the functions in them have jumps of their own only. -/
def landingRules : Rules (Targets → Bool) where
  atom _ _ := true
  tuple parts c := parts.all (· c)
  list _ _ _ := true
  dict _ _ _ := true
  node t shape c :=
    match t, shape with
    | .node _ (.jump kind label), _ => c.takes kind label
    | .node _ (.labeled label inner), .labeled _ body =>
      (c.labels.lookup (labelName label)).isNone && body (c.labeled (labelName label) (isLoop inner))
    | _, .program body => body c
    | _, .block body => body c
    | _, .ifStatement _ consequent alternate => consequent c && alternate c
    | _, .forStatement _ _ _ body => body c.inBody
    | _, .forEach _ _ _ body => body c.inBody
    | _, .whileStatement _ body => body c.inBody
    | _, .doWhileStatement body _ => body c.inBody
    | _, _ => true

end Validity

/-- Whether the jumps of a tree outside of inner functions find their targets. -/
def Tree.lands (t : Tree) (c : Validity.Targets) : Bool := fold Validity.landingRules t c

/-- Whether the jumps of a function find their targets when its body starts with the given ones. -/
def Tree.bodyLands (c : Validity.Targets) : Tree → Bool
  | .node _ (.function _ _ _ body) => body.lands c
  | _ => true

/-- The kinds of nodes that are jumps or hold statements, functions aside. -/
def Kind.isFlow : Kind → Bool
  | .program | .blockStatement | .ifStatement | .forStatement | .forInStatement | .forOfStatement
  | .whileStatement | .doWhileStatement | .continueStatement | .breakStatement
  | .labeledStatement => true
  | _ => false

namespace Validity

open Tree

/-- The jumps of a tree find their targets. -/
def Lands (c : Targets) (t : Tree) : Prop := t.lands c = true

section Lands

variable {c : Targets} {l : Option Location}

/-- Jumps land in a node by the rule for it. -/
theorem lands_node (shape : Shape Tree) :
    Lands c (.node l shape) ↔
      landingRules.node (.node l shape) (shape.map (fold landingRules)) c = true := by
  rw [Lands, lands, fold_node]

/-- Jumps land in a row if they do in its items. -/
theorem lands_tuple {ts : List Tree} : Lands c (.tuple ts) ↔ ∀ t ∈ ts, Lands c t := by
  rw [Lands, lands, fold, foldItems_eq_map]
  change (ts.map (fold landingRules)).all (· c) = true ↔ _
  rw [List.all_map, List.all_eq_true]
  rfl

/-- There is no jump in nothing. -/
theorem lands_null : Lands c .null := rfl

/-- There is no jump in a node that holds no statement. -/
theorem lands_of_isFlow {shape : Shape Tree} (h : shape.kind.isFlow = false) :
    Lands c (.node l shape) := by
  rw [lands_node]
  cases shape with
  | jump kind => cases kind <;> cases h
  | forEach domain => cases domain <;> cases h
  | labeled | program | block | ifStatement | forStatement | whileStatement | doWhileStatement =>
    cases h
  | _ => rfl

/-- There is no jump in what is of kinds that hold no statements. -/
theorem lands_of_kind {t : Tree} {p : Kind → Bool} (h : t.kind?.any p = true)
    (apart : ∀ k, p k = true → k.isFlow = false) : Lands c t := by
  cases t with
  | node l shape => exact lands_of_isFlow (apart _ h)
  | _ => cases h

/-- There is no jump in an expression outside of its functions. -/
theorem lands_of_isExpression {e : Tree} (h : e.isExpression = true) : Lands c e :=
  lands_of_kind h fun k hk => by cases k <;> first | rfl | cases hk

/-- There is no jump in what is of one such kind. -/
theorem lands_of_hasKind {t : Tree} {k : Kind} (h : t.hasKind k = true) (apart : k.isFlow = false) :
    Lands c t := by
  have kind : t.kind? = some k := eq_of_beq h
  refine lands_of_kind (p := (· == k)) (by rw [kind]; exact beq_self_eq_true k) fun k' same => ?_
  rw [eq_of_beq same]
  exact apart

/-- A jump lands if it is taken. -/
theorem lands_jump {kind : JumpKind} {label : Tree} :
    Lands c (.node l (.jump kind label)) ↔ c.takes kind label = true := by
  rw [lands_node]
  rfl

/-- A label is new where it stands, and the jumps of its statement find it. -/
theorem lands_labeled {label body : Tree} : Lands c (.node l (.labeled label body)) ↔
    c.labels.lookup (labelName label) = none ∧
      Lands (c.labeled (labelName label) (isLoop body)) body := by
  rw [lands_node, ← Option.isNone_iff_eq_none]
  exact Bool.and_eq_true_iff

/-- Jumps land in a program if they do in its statements. -/
theorem lands_program {ts : List Tree} :
    Lands c (.node l (.program (.tuple ts))) ↔ ∀ t ∈ ts, Lands c t := by
  rw [lands_node, ← lands_tuple]
  rfl

/-- Jumps land in a block if they do in its statements. -/
theorem lands_block {ts : List Tree} :
    Lands c (.node l (.block (.tuple ts))) ↔ ∀ t ∈ ts, Lands c t := by
  rw [lands_node, ← lands_tuple]
  rfl

/-- Jumps land in both branches. -/
theorem lands_if {test consequent alternate : Tree} :
    Lands c (.node l (.ifStatement test consequent alternate)) ↔
      Lands c consequent ∧ Lands c alternate := by
  rw [lands_node]
  exact Bool.and_eq_true_iff

/-- Jumps land in the body of a `for` loop. -/
theorem lands_for {init test step body : Tree} :
    Lands c (.node l (.forStatement init test step body)) ↔ Lands c.inBody body := by
  rw [lands_node]
  rfl

/-- Jumps land in the body of a loop over a collection. -/
theorem lands_forEach {domain : Domain} {left right body : Tree} :
    Lands c (.node l (.forEach domain left right body)) ↔ Lands c.inBody body := by
  rw [lands_node]
  rfl

/-- Jumps land in the body of a `while` loop. -/
theorem lands_while {test body : Tree} :
    Lands c (.node l (.whileStatement test body)) ↔ Lands c.inBody body := by
  rw [lands_node]
  rfl

/-- Jumps land in the body of a `do` loop. -/
theorem lands_doWhile {test body : Tree} :
    Lands c (.node l (.doWhileStatement body test)) ↔ Lands c.inBody body := by
  rw [lands_node]
  rfl

/-- A bare jump is taken by any loop around it. -/
theorem takes_bare {kind : JumpKind} : c.takes kind .null = true ↔ c.inLoop = true := Iff.rfl

/-- A jump to a label is taken if the label is reached. -/
theorem takes_identifier {kind : JumpKind} {name : Text} :
    c.takes kind (.node l (.identifier (.text name))) = true ↔ c.Reaches kind name := by
  change ((c.labels.lookup name).any fun onLoop => decide (kind = .breaks) || onLoop) = true ↔ _
  unfold Targets.Reaches
  cases c.labels.lookup name with
  | none => simp
  | some onLoop => simp

end Lands

/-! ## The check -/

/-- Jumps land in a field that may be empty if they do in what it holds. -/
theorem lands_optional {c : Targets} {t : Tree} (h : t.isNull = false → Lands c t) : Lands c t := by
  cases t with
  | null => exact lands_null
  | _ => exact h rfl

/-- The jumps of a well-formed tree land. -/
theorem WellFormed.lands {c : Targets} {t : Tree} (wf : WellFormed true c t) : Lands c t := by
  induction wf with
  | program _ _ ih => exact lands_program.mpr ih
  | block _ _ ih => exact lands_block.mpr ih
  | ifStatement _ _ _ _ _ _ _ ih ihElse => exact lands_if.mpr ⟨ih, lands_optional ihElse⟩
  | forStatement _ _ _ _ _ _ _ _ _ _ _ ih => exact lands_for.mpr ih
  | forEachDeclared _ _ _ _ _ _ ih => exact lands_forEach.mpr ih
  | forEach _ _ _ _ _ _ _ _ ih => exact lands_forEach.mpr ih
  | whileStatement _ _ _ _ _ ih => exact lands_while.mpr ih
  | doWhileStatement _ _ _ _ _ ih => exact lands_doWhile.mpr ih
  | bareJump inLoop => exact lands_jump.mpr (takes_bare.mpr (inLoop rfl))
  | jump _ reaches => exact lands_jump.mpr (takes_identifier.mpr (reaches rfl))
  | labeled _ fresh _ _ ih => exact lands_labeled.mpr ⟨fresh rfl, ih⟩
  | @function _ _ form => cases form <;> exact lands_of_isFlow rfl
  | _ => exact lands_of_isFlow rfl

/-- So do the jumps of the functions in it. -/
theorem WellFormed.bodyLands {c : Targets} {t : Tree} (wf : WellFormed true c t) :
    ∀ f ∈ t.scopes, f.bodyLands {} = true := by
  intro f hf
  obtain ⟨c', inner⟩ := wf.scopes f hf
  cases inner with
  | function _ _ _ kinds parts => exact lands_block.mpr fun s hs => (parts s hs).lands
  | _ => rfl

/-- The jumps of all functions in a tree land. -/
def AllLand (t : Tree) : Prop := ∀ f ∈ t.scopes, f.bodyLands {} = true

/-- If the jumps of all functions in a row land, they do in each of its items. -/
theorem AllLand.item {ts : List Tree} (h : AllLand (.tuple ts)) : ∀ t ∈ ts, AllLand t := by
  intro t ht f hf
  apply h
  rw [scopes_tuple]
  exact List.mem_flatMap.mpr ⟨t, ht, hf⟩

/-- If the jumps of all functions in a node that is none land, they do in each of its parts. -/
theorem AllLand.part {l : Option Location} {shape : Shape Tree} (h : AllLand (.node l shape))
    (inert : shape.isInert = true) : ∀ t ∈ shape.parts, AllLand t := by
  intro t ht f hf
  apply h
  rw [scopes_inert inert]
  exact List.mem_flatMap.mpr ⟨t, ht, hf⟩

/-- The functions in the statements of a function land. -/
theorem AllLand.statement {l lb : Option Location} {form : FunctionForm} {id params : Tree}
    {ss : List Tree}
    (h : AllLand (.node l (.function form id params (.node lb (.block (.tuple ss)))))) :
    Lands {} (.node lb (.block (.tuple ss))) ∧ ∀ s ∈ ss, AllLand s := by
  rw [AllLand, scopes_function, List.forall_mem_cons] at h
  exact ⟨h.1, fun s hs f hf => h.2 f (List.mem_flatMap.mpr ⟨s, hs, hf⟩)⟩

/-- A tree that is well-formed apart from its jumps is well-formed if all its jumps land. -/
theorem WellFormed.checked {c : Targets} {t : Tree} (wf : WellFormed false c t)
    (lands : Lands c t) (all : AllLand t) : WellFormed true c t := by
  -- By induction on the judgement: expressions hold no jumps, and each statement hands its targets
  -- to its parts.
  induction wf with
  | program kinds _ ih =>
    rw [lands_program] at lands
    rw [AllLand, scopes_program, List.forall_mem_cons] at all
    exact .program kinds fun s hs => ih s hs (lands s hs)
      fun f hf => all.2 f (List.mem_flatMap.mpr ⟨s, hs, hf⟩)
  -- A function starts anew: its body has to land by itself.
  | function named name params kinds _ ih =>
    obtain ⟨own, inner⟩ := all.statement
    exact .function named name params kinds fun s hs => ih s hs (lands_block.mp own s hs) (inner s hs)
  | block kinds _ ih =>
    have inner := (all.part rfl _ (.head _)).item
    exact .block kinds fun s hs => ih s hs (lands_block.mp lands s hs) (inner s hs)
  | returnStatement kind _ ih =>
    have inner := all.part rfl _ (.head _)
    exact .returnStatement kind fun hn => ih hn (lands_of_isExpression (kind hn)) inner
  | variableDeclaration some kinds _ ih =>
    have inner := (all.part rfl _ (.head _)).item
    exact .variableDeclaration some kinds fun d hd => ih d hd (lands_of_hasKind (kinds d hd) rfl)
      (inner d hd)
  | variableDeclarator name kind _ ih =>
    rw [AllLand, scopes_declarator, List.forall_mem_append] at all
    exact .variableDeclarator name kind fun hn => ih hn (lands_of_isExpression (kind hn)) all.2
  | ifStatement testKind _ kind _ elseKind _ ihTest ih ihElse =>
    have parts := all.part rfl
    obtain ⟨a, b⟩ := lands_if.mp lands
    exact .ifStatement testKind (ihTest (lands_of_isExpression testKind) (parts _ (.head _))) kind
      (ih a (parts _ (.tail _ (.head _)))) elseKind
      fun hn => ihElse hn b (parts _ (.tail _ (.tail _ (.head _))))
  | forStatement initKind _ testKind _ stepKind _ kind _ ihInit ihTest ihStep ih =>
    have parts := all.part rfl
    exact .forStatement initKind
      (fun hn => ihInit hn ((initKind hn).elim (lands_of_hasKind · rfl) lands_of_isExpression)
        (parts _ (.head _))) testKind
      (fun hn => ihTest hn (lands_of_isExpression (testKind hn)) (parts _ (.tail _ (.head _))))
      stepKind
      (fun hn => ihStep hn (lands_of_isExpression (stepKind hn))
        (parts _ (.tail _ (.tail _ (.head _))))) kind
      (ih (lands_for.mp lands) (parts _ (.tail _ (.tail _ (.tail _ (.head _))))))
  | forEachDeclared name rightKind _ kind _ ihRight ih =>
    have parts := all.part rfl
    exact .forEachDeclared name rightKind
      (ihRight (lands_of_isExpression rightKind) (parts _ (.tail _ (.head _)))) kind
      (ih (lands_forEach.mp lands) (parts _ (.tail _ (.tail _ (.head _)))))
  | forEach target _ rightKind _ kind _ ihLeft ihRight ih =>
    have parts := all.part rfl
    have leftKind := isExpression_of_isAssignable target
    exact .forEach target (ihLeft (lands_of_isExpression leftKind) (parts _ (.head _))) rightKind
      (ihRight (lands_of_isExpression rightKind) (parts _ (.tail _ (.head _)))) kind
      (ih (lands_forEach.mp lands) (parts _ (.tail _ (.tail _ (.head _)))))
  | whileStatement testKind _ kind _ ihTest ih =>
    have parts := all.part rfl
    exact .whileStatement testKind (ihTest (lands_of_isExpression testKind) (parts _ (.head _))) kind
      (ih (lands_while.mp lands) (parts _ (.tail _ (.head _))))
  | doWhileStatement testKind _ kind _ ihTest ih =>
    have parts := all.part rfl
    exact .doWhileStatement testKind
      (ihTest (lands_of_isExpression testKind) (parts _ (.tail _ (.head _)))) kind
      (ih (lands_doWhile.mp lands) (parts _ (.head _)))
  | expressionStatement kind _ ih =>
    -- Only here does the judgement ask where the jump goes.
    exact .expressionStatement kind (ih (lands_of_isExpression kind) (all.part rfl _ (.head _)))
  | emptyStatement => exact .emptyStatement
  | bareJump => exact .bareJump fun _ => takes_bare.mp (lands_jump.mp lands)
  | jump spelled => exact .jump spelled fun _ => takes_identifier.mp (lands_jump.mp lands)
  -- The label has to be fresh among the targets around it.
  | labeled spelled _ kind _ ih =>
    obtain ⟨fresh, inner⟩ := lands_labeled.mp lands
    exact .labeled spelled (fun _ => fresh) kind (ih inner (all.part rfl _ (.tail _ (.head _))))
  | identifier spelled => exact .identifier spelled
  | literal plain => exact .literal plain
  | array kinds _ ih =>
    have inner := (all.part rfl _ (.head _)).item
    exact .array kinds fun e he => ih e he (lands_of_isExpression (kinds e he)) (inner e he)
  | call kind _ kinds _ ih ihs =>
    have inner := (all.part rfl _ (.tail _ (.head _))).item
    exact .call kind (ih (lands_of_isExpression kind) (all.part rfl _ (.head _))) kinds
      fun e he => ihs e he (lands_of_isExpression (kinds e he)) (inner e he)
  | member kind _ name ih =>
    exact .member kind (ih (lands_of_isExpression kind) (all.part rfl _ (.head _))) name
  | computedMember kind _ keyKind _ ih ihKey =>
    have parts := all.part rfl
    exact .computedMember kind (ih (lands_of_isExpression kind) (parts _ (.head _))) keyKind
      (ihKey (lands_of_isExpression keyKind) (parts _ (.tail _ (.head _))))
  | conditional testKind _ kind _ elseKind _ ihTest ih ihElse =>
    have parts := all.part rfl
    exact .conditional testKind (ihTest (lands_of_isExpression testKind) (parts _ (.head _))) kind
      (ih (lands_of_isExpression kind) (parts _ (.tail _ (.head _)))) elseKind
      (ihElse (lands_of_isExpression elseKind) (parts _ (.tail _ (.tail _ (.head _)))))
  | assignment known target _ kind _ ihLeft ih =>
    have parts := all.part rfl
    have leftKind := isExpression_of_isAssignable target
    exact .assignment known target
      (ihLeft (lands_of_isExpression leftKind) (parts _ (.tail _ (.head _)))) kind
      (ih (lands_of_isExpression kind) (parts _ (.tail _ (.tail _ (.head _)))))
  | sequence some kinds _ ih =>
    have inner := (all.part rfl _ (.head _)).item
    exact .sequence some kinds fun e he => ih e he (lands_of_isExpression (kinds e he)) (inner e he)
  | binary known leftKind _ kind _ ihLeft ih =>
    have parts := all.part rfl
    exact .binary known leftKind
      (ihLeft (lands_of_isExpression leftKind) (parts _ (.tail _ (.head _)))) kind
      (ih (lands_of_isExpression kind) (parts _ (.tail _ (.tail _ (.head _)))))
  | logical known leftKind _ kind _ ihLeft ih =>
    have parts := all.part rfl
    exact .logical known leftKind
      (ihLeft (lands_of_isExpression leftKind) (parts _ (.tail _ (.head _)))) kind
      (ih (lands_of_isExpression kind) (parts _ (.tail _ (.tail _ (.head _)))))
  | unary known kind _ ih =>
    exact .unary known kind
      (ih (lands_of_isExpression kind) (all.part rfl _ (.tail _ (.head _))))
  | update known target _ ih =>
    have kind := isExpression_of_isAssignable target
    exact .update known target
      (ih (lands_of_isExpression kind) (all.part rfl _ (.tail _ (.head _))))

end Validity

namespace Elimination

open Tree Validity

variable {n : Naming}

/-! ## Walked pieces -/

/-- The jumps of the original land where those of the result do. -/
def Edit.Reflects : Edit → Prop
  | .statement t t' => isLoop t' = isLoop t ∧ ∀ c, Lands c t' → Lands c t
  | .optionalStatement t t' => ∀ c, Lands c t' → Lands c t
  | .statements ts ts' | .start ts ts' => ∀ c, (∀ t ∈ ts', Lands c t) → ∀ t ∈ ts, Lands c t
  | _ => True

/-- A statement lands where the statements that take its place in a row do. -/
theorem lands_of_spliced {c : Targets} {t : Tree} {ts : List Tree}
    (rows : ∀ l body, t = .node l (.block body) → ∃ ss, body = .tuple ss)
    (spliced : t.spliced = .ok ts) (h : ∀ u ∈ ts, Lands c u) : Lands c t := by
  cases block : t.hasKind .blockStatement with
  | false =>
    rw [spliced_of_hasKind block] at spliced
    cases spliced
    exact h t (List.mem_singleton_self t)
  | true =>
    obtain ⟨l, body, rfl⟩ := eq_block block
    obtain ⟨ss, rfl⟩ := rows l body rfl
    cases spliced
    exact lands_block.mpr h

/-- A walk keeps jumps, loops and labels: what it turns into something else holds none of them. -/
theorem Walks.reflects {s s' : State} {edit : Edit} (h : Walks n s edit s') : edit.Reflects := by
  -- By induction on the walk, from the rewritten statement back to the original: targets only grow
  -- by the loop.
  induction h with
  | functionDeclaration | variableDeclaration | expressionStatement =>
    exact ⟨rfl, fun c _ => lands_of_isFlow rfl⟩
  | returnStatement part => exact ⟨isLoop_of_returned part, fun c _ => lands_of_isFlow rfl⟩
  | emptyStatement | bareJump | jump => exact ⟨rfl, fun c h => h⟩
  | block _ ih => exact ⟨rfl, fun c h => lands_block.mpr (ih c (lands_block.mp h))⟩
  | ifStatement _ _ _ _ ih ihElse =>
    refine ⟨rfl, fun c h => ?_⟩
    obtain ⟨a, b⟩ := lands_if.mp h
    exact lands_if.mpr ⟨ih.2 c a, ihElse c b⟩
  | forStatement _ _ _ _ _ _ _ ih =>
    exact ⟨rfl, fun c h => lands_for.mpr (ih.2 _ (lands_for.mp h))⟩
  | @forEachDeclared _ _ _ _ domain _ _ _ _ _ _ _ _ _ _ _ _ ih =>
    exact ⟨by cases domain <;> rfl, fun c h => lands_forEach.mpr (ih.2 _ (lands_forEach.mp h))⟩
  | @forEach _ _ _ _ _ domain _ _ _ _ _ _ _ _ _ _ _ _ ih =>
    exact ⟨by cases domain <;> rfl, fun c h => lands_forEach.mpr (ih.2 _ (lands_forEach.mp h))⟩
  | whileStatement _ _ _ ih => exact ⟨rfl, fun c h => lands_while.mpr (ih.2 _ (lands_while.mp h))⟩
  | doWhileStatement _ _ ih _ =>
    exact ⟨rfl, fun c h => lands_doWhile.mpr (ih.2 _ (lands_doWhile.mp h))⟩
  -- A labelled loop stays a loop, so that `continue` finds its label as before.
  | labeled _ _ ih =>
    refine ⟨rfl, fun c h => ?_⟩
    obtain ⟨fresh, inner⟩ := lands_labeled.mp h
    rw [ih.1] at inner
    exact lands_labeled.mpr ⟨fresh, ih.2 _ inner⟩
  | noAlternate => exact fun c h => h
  | alternate _ ih => exact ih.2
  | noStatements => exact fun _ _ => nofun
  -- What is spliced lands wherever its block does.
  | moreStatements part spliced _ ih ihs =>
    intro c h
    rw [List.forall_mem_append] at h
    have first := ih.2 c (lands_of_spliced (row_of_statement part) spliced h.1)
    exact List.forall_mem_cons.mpr ⟨first, ihs c h.2⟩
  -- The directive is put aside, and as an expression statement it holds no jumps.
  | startStrict strict _ ih =>
    intro c h
    obtain ⟨l, le, rfl⟩ := eq_strictDirective strict
    exact List.forall_mem_cons.mpr ⟨lands_of_isFlow rfl, ih c h⟩
  | startPlain _ _ ih => exact ih
  | _ => trivial

/-! ## Finished bodies -/

/-- What jumps of a body can refer to when it is in its loop. -/
def loopTargets (n : Naming) : Targets := ⟨[(n.loop, true)], true⟩

/-- Whether a statement carries a label. -/
def isLabeledBy (name : Text) : Tree → Bool
  | .node _ (.labeled label _) => isIdentifier name label
  | _ => false

/-- Whether the body of a function ends with a loop that has the label of generated ones. -/
def endsInLoop (n : Naming) : Tree → Bool
  | .node _ (.function _ _ _ (.node _ (.block (.tuple ss)))) =>
    ss.getLast?.any (isLabeledBy n.loop)
  | _ => false

/-- The resets that are dropped hold no jump. -/
theorem lands_of_dropResets {c : Targets} {locals : List Text} {ts rest : List Tree}
    (dropped : dropResets locals ts = .ok rest) (h : ∀ t ∈ rest, Lands c t) :
    ∀ t ∈ ts, Lands c t := by
  induction ts with
  | nil => exact nofun
  | cons t ts ih =>
    rw [dropResets] at dropped
    obtain ⟨reset, first, more⟩ := bind_ok.mp dropped
    cases reset with
    | false =>
      cases more
      exact h
    | true =>
      refine List.forall_mem_cons.mpr ⟨?_, ih more⟩
      -- Whatever is dropped is an expression statement or a list of assignments.
      unfold isResetStatement at first
      split at first
      · exact lands_of_isFlow rfl
      · exact lands_of_isFlow rfl
      · cases first

/-- The `return` that is added at the end adds no place to land in. -/
theorem lands_of_endWithReturn {c : Targets} {ts : List Tree}
    (h : ∀ t ∈ endWithReturn ts, Lands c t) : ∀ t ∈ ts, Lands c t := by
  unfold endWithReturn at h
  split at h
  · exact h
  · exact (List.forall_mem_append.mp h).1

/-- The statements of a body land when those of the finished body do, where the loop around them
counts if there is one. -/
theorem lands_of_finishBody {s : Scope} {ts ts' : List Tree} (finished : finishBody n s ts = .ok ts')
    (h : ∀ t ∈ ts', Lands {} t) :
    s.isTailRecursive = false ∧ (∀ t ∈ ts, Lands {} t) ∨
      s.isTailRecursive = true ∧ ts'.getLast?.any (isLabeledBy n.loop) = true ∧
        ∀ t ∈ ts, Lands (loopTargets n) t := by
  cases tail : s.isTailRecursive with
  | false =>
    obtain ⟨rest, dropped, rfl⟩ := (finishBody_plain tail).mp finished
    exact .inl ⟨rfl, lands_of_dropResets dropped (List.forall_mem_append.mp h).2⟩
  | true =>
    rw [finishBody_loop tail] at finished
    cases finished
    refine .inr ⟨rfl, ?_, ?_⟩
    · rw [← List.append_assoc, List.getLast?_concat]
      -- The generated loop is the last statement, and the body stands inside it.
      exact beq_self_eq_true _
    · have loop := h (loopAround n s.locals ts) (by simp)
      have body := lands_block.mp (lands_while.mp (lands_labeled.mp loop).2)
      exact (List.forall_mem_append.mp (lands_of_endWithReturn body)).2

/-- The jumps of a function land if those of what takes its place do, or they land in the loop that
took its place. -/
def KeepsJumps (n : Naming) (f f' : Tree) : Prop :=
  f'.bodyLands {} = true →
    f.bodyLands {} = true ∨ endsInLoop n f' = true ∧ f.bodyLands (loopTargets n) = true

/-- The jumps of each function land before, or in the loop that it became. -/
theorem keepsJumps : FollowsFromWalks n (KeepsJumps n) := by
  rintro l form id ps lb ss ss' scope - ⟨starts, -, finished⟩ lands
  rcases lands_of_finishBody finished (lands_block.mp lands) with ⟨-, outside⟩ | ⟨-, ends, inside⟩
  · exact .inl (lands_block.mpr (starts.reflects _ outside))
  · exact .inr ⟨ends, lands_block.mpr (starts.reflects _ inside)⟩

/-! ## Whole programs -/

/-- The jumps of a program outside of its functions land if those of the result do. -/
theorem Eliminates.lands {l : Option Location} {ss : List Tree} {t' : Tree} {stats : Stats}
    (h : Eliminates n (.node l (.program (.tuple ss))) t' stats) (lands : Lands {} t') :
    Lands {} (.node l (.program (.tuple ss))) := by
  cases h with
  | expression kind => cases kind
  | statement kind => cases kind
  | program starts finished =>
    rcases lands_of_finishBody finished (lands_program.mp lands) with ⟨-, outside⟩ | ⟨tail, -⟩
    · exact lands_program.mpr (starts.reflects _ outside)
    · rcases starts.leads.own tail with h | h
      · cases h
      · exact (h rfl).elim

/-- A property that goes back along related trees goes back along related rows. -/
theorem forall_of_forall₂ {R : Tree → Tree → Prop} {P Q : Tree → Prop} {ts us : List Tree}
    (related : List.Forall₂ R ts us) (step : ∀ t u, R t u → P u → Q t) (h : ∀ u ∈ us, P u) :
    ∀ t ∈ ts, Q t := by
  induction related with
  | nil => exact nofun
  | cons first _ ih =>
    rw [List.forall_mem_cons] at h ⊢
    exact ⟨step _ _ first h.1, ih h.2⟩

/-- A program whose result is valid is well-formed, and its jumps have targets: those outside of
functions in the program, and those of a function in the function itself, or in the loop that took
its place. The program is valid if no function got a loop. -/
theorem eliminateTailCalls_lands {l : Option Location} {ss : List Tree} {t' : Tree} {stats : Stats}
    {count : Nat} (wf : WellFormed false {} (.node l (.program (.tuple ss))))
    (temporary : Text.isName n.temporary = true) (loop : Text.isName n.loop = true)
    (eliminated : (Tree.node l (.program (.tuple ss))).eliminateTailCalls n = .ok (t', stats))
    (valid : t'.validate = .ok count) :
    Lands {} (.node l (.program (.tuple ss))) ∧
      List.Forall₂ (fun f f' => f.bodyLands {} = true ∨
          endsInLoop n f' = true ∧ f.bodyLands (loopTargets n) = true)
        (Tree.node l (.program (.tuple ss))).scopes t'.scopes ∧
      ((∀ f' ∈ t'.scopes, endsInLoop n f' = false) →
        ∃ count', (Tree.node l (.program (.tuple ss))).validate = .ok count') := by
  have eliminates := eliminates_of_ok wf eliminated
  have flags := (eliminates.wellFormed temporary loop wf).flagsAreBoolean
  -- The validation of the result says where its jumps land, in all scopes at once.
  have wf' := wellFormed_of_validate valid flags
  have lands := eliminates.lands wf'.lands
  have kept := eliminates.scopes keepsJumps fun _ _ _ => .inl rfl
  have both := (List.forall₂_and_left _ _).mpr ⟨wf'.bodyLands, kept.flip⟩
  have related := both.flip.imp fun f f' ⟨lands, keeps⟩ => keeps lands
  -- Without a generated loop nothing could take up a jump that was left over.
  refine ⟨lands, related, fun unlooped => (wf.checked lands ?_).validate⟩
  refine forall_of_forall₂ related (fun f f' either unlooped => ?_) unlooped
  rcases either with own | ⟨ends, -⟩
  · exact own
  · rw [unlooped] at ends
    cases ends

/-- The function `f` of `x` that leaves a loop without being in one if `x` holds, and otherwise
calls itself with a true value. -/
def breaksNothing : Tree :=
  Tree.new (.program (.tuple [Tree.new (.function .declaration (.identifier "f")
    (.tuple [.identifier "x"])
    (.block [
      Tree.new (.ifStatement (.identifier "x") (Tree.new (.jump .breaks .null)) .null),
      Tree.new (.returnStatement (Tree.new (.call (.identifier "f")
        (.tuple [Tree.new (.literal (.bool true))]))))]))]))

/-- The example breaks nothing but the rules for jumps. -/
theorem wellFormed_breaksNothing : WellFormed false {} breaksNothing := by
  have name (x : Text) (h : isNameLine x = true) : IsName (.identifier x) := ⟨none, h⟩
  refine .program (by decide) (forall₁ (.function (fun _ => name _ (by decide))
    (fun _ => name _ (by decide)) (forall₁ (name _ (by decide))) (by decide) (forall₂ ?_ ?_)))
  · exact .ifStatement rfl (.identifier (by decide)) rfl (.bareJump nofun) nofun nofun
  · refine .returnStatement (fun _ => rfl) fun _ => ?_
    exact .call rfl (.identifier (by decide)) (by decide) (forall₁ (.literal rfl))

/-- The result for this program is valid: the jump lands in the loop that took the place of the
function. -/
theorem eliminateTailCalls_lands_breaksNothing :
    ∃ t' stats count, breaksNothing.eliminateTailCalls {} = .ok (t', stats) ∧
      t'.validate = .ok count ∧ breaksNothing.scopes.length = 2 ∧ Lands {} breaksNothing ∧
      List.Forall₂ (fun f f' => f.bodyLands {} = true ∨
          endsInLoop {} f' = true ∧ f.bodyLands (loopTargets {}) = true)
        breaksNothing.scopes t'.scopes := by
  refine ⟨_, _, _, rfl, rfl, rfl, ?_⟩
  obtain ⟨lands, related, -⟩ := eliminateTailCalls_lands (n := {}) wellFormed_breaksNothing
    (by decide) (by decide) rfl rfl
  exact ⟨lands, related⟩

/-- The check accepts the result of a program that it rejects. -/
theorem eliminateTailCalls_captures :
    ¬ ∀ (t t' : Tree) (stats : Stats) (count : Nat), WellFormed false {} t →
      t.hasKind .program = true → t.eliminateTailCalls {} = .ok (t', stats) →
      t'.validate = .ok count → ∃ count', t.validate = .ok count' := by
  intro claim
  obtain ⟨count', valid⟩ := claim breaksNothing _ _ _ wellFormed_breaksNothing rfl rfl rfl
  cases valid

end Elimination

end TailLoop
