import TailLoop.Proofs.Elimination.Conditions
import TailLoop.Proofs.Interpreter.Fuel
import TailLoop.Proofs.Nodes
import TailLoop.Proofs.Reading.Programs

/-!
# Code without functions and declarations

What is left of elimination where nothing is declared: blocks in rows of statements are opened, and
a `return` of a conditional becomes an `if`. A statement and what takes its place then end in the
same way from every machine on and in every environment, with values and errors, jumps and the
machine all the same (`eliminateTailCalls_executes`).

The proof is by induction on the rules of the walk (`runAlike_of_walks`). Expressions stay as they
are, so that only statements are compared, by the equivalence of the families of their runs. The
scope of a walk that starts outside of functions has no name, which is why no call is converted.
-/

namespace TailLoop

namespace Tree

/-- A well-formed node that neither is a function nor declares variables. -/
structure IsBare (u : Tree) : Prop where
  wellFormed : ∃ checked c, Validity.WellFormed checked c u
  function : u.isFunction = false
  declaration : u.hasKind .variableDeclaration = false

/-- All nodes of a tree are well-formed, and none is a function or declares variables. -/
abbrev Bare (t : Tree) : Prop := t.All IsBare

end Tree

namespace Elimination

open Eval Simulation Validity Tree

variable {limit env : Nat} {l : Option Location}

/-! ## Runs of single pieces -/

/-- A statement and what takes its place run alike, with and without labels before them. -/
structure StatementsAlike (limit env : Nat) (t t' : Tree) : Prop where
  plain : Equivalent (fun k => execute limit k env t) fun k => execute limit k env t'
  labeled : ∀ labels, Equivalent (fun k => executeLabeled limit k env labels t)
    fun k => executeLabeled limit k env labels t'

/-- Without fuel no statement is run. -/
theorem execute_idle (limit env : Nat) (t : Tree) : execute limit 0 env t = throw .exhausted := by
  rw [execute]

/-- Without fuel a labeled statement is exhausted. -/
theorem executeLabeled_idle (limit env : Nat) (labels : List Text) (t : Tree) :
    executeLabeled limit 0 env labels t = throw .exhausted := by
  rw [executeLabeled]

/-- So is a loop. -/
theorem executeLoop_idle (limit env : Nat) (labels : List Text) (t : Tree) :
    executeLoop limit 0 env labels t = throw .exhausted := by
  rw [executeLoop]

/-- Statements that have no labels of their own and are no loops run alike if they do so without
labels before them. -/
theorem StatementsAlike.ofSimple {t t' : Tree} (simple : isSimple t = true)
    (simple' : isSimple t' = true)
    (h : Equivalent (fun k => execute limit (k + 1) env t) fun k => execute limit (k + 1) env t') :
    StatementsAlike limit env t t' := by
  have plain : Equivalent (fun k => execute limit k env t) fun k => execute limit k env t' :=
    h.step (execute_idle limit env t) (execute_idle limit env t')
  refine ⟨plain, fun labels => .step ?_ (executeLabeled_idle _ _ _ _) (executeLabeled_idle _ _ _ _)⟩
  simp only [executeLabeled_simple simple, executeLabeled_simple simple']
  exact plain.labeled

/-- Loops run alike if they do behind all labels. -/
theorem StatementsAlike.ofLoop {t t' : Tree} (loop : isLoop t = true) (loop' : isLoop t' = true)
    (h : ∀ labels, Equivalent (fun k => executeLoop limit (k + 1) env labels t)
      fun k => executeLoop limit (k + 1) env labels t') : StatementsAlike limit env t t' := by
  have passes (labels : List Text) : Equivalent (fun k => executeLoop limit k env labels t)
      fun k => executeLoop limit k env labels t' :=
    (h labels).step (executeLoop_idle limit env labels t) (executeLoop_idle limit env labels t')
  refine ⟨.step ?_ (execute_idle _ _ _) (execute_idle _ _ _),
    fun labels => .step ?_ (executeLabeled_idle _ _ _ _) (executeLabeled_idle _ _ _ _)⟩
  · simp only [execute_loop loop, execute_loop loop']
    exact passes []
  · simp only [executeLabeled_loop loop, executeLabeled_loop loop']
    exact passes labels

/-- What takes the place of a statement in a row runs like it as well. -/
theorem alike_spliced {x : Nat → Eval Unit} {t' : Tree} {ts' : List Tree}
    (spliced : t'.spliced = .ok ts') (h : Equivalent x fun k => execute limit k env t') :
    Equivalent x fun k => ts'.forM (execute limit k env) := by
  by_cases block : t'.hasKind .blockStatement = true
  · obtain ⟨l, body, rfl⟩ := eq_block block
    have inner (k : Nat) :
        execute limit (k + 1) env (.node l (.block body)) = ts'.forM (execute limit k env) := by
      rw [execute]
      rw [Tree.spliced] at spliced
      rw [spliced]
      rfl
    have sooner := h.sooner
    simp only [inner] at sooner
    exact sooner
  · rw [spliced_of_hasKind (by simpa using block)] at spliced
    cases spliced
    simpa [List.forM] using h

/-- Handing on a value runs like itself. -/
theorem alike_handOn (limit env : Nat) (e : Tree) :
    Equivalent (fun k => handOn limit k env e) fun k => handOn limit k env e := by
  cases absent : e.isNull with
  | true =>
    simp only [handOn, absent, if_true]
    exact .const _
  | false =>
    simp only [handOn_present absent]
    exact .bind (.evaluate limit env e) fun v => .const _

/-- A `return` hands on its value. -/
theorem alike_return (limit env : Nat) (e : Tree) :
    Equivalent (fun k => handOn limit k env e)
      fun k => execute limit k env (.node l (.returnStatement e)) := by
  refine .later ?_ (execute_idle _ _ _)
  simp only [execute_return]
  exact alike_handOn limit env e

/-- A conditional whose value is handed on, and the `if` that takes its place. -/
theorem alike_conditional {lc : Option Location} {test consequent alternate t1 t2 : Tree}
    (present : consequent.isNull = false) (present' : alternate.isNull = false)
    (thenPart : Equivalent (fun k => handOn limit k env consequent) fun k => execute limit k env t1)
    (elsePart : Equivalent (fun k => handOn limit k env alternate) fun k => execute limit k env t2)
    (kept : t2.isNull = false) :
    Equivalent
      (fun k => handOn limit k env (.node lc (.conditional test consequent alternate)))
      fun k => execute limit k env (.node l (.ifStatement test t1 t2)) := by
  simp only [handOn_present present] at thenPart
  simp only [handOn_present present'] at elsePart
  have handed (k : Nat) : handOn limit k env (.node lc (.conditional test consequent alternate)) =
      evaluate limit k env (.node lc (.conditional test consequent alternate)) >>= fun v =>
        throw (.returned v) :=
    handOn_present rfl k
  -- A conditional that is handed on hands on one of its branches.
  simp only [handed]
  refine .step ?_ (by rw [evaluate]; rfl) (execute_idle _ _ _)
  simp only [evaluate, execute, kept, Bool.false_eq_true, if_false, bind_assoc]
  refine .bind (.evaluate limit env test) fun v => ?_
  cases v.truthy with
  | true => exact thenPart
  | false => exact elsePart

/-- A part that may be absent. -/
theorem alike_optional {e : Tree} {x y : Nat → Eval Unit}
    (h : e.isNull = false → Equivalent x y) :
    Equivalent (fun k => if e.isNull then return () else x k)
      fun k => if e.isNull then return () else y k := by
  cases absent : e.isNull with
  | true => exact .const _
  | false => exact h absent

/-- A `for` runs alike if its start and its body do, and the rest stays. -/
theorem alike_for {init init' test step body body' : Tree} {labels : List Text}
    (start : Equivalent (fun k => startLoop limit k env init) fun k => startLoop limit k env init')
    (inner : Equivalent (fun k => execute limit k env body) fun k => execute limit k env body') :
    Equivalent
      (fun k => executeLoop limit (k + 1) env labels (.node l (.forStatement init test step body)))
      fun k =>
        executeLoop limit (k + 1) env labels (.node l (.forStatement init' test step body')) := by
  simp only [executeLoop_for]
  have tested : Equivalent (fun k => continues limit k env test)
      fun k => continues limit k env test :=
    .ite (.const _) (.map _ (.evaluate limit env test))
  have advanced : Equivalent (fun k => advance limit k env step) fun k => advance limit k env
    step :=
    .ite (.const _) (.bind (.evaluate limit env step) fun v => .const _)
  refine .bind start fun _ => .repeating (.bind tested fun holds => .ite ?_ (.const _))
  exact .bind inner.pass fun goesOn => .ite (.bind advanced fun _ => .const _) (.const _)

/-- A loop over a collection runs alike if its body does, and the rest stays. -/
theorem alike_forEach {domain : Domain} {left right body body' : Tree} {labels : List Text}
    (inner : Equivalent (fun k => execute limit k env body) fun k => execute limit k env body') :
    Equivalent
      (fun k => executeLoop limit (k + 1) env labels (.node l (.forEach domain left right body)))
      fun k => executeLoop limit (k + 1) env labels (.node l (.forEach domain left right body')) := by
  have passes (target : Tree) (vs : List Value) :
      Equivalent
        (fun k => forEachItem
          (fun v => do
            assignTo limit k env target v
            pass labels (execute limit k env body)) vs)
        fun k => forEachItem
          (fun v => do
            assignTo limit k env target v
            pass labels (execute limit k env body')) vs :=
    .forEachItem (fun v => .bind (.assignTo limit env target v) fun _ => inner.pass) vs
  -- The two kinds of loop differ in what they go through only.
  cases domain with
  | keys =>
    simp only [executeLoop]
    refine .bind (.evaluate limit env right) fun source => .ite (.const _) ?_
    exact .bind (.const _) fun keys => .bind (.const _) fun target => passes target _
  | values =>
    simp only [executeLoop]
    refine .bind (.evaluate limit env right) fun source => .bind (.const _) fun values => ?_
    exact .bind (.const _) fun target => passes target values

/-! ## Runs of all pieces -/

/-- An expression is there. -/
theorem isNull_of_isExpression {e : Tree} (h : e.isExpression = true) : e.isNull = false := by
  cases e with
  | null => cases h
  | _ => rfl

/-- A piece of code in which nothing is declared and what takes its place run alike. -/
def Edit.RunAlike (limit env : Nat) : Edit → Prop
  | .returned _ e t' | .branch e t' =>
    e.Bare → Equivalent (fun k => handOn limit k env e) fun k => execute limit k env t'
  | .branchItems es ts =>
    (∀ e ∈ es, e.Bare ∧ e.isNull = false) → ∀ v,
      Equivalent (fun k => handOnLast limit k env es v) fun k => ts.forM (execute limit k env)
  | .statement t t' => t.Bare → StatementsAlike limit env t t'
  | .optionalStatement t t' =>
    t.Bare → t'.isNull = t.isNull ∧ (t.isNull = false → StatementsAlike limit env t t')
  | .statements ts ts' =>
    (∀ t ∈ ts, t.Bare) →
      Equivalent (fun k => ts.forM (execute limit k env)) fun k => ts'.forM (execute limit k env)
  | .loopStart t t' =>
    t.Bare → Equivalent (fun k => startLoop limit k env t) fun k => startLoop limit k env t'
  | _ => True

/-- An expression in which nothing is declared stays as it is. -/
theorem eq_of_bare {n : Naming} {s s' : State} {e e' : Tree}
    (h : Walks n s (.expression e e') s') (bare : e.Bare) : e' = e ∧ s' = s :=
  h.keeps fun u hu => (bare u hu).function

/-- So does an expression that may be absent. -/
theorem eq_of_bare_optional {n : Naming} {s s' : State} {e e' : Tree}
    (h : Walks n s (.optional e e') s') (bare : e.Bare) : e' = e ∧ s' = s :=
  h.keeps fun _ u hu => (bare u hu).function

/-- A piece of a program outside of functions, where there is nothing to call, runs like what takes
its place. -/
def AlikeUnnamed (limit env : Nat) (s : State) (edit : Edit) : Prop :=
  s.scope.name = none → edit.RunAlike limit env

-- There is one lemma for each rule of the walk that puts several runs together.
namespace AlikeUnnamed

variable {n : Naming} {s s1 s2 s3 s' : State} {lc lb ld le li ln : Option Location} {name : Text}
  {domain : Domain} {e e' t t' left left' right right' test test' consequent consequent' alternate
    alternate' init init' step step' body body' : Tree}
  {es ts ts' ts'' : List Tree}

/-- A `return` of a conditional runs like the `if` in its place. -/
theorem returnConditional
    (testPart : Walks n (s.tally Stats.addTernary) (.expression test test') s1)
    (part : Walks n s1 (.branch consequent consequent') s2)
    (ih1 : AlikeUnnamed limit env s1 (.branch consequent consequent'))
    (elsePart : Walks n s2 (.branch alternate alternate') s')
    (ih2 : AlikeUnnamed limit env s2 (.branch alternate alternate')) :
    AlikeUnnamed limit env s
      (.returned l (.node lc (.conditional test consequent alternate))
        (.node l (.ifStatement test' consequent' alternate'))) := by
  intro unnamed bare
  obtain ⟨checked, c, wf⟩ := bare.self.wellFormed
  -- The test has no function in it and stays as it is.
  cases wf with
  | conditional _ _ kind _ elseKind =>
    obtain ⟨rfl, rfl⟩ := eq_of_bare testPart (bare.child (Shape.mem_parts 0 rfl))
    have first := ih1 unnamed (bare.child (Shape.mem_parts 1 rfl))
    have second := ih2 (part.leads.name.trans unnamed) (bare.child (Shape.mem_parts 2 rfl))
    exact alike_conditional (isNull_of_isExpression kind) (isNull_of_isExpression elseKind) first
      second (isNull_of_branch elsePart)

/-- A sequence that is handed on is evaluated part by part. -/
theorem branchSequence (ih : AlikeUnnamed limit env s (.branchItems es ts)) :
    AlikeUnnamed limit env s
      (.branch (.node l (.sequence (.tuple es))) (Tree.new (.block (.tuple ts)))) := by
  intro unnamed bare
  obtain ⟨checked, c, wf⟩ := bare.self.wellFormed
  cases wf with
  | sequence some kinds =>
    have items : ∀ e ∈ es, e.Bare ∧ e.isNull = false := fun e he =>
      ⟨(bare.child (Shape.mem_parts 0 rfl)).item he,
        isNull_of_isExpression (kinds e he)⟩
    have handed (k : Nat) : handOn limit k env (.node l (.sequence (.tuple es))) =
        evaluate limit k env (.node l (.sequence (.tuple es))) >>= fun v => throw (.returned v) :=
      handOn_present rfl k
    simp only [handed]
    refine .step ?_ (by rw [evaluate]; rfl) (execute_idle _ _ _)
    simp only [evaluate, execute, Tree.new, Tree.items, Eval.attempt, pure_bind]
    exact ih unnamed items .undefined

/-- Its last part is what is handed on. -/
theorem branchLast (ih : AlikeUnnamed limit env s (.returned e.location? e t'))
    (spliced : t'.spliced = .ok ts) :
    AlikeUnnamed limit env s (.branchItems [e] ts) := by
  intro unnamed bare v
  obtain ⟨bare, present⟩ := bare e List.mem_cons_self
  have handed := ih unnamed bare
  simp only [handOn_present present] at handed
  simp only [handOnLast, List.foldlM_cons, List.foldlM_nil, bind_pure]
  exact alike_spliced spliced handed

/-- Its other parts are statements of their own. -/
theorem branchMore (part : Walks n s (.expression e e') s1)
    (ih : AlikeUnnamed limit env s1 (.branchItems es ts)) :
    AlikeUnnamed limit env s
      (.branchItems (e :: es) (.node e.location? (.expressionStatement e') :: ts)) := by
  intro unnamed bare v
  rw [List.forall_mem_cons] at bare
  obtain ⟨rfl, rfl⟩ := eq_of_bare part bare.1.1
  have rest (v : Value) := (ih unnamed bare.2 v).sooner
  refine .later ?_ (by rw [List.forM, execute]; rfl)
  simp only [handOnLast, List.foldlM_cons, bind_assoc, List.forM, execute, pure_bind]
  exact .bind (.evaluate limit env e') rest

/-- An `if` runs alike if both of its branches do. -/
theorem ifStatement (testPart : Walks n s (.expression test test') s1)
    (part : Walks n s1 (.statement consequent consequent') s2)
    (ih1 : AlikeUnnamed limit env s1 (.statement consequent consequent'))
    (ih2 : AlikeUnnamed limit env s2 (.optionalStatement alternate alternate')) :
    AlikeUnnamed limit env s
      (.statement (.node l (.ifStatement test consequent alternate))
        (.node l (.ifStatement test' consequent' alternate'))) := by
  intro unnamed bare
  obtain ⟨rfl, rfl⟩ := eq_of_bare testPart (bare.child (Shape.mem_parts 0 rfl))
  have first := (ih1 unnamed (bare.child (Shape.mem_parts 1 rfl))).plain
  obtain ⟨absent, second⟩ := ih2 (part.leads.name.trans unnamed)
    (bare.child (Shape.mem_parts 2 rfl))
  refine .ofSimple rfl rfl ?_
  simp only [execute, absent]
  refine .bind (.evaluate limit env test') fun v => .ite first ?_
  exact alike_optional fun present => (second present).plain

/-- A `for` runs alike if its start and its body do. -/
theorem forStatement (initPart : Walks n s (.loopStart init init') s1)
    (ih1 : AlikeUnnamed limit env s (.loopStart init init'))
    (testPart : Walks n s1 (.optional test test') s2)
      (stepPart : Walks n s2 (.optional step step') s3)
    (ih2 : AlikeUnnamed limit env s3 (.statement body body')) :
    AlikeUnnamed limit env s
      (.statement (.node l (.forStatement init test step body))
        (.node l (.forStatement init' test' step' body'))) := by
  intro unnamed bare
  obtain ⟨rfl, rfl⟩ := eq_of_bare_optional testPart (bare.child (Shape.mem_parts 1 rfl))
  obtain ⟨rfl, rfl⟩ := eq_of_bare_optional stepPart (bare.child (Shape.mem_parts 2 rfl))
  have start := ih1 unnamed (bare.child (Shape.mem_parts 0 rfl))
  have inner := (ih2 (initPart.leads.name.trans unnamed)
    (bare.child (Shape.mem_parts 3 rfl))).plain
  exact .ofLoop rfl rfl fun labels => alike_for start inner

/-- A loop over a collection runs alike if its body does. -/
theorem forEach (leftPart : Walks n s (.expression left left') s1)
    (rightPart : Walks n s1 (.expression right right') s2)
    (ih : AlikeUnnamed limit env s2 (.statement body body')) :
    AlikeUnnamed limit env s
      (.statement (.node l (.forEach domain left right body))
        (.node l (.forEach domain left' right' body'))) := by
  intro unnamed bare
  obtain ⟨rfl, rfl⟩ := eq_of_bare leftPart (bare.child (Shape.mem_parts 0 rfl))
  obtain ⟨rfl, rfl⟩ := eq_of_bare rightPart (bare.child (Shape.mem_parts 1 rfl))
  have inner := (ih unnamed (bare.child (Shape.mem_parts 2 rfl))).plain
  exact .ofLoop (by cases domain <;> rfl) (by cases domain <;> rfl) fun labels =>
    alike_forEach inner

/-- A `while` runs alike if its body does. -/
theorem whileStatement (testPart : Walks n s (.expression test test') s1)
    (ih : AlikeUnnamed limit env s1 (.statement body body')) :
    AlikeUnnamed limit env s
      (.statement (.node l (.whileStatement test body)) (.node l (.whileStatement test' body'))) :=
        by
  intro unnamed bare
  obtain ⟨rfl, rfl⟩ := eq_of_bare testPart (bare.child (Shape.mem_parts 0 rfl))
  have inner := (ih unnamed (bare.child (Shape.mem_parts 1 rfl))).plain
  refine .ofLoop rfl rfl fun labels => ?_
  simp only [executeLoop]
  exact .repeating (.bind (.evaluate limit env test') fun v => .ite inner.pass (.const _))

/-- A `do` runs alike if its body does. -/
theorem doWhileStatement (ih : AlikeUnnamed limit env s (.statement body body'))
    (testPart : Walks n s1 (.expression test test') s') :
    AlikeUnnamed limit env s
      (.statement (.node l (.doWhileStatement body test))
        (.node l (.doWhileStatement body' test'))) := by
  intro unnamed bare
  obtain ⟨rfl, rfl⟩ := eq_of_bare testPart (bare.child (Shape.mem_parts 1 rfl))
  have inner := (ih unnamed (bare.child (Shape.mem_parts 0 rfl))).plain
  refine .ofLoop rfl rfl fun labels => ?_
  simp only [executeLoop]
  exact .repeating (.bind inner.pass fun goesOn =>
    .ite (.bind (.evaluate limit env test') fun v => .const _) (.const _))

/-- A labeled statement runs alike if its body does, also behind further labels. -/
theorem labeled (ih : AlikeUnnamed limit env s (.statement body body')) :
    AlikeUnnamed limit env s
      (.statement (.node l (.labeled (.node ln (.identifier (.text name))) body))
        (.node l (.labeled (.node ln (.identifier (.text name))) body'))) := by
  intro unnamed bare
  have inner := ih unnamed (bare.child (Shape.mem_parts 1 rfl))
  constructor
  · refine .step ?_ (execute_idle _ _ _) (execute_idle _ _ _)
    simp only [execute, nameOf_identifier, keyOf_text, pure_bind]
    exact inner.labeled [name]
  · intro labels
    refine .step ?_ (executeLabeled_idle _ _ _ _) (executeLabeled_idle _ _ _ _)
    simp only [executeLabeled, nameOf_identifier, keyOf_text, pure_bind]
    exact inner.labeled (labels ++ [name])

/-- Statements run alike one after the other, blocks in them opened. -/
theorem moreStatements (part : Walks n s (.statement t t') s1)
    (ih1 : AlikeUnnamed limit env s (.statement t t')) (spliced : t'.spliced = .ok ts')
    (ih2 : AlikeUnnamed limit env s1 (.statements ts ts'')) :
    AlikeUnnamed limit env s (.statements (t :: ts) (ts' ++ ts'')) := by
  intro unnamed bare
  rw [List.forall_mem_cons] at bare
  have first := (ih1 unnamed bare.1).plain
  have rest := ih2 (part.leads.name.trans unnamed) bare.2
  simp only [List.forM, forM_append]
  exact .bind (alike_spliced spliced first) fun _ => rest

/-- An expression at the start of a `for` stays as it is. -/
theorem startExpression (part : Walks n s (.expression e e') s') :
    AlikeUnnamed limit env s (.loopStart e e') := by
  intro _ bare
  have other : e.hasKind .variableDeclaration = false := by cases part <;> rfl
  have present : e.isNull = false := by cases part <;> rfl
  obtain ⟨rfl, rfl⟩ := eq_of_bare part bare
  simp only [startLoop_expression _ _ present other]
  exact .bind (.evaluate limit env e') fun v => .const _

end AlikeUnnamed

/-- Pieces of code in which nothing is declared run like what takes their place, as long as the scope
has no function to call. -/
theorem runAlike_of_walks {n : Naming} {s s' : State} {edit : Edit} (limit env : Nat)
    (h : Walks n s edit s') : AlikeUnnamed limit env s edit := by
  -- By induction on the walk. There is no own function to call, so that no call is converted and no
  -- rule takes anything away.
  induction h with
  | returnNothing => exact fun _ _ => alike_return limit env .null
  | returnCall own parts converted _ =>
    intro unnamed
    cases unnamed.symm.trans own
  | returnConditional testPart part elsePart _ ih1 ih2 =>
    exact .returnConditional testPart part ih1 elsePart ih2
  | @returnValue s s' l e e' kept part _ =>
    intro _ bare
    obtain ⟨rfl, rfl⟩ := eq_of_bare part bare
    exact alike_return limit env e'
  | branchValue single part ih => exact ih
  | branchSequence _ ih => exact .branchSequence ih
  | branchLast _ spliced ih => exact .branchLast ih spliced
  | branchMore _ part _ _ ih => exact .branchMore part ih
  | functionDeclaration starts inner _ =>
    intro _ bare
    cases bare.self.function
  | @block s s' l ss ss' parts ih =>
    intro unnamed bare
    refine .ofSimple rfl rfl ?_
    simp only [execute, Tree.items, Eval.attempt, pure_bind]
    exact ih unnamed fun t ht => (bare.child (Shape.mem_parts 0 rfl)).item ht
  | @returnStatement s s' l argument t' part ih =>
    intro unnamed bare
    refine .ofSimple rfl (isSimple_of_returned part) ?_
    simp only [execute_return]
    exact (ih unnamed (bare.child (Shape.mem_parts 0 rfl))).sooner
  | variableDeclaration parts _ =>
    intro _ bare
    cases bare.self.declaration
  | ifStatement testPart part _ _ ih1 ih2 => exact .ifStatement testPart part ih1 ih2
  | forStatement initPart testPart stepPart _ ih1 _ _ ih2 =>
    exact .forStatement initPart ih1 testPart stepPart ih2
  | @forEachDeclared s s1 s' l domain ld le li name right right' body body' free rightPart part _
      _ =>
    intro _ bare
    have declaration := (bare.child List.mem_cons_self).self.declaration
    cases declaration
  | forEach _ leftPart rightPart _ _ _ ih => exact .forEach leftPart rightPart ih
  | whileStatement testPart _ _ ih => exact .whileStatement testPart ih
  | doWhileStatement _ testPart ih _ => exact .doWhileStatement ih testPart
  | @expressionStatement s s' l e e' part _ =>
    intro _ bare
    obtain ⟨rfl, rfl⟩ := eq_of_bare part (bare.child (Shape.mem_parts 0 rfl))
    refine .ofSimple rfl rfl ?_
    simp only [execute_expression]
    exact .bind (.evaluate limit env e') fun v => .const _
  | emptyStatement =>
    intro _ _
    refine .ofSimple rfl rfl ?_
    simp only [execute]
    exact .const _
  | @bareJump s l kind | @jump s l kind =>
    intro _ _
    refine .ofSimple (by cases kind <;> rfl) (by cases kind <;> rfl) ?_
    cases kind <;> simp only [execute] <;> exact .const _
  | labeled _ _ ih => exact .labeled ih
  | noAlternate =>
    refine fun _ _ => ⟨rfl, fun present => ?_⟩
    cases present
  | @alternate s s' t t' part ih =>
    intro unnamed bare
    obtain ⟨present, present'⟩ := isNull_of_statement part
    exact ⟨present'.trans present.symm, fun _ => ih unnamed bare⟩
  | noStatements => exact fun _ _ => .const _
  | moreStatements part spliced _ ih1 ih2 => exact .moreStatements part ih1 spliced ih2
  | noStart => exact fun _ _ => .const _
  | startExpression part _ => exact .startExpression part
  | startDeclaration parts _ =>
    intro _ bare
    cases bare.self.declaration
  | _ => exact fun _ => trivial

/-! ## Whole statements -/

/-- Where nothing is declared, the only fault that a statement can have is a reserved label. -/
theorem isOk_of_bare {n : Naming} {s : Tree} {e : Refusal} (bare : s.Bare)
    (free : ¬s.DeclaresReserved n) {checked : Bool} {c : Targets} (wf : WellFormed checked c s) :
    s.eliminateTailCalls n ≠ .error e := by
  intro refused
  cases blames_of_refused wf refused with
  | reservedName mem name reserved => exact free ⟨_, mem, _, name, reserved⟩
  | tooManyArguments mem call many =>
    rw [selfCalls_other (bare _ mem).function] at call
    cases call

/-- Elimination of a statement of a well-formed tree that has no functions and declares nothing, not
even a reserved label, succeeds. What comes of it ends in the same way as the statement, from every
machine on, in every environment and with every limit for the nesting of calls: with the same value,
jump or error, if it ends at all, and with the same machine. Trees that are read are well-formed
(`Source.parse_wellFormed`). -/
theorem eliminateTailCalls_executes {n : Naming} {checked : Bool} {c : Targets} {t s : Tree}
    (wf : WellFormed checked c t) (mem : s ∈ t.nodes) (statement : s.isStatement = true)
    (bare : s.All fun u => u.isFunction = false ∧ u.hasKind .variableDeclaration = false)
    (free : ¬s.DeclaresReserved n) :
    ∃ s' stats, s.eliminateTailCalls n = .ok (s', stats) ∧
      ∀ (limit env : Nat) (m : Machine) (r : EStateM.Result Interrupt Machine Unit), Conclusive r →
        ((∃ fuel, execute limit fuel env s m = r) ↔ ∃ fuel, execute limit fuel env s' m = r) := by
  obtain ⟨c', valid⟩ := wf.all s mem
  have bare : s.Bare := fun u hu =>
    -- What is bare is not refused, so that there is a result.
    ⟨⟨checked, valid.all u hu⟩, (bare u hu).1, (bare u hu).2⟩
  cases result : s.eliminateTailCalls n with
  | error e => exact (isOk_of_bare bare free valid result).elim
  | ok r =>
    obtain ⟨s', stats⟩ := r
    refine ⟨s', stats, rfl, fun limit env m r ends => ?_⟩
    have eliminates := eliminates_of_ok valid result
    cases eliminates with
    | statement kind part => exact (runAlike_of_walks limit env part rfl bare).plain.exists_iff ends
    | expression kind part => cases part <;> cases statement
    | declarator | program => cases statement

/-- A block in a block, and a returned conditional with a comma. -/
def splitting : Tree :=
  .block [
    .block [Tree.new (.expressionStatement (Tree.assign "a" (.identifier "b")))],
    Tree.new (.returnStatement (Tree.new (.conditional (.identifier "a") (.identifier "b")
      (Tree.new (.sequence (.tuple [Tree.assign "b" (.identifier "a"), .identifier "c"]))))))]

/-- The inner block is opened and the conditional is split, and the block runs as before. -/
theorem eliminateTailCalls_executes_splitting :
    ∃ s' stats, splitting.eliminateTailCalls {} = .ok (s', stats) ∧ stats.ternaries = 1 ∧
      ∀ (limit env : Nat) (m : Machine) (r : EStateM.Result Interrupt Machine Unit), Conclusive r →
        ((∃ fuel, execute limit fuel env splitting m = r) ↔
          ∃ fuel, execute limit fuel env s' m = r) := by
  have wf : WellFormed true {} (Tree.new (.program (.tuple [splitting]))) :=
    wellFormed_of_validate rfl (by decide)
  obtain ⟨s', stats, eliminated, same⟩ :=
    eliminateTailCalls_executes (n := {}) wf (s := splitting)
      (List.mem_cons_of_mem _ List.mem_cons_self) rfl (by decide) (by decide)
  cases eliminated
  exact ⟨_, _, rfl, rfl, same⟩

end Elimination

end TailLoop
