import TailLoop.Proofs.Interpreter.Layers
import TailLoop.Proofs.Interpreter.Operations

/-!
# Properties of whole evaluations

A discipline relates two evaluations of the same code. It comes with the code that may run and with
what may be set, all of it for each index of a type: the index tells what is known of the place at
which the evaluations are. A discipline that composes passes through the ways in which evaluations
are put together; operations on values obey it, and so does what is done with variables and
functions. Then functions a layer above others that obey it obey it as well, apart from calls
(`Discipline.Composes.layer`), and where calls obey it too, so does every function of an evaluation
(`Discipline.Lawful.upheld`). A property of single evaluations is a discipline that does not look at
the second one.
-/

namespace TailLoop

/-- The item of a row is one of its items. -/
theorem Tree.mem_of_item {t u : Tree} {index : Int} (found : t.item index = .ok u) :
    ∃ ts, t.items = .ok ts ∧ u ∈ ts := by
  unfold Tree.item at found
  split at found
  · cases found
  · obtain ⟨ts, listed, found⟩ := Elimination.bind_ok.mp found
    refine ⟨ts, listed, ?_⟩
    split at found
    · rename_i v here
      cases found
      obtain ⟨k, -, there⟩ := Option.bind_eq_some_iff.mp here
      exact List.mem_of_getElem? there
    · cases found

/-- What a node sets is one of its fields, and the node is no function. -/
theorem Tree.field_of_mem_targets {t u : Tree} (mem : u ∈ t.targets) :
    t.isFunction = false ∧ ∃ name, t.field name = .ok u := by
  -- By the form of the tree; all others have no targets.
  cases t with
  | node l shape =>
    cases shape with
    | variableDeclarator id init =>
      cases List.mem_singleton.mp mem
      exact ⟨rfl, "id", rfl⟩
    | forEach domain left right body =>
      cases List.mem_singleton.mp mem
      exact ⟨rfl, "left", rfl⟩
    | assignment operator left right =>
      cases List.mem_singleton.mp mem
      exact ⟨rfl, "left", rfl⟩
    | update operator argument isPrefix =>
      cases List.mem_singleton.mp mem
      exact ⟨rfl, "argument", rfl⟩
    | _ => cases mem
  | _ => cases mem

namespace Eval

open Routines

/-- A relation of evaluations, the code that may run in an environment, and what may be set there. -/
structure Discipline (ι : Type) where
  Obeys : ι → {α : Type} → Eval α → Eval α → Prop
  Runs : ι → (env : Nat) → Tree → Prop
  Sets : ι → (env : Nat) → Tree → Prop

/-- Functions that obey a discipline when they are given code that may run. -/
structure Discipline.Upheld {ι : Type} (d : Discipline ι) (r r' : Routines) : Prop where
  evaluate {i env t} (runs : d.Runs i env t) : d.Obeys i (r.evaluate env t) (r'.evaluate env t)
  propertyKey {i env property} (runs : d.Runs i env property) (computed : Tree) :
    d.Obeys i (r.propertyKey env property computed) (r'.propertyKey env property computed)
  assignTo {i env target} (runs : d.Runs i env target) (sets : d.Sets i env target) (v : Value) :
    d.Obeys i (r.assignTo env target v) (r'.assignTo env target v)
  call (i : ι) (f : Value) (args : List Value) : d.Obeys i (r.call f args) (r'.call f args)
  execute {i env t} (runs : d.Runs i env t) : d.Obeys i (r.execute env t) (r'.execute env t)
  executeLabeled {i env t} (runs : d.Runs i env t) (labels : List Text) :
    d.Obeys i (r.executeLabeled env labels t) (r'.executeLabeled env labels t)
  startVariable {i env t} (runs : d.Runs i env t) :
    d.Obeys i (r.startVariable env t) (r'.startVariable env t)
  executeLoop {i env t} (runs : d.Runs i env t) (labels : List Text) :
    d.Obeys i (r.executeLoop env labels t) (r'.executeLoop env labels t)

/-- What a discipline has to be sure of, apart from calls. -/
structure Discipline.Composes {ι : Type} (d : Discipline ι) : Prop where
  pure {i} {α : Type} (a : α) : d.Obeys i (Pure.pure a : Eval α) (Pure.pure a)
  throw {i} {α : Type} (e : Interrupt) :
    d.Obeys i (MonadExcept.throw e : Eval α) (MonadExcept.throw e)
  bind {i} {α β : Type} {x y : Eval α} {f g : α → Eval β} (h : d.Obeys i x y)
    (next : ∀ a, d.Obeys i (f a) (g a)) : d.Obeys i (x >>= f) (y >>= g)
  /-- What takes up interrupts obeys if what is in it does. -/
  pass {i labels x y} (h : d.Obeys i x y) : d.Obeys i (pass labels x) (pass labels y)
  labeled {i labels x y} (h : d.Obeys i x y) : d.Obeys i (labeled labels x) (labeled labels y)
  operation {i} {α : Type} {act : Eval α} (h : Operation act) : d.Obeys i act act
  /-- The items of a row may run. -/
  item {i env t u ts} (runs : d.Runs i env t) (row : t.items = .ok ts) (mem : u ∈ ts) :
    d.Runs i env u
  /-- The fields of a node may run, but for those of a function. -/
  field {i env t u} (name : Text) (runs : d.Runs i env t) (inert : t.isFunction = false)
    (found : t.field name = .ok u) : d.Runs i env u
  /-- What a node sets may be set. -/
  target {i env t u} (runs : d.Runs i env t) (mem : u ∈ t.targets) : d.Sets i env u
  /-- The variable that the head of a loop declares may be set. -/
  declared {i env l declarations kind t u}
    (runs : d.Runs i env (.node l (.variableDeclaration declarations kind)))
    (first : declarations.item 0 = .ok t) (found : t.field "id" = .ok u) :
    d.Runs i env u ∧ d.Sets i env u
  readName {i env l name} (runs : d.Runs i env (.node l (.identifier name))) :
    d.Obeys i (readName env name l) (readName env name l)
  isUnbound {i env t} (runs : d.Runs i env t) : d.Obeys i (isUnbound env t) (isUnbound env t)
  writeName {i env t name} (sets : d.Sets i env t) (named : t.name = .ok name)
    (l : Option Location) (v : Value) : d.Obeys i (writeName env name l v) (writeName env name l v)
  /-- A function expression makes a function. -/
  function {i env l id params body}
    (runs : d.Runs i env (.node l (.function .expression id params body))) :
    d.Obeys i (idle.evaluateBy env (.node l (.function .expression id params body)))
      (idle.evaluateBy env (.node l (.function .expression id params body)))

/-- What a discipline has to be sure of: a function may be called anywhere. -/
structure Discipline.Lawful {ι : Type} (d : Discipline ι) : Prop extends d.Composes where
  call {r : Routines} (upheld : d.Upheld r r) (i : ι) (limit ref : Nat) (args : List Value) :
    d.Obeys i (r.callBy limit id (.function ref) args) (r.callBy limit id (.function ref) args)

namespace Discipline.Composes

variable {ι : Type} {d : Discipline ι} (composes : d.Composes) {i : ι} {env : Nat} {t : Tree}
  {α β : Type}

include composes

/-- An error is obeyed like any interrupt. -/
theorem fail (e : RuntimeError) : d.Obeys i (fail e : Eval α) (Eval.fail e) := composes.throw _

/-- So is a fault. -/
theorem attempt (r : Except Fault α) : d.Obeys i (attempt r) (attempt r) :=
  composes.operation (.attempt r)

/-- Taking the text out of a name obeys. -/
theorem keyOf (name : Tree) : d.Obeys i (keyOf name) (keyOf name) := composes.attempt _

/-- A discipline that composes passes through the binding of names. -/
theorem congruent (i : ι) : Congruent (d.Obeys i) := ⟨fun r => composes.attempt r, composes.bind⟩

/-- Refusing a tree that is no expression obeys. -/
theorem refuseExpression (t : Tree) :
    d.Obeys i (refuseExpression t : Eval α) (refuseExpression t) := by
  unfold Eval.refuseExpression
  split <;> exact composes.fail _

/-- Refusing a tree that is no statement obeys. -/
theorem refuseStatement (t : Tree) :
    d.Obeys i (refuseStatement t : Eval α) (refuseStatement t) := by
  unfold Eval.refuseStatement
  split <;> exact composes.fail _

/-- Looking up an operator obeys. -/
theorem operatorOf (spelling : Tree) : d.Obeys i (operatorOf spelling) (operatorOf spelling) := by
  refine composes.bind (composes.keyOf spelling) fun key => ?_
  split
  · exact composes.pure _
  · exact composes.fail _

omit composes in
/-- A choice obeys if both of its sides do. -/
theorem ite {c : Prop} [Decidable c] {x x' y y' : Eval α} (h : d.Obeys i x y)
    (h' : d.Obeys i x' y') : d.Obeys i (if c then x else x') (if c then y else y') := by
  split
  · exact h
  · exact h'

/-- Taking the name out of a label obeys. -/
theorem labelOf (label : Tree) : d.Obeys i (labelOf label) (labelOf label) :=
  ite (composes.pure _) (composes.attempt _)

/-- What is made of the value does not matter. -/
theorem map {x y : Eval α} (f : α → β) (h : d.Obeys i x y) : d.Obeys i (f <$> x) (f <$> y) := by
  rw [← bind_pure_comp, ← bind_pure_comp]
  exact composes.bind h fun a => composes.pure _

/-- Going through a list obeys if every step does. -/
theorem mapM {l : List α} {f g : α → Eval β} (h : ∀ a ∈ l, d.Obeys i (f a) (g a)) :
    d.Obeys i (l.mapM f) (l.mapM g) := by
  induction l with
  | nil => exact composes.pure _
  | cons a l ih =>
    obtain ⟨first, rest⟩ := List.forall_mem_cons.mp h
    rw [List.mapM_cons, List.mapM_cons]
    exact composes.bind first fun b => composes.bind (ih rest) fun bs => composes.pure _

/-- So it is without values. -/
theorem forM {l : List α} {f g : α → Eval PUnit} (h : ∀ a ∈ l, d.Obeys i (f a) (g a)) :
    d.Obeys i (l.forM f) (l.forM g) :=
  (composes.congruent i).forM h

/-- So it is with a value that is handed on. -/
theorem foldlM {l : List α} {f g : β → α → Eval β}
    (h : ∀ a ∈ l, ∀ b, d.Obeys i (f b a) (g b a)) (b : β) :
    d.Obeys i (l.foldlM f b) (l.foldlM g b) := by
  induction l generalizing b with
  | nil => exact composes.pure _
  | cons a l ih =>
    obtain ⟨first, rest⟩ := List.forall_mem_cons.mp h
    rw [List.foldlM_cons, List.foldlM_cons]
    exact composes.bind (first b) fun b' => ih rest b'

/-- Going through the values of a loop over a collection obeys if every pass does. -/
theorem forEachItem {step step' : Value → Eval Bool} (h : ∀ v, d.Obeys i (step v) (step' v))
    (vs : List Value) : d.Obeys i (forEachItem step vs) (forEachItem step' vs) := by
  induction vs with
  | nil => exact composes.pure _
  | cons v vs ih => exact composes.bind (h v) fun goesOn => ite ih (composes.pure _)

/-- A repetition obeys if a pass does. -/
theorem repeating {step step' : Eval Bool} (h : d.Obeys i step step') (passes : Nat) :
    d.Obeys i (repeating step passes) (repeating step' passes) := by
  induction passes with
  | zero => exact composes.throw _
  | succ passes ih => exact composes.bind h fun goesOn => ite ih (composes.pure _)

/-- All items of a row may run. -/
theorem items {row : Tree} (runs : d.Runs i env row) {next next' : List Tree → Eval β}
    (h : ∀ ts, (∀ u ∈ ts, d.Runs i env u) → d.Obeys i (next ts) (next' ts)) :
    d.Obeys i (Eval.attempt row.items >>= next) (Eval.attempt row.items >>= next') := by
  cases found : row.items with
  | ok ts => exact h ts fun u hu => composes.item runs found hu
  | error x => exact composes.fail _

/-- The target of a loop over a collection may be set. -/
theorem loopTarget (runs : d.Runs i env t) (sets : d.Sets i env t) {next next' : Tree → Eval β}
    (h : ∀ target, d.Runs i env target → d.Sets i env target →
      d.Obeys i (next target) (next' target)) :
    d.Obeys i (loopTarget t >>= next) (loopTarget t >>= next') := by
  unfold Eval.loopTarget
  split
  · rename_i l declarations kind
    cases found : declarations.item 0 with
    | error x => exact composes.fail _
    | ok declarator =>
      -- Only if it is there is the name known to be of a declarator.
      change d.Obeys i (Eval.attempt (declarator.field "id") >>= next)
        (Eval.attempt (declarator.field "id") >>= next')
      cases named : declarator.field "id" with
      | error x => exact composes.fail _
      | ok id =>
        obtain ⟨runs, sets⟩ := composes.declared runs found named
        exact h id runs sets
  · exact h t runs sets

section Layers

variable {r r' : Routines} (upheld : d.Upheld r r')

include upheld

/-- A member obeys: its object and its key are evaluated, and then an operation follows. -/
theorem obeys_member (l : Option Location) {object property computed : Tree}
    (runs : d.Runs i env (.node l (.member object property computed)))
    {next : Value → Value → Eval α} (h : ∀ owner key, Operation (next owner key)) :
    d.Obeys i
      (do
        let owner ← r.evaluate env object
        let key ← r.propertyKey env property computed
        next owner key)
      (do
        let owner ← r'.evaluate env object
        let key ← r'.propertyKey env property computed
        next owner key) :=
  composes.bind (upheld.evaluate (composes.field "object" runs rfl rfl)) fun owner =>
    composes.bind (upheld.propertyKey (composes.field "property" runs rfl rfl) computed)
      fun key => composes.operation (h owner key)

/-- An expression one layer above obeys if its parts, which may run, do. -/
theorem obeys_evaluateBy (runs : d.Runs i env t) :
    d.Obeys i (r.evaluateBy env t) (r'.evaluateBy env t) := by
  have field {u : Tree} (name : Text) (inert : t.isFunction = false)
      (found : t.field name = .ok u) : d.Obeys i (r.evaluate env u) (r'.evaluate env u) :=
    upheld.evaluate (composes.field name runs inert found)
  cases t with
  | node l shape =>
    cases shape with
    | identifier name => exact composes.readName runs
    | literal value => exact composes.operation (.literalOf l value)
    | array elements =>
      refine composes.items (composes.field "elements" runs rfl rfl) fun items run => ?_
      exact composes.bind (composes.mapM fun e he => upheld.evaluate (run e he)) fun vs =>
        composes.operation (.newArray _)
    | function form id params body =>
      cases form with
      | declaration => exact composes.refuseExpression _
      | expression => exact composes.function runs
    | call callee arguments =>
      refine composes.bind (field "callee" rfl rfl) fun f => ?_
      refine composes.items (composes.field "arguments" runs rfl rfl) fun items run => ?_
      refine composes.bind (composes.mapM fun e he => upheld.evaluate (run e he)) fun args => ?_
      exact ite (upheld.call i f args) (composes.fail _)
    | member object property computed =>
      exact composes.obeys_member upheld l runs fun owner key => .getProperty l owner key
    | conditional test consequent alternate =>
      exact composes.bind (field "test" rfl rfl) fun v =>
        ite (field "consequent" rfl rfl) (field "alternate" rfl rfl)
    | assignment operator left right =>
      -- Both ways of assignment end with the target being set.
      have store (v : Value) : d.Obeys i (do r.assignTo env left v; return v)
          (do r'.assignTo env left v; return v) :=
        composes.bind (upheld.assignTo (composes.field "left" runs rfl rfl)
          (composes.target runs List.mem_cons_self) v) fun _ => composes.pure v
      refine ite ?_ ?_
      · exact composes.bind (field "right" rfl rfl) store
      · refine composes.bind (field "left" rfl rfl) fun current => ?_
        refine composes.bind (composes.bind (composes.attempt _) composes.operatorOf) fun op => ?_
        refine composes.bind (field "right" rfl rfl) fun operand => ?_
        exact composes.bind (composes.operation (.operate op current operand)) store
    | sequence expressions =>
      exact composes.items (composes.field "expressions" runs rfl rfl) fun items run =>
        composes.foldlM (fun e he _ => upheld.evaluate (run e he)) _
    | binary operator left right =>
      refine composes.bind (field "left" rfl rfl) fun a => ?_
      refine composes.bind (field "right" rfl rfl) fun b => ?_
      exact composes.bind (composes.operatorOf operator) fun op =>
        composes.operation (.operate op a b)
    | logical operator left right =>
      exact composes.bind (field "left" rfl rfl) fun a =>
        ite (composes.pure a) (field "right" rfl rfl)
    | unary operator argument isPrefix =>
      have run : d.Runs i env argument := composes.field "argument" runs rfl rfl
      refine composes.bind (composes.isUnbound run) fun unbound => ?_
      exact ite (composes.pure _) (composes.bind (upheld.evaluate run) fun v =>
        composes.operation (.operateUnary _ v))
    | update operator argument isPrefix =>
      refine composes.bind (field "argument" rfl rfl) fun v => ?_
      refine composes.bind (composes.operation (.numberOf v)) fun old => ?_
      have run : d.Runs i env argument := composes.field "argument" runs rfl rfl
      exact composes.bind (upheld.assignTo run (composes.target runs List.mem_cons_self) _) fun _ =>
        composes.pure _
    | _ => exact composes.refuseExpression _
  | _ => exact composes.refuseExpression _

/-- So does the key of a member. -/
theorem obeys_propertyKeyBy (runs : d.Runs i env t) (computed : Tree) :
    d.Obeys i (r.propertyKeyBy env t computed) (r'.propertyKeyBy env t computed) :=
  ite (upheld.evaluate runs)
    (composes.bind (composes.attempt _) fun name => composes.operation (.ofTree name))

/-- So does an assignment to what may be set. -/
theorem obeys_assignToBy (runs : d.Runs i env t) (sets : d.Sets i env t) (v : Value) :
    d.Obeys i (r.assignToBy env t v) (r'.assignToBy env t v) := by
  cases t with
  | node l shape =>
    cases shape with
    | identifier name => exact composes.writeName sets rfl l v
    | member object property computed =>
      exact composes.obeys_member upheld l runs fun owner key => .setProperty l owner key v
    | _ => exact composes.fail _
  | _ => exact composes.fail _

omit upheld in
/-- Calls of functions are all that is left to see to. -/
theorem obeys_callBy {limit limit' : Nat} {around : Eval Unit → Eval Unit}
    (functions : ∀ ref args, d.Obeys i (r.callBy limit id (.function ref) args)
      (r'.callBy limit' around (.function ref) args)) (f : Value) (args : List Value) :
    d.Obeys i (r.callBy limit id f args) (r'.callBy limit' around f args) := by
  cases f with
  | native n => exact composes.operation (.callNative n.action args)
  | function ref => exact functions ref args
  | _ => exact composes.bind (composes.operation (.textOf _)) fun t => composes.fail _

/-- So does a statement. -/
theorem obeys_executeBy (runs : d.Runs i env t) :
    d.Obeys i (r.executeBy env t) (r'.executeBy env t) := by
  have field {u : Tree} (name : Text) (inert : t.isFunction = false)
      (found : t.field name = .ok u) : d.Runs i env u :=
    composes.field name runs inert found
  cases t with
  | node l shape =>
    cases shape with
    | function form =>
      -- Declarations have run when their scope was entered.
      cases form with
      | declaration => exact composes.pure _
      | expression => exact upheld.executeLoop runs []
    | emptyStatement => exact composes.pure _
    | block body =>
      exact composes.items (field "body" rfl rfl) fun items run =>
        composes.forM fun s hs => upheld.execute (run s hs)
    | expressionStatement expression =>
      exact composes.bind (upheld.evaluate (field "expression" rfl rfl)) fun v => composes.pure _
    | variableDeclaration declarations kind =>
      exact composes.items (field "declarations" rfl rfl) fun items run =>
        composes.forM fun d hd => upheld.startVariable (run d hd)
    | ifStatement test consequent alternate =>
      refine composes.bind (upheld.evaluate (field "test" rfl rfl)) fun v => ?_
      refine ite (upheld.execute (field "consequent" rfl rfl)) ?_
      exact ite (composes.pure _) (upheld.execute (field "alternate" rfl rfl))
    | returnStatement argument =>
      unfold executeBy
      simp only
      split
      · exact composes.throw _
      · exact composes.bind (upheld.evaluate (field "argument" rfl rfl)) fun v => composes.throw _
    | jump kind label =>
      cases kind with
      | breaks => exact composes.bind (composes.labelOf label) fun name => composes.throw _
      | continues => exact composes.bind (composes.labelOf label) fun name => composes.throw _
    | labeled label body =>
      exact composes.bind (composes.attempt _) fun name =>
        composes.bind (composes.keyOf name) fun key =>
        upheld.executeLabeled (field "body" rfl rfl) [key]
    | _ => exact upheld.executeLoop runs []
  | _ => exact upheld.executeLoop runs []

/-- So does a statement behind some labels. -/
theorem obeys_executeLabeledBy (runs : d.Runs i env t) (labels : List Text) :
    d.Obeys i (r.executeLabeledBy env labels t) (r'.executeLabeledBy env labels t) := by
  unfold executeLabeledBy
  split
  · exact composes.bind (composes.attempt _) fun name =>
      composes.bind (composes.keyOf name) fun key =>
      upheld.executeLabeled (composes.field "body" runs rfl rfl) (labels ++ [key])
  · exact ite (upheld.executeLoop runs labels) (composes.labeled (upheld.execute runs))

omit composes upheld in
/-- A tree with an initial value and a name is a declarator. -/
theorem eq_declarator {init id : Tree} (started : t.field "init" = .ok init)
    (named : t.field "id" = .ok id) : ∃ l, t = .node l (.variableDeclarator id init) := by
  cases t with
  | node l shape =>
    cases shape with
    | variableDeclarator id init => cases started; cases named; exact ⟨l, rfl⟩
    | function form => cases form <;> cases started
    | forStatement => cases named
    | forEach domain => cases domain <;> cases started
    | jump kind => cases kind <;> cases started
    | _ => cases started
  | _ => cases started

/-- So does the start of a variable. -/
theorem obeys_startVariableBy (runs : d.Runs i env t) :
    d.Obeys i (r.startVariableBy env t) (r'.startVariableBy env t) := by
  unfold startVariableBy
  cases started : t.field "init" with
  | error x => exact composes.fail _
  | ok init =>
    refine ite (composes.pure _) ?_
    cases target : t.field "id" with
    | error x => exact composes.fail _
    | ok id =>
      obtain ⟨l, rfl⟩ := eq_declarator started target
      -- The name of the declarator is written after the initial value was evaluated.
      change d.Obeys i
        (r.evaluate env init >>= fun v => Eval.attempt id.name >>= fun name =>
          Eval.writeName env name id.location? v)
        (r'.evaluate env init >>= fun v => Eval.attempt id.name >>= fun name =>
          Eval.writeName env name id.location? v)
      refine composes.bind (upheld.evaluate (composes.field "init" runs rfl started)) fun v => ?_
      cases named : id.name with
      | error x => exact composes.fail _
      | ok name =>
        exact composes.writeName (composes.target runs List.mem_cons_self) named id.location? v

/-- A pass of a loop over a collection. -/
theorem obeys_item {target body : Tree} (runsTarget : d.Runs i env target)
    (sets : d.Sets i env target) (runs : d.Runs i env body) (labels : List Text) (v : Value) :
    d.Obeys i
      (do
        r.assignTo env target v
        Eval.pass labels (r.execute env body))
      (do
        r'.assignTo env target v
        Eval.pass labels (r'.execute env body)) :=
  composes.bind (upheld.assignTo runsTarget sets v) fun _ => composes.pass (upheld.execute runs)

/-- Loops may make different numbers of passes, as long as the passes tell nothing of it. -/
theorem obeys_executeLoopBy {passes passes' : Nat}
    (loops : ∀ {step step'}, d.Obeys i step step' →
      d.Obeys i (Eval.repeating step passes) (Eval.repeating step' passes'))
    (runs : d.Runs i env t) (labels : List Text) :
    d.Obeys i (r.executeLoopBy passes env labels t) (r'.executeLoopBy passes' env labels t) := by
  have field {u : Tree} (name : Text) (inert : t.isFunction = false)
      (found : t.field name = .ok u) : d.Runs i env u :=
    composes.field name runs inert found
  -- By the form of the loop: each pass obeys what its parts do, and `loops` goes on from one pass
  -- to all.
  cases t with
  | node l shape =>
    cases shape with
    | whileStatement test body =>
      refine loops (composes.bind (upheld.evaluate (field "test" rfl rfl)) fun v => ?_)
      exact ite (composes.pass (upheld.execute (field "body" rfl rfl))) (composes.pure _)
    | doWhileStatement body test =>
      refine loops (composes.bind (composes.pass (upheld.execute (field "body" rfl rfl)))
        fun goesOn => ite ?_ (composes.pure _))
      exact composes.bind (upheld.evaluate (field "test" rfl rfl)) fun v => composes.pure _
    | forStatement init test step body =>
      have start : d.Obeys i (r.startLoopBy env init) (r'.startLoopBy env init) :=
        ite (upheld.execute (field "init" rfl rfl)) (ite (composes.pure _)
          (composes.bind (upheld.evaluate (field "init" rfl rfl)) fun v => composes.pure _))
      have continues : d.Obeys i (r.continuesBy env test) (r'.continuesBy env test) :=
        ite (composes.pure _) (composes.map _ (upheld.evaluate (field "test" rfl rfl)))
      have advance : d.Obeys i (r.advanceBy env step) (r'.advanceBy env step) :=
        ite (composes.pure _)
          (composes.bind (upheld.evaluate (field "update" rfl rfl)) fun v => composes.pure _)
      refine composes.bind start fun _ =>
        loops (composes.bind continues fun holds => ite ?_ (composes.pure _))
      refine composes.bind (composes.pass (upheld.execute (field "body" rfl rfl))) fun goesOn => ?_
      exact ite (composes.bind advance fun _ => composes.pure _) (composes.pure _)
    | forEach domain left right body =>
      have head : d.Sets i env left := composes.target runs List.mem_cons_self
      cases domain with
      | keys =>
        refine composes.bind (upheld.evaluate (field "right" rfl rfl)) fun source => ?_
        refine ite (composes.pure _) (composes.bind (composes.operation (.keysOf source))
          fun keys => ?_)
        refine composes.loopTarget (field "left" rfl rfl) head fun target run sets => ?_
        exact composes.forEachItem
          (composes.obeys_item upheld run sets (field "body" rfl rfl) labels) _
      | values =>
        refine composes.bind (upheld.evaluate (field "right" rfl rfl)) fun source => ?_
        refine composes.bind (composes.operation (.valuesOf source)) fun values => ?_
        refine composes.loopTarget (field "left" rfl rfl) head fun target run sets => ?_
        exact composes.forEachItem
          (composes.obeys_item upheld run sets (field "body" rfl rfl) labels) _
    | _ => exact composes.refuseStatement _
  | _ => exact composes.refuseStatement _

/-- A layer above functions that obey obeys, if its calls of functions and its loops do. -/
theorem layer {limit limit' passes passes' : Nat} {around : Eval Unit → Eval Unit}
    (functions : ∀ i ref args, d.Obeys i (r.callBy limit id (.function ref) args)
      (r'.callBy limit' around (.function ref) args))
    (loops : ∀ i {step step'}, d.Obeys i step step' →
      d.Obeys i (Eval.repeating step passes) (Eval.repeating step' passes')) :
    d.Upheld (r.layer limit passes id) (r'.layer limit' passes' around) where
  evaluate runs := composes.obeys_evaluateBy upheld runs
  propertyKey runs := composes.obeys_propertyKeyBy upheld runs
  assignTo runs sets := composes.obeys_assignToBy upheld runs sets
  call i := composes.obeys_callBy (functions i)
  execute runs := composes.obeys_executeBy upheld runs
  executeLabeled runs := composes.obeys_executeLabeledBy upheld runs
  startVariable runs := composes.obeys_startVariableBy upheld runs
  executeLoop {i _ _} runs := composes.obeys_executeLoopBy upheld (loops i) runs

end Layers

/-- Functions that do nothing obey every discipline. -/
theorem idle : d.Upheld idle idle :=
  ⟨fun _ => composes.throw _, fun _ _ => composes.throw _, fun _ _ _ => composes.throw _,
    fun _ _ _ => composes.throw _, fun _ => composes.throw _, fun _ _ => composes.throw _,
    fun _ => composes.throw _, fun _ _ => composes.throw _⟩

end Discipline.Composes

/-- Every function of an evaluation obeys a lawful discipline. -/
theorem Discipline.Lawful.upheld {ι : Type} {d : Discipline ι} (lawful : d.Lawful)
    (limit fuel : Nat) : d.Upheld (ofFuel limit fuel) (ofFuel limit fuel) := by
  induction fuel with
  | zero =>
    rw [ofFuel_zero]
    exact lawful.idle
  | succ fuel ih =>
    rw [ofFuel_succ]
    exact lawful.layer ih (fun i => lawful.call ih i limit)
      fun _ _ _ h => lawful.repeating h fuel

end Eval

end TailLoop
