import TailLoop.Proofs.Simulation.Statements

/-!
# Evaluation, one layer of fuel at a time

The functions of an evaluation call each other with less fuel. Taken together they are `Routines`,
and a layer says what each of them does in terms of those with one less fuel. The functions with
some fuel are as many layers above functions that do nothing (`ofFuel_succ`), so that what a layer
keeps holds of all of them, and what is wrapped around each function of a layer is wrapped around
each step of an evaluation.
-/

namespace TailLoop.Eval

/-- The functions of an evaluation. -/
structure Routines where
  evaluate : (env : Nat) → Tree → Eval Value
  propertyKey : (env : Nat) → (property computed : Tree) → Eval Value
  assignTo : (env : Nat) → (target : Tree) → Value → Eval Unit
  call : Value → List Value → Eval Value
  execute : (env : Nat) → Tree → Eval Unit
  executeLabeled : (env : Nat) → List Text → Tree → Eval Unit
  startVariable : (env : Nat) → Tree → Eval Unit
  executeLoop : (env : Nat) → List Text → Tree → Eval Unit

namespace Routines

/-- The functions with some fuel. -/
def ofFuel (limit fuel : Nat) : Routines where
  evaluate := Eval.evaluate limit fuel
  propertyKey := Eval.propertyKey limit fuel
  assignTo := Eval.assignTo limit fuel
  call := Eval.call limit fuel
  execute := Eval.execute limit fuel
  executeLabeled := Eval.executeLabeled limit fuel
  startVariable := Eval.startVariable limit fuel
  executeLoop := Eval.executeLoop limit fuel

/-- The functions without fuel. -/
def idle : Routines where
  evaluate _ _ := throw .exhausted
  propertyKey _ _ _ := throw .exhausted
  assignTo _ _ _ := throw .exhausted
  call _ _ := throw .exhausted
  execute _ _ := throw .exhausted
  executeLabeled _ _ _ := throw .exhausted
  startVariable _ _ := throw .exhausted
  executeLoop _ _ _ := throw .exhausted

variable (r : Routines)

/-- The value of an expression, by functions for its parts. -/
def evaluateBy (env : Nat) (t : Tree) : Eval Value :=
  match t with
  | .node l (.identifier name) => readName env name l
  | .node l (.literal value) => literalOf l value
  | .node _ (.array elements) => do
    let items ← (← attempt elements.items).mapM (r.evaluate env)
    newArray items.toArray
  | .node _ (.function .expression id params body) => do
    if id.isNull then makeFunction env id params body
    else
      let own ← changeGet fun s => s.child env
      let f ← makeFunction own id params body
      let name ← nameOf id
      let key ← keyOf name
      change fun s => s.declare own key f
      return f
  | .node l (.call callee arguments) => do
    let f ← r.evaluate env callee
    let args ← (← attempt arguments.items).mapM (r.evaluate env)
    if f.isCallable then r.call f args else fail (.notFunction (describe callee) l)
  | .node l (.member object property computed) => do
    let owner ← r.evaluate env object
    let key ← r.propertyKey env property computed
    getProperty l owner key
  | .node _ (.conditional test consequent alternate) => do
    if (← r.evaluate env test).truthy then r.evaluate env consequent else r.evaluate env alternate
  | .node _ (.assignment operator left right) => do
    if operator.inline = plainAssignment then
      let v ← r.evaluate env right
      r.assignTo env left v
      return v
    else
      let current ← r.evaluate env left
      let op ← compoundOf operator
      let operand ← r.evaluate env right
      let v ← read fun s => s.operate op current operand
      r.assignTo env left v
      return v
  | .node _ (.sequence expressions) => do
    (← attempt expressions.items).foldlM (fun _ e => r.evaluate env e) .undefined
  | .node _ (.binary operator left right) => do
    let a ← r.evaluate env left
    let b ← r.evaluate env right
    let op ← operatorOf operator
    read fun s => s.operate op a b
  | .node _ (.logical operator left right) => do
    let a ← r.evaluate env left
    let decides := if operator.inline = Text.ofString "&&" then !a.truthy else a.truthy
    if decides then return a else r.evaluate env right
  | .node _ (.unary operator argument _) => do
    let op := UnaryOperator.ofText? operator.inline
    if op = some .typeOf && (← isUnbound env argument) then return .string "undefined"
    else
      let v ← r.evaluate env argument
      read fun s => s.operateUnary op v
  | .node _ (.update operator argument isPrefix) => do
    let v ← r.evaluate env argument
    let old ← numberOf v
    let new := if operator.inline = Text.ofString "++" then old.add .one else old.sub .one
    r.assignTo env argument (.number new)
    return .number (if isPrefix.truthy then new else old)
  | t => refuseExpression t

/-- The key of a member, by functions for its parts. -/
def propertyKeyBy (env : Nat) (property computed : Tree) : Eval Value :=
  if computed.truthy then r.evaluate env property
  else do
    let name ← nameOf property
    ofTree name

/-- Stores a value, by functions for the parts of the target. -/
def assignToBy (env : Nat) (target : Tree) (v : Value) : Eval Unit :=
  match target with
  | .node l (.identifier name) => writeName env name l v
  | .node l (.member object property computed) => do
    let owner ← r.evaluate env object
    let key ← r.propertyKey env property computed
    setProperty l owner key v
  | _ => fail (.malformed .noField)

/-- What the call of a function does in its environment, by functions for the statements of the
body. What the body does is given to `around`. -/
def activateBy (around : Eval Unit → Eval Unit) (c : Closure) (args : List Value) (env : Nat) :
    Eval Value := do
  bindParameters env (← attempt c.params.items) args
  let body ← attempt (c.body.field "body")
  hoist env body
  inCall c.strict <| around do
    let statements ← attempt body.items
    statements.forM (r.execute env)

/-- What the call of a function does once it is let in. -/
def enterBy (around : Eval Unit → Eval Unit) (c : Closure) (args : List Value) : Eval Value := do
  let env ← changeGet fun s => s.child c.environment
  r.activateBy around c args env

/-- The result of a call, by functions for the statements of the body. -/
def callBy (limit : Nat) (around : Eval Unit → Eval Unit) (f : Value) (args : List Value) :
    Eval Value :=
  match f with
  | .native n => callNative n.action args
  | .function ref => do
    let m ← get
    if limit ≤ m.depth then fail .stackOverflow
    match m.store.closures[ref]? with
    | none => fail (.malformed .noItem)
    | some c => r.enterBy around c args
  | v => do
    let t ← textOf v
    fail (.notFunction t none)

/-- What becomes of the call of a function is decided by the calls that are under way. -/
theorem callBy_function (limit : Nat) (around : Eval Unit → Eval Unit) (ref : Nat)
    (args : List Value) (m : Machine) :
    r.callBy limit around (.function ref) args m =
      if limit ≤ m.depth then .error (.failed .stackOverflow) m
      else
        match m.store.closures[ref]? with
        | none => .error (.failed (.malformed .noItem)) m
        | some c => r.enterBy around c args m := by
  change (if limit ≤ m.depth then _ else _ : Eval Value) m = _
  split
  · rfl
  · cases m.store.closures[ref]? <;> rfl

/-- Runs a statement, by functions for its parts. -/
def executeBy (env : Nat) (t : Tree) : Eval Unit :=
  match t with
  | .node _ (.function .declaration ..) => return ()
  | .node _ .emptyStatement => return ()
  | .node _ (.block body) => do
    (← attempt body.items).forM (r.execute env)
  | .node _ (.expressionStatement expression) => do
    let _ ← r.evaluate env expression
  | .node _ (.variableDeclaration declarations _) => do
    (← attempt declarations.items).forM (r.startVariable env)
  | .node _ (.ifStatement test consequent alternate) => do
    if (← r.evaluate env test).truthy then r.execute env consequent
    else if alternate.isNull then return ()
    else r.execute env alternate
  | .node _ (.returnStatement argument) => do
    let v ← if argument.isNull then pure .undefined else r.evaluate env argument
    throw (.returned v)
  | .node _ (.jump .breaks label) => do throw (.broke (← labelOf label))
  | .node _ (.jump .continues label) => do throw (.continued (← labelOf label))
  | .node _ (.labeled label body) => do
    let name ← nameOf label
    r.executeLabeled env [← keyOf name] body
  | t => r.executeLoop env [] t

/-- Runs the statement after some labels, by functions for it and for its parts. -/
def executeLabeledBy (env : Nat) (labels : List Text) (t : Tree) : Eval Unit :=
  match t with
  | .node _ (.labeled label body) => do
    let name ← nameOf label
    r.executeLabeled env (labels ++ [← keyOf name]) body
  | t =>
    if t.kind?.any Kind.isLoop then r.executeLoop env labels t else labeled labels (r.execute env t)

/-- Sets the variable of a declarator, by a function for its initial value. -/
def startVariableBy (env : Nat) (t : Tree) : Eval Unit := do
  let init ← attempt (t.field "init")
  if init.isNull then return ()
  else
    let id ← attempt (t.field "id")
    let v ← r.evaluate env init
    let name ← nameOf id
    writeName env name id.location? v

/-- What a loop does before its first pass. -/
def startLoopBy (env : Nat) (init : Tree) : Eval Unit :=
  if init.hasKind .variableDeclaration then r.execute env init
  else if init.isNull then return ()
  else do
    let _ ← r.evaluate env init

/-- Whether a `for` makes another pass. -/
def continuesBy (env : Nat) (test : Tree) : Eval Bool :=
  if test.isNull then return true else Value.truthy <$> r.evaluate env test

/-- What a `for` does between two passes. -/
def advanceBy (env : Nat) (step : Tree) : Eval Unit :=
  if step.isNull then return ()
  else do
    let _ ← r.evaluate env step

/-- Runs a loop with a bound on its passes, by functions for its parts. -/
def executeLoopBy (passes : Nat) (env : Nat) (labels : List Text) (t : Tree) : Eval Unit :=
  match t with
  | .node _ (.whileStatement test body) =>
    repeating
      (do
        if (← r.evaluate env test).truthy then pass labels (r.execute env body) else return false)
      passes
  | .node _ (.doWhileStatement body test) =>
    repeating
      (do
        if ← pass labels (r.execute env body) then return (← r.evaluate env test).truthy
        else return false)
      passes
  | .node _ (.forStatement init test step body) => do
    r.startLoopBy env init
    repeating
      (do
        if ← r.continuesBy env test then
          if ← pass labels (r.execute env body) then
            r.advanceBy env step
            return true
          else return false
        else return false)
      passes
  | .node _ (.forEach .keys left right body) => do
    let source ← r.evaluate env right
    if source.isNullish then return ()
    else
      let keys ← keysOf source
      let target ← loopTarget left
      forEachItem
        (fun v => do
          r.assignTo env target v
          pass labels (r.execute env body))
        (keys.map .string)
  | .node _ (.forEach .values left right body) => do
    let source ← r.evaluate env right
    let values ← valuesOf source
    let target ← loopTarget left
    forEachItem
      (fun v => do
        r.assignTo env target v
        pass labels (r.execute env body))
      values
  | t => refuseStatement t

/-- Runs a statement of a program, by functions for it and for its parts. -/
def runStatementBy (v : Value) (t : Tree) : Eval Value :=
  match t with
  | .node _ (.expressionStatement expression) => r.evaluate Store.globalEnvironment expression
  | t => do
    r.execute Store.globalEnvironment t
    return v

/-- Runs a program, by functions for its statements. -/
def runProgramBy (program : Tree) : Eval Value := do
  let body ← attempt (program.field "body")
  let strict ← attempt body.startsStrict
  modify fun m => { m with strict }
  let statements ← attempt body.items
  hoist Store.globalEnvironment body
  guarded (statements.foldlM r.runStatementBy .undefined)

/-- The functions with one more fuel. Calls may nest up to `limit`, loops make at most `passes`
passes, and `around` is given what the body of a call does. -/
def layer (limit passes : Nat) (around : Eval Unit → Eval Unit) : Routines where
  evaluate := r.evaluateBy
  propertyKey := r.propertyKeyBy
  assignTo := r.assignToBy
  call := r.callBy limit around
  execute := r.executeBy
  executeLabeled := r.executeLabeledBy
  startVariable := r.startVariableBy
  executeLoop := r.executeLoopBy passes

end Routines

open Routines Simulation

/-- A program runs on functions with some fuel. -/
theorem runProgram_eq (limit fuel : Nat) :
    runProgram limit fuel = (ofFuel limit fuel).runProgramBy := by
  have statement : runStatement limit fuel = (ofFuel limit fuel).runStatementBy := by
    funext v t
    cases t with
    | node l shape => cases shape <;> rfl
    | _ => rfl
  funext program
  rw [runProgram, runProgramBy, statement]

/-- A loop with one more fuel runs its passes on functions with one less. -/
theorem executeLoop_succ (limit fuel : Nat) :
    executeLoop limit (fuel + 1) = (ofFuel limit fuel).executeLoopBy fuel := by
  funext env labels t
  cases t with
  | node l shape =>
    cases shape with
    | forStatement init test step body =>
      exact executeLoop_for limit fuel env labels l init test step body
    | forEach domain => cases domain <;> (rw [executeLoop.eq_def]; rfl)
    | _ => rw [executeLoop.eq_def]; rfl
  | _ => rw [executeLoop.eq_def]; rfl

/-- Without fuel nothing is done, whatever the limit is. -/
theorem ofFuel_zero (limit : Nat) : ofFuel limit 0 = idle := by
  simp only [ofFuel, idle, mk.injEq]
  refine ⟨?evaluate, ?propertyKey, ?assignTo, ?call, ?execute, ?executeLabeled, ?startVariable,
    ?executeLoop⟩
  case evaluate => funext env t; rw [Eval.evaluate]
  case propertyKey => funext env property computed; rw [Eval.propertyKey]
  case assignTo => funext env target v; rw [Eval.assignTo]
  case call => funext f args; rw [Eval.call]
  case execute => funext env t; rw [Eval.execute]
  case executeLabeled => funext env labels t; rw [Eval.executeLabeled]
  case startVariable => funext env t; rw [Eval.startVariable]
  case executeLoop => funext env labels t; rw [Eval.executeLoop]

/-- The functions with one more fuel are a layer above those without it. -/
theorem ofFuel_succ (limit fuel : Nat) :
    ofFuel limit (fuel + 1) = (ofFuel limit fuel).layer limit fuel id := by
  simp only [ofFuel.eq_1 limit (fuel + 1), layer, mk.injEq]
  refine ⟨?evaluate, ?propertyKey, ?assignTo, ?call, ?execute, ?executeLabeled, ?startVariable,
    executeLoop_succ limit fuel⟩
  case evaluate => funext env t; rw [Eval.evaluate.eq_def]; rfl
  case propertyKey => funext env property computed; rw [Eval.propertyKey.eq_def]; rfl
  case assignTo => funext env target v; rw [Eval.assignTo.eq_def]; rfl
  case call => funext f args; rw [Eval.call.eq_def]; rfl
  case execute => funext env t; rw [Eval.execute.eq_def]; rfl
  case executeLabeled => funext env labels t; rw [Eval.executeLabeled.eq_def]; rfl
  case startVariable => funext env t; rw [Eval.startVariable.eq_def]; rfl

end TailLoop.Eval
